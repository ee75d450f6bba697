import Wddlib.ServerRun

namespace Wddlib

namespace ConnTable

variable {t : ConnTable} {channelCount : Nat}

/-- The records in use other than record `i`. -/
def others (t : ConnTable) (i : Nat) : Nat := ((List.range t.vecSize).erase i).countP fun j => (t.vec j).isValid

/-- The start request carries the number of the other connections, and the number under which the record of
`fd` is found. -/
def ReportsOthers (t : ConnTable) (fd : Int) (msg : ServerMsg) : Prop :=
  ∃ i currentconn channelcnt, msg.body = .startReq currentconn channelcnt ∧
    t.getConnectionRecord msg.connid = some i ∧ (t.vec i).fd = fd ∧ currentconn = t.others i

/-- Every free index is one of those that the constructor has put there. -/
def Slots (t : ConnTable) : Prop := ∀ idx ∈ t.idxvec, ∃ i < t.maxconn, idx = int32 i

theorem valid_eq_others {i : Nat} (hi : i < t.vecSize) (hv : (t.vec i).isValid = true) :
    (List.range t.vecSize).countP (fun j => (t.vec j).isValid) = t.others i + 1 := by
  have hperm := List.perm_cons_erase (List.mem_range.mpr hi)
  rw [hperm.countP_eq, List.countP_cons_of_pos (by simpa using hv)]
  rfl

theorem create_slots (maxconn : Nat) : (create maxconn).Slots := by
  intro idx hidx
  obtain ⟨i, hi, rfl⟩ := List.mem_map.mp hidx
  exact ⟨i, List.mem_range.mp hi, rfl⟩

theorem Slots.sub {t' : ConnTable} (slots : t.Slots) (maxconn_eq : t'.maxconn = t.maxconn)
    (sub : ∀ idx ∈ t'.idxvec, idx ∈ t.idxvec) : t'.Slots := by
  intro idx hidx
  rw [maxconn_eq]
  exact slots idx (sub idx hidx)

theorem Slots.closeConn (slots : t.Slots) (inv : t.Inv channelCount) (connid : Int) : (t.closeConn connid).Slots := by
  intro idx hidx
  rw [closeConn_maxconn]
  rcases (mem_closeConn_idxvec inv).mp hidx with old | ⟨small, i, found, rfl⟩
  · exact slots idx old
  · have hi := inv.used i ((getConnectionRecord_eq_some inv).mp found).1
    rw [usable_eq small] at hi
    exact ⟨i, hi, (int32_eq_self (by omega) (by omega)).symm⟩

/-- No index is both free and in use; with a `maxconn` beyond `int` some are neither. -/
theorem Inv.length_add_valid_le (inv : t.Inv channelCount) (slots : t.Slots) :
    t.idxvec.length + (List.range t.maxconn).countP (fun i => (t.vec i).isValid) ≤ t.maxconn := by
  have large := inv.maxconn_lt
  have back : ∀ i : Nat, i < t.maxconn → (int32 i % 4294967296).toNat = i := by
    intro i hi
    unfold int32
    split <;> omega
  have hmap : (t.idxvec.map fun idx => (idx % 4294967296).toNat).Nodup := by
    refine inv.nodup.map_on ?_
    intro a ha b hb hab
    obtain ⟨i, hi, rfl⟩ := slots a ha
    obtain ⟨j, hj, rfl⟩ := slots b hb
    rw [back i hi, back j hj] at hab
    rw [hab]
  have hdisjoint : ∀ i ∈ t.idxvec.map fun idx => (idx % 4294967296).toNat,
      ∀ j ∈ (List.range t.maxconn).filter fun i => (t.vec i).isValid, i ≠ j := by
    intro i hi j hj heq
    obtain ⟨idx, hidx, rfl⟩ := List.mem_map.mp hi
    obtain ⟨k, hk, rfl⟩ := slots idx hidx
    rw [back k hk] at heq
    subst heq
    obtain ⟨-, hv⟩ := List.mem_filter.mp hj
    have hused := inv.used k hv
    have hfits : (k : Int) = int32 k := (int32_eq_self (by omega) (by unfold usable at hused; omega)).symm
    rw [← hfits] at hidx
    rw [inv.free k hidx] at hv
    cases hv
  have hnodup := List.nodup_append.mpr ⟨hmap, List.nodup_range.filter (fun i => (t.vec i).isValid), hdisjoint⟩
  have hsub : (t.idxvec.map fun idx => (idx % 4294967296).toNat) ++
      (List.range t.maxconn).filter (fun i => (t.vec i).isValid) ⊆ List.range t.maxconn := by
    intro i hi
    rcases List.mem_append.mp hi with free | used
    · obtain ⟨idx, hidx, rfl⟩ := List.mem_map.mp free
      obtain ⟨k, hk, rfl⟩ := slots idx hidx
      rw [back k hk]
      exact List.mem_range.mpr hk
    · exact (List.mem_filter.mp used).1
  have hle := (List.subperm_of_subset hnodup hsub).length_le
  rw [List.length_append, List.length_map, ← List.countP_eq_length_filter, List.length_range] at hle
  exact hle

end ConnTable

namespace EpollServer

variable {s : EpollServer}

theorem Move.slots {lossy : Prop} {s' : EpollServer} (inv : s.Inv) (move : Move lossy s s') (slots : s.table.Slots) :
    s'.table.Slots := by
  cases move with
  | sent => exact slots
  | ticked => exact slots
  | opened => exact slots
  | delivered => exact slots
  | routed => exact slots
  | @dropped ch entry =>
    have htable : (s.dropChannel ch).table = s.table.closeConn ch.id := by simp [dropChannel]
    rw [htable]
    exact slots.closeConn inv.table ch.id
  | admitted addr pos new hi free =>
    refine slots.sub rfl fun idx hidx => ?_
    rw [free]
    exact List.mem_append_left _ hidx
  | refused loss new full =>
    refine slots.sub ?_ ?_
    · simp [refuse]
    · intro idx hidx
      simp only [refuse, ConnTable.getFreeIdx] at hidx
      split at hidx
      · exact hidx
      · exact (List.dropLast_sublist _).subset hidx
  | abandoned loss connid =>
    rw [closeConn_table]
    exact slots.closeConn inv.table connid

/-- Nothing but messages other than start requests has gone out on the way from `s` to `s'`. -/
def Unannounced (s s' : EpollServer) : Prop :=
  ∃ new, s'.effects = new ++ s.effects ∧
    ∀ channelid msg currentconn channelcnt, .handed channelid msg ∈ new → msg.body ≠ .startReq currentconn channelcnt

theorem closeConn_hands_none (s : EpollServer) (connid : Int) :
    ∃ released, (s.closeConn connid).effects = released ++ s.effects ∧
      ∀ channelid msg, Effect.handed channelid msg ∉ released := by
  unfold closeConn
  split
  · exact ⟨[], rfl, by simp⟩
  next i found => exact ⟨[.released i connid], rfl, by simp⟩

theorem freeFd_unannounced (s : EpollServer) (fd : Int) : Unannounced s (s.freeFd fd) := by
  unfold freeFd
  split
  · exact ⟨[], rfl, by simp⟩
  next ch entry =>
    unfold handleClose onCloseChannel
    simp only
    split
    next =>
      obtain ⟨released, heffects, hnone⟩ := closeConn_hands_none (s.close ch).2 (s.close ch).1.id
      exact ⟨released, heffects, fun channelid msg _ _ hmem => absurd hmem (hnone channelid msg)⟩
    next i found =>
      generalize hstop : (s.close ch).2.sendMsg _ _ = told
      obtain ⟨released, heffects, hnone⟩ := closeConn_hands_none told (s.close ch).1.id
      have htold : told.effects = s.effects ∨ ∃ channelid connid addr now,
          told.effects = .handed channelid ⟨connid, addr, .stop now⟩ :: s.effects := by
        rw [← hstop, sendMsg]
        split
        · exact .inr ⟨_, _, _, _, rfl⟩
        · exact .inl rfl
      rcases htold with same | ⟨id, connid, addr, now, one⟩
      · rw [same] at heffects
        exact ⟨released, heffects, fun channelid msg _ _ hmem => absurd hmem (hnone channelid msg)⟩
      · rw [one] at heffects
        refine ⟨released ++ [.handed id ⟨connid, addr, .stop now⟩], by rw [heffects]; simp, ?_⟩
        intro channelid msg currentconn channelcnt hmem
        rcases List.mem_append.mp hmem with old | stop
        · exact absurd old (hnone channelid msg)
        · simp only [List.mem_singleton, Effect.handed.injEq] at stop
          simp [stop.2]

/-- The connection table when `OnNewChannel` makes up the start request. -/
def announcing (s : EpollServer) (fd : Int) (addr : InetAddress) : ConnTable :=
  ((tcpOnNewChannel { s with isOpen := Function.update s.isOpen fd true } fd).table.recoredNewConn fd addr).2

/-- The start request of a new connection. -/
def startRequest (s : EpollServer) (connid : Int) (addr : InetAddress) : ServerMsg :=
  ⟨connid, addr, .startReq (s.table.getCurrConn % 4294967296) (s.channelCount % 4294967296)⟩

/-- The start request goes out when the record is taken, before anything that may release it again. -/
theorem onNewChannel_start {fd : Int} {addr : InetAddress} {startSent : Bool} (inv : (s.freeFd fd).Inv)
    (free : 0 ≤ (s.freeFd fd).table.getFreeIdx.1) :
    ∃ i rest released, i < (s.freeFd fd).table.usable ∧ (s.freeFd fd).table.idxvec = rest ++ [(i : Int)] ∧
      ((s.tcpOnNewChannel fd).table.recoredNewConn fd addr).2 = ((s.freeFd fd).enroll fd addr i rest).table ∧
      (∀ channelid msg, Effect.handed channelid msg ∉ released) ∧
      (s.onNewChannel fd addr startSent).2.effects = released ++
        .handed 0 (((s.freeFd fd).enroll fd addr i rest).startRequest ((s.freeFd fd).table.vec i).connid addr) ::
        ((s.freeFd fd).enroll fd addr i rest).effects := by
  obtain ⟨i, rest, hi, hsplit, hrec⟩ := @ConnTable.recoredNewConn_some _ _ fd addr inv.table free
  have h0 := (inv.table.record i hi).connid_nonneg
  have htable : ((s.tcpOnNewChannel fd).table.recoredNewConn fd addr).2 =
      ((s.freeFd fd).enroll fd addr i rest).table := by
    simp only [tcpOnNewChannel_eq, hrec, enroll]
  have heq : (s.onNewChannel fd addr startSent).2 =
      if startSent then ((s.freeFd fd).enroll fd addr i rest).addEffect
        (.handed 0 (((s.freeFd fd).enroll fd addr i rest).startRequest ((s.freeFd fd).table.vec i).connid addr))
      else (((s.freeFd fd).enroll fd addr i rest).addEffect
        (.handed 0 (((s.freeFd fd).enroll fd addr i rest).startRequest ((s.freeFd fd).table.vec i).connid
          addr))).closeConn ((s.freeFd fd).table.vec i).connid := by
    simp only [onNewChannel, tcpOnNewChannel_eq, Function.update_self, hrec]
    rw [if_neg (by omega)]
    simp only [enroll, addEffect, Function.update_idem]
    cases startSent <;> rfl
  cases startSent with
  | true =>
    refine ⟨i, rest, [], hi, hsplit, htable, by simp, ?_⟩
    rw [heq]
    rfl
  | false =>
    obtain ⟨released, heffects, hnone⟩ := closeConn_hands_none (((s.freeFd fd).enroll fd addr i rest).addEffect
      (.handed 0 (((s.freeFd fd).enroll fd addr i rest).startRequest ((s.freeFd fd).table.vec i).connid addr)))
      ((s.freeFd fd).table.vec i).connid
    refine ⟨i, rest, released, hi, hsplit, htable, hnone, ?_⟩
    rw [heq]
    exact heffects

/-- What a record that was just taken says of the count. -/
theorem enroll_count {fd : Int} {addr : InetAddress} {i : Nat} {rest : List Int}
    (inv : (s.enroll fd addr i rest).table.Inv (s.enroll fd addr i rest).channelCount)
    (slots : (s.enroll fd addr i rest).table.Slots) (pos : 0 < fd) :
    (s.enroll fd addr i rest).table.getConnectionRecord (s.table.vec i).connid = some i ∧
      ((s.enroll fd addr i rest).table.vec i).fd = fd ∧
      (s.enroll fd addr i rest).table.others i < (s.enroll fd addr i rest).table.getCurrConn % 4294967296 ∧
      (s.table.maxconn < 2147483648 → (s.enroll fd addr i rest).table.getCurrConn % 4294967296 =
        (s.enroll fd addr i rest).table.others i + 1) := by
  have hrec : (s.enroll fd addr i rest).table.vec i = (s.table.vec i).attatch fd addr := Function.update_self i _ _
  have hmaxconn : (s.enroll fd addr i rest).table.maxconn = s.table.maxconn := rfl
  have hfd : ((s.enroll fd addr i rest).table.vec i).fd = fd := by
    rw [hrec]
    rfl
  have hconnid : ((s.enroll fd addr i rest).table.vec i).connid = (s.table.vec i).connid := by
    rw [hrec]
    rfl
  generalize (s.enroll fd addr i rest).table = t at inv slots hfd hconnid hmaxconn ⊢
  have hv : (t.vec i).isValid = true := by
    rw [ConnectionRecord.isValid, hfd]
    exact decide_eq_true pos
  have hused := inv.used i hv
  have hlt := inv.maxconn_lt
  have hi : i < t.vecSize := by
    rw [inv.vecSize_eq]
    unfold ConnTable.usable at hused
    omega
  have hvalid := ConnTable.valid_eq_others hi hv
  rw [inv.vecSize_eq] at hvalid
  have hle := inv.length_add_valid_le slots
  have hcount : t.getCurrConn % 4294967296 = t.maxconn - t.idxvec.length := by
    rw [ConnTable.getCurrConn, sizeSub_eq (by omega) (by omega), Nat.mod_eq_of_lt (by omega)]
  refine ⟨(ConnTable.getConnectionRecord_eq_some inv).mpr ⟨hv, hconnid⟩, hfd, by omega, ?_⟩
  intro small
  have hadd := inv.length_add_valid (hmaxconn ▸ small)
  omega

theorem freeFd_slots (inv : s.Inv) (slots : s.table.Slots) (fd : Int) : (s.freeFd fd).table.Slots := by
  have moves : Moves True s (s.freeFd fd) := freeFd_moves inv fd
  exact Moves.induct (P := fun s => s.table.Slots) (fun inv move slots => move.slots inv slots) moves inv slots

theorem freeFd_maxconn (s : EpollServer) (fd : Int) : (s.freeFd fd).table.maxconn = s.table.maxconn := by
  unfold freeFd
  split
  · rfl
  · rw [handleClose_table, ConnTable.closeConn_maxconn]

/-- An accepted connection is announced once, under its own number and with itself in the count. -/
theorem accept_start (inv : s.Inv) (slots : s.table.Slots) {fd : Int} {addr : InetAddress} {startSent : Bool}
    (pos : 0 < fd) {new : List Effect}
    (hnew : (s.step (.accept fd addr startSent)).effects = new ++ s.effects) {channelid : Int} {msg : ServerMsg}
    {currentconn channelcnt : Nat} (hsent : .handed channelid msg ∈ new)
    (hbody : msg.body = .startReq currentconn channelcnt) :
    channelid = 0 ∧ ∃ i, (s.announcing fd addr).getConnectionRecord msg.connid = some i ∧
      ((s.announcing fd addr).vec i).fd = fd ∧ (s.announcing fd addr).others i < currentconn ∧
      (s.table.maxconn < 2147483648 → currentconn = (s.announcing fd addr).others i + 1) := by
  have opened : Move True s { s with isOpen := Function.update s.isOpen fd true } := .opened fd
  have openedInv := opened.inv inv
  have openedSlots := opened.slots inv slots
  have hsame : s.effects = ({ s with isOpen := Function.update s.isOpen fd true } : EpollServer).effects := rfl
  have hmaxconn : s.table.maxconn =
      ({ s with isOpen := Function.update s.isOpen fd true } : EpollServer).table.maxconn := rfl
  unfold step at hnew
  unfold announcing
  simp only at hnew
  rw [hsame] at hnew
  rw [hmaxconn]
  generalize ({ s with isOpen := Function.update s.isOpen fd true } : EpollServer) = o at openedInv openedSlots hnew ⊢
  have freedInv := openedInv.freeFd fd
  have freedSlots := freeFd_slots openedInv openedSlots fd
  have hempty := freeFd_new openedInv fd
  obtain ⟨freed, hfreed, hquiet⟩ := freeFd_unannounced o fd
  by_cases full : (o.freeFd fd).table.getFreeIdx.1 < 0
  · rw [onNewChannel_full full] at hnew
    change (o.freeFd fd).effects = new ++ o.effects at hnew
    rw [hfreed] at hnew
    obtain rfl := List.append_cancel_right hnew
    exact absurd hbody (hquiet channelid msg currentconn channelcnt hsent)
  · obtain ⟨i, rest, released, hi, hsplit, htable, hnone, heffects⟩ :=
      @onNewChannel_start o fd addr startSent freedInv (by omega)
    have admitted : Move True (o.freeFd fd) ((o.freeFd fd).enroll fd addr i rest) :=
      .admitted addr pos hempty hi hsplit (.inl trivial)
    obtain ⟨hfound, hfd, hlt, heq⟩ :=
      enroll_count (admitted.inv freedInv).table (admitted.slots freedInv freedSlots) pos
    rw [htable]
    rw [heffects] at hnew
    change released ++ .handed 0 _ :: .assigned _ _ :: (o.freeFd fd).effects = new ++ o.effects at hnew
    rw [hfreed, ← List.cons_append, ← List.cons_append, ← List.append_assoc] at hnew
    obtain rfl := List.append_cancel_right hnew
    have hmsg : channelid = 0 ∧
        msg = ((o.freeFd fd).enroll fd addr i rest).startRequest ((o.freeFd fd).table.vec i).connid addr := by
      rcases List.mem_append.mp hsent with hrel | hrest
      · exact absurd hrel (hnone channelid msg)
      · simp only [List.mem_cons, Effect.handed.injEq, reduceCtorEq, false_or] at hrest
        rcases hrest with one | old
        · exact one
        · exact absurd hbody (hquiet channelid msg currentconn channelcnt old)
    obtain ⟨rfl, rfl⟩ := hmsg
    obtain ⟨rfl, -⟩ := MsgBody.startReq.inj hbody
    exact ⟨rfl, i, hfound, hfd, hlt, fun small => heq ((freeFd_maxconn o fd).symm ▸ small)⟩

end EpollServer

variable {maxconn channels : Nat} {events : List ServerEvent} {k : Nat}

theorem serverAt_slots (small : maxconn < 4294967296) (possible : PossibleRun maxconn channels events) (k : Nat) :
    (serverAt maxconn channels events k).table.Slots :=
  serverAt_induct small possible (ConnTable.create_slots maxconn) (fun inv move slots => move.slots inv slots) k

/-- The start request has the number of the new record, and counts that record among the others, so that no
start request of a run says how many other connections there are. -/
theorem start_request_counts_itself (small : maxconn < 4294967296) (possible : PossibleRun maxconn channels events)
    {fd : Int} {addr : InetAddress} {startSent : Bool} (he : events[k]? = some (.accept fd addr startSent))
    {new : List Effect}
    (hnew : (serverAt maxconn channels events (k + 1)).effects = new ++ (serverAt maxconn channels events k).effects)
    {channelid : Int} {msg : ServerMsg} {currentconn channelcnt : Nat} (hsent : .handed channelid msg ∈ new)
    (hbody : msg.body = .startReq currentconn channelcnt) :
    let t := (serverAt maxconn channels events k).announcing fd addr
    ¬ t.ReportsOthers fd msg ∧ channelid = 0 ∧
      ∃ i, t.getConnectionRecord msg.connid = some i ∧ (t.vec i).fd = fd ∧ t.others i < currentconn ∧
        (maxconn < 2147483648 → currentconn = t.others i + 1) := by
  intro t
  have inv := serverAt_inv small possible k
  have slots := serverAt_slots small possible k
  obtain ⟨-, hmaxconn⟩ := serverAt_config small possible k
  obtain ⟨pos, -⟩ : 0 < fd ∧ _ := possible k _ he
  have hstep : serverAt maxconn channels events (k + 1) =
      (serverAt maxconn channels events k).step (.accept fd addr startSent) := stateAt_succ he
  rw [hstep] at hnew
  obtain ⟨hzero, i, hfound, hfd, hlt, heq⟩ := EpollServer.accept_start inv slots pos hnew hsent hbody
  refine ⟨?_, hzero, i, hfound, hfd, hlt, fun fits => heq (hmaxconn.symm ▸ fits)⟩
  rintro ⟨j, count, channels', body, found, -, hcount⟩
  obtain ⟨rfl, -⟩ := MsgBody.startReq.inj (hbody.symm.trans body)
  obtain rfl := Option.some.inj (hfound.symm.trans found)
  exact absurd hcount (Nat.ne_of_gt hlt)

/-- The second of two clients is announced with two connections, where one other is there. -/
theorem start_request_counts_itself_second :
    .handed 0 ⟨8, ⟨2, 80⟩, .startReq 2 1⟩ ∈ (serverAt 10 0 [.accept 5 ⟨1, 80⟩ true, .accept 6 ⟨2, 80⟩ true] 2).effects ∧
      ((serverAt 10 0 [.accept 5 ⟨1, 80⟩ true, .accept 6 ⟨2, 80⟩ true] 1).announcing 6 ⟨2, 80⟩).others 8 = 1 ∧
      ¬ ((serverAt 10 0 [.accept 5 ⟨1, 80⟩ true, .accept 6 ⟨2, 80⟩ true] 1).announcing 6 ⟨2, 80⟩).ReportsOthers 6
        ⟨8, ⟨2, 80⟩, .startReq 2 1⟩ := by
  have possible : PossibleRun 10 0 [.accept 5 ⟨1, 80⟩ true, .accept 6 ⟨2, 80⟩ true] := by decide +kernel
  have hnew : (serverAt 10 0 [.accept 5 ⟨1, 80⟩ true, .accept 6 ⟨2, 80⟩ true] (1 + 1)).effects =
      [.handed 0 ⟨8, ⟨2, 80⟩, .startReq 2 1⟩, .assigned 1 8] ++
        (serverAt 10 0 [.accept 5 ⟨1, 80⟩ true, .accept 6 ⟨2, 80⟩ true] 1).effects := by
    decide +kernel
  refine ⟨by decide +kernel, by decide +kernel, ?_⟩
  exact (start_request_counts_itself (by decide) possible rfl hnew List.mem_cons_self rfl).1

/-- The first client of all is announced with one connection, where no other is there. -/
theorem first_start_request :
    PossibleRun 10 0 [.accept 5 ⟨1, 80⟩ true] ∧
      .handed 0 ⟨9, ⟨1, 80⟩, .startReq 1 1⟩ ∈ (serverAt 10 0 [.accept 5 ⟨1, 80⟩ true] 1).effects ∧
      ¬ ((serverAt 10 0 [.accept 5 ⟨1, 80⟩ true] 0).announcing 5 ⟨1, 80⟩).ReportsOthers 5
        ⟨9, ⟨1, 80⟩, .startReq 1 1⟩ := by
  refine ⟨by decide +kernel, by decide +kernel, ?_⟩
  rintro ⟨i, count, channelcnt, body, found, -, hcount⟩
  obtain ⟨rfl, -⟩ := MsgBody.startReq.inj body
  have hrec : ((serverAt 10 0 [.accept 5 ⟨1, 80⟩ true] 0).announcing 5 ⟨1, 80⟩).getConnectionRecord 9 = some 9 := by
    decide +kernel
  obtain rfl := Option.some.inj (hrec.symm.trans found)
  revert hcount
  decide +kernel

end Wddlib
