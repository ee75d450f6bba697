import Wddlib.ServerRun

namespace Wddlib

/-- Every channel of the map is open, watched for input and has a record in use with its descriptor
and its number. -/
def EpollServer.Backed (s : EpollServer) : Prop :=
  ∀ fd ch, s.channelMap fd = some ch →
    s.isOpen fd = true ∧ s.watched fd = true ∧
    ∃ i < s.table.maxconn, (s.table.vec i).isValid = true ∧ (s.table.vec i).fd = fd ∧
      (s.table.vec i).connid = ch.id

namespace EpollServer

variable {s s' : EpollServer} {lossy : Prop} {ch : ServerChannel} {fd : Int} {addr : InetAddress} {i : Nat}

theorem Backed.dropChannel (h : s.Backed) (inv : s.Inv) (entry : s.channelMap ch.fd = some ch) :
    (s.dropChannel ch).Backed := by
  intro fd c hc
  by_cases hfd : fd = ch.fd
  · simp [EpollServer.dropChannel, hfd] at hc
  simp only [EpollServer.dropChannel, Function.update_of_ne hfd] at hc
  obtain ⟨hopen, hwatched, i, hi, hv, hifd, hic⟩ := h fd c hc
  obtain ⟨-, -, j, -, hvj, hjfd, hjc⟩ := h ch.fd ch entry
  have hne : (s.table.vec i).connid ≠ ch.id := by
    intro same
    obtain rfl := inv.table.connid_inj (inv.table.used i hv) (inv.table.used j hvj) (same.trans hjc.symm)
    exact hfd (hifd.symm.trans hjfd)
  have hkeep := ConnTable.closeConn_keep inv.table hne
  refine ⟨?_, ?_, i, ?_, ?_⟩
  · simpa only [EpollServer.dropChannel, Function.update_of_ne hfd] using hopen
  · simpa only [EpollServer.dropChannel, Function.update_of_ne hfd] using hwatched
  · simpa only [EpollServer.dropChannel, closeConn_table, ConnTable.closeConn_maxconn] using hi
  · simp only [EpollServer.dropChannel, closeConn_table, hkeep]
    exact ⟨hv, hifd, hic⟩

theorem Backed.enroll (h : s.Backed) (inv : s.Inv) {rest : List Int} (pos : 0 < fd)
    (hi : i < s.table.usable) (free : s.table.idxvec = rest ++ [(i : Int)]) (live : s.isOpen fd = true) :
    (s.enroll fd addr i rest).Backed := by
  intro fd' c hc
  by_cases hfd : fd' = fd
  · subst hfd
    simp only [EpollServer.enroll, Function.update_self] at hc
    obtain rfl := Option.some.inj hc
    refine ⟨live, by simp [EpollServer.enroll, live], i, hi.trans_le (min_le_left _ _), ?_⟩
    simp [EpollServer.enroll, ConnectionRecord.attatch, ConnectionRecord.isValid, pos]
  · simp only [EpollServer.enroll, Function.update_of_ne hfd] at hc
    obtain ⟨hopen, hwatched, j, hj, hv, hjfd, hjc⟩ := h fd' c hc
    have hji : j ≠ i := by
      rintro rfl
      have hinvalid := inv.table.free j (by rw [free]; simp)
      rw [hinvalid] at hv
      cases hv
    refine ⟨hopen, ?_, j, hj, ?_⟩
    · simpa only [EpollServer.enroll, Function.update_of_ne hfd] using hwatched
    · simp only [EpollServer.enroll, Function.update_of_ne hji]
      exact ⟨hv, hjfd, hjc⟩

theorem Move.backed (move : Move lossy s s') (regular : ¬ lossy) (inv : s.Inv) (h : s.Backed) :
    s'.Backed := by
  cases move with
  | sent => exact h
  | ticked => exact h
  | opened fd =>
    intro fd' c hc
    obtain ⟨hopen, hrest⟩ := h fd' c hc
    refine ⟨?_, hrest⟩
    by_cases hfd : fd' = fd
    · simp [hfd]
    · simpa only [Function.update_of_ne hfd] using hopen
  | dropped entry => exact h.dropChannel inv entry
  | routed i =>
    intro fd' c hc
    obtain ⟨hopen, hwatched, j, hj, hrecord⟩ := h fd' c hc
    refine ⟨hopen, hwatched, j, hj, ?_⟩
    simpa only [setChannelid, ConnTable.setChannelid_isValid, ConnTable.setChannelid_fd,
      ConnTable.setChannelid_connid] using hrecord
  | delivered => exact h
  | admitted addr pos new hi free live =>
    exact h.enroll inv pos hi free (live.resolve_left regular)
  | refused loss => exact absurd loss regular
  | abandoned loss => exact absurd loss regular

/-- A descriptor that is not open has no channel. -/
theorem Backed.new_of_closed (h : s.Backed) (closed : s.isOpen fd = false) : s.channelMap fd = none := by
  cases hc : s.channelMap fd with
  | none => rfl
  | some ch =>
    obtain ⟨hopen, -⟩ := h fd ch hc
    rw [closed] at hopen
    cases hopen

theorem not_backed_refuse (s : EpollServer) (fd : Int) : ¬ (s.refuse fd).Backed := by
  intro h
  obtain ⟨hopen, -⟩ := h fd ⟨s.nextSerial, fd, 0, false⟩ (by simp [refuse])
  simp [refuse] at hopen

/-- A channel stays behind when its record is released. -/
theorem not_backed_closeConn (inv : s.Inv) (entry : s.channelMap fd = some ch) :
    ¬ (s.closeConn ch.id).Backed := by
  intro h
  obtain ⟨-, -, i, -, hv, -, hc⟩ := h fd ch (by rw [closeConn_channelMap]; exact entry)
  rw [closeConn_table] at hv hc
  obtain ⟨same, -, hne⟩ := ConnTable.closeConn_valid inv.table hv
  rw [same] at hc
  exact hne hc

/-- An accept keeps every channel backed only if it gets a record and can announce the connection. -/
theorem accept_backed {startSent : Bool} (inv : s.Inv) (possible : (ServerEvent.accept fd addr startSent).Possible s)
    (before : s.Backed) (after : (s.step (.accept fd addr startSent)).Backed) :
    0 ≤ s.table.getFreeIdx.1 ∧ startSent = true := by
  let opened : EpollServer := { s with isOpen := Function.update s.isOpen fd true }
  have inv' : opened.Inv := (@Move.opened True s fd).inv inv
  have new : opened.channelMap fd = none := before.new_of_closed possible.2
  have hfree : opened.freeFd fd = opened := freeFd_of_new new
  have hstep : s.step (.accept fd addr startSent) = (opened.onNewChannel fd addr startSent).2 := rfl
  rw [hstep] at after
  have some_free : 0 ≤ s.table.getFreeIdx.1 := by
    by_contra full
    have full : s.table.getFreeIdx.1 < 0 := by omega
    rw [onNewChannel_full (by rw [hfree]; exact full)] at after
    exact not_backed_refuse _ fd after
  refine ⟨some_free, ?_⟩
  cases startSent with
  | true => rfl
  | false =>
    obtain ⟨i, rest, msg, hi, hsplit, -, heq⟩ := @onNewChannel_free opened fd addr false
      (by rw [hfree]; exact inv') (by rw [hfree]; exact some_free)
    rw [hfree] at hi hsplit heq
    rw [heq] at after
    have admitted : (opened.enroll fd addr i rest).Inv := inv'.enroll possible.1 new hi hsplit
    have sent := (@Move.sent True _ 0 msg).inv admitted
    have entry : ((opened.enroll fd addr i rest).addEffect (.handed 0 msg)).channelMap fd =
        some ⟨s.nextSerial, fd, (s.table.vec i).connid, true⟩ := by
      simp [addEffect, enroll, opened]
    exact absurd after (not_backed_closeConn sent entry)

end EpollServer

variable {maxconn channels : Nat} {events : List ServerEvent}

/-- As long as every accept gets an index and is announced, every channel has its record. -/
theorem serverAt_backed (small : maxconn < 4294967296) (possible : PossibleRun maxconn channels events)
    (accepted : ∀ k fd addr startSent, events[k]? = some (.accept fd addr startSent) →
      0 ≤ (serverAt maxconn channels events k).table.getFreeIdx.1 ∧ startSent = true) (k : Nat) :
    (serverAt maxconn channels events k).Backed := by
  have inv := serverAt_inv small possible
  refine stateAt_induct ?_ ?_ k
  · intro fd ch hc
    cases hc
  intro k e he before
  have regular : ¬ e.Lossy (serverAt maxconn channels events k) := by
    intro loss
    cases e with
    | accept fd addr startSent =>
      obtain ⟨some_free, sent⟩ := accepted k fd addr startSent he
      have new := EpollServer.Backed.new_of_closed before (possible k _ he).2
      rcases loss with old | full | unsent
      · exact old new
      · omega
      · rw [sent] at unsent
        cases unsent
    | _ => exact loss
  exact EpollServer.Moves.induct (fun inv move h => move.backed regular inv h)
    (EpollServer.step_moves (inv k) (possible k e he)) (inv k) before

/-- Every channel of the map has its record in every state of a run if and only if every accept of
the run gets an index from `GetFreeIdx` and its start request is accepted by channel 0. -/
theorem channels_backed_iff (small : maxconn < 4294967296)
    (possible : PossibleRun maxconn channels events) :
    (∀ k, (serverAt maxconn channels events k).Backed) ↔
      ∀ k fd addr startSent, events[k]? = some (.accept fd addr startSent) →
        0 ≤ (serverAt maxconn channels events k).table.getFreeIdx.1 ∧ startSent = true := by
  have inv := serverAt_inv small possible
  constructor
  · intro backed k fd addr startSent he
    have after := backed (k + 1)
    rw [serverAt, stateAt_succ he] at after
    exact EpollServer.accept_backed (inv k) (possible k _ he) (backed k) after
  · exact serverAt_backed small possible

/-- One record, two clients: the second one is refused. -/
def fullRun : List ServerEvent := [.accept 5 ⟨1, 80⟩ true, .accept 6 ⟨2, 80⟩ true]

theorem channels_backed_refused :
    PossibleRun 1 1 fullRun ∧ ¬ ∀ k, (serverAt 1 1 fullRun k).Backed := by
  refine ⟨by decide +kernel, ?_⟩
  intro backed
  obtain ⟨hopen, -⟩ := backed 2 6 ⟨1, 6, 0, false⟩ (by decide +kernel)
  revert hopen
  decide +kernel

/-- With two records both clients stay, and the second one leaves. -/
def roomyRun : List ServerEvent := [.accept 5 ⟨1, 80⟩ true, .accept 6 ⟨2, 80⟩ true, .clientClose 6]

theorem roomyRun_accepted : ∀ k fd addr startSent, roomyRun[k]? = some (.accept fd addr startSent) →
    0 ≤ (serverAt 2 1 roomyRun k).table.getFreeIdx.1 ∧ startSent = true := by
  intro k fd addr startSent he
  match k with
  | 0 =>
    obtain ⟨-, -, rfl⟩ := ServerEvent.accept.inj (Option.some.inj he)
    decide +kernel
  | 1 =>
    obtain ⟨-, -, rfl⟩ := ServerEvent.accept.inj (Option.some.inj he)
    decide +kernel
  | 2 => cases he
  | k + 3 => cases he

theorem channels_backed_iff_roomy :
    PossibleRun 2 1 roomyRun ∧ ∀ k, (serverAt 2 1 roomyRun k).Backed := by
  have possible : PossibleRun 2 1 roomyRun := by decide +kernel
  exact ⟨possible, (channels_backed_iff (by decide) possible).mpr roomyRun_accepted⟩

end Wddlib
