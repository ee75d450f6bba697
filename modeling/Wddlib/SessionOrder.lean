import Wddlib.StartRequest
import Wddlib.StopLaw
import Wddlib.ConnDelivery

namespace Wddlib

/-- Whether the log, the latest entry of which stands first, leaves a connection with the number `connid`: of the
entries that assign or release the number, the last one assigns it. -/
def openIn : List Effect → Int → Bool
  | [], _ => false
  | .assigned _ c :: earlier, connid => if c = connid then true else openIn earlier connid
  | .released _ c :: earlier, connid => if c = connid then false else openIn earlier connid
  | .handed _ _ :: earlier, connid => openIn earlier connid
  | .delivered _ _ _ :: earlier, connid => openIn earlier connid

/-- What an entry of the log may be after the entries before it: a number is assigned while nobody has it and released
while somebody has it; frames, routes and payloads pass only while the number is assigned; a start request goes to
channel 0, right behind the assignment of its number. -/
def Effect.InSession (earlier : List Effect) : Effect → Prop
  | .assigned _ connid => openIn earlier connid = false
  | .released _ connid => openIn earlier connid = true
  | .delivered _ connid _ => openIn earlier connid = true
  | .handed channelid ⟨connid, _, .startReq _ _⟩ =>
    channelid = 0 ∧ ∃ serial before, earlier = .assigned serial connid :: before
  | .handed _ ⟨_, _, .stop _⟩ => True
  | .handed _ ⟨connid, _, .route _⟩ => openIn earlier connid = true
  | .handed _ ⟨connid, _, .msgNtf _⟩ => openIn earlier connid = true

/-- Behind an assignment stands the start request of the number. -/
def Effect.Announces (earlier : List Effect) (e : Effect) : Prop :=
  ∀ serial connid before, earlier = .assigned serial connid :: before →
    ∃ addr currentconn channelcnt, e = .handed 0 ⟨connid, addr, .startReq currentconn channelcnt⟩

/-- Somebody has the number `connid`. -/
def ConnTable.InUse (t : ConnTable) (connid : Int) : Prop := ∃ i, (t.vec i).isValid = true ∧ (t.vec i).connid = connid

/-- The log is in order, no announcement is missing at its end, and it agrees with the table on who has a
connection. -/
structure EpollServer.Session (s : EpollServer) : Prop where
  ordered : LogOk (fun earlier e => e.InSession earlier ∧ e.Announces earlier) s.effects
  complete : ∀ serial connid before, s.effects ≠ .assigned serial connid :: before
  live : ∀ connid, openIn s.effects connid = true ↔ s.table.InUse connid

namespace ConnTable

variable {t : ConnTable} {channelCount i : Nat} {connid c : Int}

theorem inUse_iff (inv : t.Inv channelCount) : t.InUse connid ↔ ∃ i, t.getConnectionRecord connid = some i := by
  simp only [InUse, getConnectionRecord_eq_some inv]

theorem closeConn_inUse (inv : t.Inv channelCount) : (t.closeConn connid).InUse c ↔ c ≠ connid ∧ t.InUse c := by
  constructor
  · rintro ⟨i, hv, hc⟩
    obtain ⟨same, hv', hne⟩ := closeConn_valid inv hv
    rw [same] at hc
    exact ⟨hc ▸ hne, i, hv', hc⟩
  · rintro ⟨hne, i, hv, hc⟩
    have other : (t.vec i).connid ≠ connid := by rwa [hc]
    have same := closeConn_keep inv other
    exact ⟨i, by rw [same]; exact hv, by rw [same]; exact hc⟩

end ConnTable

namespace EpollServer

variable {s s' : EpollServer} {ch : ServerChannel} {fd connid : Int} {addr : InetAddress} {i : Nat} {e : Effect}

theorem create_session (maxconn channels : Nat) : (create maxconn channels).Session where
  ordered := trivial
  complete := by
    intro serial connid before h
    cases h
  live := by
    intro connid
    constructor
    · intro h
      cases h
    · rintro ⟨i, hv, -⟩
      cases hv

/-- Changes that leave the log and the numbers in use alone. -/
theorem Session.of_same (h : s.Session) (effects_eq : s'.effects = s.effects)
    (inUse_iff : ∀ connid, s'.table.InUse connid ↔ s.table.InUse connid) : s'.Session where
  ordered := by
    rw [effects_eq]
    exact h.ordered
  complete := by
    rw [effects_eq]
    exact h.complete
  live := by
    intro connid
    rw [effects_eq, inUse_iff]
    exact h.live connid

/-- A message or a payload. -/
theorem Session.addEffect (h : s.Session) (proper : e.InSession s.effects)
    (keeps : ∀ connid, openIn (e :: s.effects) connid = openIn s.effects connid)
    (other : ∀ serial connid, e ≠ .assigned serial connid) : (s.addEffect e).Session where
  ordered := ⟨⟨proper, fun serial connid before heq => absurd heq (h.complete serial connid before)⟩, h.ordered⟩
  complete := by
    intro serial connid before heq
    exact other serial connid (List.cons.inj heq).1
  live := by
    intro connid
    show openIn (e :: s.effects) connid = true ↔ _
    rw [keeps]
    exact h.live connid

theorem Session.sendMsg (h : s.Session) {channelid : Int} {msg : ServerMsg}
    (proper : (Effect.handed channelid msg).InSession s.effects) : (s.sendMsg channelid msg).Session := by
  unfold EpollServer.sendMsg
  split
  · exact h.addEffect proper (fun _ => rfl) (fun _ _ => by simp)
  · exact h

theorem Session.closeConn (h : s.Session) (inv : s.Inv) (connid : Int) : (s.closeConn connid).Session := by
  cases found : s.table.getConnectionRecord connid with
  | none =>
    rw [closeConn_of_none found]
    exact h
  | some i =>
    have heffects := closeConn_effects found
    have inUse : s.table.InUse connid := (ConnTable.inUse_iff inv.table).mpr ⟨i, found⟩
    refine ⟨?_, ?_, ?_⟩
    · rw [heffects]
      exact ⟨⟨(h.live connid).mpr inUse, fun serial c before heq => absurd heq (h.complete serial c before)⟩,
        h.ordered⟩
    · intro serial c before heq
      rw [heffects] at heq
      cases (List.cons.inj heq).1
    · intro c
      rw [heffects, closeConn_table, ConnTable.closeConn_inUse inv.table]
      by_cases hc : connid = c
      · simp [openIn, hc]
      · simp only [openIn, hc, if_false, h.live, Ne.symm hc, not_false_eq_true, true_and, ne_eq]

theorem Session.dropChannel (h : s.Session) (inv : s.Inv) (ch : ServerChannel) : (s.dropChannel ch).Session :=
  (h.closeConn inv ch.id).of_same rfl fun _ => Iff.rfl

/-- What a closing channel may send first is a stop message. -/
theorem handleClose_stop (s : EpollServer) (ch : ServerChannel) :
    s.handleClose ch = s.dropChannel ch ∨ ∃ channelid addr now,
      s.handleClose ch = (s.addEffect (.handed channelid ⟨ch.id, addr, .stop now⟩)).dropChannel ch := by
  cases found : s.table.getConnectionRecord ch.id with
  | none =>
    left
    simp [handleClose, close, onCloseChannel, found, EpollServer.closeConn, EpollServer.dropChannel]
  | some i =>
    cases valid : s.isChannelIdValid ch.id with
    | true =>
      refine .inr ⟨ch.id, (s.table.vec i).addr, s.currentTime, ?_⟩
      simp only [isChannelIdValid] at valid
      simp [handleClose, close, onCloseChannel, found, EpollServer.sendMsg, isChannelIdValid, valid,
        EpollServer.addEffect, EpollServer.closeConn, EpollServer.dropChannel]
    | false =>
      left
      simp only [isChannelIdValid] at valid
      simp [handleClose, close, onCloseChannel, found, EpollServer.sendMsg, isChannelIdValid, valid,
        EpollServer.addEffect, EpollServer.closeConn, EpollServer.dropChannel]

theorem Session.stop (h : s.Session) (channelid connid : Int) (addr : InetAddress) (now : Nat) :
    (s.addEffect (.handed channelid ⟨connid, addr, .stop now⟩)).Session :=
  h.addEffect trivial (fun _ => rfl) (fun _ _ => by simp)

theorem Session.handleClose (h : s.Session) (inv : s.Inv) (ch : ServerChannel) : (s.handleClose ch).Session := by
  rcases handleClose_stop s ch with heq | ⟨channelid, addr, now, heq⟩
  · rw [heq]
    exact h.dropChannel inv ch
  · rw [heq]
    have inv' := (@Move.sent True s channelid ⟨ch.id, addr, .stop now⟩).inv inv
    exact (h.stop channelid ch.id addr now).dropChannel inv' ch

theorem Session.closeConnid (h : s.Session) (inv : s.Inv) (connid : Int) : (s.closeConnid connid).Session := by
  cases found : s.table.getConnectionRecord connid with
  | none =>
    rw [closeConnid_of_none found]
    exact h
  | some i =>
    obtain ⟨ch, -, -, heq⟩ := closeConnid_of_some inv found
    rw [heq]
    exact h.handleClose inv ch

theorem Session.freeFd (h : s.Session) (inv : s.Inv) (fd : Int) : (s.freeFd fd).Session := by
  unfold EpollServer.freeFd
  split
  · exact h
  · exact h.handleClose inv _

/-- A new channel for `fd` gets the free record `i`, and channel 0 its start request. -/
def announce (s : EpollServer) (fd : Int) (addr : InetAddress) (i : Nat) (rest : List Int) : EpollServer :=
  (s.enroll fd addr i rest).addEffect
    (.handed 0 ((s.enroll fd addr i rest).startRequest (s.table.vec i).connid addr))

theorem onNewChannel_announce {startSent : Bool} (inv : (s.freeFd fd).Inv)
    (free : 0 ≤ (s.freeFd fd).table.getFreeIdx.1) :
    ∃ i rest, i < (s.freeFd fd).table.usable ∧ (s.freeFd fd).table.idxvec = rest ++ [(i : Int)] ∧
      (s.onNewChannel fd addr startSent).2 =
        if startSent then (s.freeFd fd).announce fd addr i rest
        else ((s.freeFd fd).announce fd addr i rest).closeConn ((s.freeFd fd).table.vec i).connid := by
  obtain ⟨i, rest, hi, hsplit, hrec⟩ := @ConnTable.recoredNewConn_some _ _ fd addr inv.table free
  have h0 := (inv.table.record i hi).connid_nonneg
  refine ⟨i, rest, hi, hsplit, ?_⟩
  simp only [onNewChannel, tcpOnNewChannel_eq, Function.update_self, hrec]
  rw [if_neg (by omega)]
  simp only [announce, enroll, EpollServer.addEffect, Function.update_idem, startRequest]
  cases startSent <;> rfl

/-- The number of a free record is not in use. -/
theorem Inv.number_unused (inv : s.Inv) {rest : List Int} (hi : i < s.table.usable)
    (free : s.table.idxvec = rest ++ [(i : Int)]) : ¬ s.table.InUse (s.table.vec i).connid := by
  rintro ⟨j, hv, hc⟩
  obtain rfl := inv.table.connid_inj (inv.table.used j hv) hi hc
  have hinvalid := inv.table.free j (by rw [free]; simp)
  rw [hinvalid] at hv
  cases hv

theorem enroll_inUse (inv : s.Inv) {rest : List Int} (pos : 0 < fd) (hi : i < s.table.usable)
    (free : s.table.idxvec = rest ++ [(i : Int)]) :
    (s.enroll fd addr i rest).table.InUse connid ↔ connid = (s.table.vec i).connid ∨ s.table.InUse connid := by
  have hinvalid := inv.table.free i (by rw [free]; simp)
  have record : ∀ j, (s.enroll fd addr i rest).table.vec j =
      if j = i then (s.table.vec i).attatch fd addr else s.table.vec j := by
    intro j
    simp only [enroll, Function.update_apply]
  constructor
  · rintro ⟨j, hv, hc⟩
    rw [record] at hv hc
    split at hc
    · exact .inl hc.symm
    next hji =>
      rw [if_neg hji] at hv
      exact .inr ⟨j, hv, hc⟩
  · rintro (rfl | ⟨j, hv, hc⟩)
    · refine ⟨i, ?_, ?_⟩
      · rw [record, if_pos rfl]
        simpa [ConnectionRecord.attatch, ConnectionRecord.isValid] using pos
      · rw [record, if_pos rfl]
        rfl
    · have hji : j ≠ i := by
        rintro rfl
        rw [hinvalid] at hv
        cases hv
      exact ⟨j, by rw [record, if_neg hji]; exact hv, by rw [record, if_neg hji]; exact hc⟩

theorem Session.announce (h : s.Session) (inv : s.Inv) {rest : List Int} (addr : InetAddress) (pos : 0 < fd)
    (hi : i < s.table.usable) (free : s.table.idxvec = rest ++ [(i : Int)]) : (s.announce fd addr i rest).Session := by
  have unused := inv.number_unused hi free
  have shut : openIn s.effects (s.table.vec i).connid = false := by
    rw [← Bool.not_eq_true, h.live]
    exact unused
  refine ⟨⟨⟨⟨rfl, s.nextSerial, s.effects, rfl⟩, ?_⟩, ⟨shut, ?_⟩, h.ordered⟩, ?_, ?_⟩
  · intro serial connid before heq
    obtain ⟨heq, -⟩ := List.cons.inj heq
    obtain ⟨-, rfl⟩ := Effect.assigned.inj heq
    exact ⟨_, _, _, rfl⟩
  · intro serial connid before heq
    exact absurd heq (h.complete serial connid before)
  · intro serial connid before heq
    cases (List.cons.inj heq).1
  · intro connid
    have inUse : (s.announce fd addr i rest).table.InUse connid ↔
        connid = (s.table.vec i).connid ∨ s.table.InUse connid := enroll_inUse inv pos hi free
    rw [inUse, ← h.live]
    by_cases hc : (s.table.vec i).connid = connid
    · simp [EpollServer.announce, EpollServer.addEffect, enroll, openIn, hc]
    · simp [EpollServer.announce, EpollServer.addEffect, enroll, openIn, hc, Ne.symm hc]

theorem Session.accept (h : s.Session) (inv : s.Inv) {startSent : Bool} (pos : 0 < fd) :
    (s.step (.accept fd addr startSent)).Session := by
  let opened : EpollServer := { s with isOpen := Function.update s.isOpen fd true }
  have inv' : opened.Inv := (@Move.opened True s fd).inv inv
  have h' : opened.Session := h.of_same rfl fun _ => Iff.rfl
  have freed : (opened.freeFd fd).Session := h'.freeFd inv' fd
  have freedInv : (opened.freeFd fd).Inv := inv'.freeFd fd
  show (opened.onNewChannel fd addr startSent).2.Session
  by_cases full : (opened.freeFd fd).table.getFreeIdx.1 < 0
  · rw [onNewChannel_full full]
    refine freed.of_same rfl fun connid => ?_
    simp only [refuse, ConnTable.InUse, ConnTable.getFreeIdx_vec]
  · obtain ⟨i, rest, hi, hsplit, heq⟩ := @onNewChannel_announce opened fd addr startSent freedInv (by omega)
    have announced := freed.announce freedInv addr pos hi hsplit
    have enrolledInv : ((opened.freeFd fd).enroll fd addr i rest).Inv :=
      freedInv.enroll pos (freeFd_new inv' fd) hi hsplit
    have announcedInv : ((opened.freeFd fd).announce fd addr i rest).Inv := (@Move.sent True _ 0 _).inv enrolledInv
    rw [heq]
    cases startSent with
    | true => exact announced
    | false => exact announced.closeConn announcedInv _

theorem setChannelid_inUse (i : Nat) (id : Int) : (s.setChannelid i id).table.InUse connid ↔ s.table.InUse connid := by
  simp only [ConnTable.InUse, setChannelid, ConnTable.setChannelid_isValid, ConnTable.setChannelid_connid]

theorem Session.setChannelid (h : s.Session) (i : Nat) (id : Int) : (s.setChannelid i id).Session :=
  h.of_same rfl fun _ => setChannelid_inUse i id

/-- A number that is found is open in the log. -/
theorem Session.openIn_of_found (h : s.Session) (inv : s.Inv) (found : s.table.getConnectionRecord connid = some i) :
    openIn s.effects connid = true :=
  (h.live connid).mpr ((ConnTable.inUse_iff inv.table).mpr ⟨i, found⟩)

theorem Session.handleMsg (h : s.Session) (inv : s.Inv) (msg : BackendMsg) (fromChannel : Int) :
    (s.handleMsg msg fromChannel).2.Session := by
  have stopped : ∀ channelid addr now,
      ((s.sendMsg channelid ⟨msg.connidInt, addr, .stop now⟩).closeConnid msg.connidInt).Session := by
    intro channelid addr now
    have sent : (s.sendMsg channelid ⟨msg.connidInt, addr, .stop now⟩).Session := h.sendMsg trivial
    exact sent.closeConnid (inv.sendMsg channelid _) _
  unfold EpollServer.handleMsg
  split
  · unfold startRspHandle
    split
    · exact h
    split
    · exact h.closeConnid inv _
    split
    · exact h.setChannelid _ _
    · exact h.closeConnid inv _
  split
  · unfold stopHandle
    split
    · exact h
    · exact stopped _ _ _
  split
  · unfold routeHandle
    split
    · exact h
    next i found =>
      have opened := h.openIn_of_found inv found
      simp only
      split
      · exact (h.setChannelid i msg.routechannelInt).sendMsg opened
      · exact h.sendMsg opened
  split
  · unfold msgNtfHandle
    split
    · exact h.sendMsg trivial
    next i found =>
      split
      · exact stopped _ _ _
      · exact h.addEffect (h.openIn_of_found inv found) (fun _ => rfl) (fun _ _ => by simp)
  · exact h

theorem Session.step (h : s.Session) (inv : s.Inv) {e : ServerEvent} (possible : e.Possible s) :
    (s.step e).Session := by
  cases e with
  | accept fd addr startSent => exact h.accept inv possible.1
  | clientClose fd =>
    simp only [EpollServer.step]
    split
    · exact h
    · exact h.handleClose inv _
  | clientFrame fd payload =>
    simp only [EpollServer.step]
    split
    · exact h
    next ch entry =>
      unfold forward
      split
      · exact h
      next i found =>
        obtain ⟨-, hc⟩ := (ConnTable.getConnectionRecord_eq_some inv.table).mp found
        refine h.sendMsg ?_
        show openIn s.effects (s.table.vec i).connid = true
        rw [hc]
        exact h.openIn_of_found inv found
  | backendMsg fromChannel msg => exact h.handleMsg inv msg fromChannel
  | tick now => exact h.of_same rfl fun _ => Iff.rfl

end EpollServer

variable {maxconn channels : Nat} {events : List ServerEvent}

theorem serverAt_session (small : maxconn < 4294967296) (possible : PossibleRun maxconn channels events) (k : Nat) :
    (serverAt maxconn channels events k).Session := by
  refine stateAt_induct (EpollServer.create_session maxconn channels) ?_ k
  intro k e he h
  have inv : (serverAt maxconn channels events k).Inv := serverAt_inv small possible k
  exact h.step inv (possible k e he)

/-- Whatever the backends send: they hear of a connection first through one start request on channel 0, then they get
its frames and routes and may write to it until it is released, and nothing but stop messages afterwards. Numbers are
assigned and released in turn, and the log knows who has a connection. -/
theorem session_order (small : maxconn < 4294967296) (possible : PossibleRun maxconn channels events) (k : Nat) :
    let s := serverAt maxconn channels events k
    (∀ later earlier e, s.effects = later ++ e :: earlier → e.InSession earlier) ∧
    (∀ later earlier serial connid, s.effects = later ++ .assigned serial connid :: earlier →
      ∃ later' addr currentconn channelcnt,
        later = later' ++ [.handed 0 ⟨connid, addr, .startReq currentconn channelcnt⟩]) ∧
    ∀ connid, openIn s.effects connid = true ↔ s.table.getConnectionRecord connid ≠ none := by
  intro s
  have inv : s.Inv := serverAt_inv small possible k
  have h : s.Session := serverAt_session small possible k
  refine ⟨?_, ?_, ?_⟩
  · intro later earlier e hsplit
    exact (h.ordered.entry hsplit).1
  · intro later earlier serial connid hsplit
    rcases List.eq_nil_or_concat' later with rfl | ⟨later', e, rfl⟩
    · exact absurd hsplit (h.complete serial connid earlier)
    · rw [List.append_assoc] at hsplit
      obtain ⟨addr, currentconn, channelcnt, rfl⟩ := (h.ordered.entry hsplit).2 serial connid earlier rfl
      exact ⟨later', addr, currentconn, channelcnt, rfl⟩
  · intro connid
    rw [h.live, ConnTable.inUse_iff inv.table, Option.ne_none_iff_exists']

theorem session_order_stale :
    PossibleRun 1 1 staleRun ∧
      (∀ later earlier e, (serverAt 1 1 staleRun 6).effects = later ++ e :: earlier → e.InSession earlier) ∧
      openIn (serverAt 1 1 staleRun 6).effects 1 = true := by
  have possible : PossibleRun 1 1 staleRun := by decide +kernel
  have session := session_order (by decide) possible 6
  exact ⟨possible, session.1, (session.2.2 1).mpr (by decide +kernel)⟩

end Wddlib
