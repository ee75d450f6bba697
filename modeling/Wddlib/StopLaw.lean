import Wddlib.RouteLaw

namespace Wddlib

/-- The channels that were handed a stop message for `connid`, the latest first. -/
def stopsFor (effects : List Effect) (connid : Int) : List Int :=
  effects.filterMap fun
    | .handed channelid ⟨c, _, .stop _⟩ => if c = connid then some channelid else none
    | _ => none

/-- The client of a connection goes away, a backend stops or refuses the connection, or its
descriptor is given to a new one. -/
def ServerEvent.Closes (s : EpollServer) (connid : Int) : ServerEvent → Prop
  | .accept fd _ _ => ∃ ch, s.channelMap fd = some ch ∧ ch.id = connid
  | .clientClose fd => ∃ ch, s.channelMap fd = some ch ∧ ch.id = connid
  | .backendMsg _ msg =>
    msg.connidInt = connid ∧ (msg.cmdid = connsvrStop ∨
      msg.cmdid = connsvrStartRsp ∧ (msg.accept ≠ 0 ∨ s.isChannelIdValid msg.routechannelInt = false))
  | _ => False

/-- A backend asks to stop a connection. -/
def ServerEvent.AsksStop : ServerEvent → Prop
  | .backendMsg _ msg => msg.cmdid = connsvrStop
  | _ => False

instance ServerEvent.decidableAsksStop (e : ServerEvent) : Decidable e.AsksStop :=
  match e with
  | .accept _ _ _ => .isFalse id
  | .clientClose _ => .isFalse id
  | .clientFrame _ _ => .isFalse id
  | .backendMsg _ msg => inferInstanceAs (Decidable (msg.cmdid = connsvrStop))
  | .tick _ => .isFalse id

section stopsFor

variable {effects : List Effect} {connid : Int}

@[simp] theorem stopsFor_assigned (serial : Nat) (c : Int) :
    stopsFor (.assigned serial c :: effects) connid = stopsFor effects connid := rfl

@[simp] theorem stopsFor_released (i : Nat) (c : Int) :
    stopsFor (.released i c :: effects) connid = stopsFor effects connid := rfl

@[simp] theorem stopsFor_delivered (serial : Nat) (c : Int) (payload : List UInt8) :
    stopsFor (.delivered serial c payload :: effects) connid = stopsFor effects connid := rfl

theorem stopsFor_stop (channelid c : Int) (addr : InetAddress) (timestamp : Nat) :
    stopsFor (.handed channelid ⟨c, addr, .stop timestamp⟩ :: effects) connid =
      if c = connid then channelid :: stopsFor effects connid else stopsFor effects connid := by
  by_cases hc : c = connid <;> simp [stopsFor, hc]

theorem stopsFor_other {msg : ServerMsg} (channelid : Int) (other : ∀ timestamp, msg.body ≠ .stop timestamp) :
    stopsFor (.handed channelid msg :: effects) connid = stopsFor effects connid := by
  obtain ⟨c, addr, body⟩ := msg
  cases body with
  | stop timestamp => exact absurd rfl (other timestamp)
  | _ => rfl

end stopsFor

namespace EpollServer

variable {s s' s'' : EpollServer} {ch : ServerChannel} {fd connid other : Int} {addr : InetAddress} {i : Nat}

/-- The connection with the number `connid` stays, and no stop message goes out for it. -/
structure Spares (connid : Int) (s s' : EpollServer) : Prop where
  stays : ∀ i, (s.table.vec i).isValid = true → (s.table.vec i).connid = connid →
    (s'.table.vec i).isValid = true ∧ (s'.table.vec i).connid = connid
  stops : stopsFor s'.effects connid = stopsFor s.effects connid

theorem Spares.refl (connid : Int) (s : EpollServer) : Spares connid s s :=
  ⟨fun _ hv hc => ⟨hv, hc⟩, rfl⟩

theorem Spares.trans (h : Spares connid s s') (h' : Spares connid s' s'') : Spares connid s s'' where
  stays := by
    intro i hv hc
    obtain ⟨hv', hc'⟩ := h.stays i hv hc
    exact h'.stays i hv' hc'
  stops := h'.stops.trans h.stops

theorem closeConn_stops (s : EpollServer) (other : Int) :
    stopsFor (s.closeConn other).effects connid = stopsFor s.effects connid := by
  unfold closeConn
  split <;> simp [addEffect]

theorem closeConn_spares (inv : s.Inv) (hne : other ≠ connid) : Spares connid s (s.closeConn other) := by
  refine ⟨?_, closeConn_stops s other⟩
  intro i hv hc
  rw [closeConn_table, ConnTable.closeConn_keep inv.table (by rw [hc]; exact Ne.symm hne)]
  exact ⟨hv, hc⟩

theorem sendMsg_stop (s : EpollServer) (channelid c : Int) (addr : InetAddress) (timestamp : Nat) :
    stopsFor (s.sendMsg channelid ⟨c, addr, .stop timestamp⟩).effects connid =
      if s.isChannelIdValid channelid = true ∧ c = connid then channelid :: stopsFor s.effects connid
      else stopsFor s.effects connid := by
  unfold sendMsg
  by_cases valid : s.isChannelIdValid channelid = true
  · simp only [valid, if_true, true_and, addEffect, stopsFor_stop]
  · simp only [valid, Bool.false_eq_true, if_false, false_and]

theorem sendMsg_stop_spares (s : EpollServer) (channelid : Int) {c : Int} (addr : InetAddress) (timestamp : Nat)
    (hne : c ≠ connid) : Spares connid s (s.sendMsg channelid ⟨c, addr, .stop timestamp⟩) := by
  refine ⟨?_, ?_⟩
  · intro i hv hc
    rw [sendMsg_table]
    exact ⟨hv, hc⟩
  · rw [sendMsg_stop, if_neg (fun h => hne h.2)]

theorem sendMsg_other_spares {msg : ServerMsg} (s : EpollServer) (channelid : Int)
    (other : ∀ timestamp, msg.body ≠ .stop timestamp) : Spares connid s (s.sendMsg channelid msg) := by
  refine ⟨?_, ?_⟩
  · intro i hv hc
    rw [sendMsg_table]
    exact ⟨hv, hc⟩
  · unfold sendMsg
    split
    · exact stopsFor_other channelid other
    · rfl

/-- The stop message of a channel that closes goes to the channel with the number of its connection. -/
theorem handleClose_stops (s : EpollServer) (ch : ServerChannel) :
    stopsFor (s.handleClose ch).effects connid =
      if s.table.getConnectionRecord ch.id ≠ none ∧ s.isChannelIdValid ch.id = true ∧ ch.id = connid then
        ch.id :: stopsFor s.effects connid
      else stopsFor s.effects connid := by
  cases found : s.table.getConnectionRecord ch.id with
  | none => simp [handleClose, close, onCloseChannel, found, closeConn_stops]
  | some i =>
    simp only [handleClose, close, onCloseChannel, found, closeConn_stops, sendMsg_stop]
    simp [isChannelIdValid]

theorem handleClose_spares (inv : s.Inv) (hne : ch.id ≠ connid) : Spares connid s (s.handleClose ch) := by
  refine ⟨?_, ?_⟩
  · intro i hv hc
    rw [handleClose_table, ConnTable.closeConn_keep inv.table (by rw [hc]; exact Ne.symm hne)]
    exact ⟨hv, hc⟩
  · rw [handleClose_stops, if_neg (fun h => hne h.2.2)]

theorem closeConnid_spares (inv : s.Inv) (hne : other ≠ connid) : Spares connid s (s.closeConnid other) := by
  cases found : s.table.getConnectionRecord other with
  | none =>
    rw [closeConnid_of_none found]
    exact .refl connid s
  | some i =>
    obtain ⟨ch, -, hid, heq⟩ := closeConnid_of_some inv found
    rw [heq]
    exact handleClose_spares inv (by rw [hid]; exact hne)

theorem setChannelid_spares (s : EpollServer) (i : Nat) (id : Int) : Spares connid s (s.setChannelid i id) := by
  refine ⟨?_, rfl⟩
  intro j hv hc
  simp only [setChannelid, ConnTable.setChannelid_isValid, ConnTable.setChannelid_connid]
  exact ⟨hv, hc⟩

theorem refuse_spares (s : EpollServer) (fd : Int) : Spares connid s (s.refuse fd) := by
  refine ⟨?_, rfl⟩
  intro j hv hc
  simp only [refuse, ConnTable.getFreeIdx_vec]
  exact ⟨hv, hc⟩

theorem enroll_spares (inv : s.Inv) {rest : List Int} (free : s.table.idxvec = rest ++ [(i : Int)]) :
    Spares connid s (s.enroll fd addr i rest) := by
  refine ⟨?_, by simp [enroll]⟩
  intro j hv hc
  have hji : j ≠ i := by
    rintro rfl
    have hfree := inv.table.free j (by rw [free]; simp)
    rw [hfree] at hv
    cases hv
  simp only [enroll, Function.update_of_ne hji]
  exact ⟨hv, hc⟩

/-- Once its descriptor is free, an accept leaves the other connections alone. -/
theorem accept_spares {startSent : Bool} (inv : s.Inv) (pos : 0 < fd) :
    Spares connid (freeFd { s with isOpen := Function.update s.isOpen fd true } fd)
      (s.step (.accept fd addr startSent)) := by
  let opened : EpollServer := { s with isOpen := Function.update s.isOpen fd true }
  have inv' : opened.Inv := (@Move.opened True s fd).inv inv
  have freedInv : (opened.freeFd fd).Inv := inv'.freeFd fd
  show Spares connid (opened.freeFd fd) (opened.onNewChannel fd addr startSent).2
  by_cases full : (opened.freeFd fd).table.getFreeIdx.1 < 0
  · rw [onNewChannel_full full]
    exact refuse_spares _ fd
  · obtain ⟨i, rest, msg, hi, hsplit, ⟨current, count, hbody⟩, heq⟩ :=
      @onNewChannel_free _ fd addr startSent freedInv (by omega)
    have enrolled := @enroll_spares (opened.freeFd fd) fd connid addr i freedInv rest hsplit
    have enrolledInv : ((opened.freeFd fd).enroll fd addr i rest).Inv :=
      freedInv.enroll pos (freeFd_new inv' fd) hi hsplit
    have sent : Spares connid ((opened.freeFd fd).enroll fd addr i rest)
        (((opened.freeFd fd).enroll fd addr i rest).addEffect (.handed 0 msg)) :=
      ⟨fun _ hv hc => ⟨hv, hc⟩, stopsFor_other 0 (by simp [hbody])⟩
    have announced := enrolled.trans sent
    have sentInv := (@Move.sent True _ 0 msg).inv enrolledInv
    rw [heq]
    cases startSent with
    | true => exact announced
    | false =>
      refine ⟨?_, (closeConn_stops _ _).trans announced.stops⟩
      intro j hv hc
      have hne : ((opened.freeFd fd).table.vec i).connid ≠ connid := by
        intro same
        obtain rfl := freedInv.table.connid_inj (freedInv.table.used j hv) hi (hc.trans same.symm)
        have hfree := freedInv.table.free j (by rw [hsplit]; simp)
        rw [hfree] at hv
        cases hv
      obtain ⟨hv', hc'⟩ := announced.stays j hv hc
      exact (closeConn_spares sentInv hne).stays j hv' hc'

/-- A connection in use always has its channel. -/
theorem getSvrChannel_of_some (inv : s.Inv) (found : s.table.getConnectionRecord connid = some i) :
    ∃ ch, s.getSvrChannel connid = some ch := by
  obtain ⟨hv, -⟩ := (ConnTable.getConnectionRecord_eq_some inv.table).mp found
  obtain ⟨ch, entry, -⟩ := inv.linked i hv
  exact ⟨ch, by simp [getSvrChannel, found, entry]⟩

theorem startRspHandle_spares {msg : BackendMsg} (inv : s.Inv)
    (kept : msg.connidInt = connid → msg.accept = 0 ∧ s.isChannelIdValid msg.routechannelInt = true) :
    Spares connid s (s.startRspHandle msg).2 := by
  unfold startRspHandle
  split
  · exact .refl connid s
  · split
    next refused => exact closeConnid_spares inv fun same => refused (kept same).1
    split
    · exact setChannelid_spares s _ _
    next invalid => exact closeConnid_spares inv fun same => invalid (kept same).2

theorem stopHandle_spares {msg : BackendMsg} (inv : s.Inv) (hne : msg.connidInt ≠ connid) :
    Spares connid s (s.stopHandle msg).2 := by
  unfold stopHandle
  split
  · exact .refl connid s
  next i _ =>
    have sent := sendMsg_stop_spares s (s.table.vec i).channelid (s.table.vec i).addr s.currentTime hne
    exact sent.trans (closeConnid_spares (inv.sendMsg _ _) hne)

theorem routeHandle_spares (s : EpollServer) (msg : BackendMsg) : Spares connid s (s.routeHandle msg).2 := by
  unfold routeHandle
  split
  · exact .refl connid s
  next i _ =>
    refine .trans ?_ (sendMsg_other_spares _ _ (by simp))
    split
    · exact setChannelid_spares s i _
    · exact .refl connid s

theorem msgNtfHandle_spares {msg : BackendMsg} (inv : s.Inv) (fromChannel : Int)
    (live : s.table.getConnectionRecord connid = some i) :
    Spares connid s (s.msgNtfHandle msg fromChannel).2 := by
  unfold msgNtfHandle
  split
  next dead =>
    have hne : msg.connidInt ≠ connid := by
      rintro rfl
      rw [live] at dead
      cases dead
    exact sendMsg_stop_spares s fromChannel msg.addr s.currentTime hne
  next j found =>
    obtain ⟨ch, hch⟩ := getSvrChannel_of_some inv found
    simp only [hch]
    exact ⟨fun _ hv hc => ⟨hv, hc⟩, by simp [addEffect]⟩

theorem handleMsg_spares {msg : BackendMsg} {fromChannel : Int} (inv : s.Inv)
    (live : s.table.getConnectionRecord connid = some i)
    (unclosed : ¬ (ServerEvent.backendMsg fromChannel msg).Closes s connid) :
    Spares connid s (s.handleMsg msg fromChannel).2 := by
  unfold handleMsg
  split
  next start =>
    refine startRspHandle_spares inv ?_
    intro same
    by_contra refused
    refine unclosed ⟨same, .inr ⟨start, ?_⟩⟩
    rw [not_and_or, Bool.not_eq_true] at refused
    exact refused
  split
  next stop => exact stopHandle_spares inv fun same => unclosed ⟨same, .inl stop⟩
  split
  · exact routeHandle_spares s msg
  split
  · exact msgNtfHandle_spares inv fromChannel live
  · exact .refl connid s

/-- A connection that an event does not close stays, without a stop message. -/
theorem step_spares {e : ServerEvent} (inv : s.Inv) (possible : e.Possible s)
    (live : s.table.getConnectionRecord connid = some i) (unclosed : ¬ e.Closes s connid) :
    Spares connid s (s.step e) := by
  cases e with
  | accept fd addr startSent =>
    let opened : EpollServer := { s with isOpen := Function.update s.isOpen fd true }
    have inv' : opened.Inv := (@Move.opened True s fd).inv inv
    have freed : Spares connid opened (opened.freeFd fd) := by
      unfold freeFd
      split
      · exact .refl connid opened
      next ch entry => exact handleClose_spares inv' fun same => unclosed ⟨ch, entry, same⟩
    have hopened : Spares connid s opened := ⟨fun _ hv hc => ⟨hv, hc⟩, rfl⟩
    exact (hopened.trans freed).trans (accept_spares inv possible.1)
  | clientClose fd =>
    simp only [step]
    split
    · exact .refl connid s
    next ch entry => exact handleClose_spares inv fun same => unclosed ⟨ch, entry, same⟩
  | clientFrame fd payload =>
    simp only [step]
    split
    · exact .refl connid s
    · unfold forward
      split
      · exact .refl connid s
      · exact sendMsg_other_spares s _ (by simp)
  | backendMsg fromChannel msg => exact handleMsg_spares inv live unclosed
  | tick now => exact ⟨fun _ hv hc => ⟨hv, hc⟩, rfl⟩

/-- The stop message of `OnCloseChannel`, if there is a channel with the number of the connection. -/
def closeStops (s : EpollServer) (connid : Int) : List Int :=
  if s.isChannelIdValid connid = true then [connid] else []

theorem handleClose_stops_live (live : s.table.getConnectionRecord ch.id = some i) :
    stopsFor (s.handleClose ch).effects ch.id = s.closeStops ch.id ++ stopsFor s.effects ch.id := by
  rw [handleClose_stops]
  by_cases valid : s.isChannelIdValid ch.id = true <;> simp [live, valid, closeStops]

theorem closeConnid_stops (inv : s.Inv) (live : s.table.getConnectionRecord connid = some i) :
    stopsFor (s.closeConnid connid).effects connid = s.closeStops connid ++ stopsFor s.effects connid := by
  obtain ⟨ch, -, rfl, heq⟩ := closeConnid_of_some inv live
  rw [heq]
  exact handleClose_stops_live live

theorem sendMsg_closeStops (s : EpollServer) (channelid : Int) (msg : ServerMsg) :
    (s.sendMsg channelid msg).closeStops = s.closeStops := by
  unfold sendMsg
  split <;> rfl

/-- The stop messages for a connection that closes: the one of `StopHandle` goes to its channel, the
one of `OnCloseChannel` to the channel with its number. -/
theorem step_stops {e : ServerEvent} (inv : s.Inv) (possible : e.Possible s)
    (fits : s.channelCount < 2147483648) (live : s.table.getConnectionRecord connid = some i)
    (closes : e.Closes s connid) :
    stopsFor (s.step e).effects connid = s.closeStops connid ++
      ((if e.AsksStop then [(s.table.vec i).channelid] else []) ++ stopsFor s.effects connid) := by
  cases e with
  | accept fd addr startSent =>
    obtain ⟨ch, entry, rfl⟩ := closes
    have freed : freeFd { s with isOpen := Function.update s.isOpen fd true } fd =
        handleClose { s with isOpen := Function.update s.isOpen fd true } ch := by
      simp [freeFd, entry]
    rw [(accept_spares inv possible.1).stops, freed]
    exact handleClose_stops_live live
  | clientClose fd =>
    obtain ⟨ch, entry, rfl⟩ := closes
    simp only [step, entry]
    exact handleClose_stops_live live
  | clientFrame fd payload => exact closes.elim
  | backendMsg fromChannel msg =>
    obtain ⟨rfl, stop | ⟨start, refused⟩⟩ := closes
    · have asks : (ServerEvent.backendMsg fromChannel msg).AsksStop := stop
      obtain ⟨hv, -⟩ := (ConnTable.getConnectionRecord_eq_some inv.table).mp live
      have record := inv.table.record i (inv.table.used i hv)
      have valid := isChannelIdValid_of_lt fits record.channelid_nonneg record.channelid_lt
      have handled : (s.step (.backendMsg fromChannel msg)) = (s.sendMsg (s.table.vec i).channelid
          ⟨msg.connidInt, (s.table.vec i).addr, .stop s.currentTime⟩).closeConnid msg.connidInt := by
        simp [step, handleMsg, stop, connsvrStop, connsvrStartRsp, stopHandle, live]
      rw [handled, closeConnid_stops (inv.sendMsg _ _) (by rw [sendMsg_table]; exact live), sendMsg_closeStops,
        sendMsg_stop, if_pos ⟨valid, rfl⟩, if_pos asks]
      rfl
    · have other : ¬ (ServerEvent.backendMsg fromChannel msg).AsksStop := by
        simp [ServerEvent.AsksStop, start, connsvrStop, connsvrStartRsp]
      have handled : (s.step (.backendMsg fromChannel msg)) = s.closeConnid msg.connidInt := by
        simp only [step, handleMsg, if_pos start, startRspHandle, live]
        rcases refused with refused | invalid
        · rw [if_pos refused]
        · simp [invalid]
      rw [handled, closeConnid_stops inv live, if_neg other]
      rfl
  | tick now => exact closes.elim

/-- The law of stop messages for a connection that closes. -/
theorem step_stops_iff {e : ServerEvent} (inv : s.Inv) (possible : e.Possible s)
    (fits : s.channelCount < 2147483648) (live : s.table.getConnectionRecord connid = some i)
    (closes : e.Closes s connid) :
    stopsFor (s.step e).effects connid = (s.table.vec i).channelid :: stopsFor s.effects connid ↔
      if e.AsksStop then (s.channelCount : Int) ≤ connid else connid = (s.table.vec i).channelid := by
  obtain ⟨hv, hc⟩ := (ConnTable.getConnectionRecord_eq_some inv.table).mp live
  have record := inv.table.record i (inv.table.used i hv)
  have h0 : 0 ≤ connid := hc ▸ record.connid_nonneg
  have h1 := record.channelid_lt
  rw [step_stops inv possible fits live closes]
  by_cases small : connid < s.channelCount
  · have valid := isChannelIdValid_of_lt fits h0 small
    simp only [closeStops, valid, if_true]
    split
    · simp [small]
    · simp
  · have invalid : s.isChannelIdValid connid = false := by
      rw [← Bool.not_eq_true]
      exact fun valid => small (isChannelIdValid_bounds valid).2
    have large : (s.channelCount : Int) ≤ connid := by omega
    have hne : connid ≠ (s.table.vec i).channelid := by omega
    simp only [closeStops, invalid, Bool.false_eq_true, if_false, List.nil_append]
    split
    · simp [large]
    · simp [hne]

end EpollServer

variable {maxconn channels : Nat} {events : List ServerEvent}

/-- A connection that no event closes stays, without a stop message. -/
theorem serverAt_spares (small : maxconn < 4294967296) (possible : PossibleRun maxconn channels events)
    {m n : Nat} {connid : Int} (hmn : m ≤ n)
    (live : (serverAt maxconn channels events m).table.getConnectionRecord connid ≠ none)
    (unclosed : ∀ k e, m ≤ k → k < n → events[k]? = some e → ¬ e.Closes (serverAt maxconn channels events k) connid) :
    (serverAt maxconn channels events n).table.getConnectionRecord connid ≠ none ∧
      stopsFor (serverAt maxconn channels events n).effects connid =
        stopsFor (serverAt maxconn channels events m).effects connid := by
  induction n, hmn using Nat.le_induction with
  | base => exact ⟨live, rfl⟩
  | succ n hmn ih =>
    obtain ⟨liveN, stops⟩ := ih fun k e hk hkn => unclosed k e hk (by omega)
    cases he : events[n]? with
    | none =>
      rw [serverAt, stateAt_end he]
      exact ⟨liveN, stops⟩
    | some e =>
      rw [serverAt, stateAt_succ he]
      obtain ⟨i, found⟩ := Option.ne_none_iff_exists'.mp liveN
      have inv := serverAt_inv small possible n
      have spares := EpollServer.step_spares inv (possible n e he) found (unclosed n e hmn (by omega) he)
      have inv' := (EpollServer.step_moves inv (possible n e he)).inv inv
      obtain ⟨hv, hc⟩ := (ConnTable.getConnectionRecord_eq_some inv.table).mp found
      obtain ⟨hv', hc'⟩ := spares.stays i hv hc
      have found' := (ConnTable.getConnectionRecord_eq_some inv'.table).mpr ⟨hv', hc'⟩
      exact ⟨Option.ne_none_iff_exists'.mpr ⟨i, found'⟩, spares.stops.trans stops⟩

/-- Over the time a connection lives exactly one stop message goes out for it, and it goes to the
channel of the connection, if and only if a backend asks for the stop and there is no channel with the
number of the connection, or the connection closes otherwise and its channel has its number. -/
theorem stop_law_iff (small : maxconn < 4294967296) (fits : channels + 1 < 2147483648)
    (possible : PossibleRun maxconn channels events) {m n : Nat} {connid : Int} {e : ServerEvent} (hmn : m ≤ n)
    (live : (serverAt maxconn channels events m).table.getConnectionRecord connid ≠ none)
    (unclosed : ∀ k e, m ≤ k → k < n → events[k]? = some e → ¬ e.Closes (serverAt maxconn channels events k) connid)
    (he : events[n]? = some e) (closes : e.Closes (serverAt maxconn channels events n) connid) :
    ∃ i, (serverAt maxconn channels events n).table.getConnectionRecord connid = some i ∧
      let channelid := ((serverAt maxconn channels events n).table.vec i).channelid
      (stopsFor (serverAt maxconn channels events (n + 1)).effects connid =
          channelid :: stopsFor (serverAt maxconn channels events m).effects connid ↔
        if e.AsksStop then (channels + 1 : Int) ≤ connid else connid = channelid) ∧
      ¬ ((channels + 1 : Int) ≤ connid ∧ connid = channelid) := by
  obtain ⟨liveN, stops⟩ := serverAt_spares small possible hmn live unclosed
  obtain ⟨i, found⟩ := Option.ne_none_iff_exists'.mp liveN
  have inv := serverAt_inv small possible n
  have count := (serverAt_config small possible n).1
  obtain ⟨hv, -⟩ := (ConnTable.getConnectionRecord_eq_some inv.table).mp found
  have bound := (inv.table.record i (inv.table.used i hv)).channelid_lt
  refine ⟨i, found, ?_, ?_⟩
  · rw [← stops, serverAt, stateAt_succ he]
    have law := EpollServer.step_stops_iff inv (possible n e he) (by omega) found closes
    rw [count] at law
    exact_mod_cast law
  · rw [count] at bound
    omega

/-- A client of channel 0 whose connection has the number 1 goes away. -/
def leavingRun : List ServerEvent := [.accept 5 ⟨1, 80⟩ true, .clientClose 5]

/-- A backend stops the same connection. -/
def stoppedRun : List ServerEvent :=
  [.accept 5 ⟨1, 80⟩ true, .backendMsg 0 ⟨connsvrStop, 1, ⟨1, 80⟩, 0, 0, 0, []⟩]

theorem stop_law_misdirected :
    PossibleRun 2 1 leavingRun ∧ PossibleRun 2 1 stoppedRun ∧
    (serverAt 2 1 leavingRun 1).table.getConnectionRecord 1 = some 1 ∧
    ((serverAt 2 1 leavingRun 1).table.vec 1).channelid = 0 ∧
    stopsFor (serverAt 2 1 leavingRun 2).effects 1 = [1] ∧
    stopsFor (serverAt 2 1 stoppedRun 2).effects 1 = [1, 0] := by
  refine ⟨by decide +kernel, by decide +kernel, by decide +kernel, by decide +kernel, ?_, ?_⟩
  · decide +kernel
  · decide +kernel

/-- There is no channel with the number 3 of the connection. -/
def stoppedFarRun : List ServerEvent :=
  [.accept 5 ⟨1, 80⟩ true, .backendMsg 0 ⟨connsvrStop, 3, ⟨1, 80⟩, 0, 0, 0, []⟩]

theorem stop_law_iff_far :
    PossibleRun 4 1 stoppedFarRun ∧ stopsFor (serverAt 4 1 stoppedFarRun 2).effects 3 = [0] := by
  have possible : PossibleRun 4 1 stoppedFarRun := by decide +kernel
  refine ⟨possible, ?_⟩
  have live : (serverAt 4 1 stoppedFarRun 1).table.getConnectionRecord 3 = some 3 := by decide +kernel
  obtain ⟨i, found, law, -⟩ := @stop_law_iff 4 1 stoppedFarRun (by decide) (by decide) possible 1 1 3 _ le_rfl
    (by rw [live]; decide) (fun k e h1 h2 => absurd h2 (by omega)) rfl ⟨by decide, .inl rfl⟩
  obtain rfl := Option.some.inj (live.symm.trans found)
  rw [law.mpr (by decide)]
  decide +kernel

end Wddlib
