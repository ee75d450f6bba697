import Wddlib.ServerRun

namespace Wddlib

/-- How often a connection was given the number `connid`. -/
def timesAssigned (effects : List Effect) (connid : Int) : Nat :=
  effects.countP fun
    | .assigned _ c => c = connid
    | _ => false

/-- The backend channel that an event assigns to the connection with the number `connid`. A new
connection starts at channel 0, start responses and route messages move it. -/
def ServerEvent.assign (s : EpollServer) (assignment : Int → Int) (e : ServerEvent) (connid : Int) : Int :=
  if timesAssigned (s.step e).effects connid ≠ timesAssigned s.effects connid then 0
  else match e with
    | .backendMsg _ msg =>
      if msg.connidInt = connid ∧ msg.cmdid = connsvrStartRsp ∧ msg.accept = 0 ∧
          s.isChannelIdValid msg.routechannelInt = true then msg.routechannelInt
      else if msg.connidInt = connid ∧ msg.cmdid = connsvrRoute ∧
          s.isChannelIdValid msg.routeInt = true then msg.routeInt
      else assignment connid
    | _ => assignment connid

/-- The channels assigned by the first `k` events of a run. -/
def assignmentAt (maxconn channels : Nat) (events : List ServerEvent) : Nat → Int → Int
  | 0 => fun _ => 0
  | k + 1 =>
    match events[k]? with
    | none => assignmentAt maxconn channels events k
    | some e => e.assign (serverAt maxconn channels events k) (assignmentAt maxconn channels events k)

/-- A frame that any live connection could send now would go to the channel assigned to it. -/
def EpollServer.ForwardsTo (s : EpollServer) (assignment : Int → Int) : Prop :=
  ∀ fd ch i payload, s.channelMap fd = some ch → s.table.getConnectionRecord ch.id = some i →
    (s.step (.clientFrame fd payload)).effects =
      .handed (assignment ch.id) ⟨ch.id, (s.table.vec i).addr, .msgNtf payload⟩ :: s.effects

/-- The channel of the `startrsp` of a route message is the one its `route` asks for, when `current`
is the channel of the connection. -/
def BackendMsg.RoutesAlike (s : EpollServer) (msg : BackendMsg) (current : Int) : Prop :=
  (s.isChannelIdValid msg.routeInt = true →
    msg.routechannelInt = msg.routeInt ∨
      s.isChannelIdValid msg.routechannelInt = false ∧ msg.routeInt = current) ∧
  (s.isChannelIdValid msg.routeInt = false → s.isChannelIdValid msg.routechannelInt = true →
    msg.routechannelInt = current)

namespace EpollServer

variable {s s' s'' : EpollServer} {ch : ServerChannel} {fd connid : Int} {addr : InetAddress} {i : Nat}
  {assignment : Int → Int}

/-- The records in use have the channels assigned to their numbers, the others have channel 0. -/
structure Routed (s : EpollServer) (assignment : Int → Int) : Prop where
  used : ∀ i, (s.table.vec i).isValid = true → (s.table.vec i).channelid = assignment (s.table.vec i).connid
  unused : ∀ i, (s.table.vec i).isValid = false → (s.table.vec i).channelid = 0

/-- Records are released at most, and nobody is given a number. -/
structure Shrinks (s s' : EpollServer) : Prop where
  record : ∀ i, s'.table.vec i = s.table.vec i ∨
    (s'.table.vec i).isValid = false ∧ (s'.table.vec i).channelid = 0
  same : timesAssigned s'.effects = timesAssigned s.effects

theorem Shrinks.refl (s : EpollServer) : Shrinks s s := ⟨fun _ => .inl rfl, rfl⟩

theorem Shrinks.trans (h : Shrinks s s') (h' : Shrinks s' s'') : Shrinks s s'' where
  record := by
    intro i
    rcases h'.record i with heq | hfree
    · rw [heq]
      exact h.record i
    · exact .inr hfree
  same := h'.same.trans h.same

theorem Shrinks.routed (h : Shrinks s s') (routed : s.Routed assignment) : s'.Routed assignment where
  used := by
    intro i hv
    rcases h.record i with heq | ⟨hfree, -⟩
    · rw [heq] at hv ⊢
      exact routed.used i hv
    · rw [hfree] at hv
      cases hv
  unused := by
    intro i hv
    rcases h.record i with heq | ⟨-, hzero⟩
    · rw [heq] at hv ⊢
      exact routed.unused i hv
    · exact hzero

theorem sendMsg_shrinks (s : EpollServer) (channelid : Int) (msg : ServerMsg) :
    Shrinks s (s.sendMsg channelid msg) := by
  unfold sendMsg
  split
  · refine ⟨fun _ => .inl rfl, ?_⟩
    funext c
    simp [timesAssigned, addEffect]
  · exact .refl s

theorem closeConn_shrinks (inv : s.Inv) (connid : Int) : Shrinks s (s.closeConn connid) := by
  cases found : s.table.getConnectionRecord connid with
  | none =>
    simp only [closeConn, found]
    exact .refl s
  | some i =>
    refine ⟨?_, ?_⟩
    · intro j
      rw [closeConn_table, ConnTable.closeConn_of_some inv.table found]
      by_cases hji : j = i
      · subst hji
        right
        simp only [Function.update_self]
        exact ⟨ConnectionRecord.detatch_isValid, rfl⟩
      · left
        simp only [Function.update_of_ne hji]
    · funext c
      simp [closeConn, found, timesAssigned, addEffect]

theorem dropChannel_shrinks (inv : s.Inv) (ch : ServerChannel) : Shrinks s (s.dropChannel ch) :=
  ⟨(closeConn_shrinks inv ch.id).record, (closeConn_shrinks inv ch.id).same⟩

theorem addEffect_handed_shrinks (s : EpollServer) (channelid : Int) (msg : ServerMsg) :
    Shrinks s (s.addEffect (.handed channelid msg)) := by
  refine ⟨fun _ => .inl rfl, ?_⟩
  funext c
  simp [timesAssigned, addEffect]

theorem handleClose_shrinks (inv : s.Inv) (ch : ServerChannel) : Shrinks s (s.handleClose ch) := by
  rcases handleClose_eq s ch with h | ⟨channelid, msg, h⟩
  · rw [h]
    exact dropChannel_shrinks inv ch
  · rw [h]
    have sent := addEffect_handed_shrinks s channelid msg
    have inv' := (@Move.sent True s channelid msg).inv inv
    exact sent.trans (dropChannel_shrinks inv' ch)

theorem closeConnid_shrinks (inv : s.Inv) (connid : Int) : Shrinks s (s.closeConnid connid) := by
  cases found : s.table.getConnectionRecord connid with
  | none =>
    rw [closeConnid_of_none found]
    exact .refl s
  | some i =>
    obtain ⟨ch, -, -, heq⟩ := closeConnid_of_some inv found
    rw [heq]
    exact handleClose_shrinks inv ch

theorem sendMsg_closeConnid_shrinks (inv : s.Inv) (channelid : Int) (msg : ServerMsg) (connid : Int) :
    Shrinks s ((s.sendMsg channelid msg).closeConnid connid) := by
  have sent := sendMsg_shrinks s channelid msg
  exact sent.trans (closeConnid_shrinks (inv.sendMsg channelid msg) connid)

theorem freeFd_shrinks (inv : s.Inv) (fd : Int) : Shrinks s (s.freeFd fd) := by
  unfold freeFd
  split
  · exact .refl s
  · exact handleClose_shrinks inv _

/-- A record of a live connection gets another channel. -/
theorem Routed.setChannelid (routed : s.Routed assignment) (inv : s.Inv)
    (found : s.table.getConnectionRecord connid = some i) (id : Int) :
    (s.setChannelid i id).Routed (Function.update assignment connid id) := by
  obtain ⟨hv, hc⟩ := (ConnTable.getConnectionRecord_eq_some inv.table).mp found
  refine ⟨?_, ?_⟩
  · intro j hvj
    simp only [EpollServer.setChannelid, ConnTable.setChannelid_isValid, ConnTable.setChannelid_connid] at hvj ⊢
    by_cases hji : j = i
    · subst hji
      simp [ConnTable.setChannelid, ConnTable.setRecord, hc]
    · have hne : (s.table.vec j).connid ≠ connid := by
        intro same
        exact hji (inv.table.connid_inj (inv.table.used j hvj) (inv.table.used i hv) (same.trans hc.symm))
      simp only [ConnTable.setChannelid, ConnTable.setRecord, Function.update_of_ne hji,
        Function.update_of_ne hne]
      exact routed.used j hvj
  · intro j hvj
    simp only [EpollServer.setChannelid, ConnTable.setChannelid_isValid] at hvj ⊢
    have hji : j ≠ i := by
      rintro rfl
      rw [hv] at hvj
      cases hvj
    simp only [ConnTable.setChannelid, ConnTable.setRecord, Function.update_of_ne hji]
    exact routed.unused j hvj

/-- A record that was free starts at channel 0. -/
theorem Routed.enroll (routed : s.Routed assignment) (inv : s.Inv) {rest : List Int} (pos : 0 < fd)
    (hi : i < s.table.usable) (free : s.table.idxvec = rest ++ [(i : Int)]) :
    (s.enroll fd addr i rest).Routed (Function.update assignment (s.table.vec i).connid 0) := by
  have hfree : (s.table.vec i).isValid = false := inv.table.free i (by rw [free]; simp)
  refine ⟨?_, ?_⟩
  · intro j hvj
    simp only [EpollServer.enroll] at hvj ⊢
    by_cases hji : j = i
    · subst hji
      simp [ConnectionRecord.attatch, routed.unused j hfree]
    · simp only [Function.update_of_ne hji] at hvj ⊢
      have hne : (s.table.vec j).connid ≠ (s.table.vec i).connid := by
        intro same
        exact hji (inv.table.connid_inj (inv.table.used j hvj) hi same)
      rw [Function.update_of_ne hne]
      exact routed.used j hvj
  · intro j hvj
    simp only [EpollServer.enroll] at hvj ⊢
    by_cases hji : j = i
    · subst hji
      simp [ConnectionRecord.attatch, ConnectionRecord.isValid, pos] at hvj
    · simp only [Function.update_of_ne hji] at hvj ⊢
      exact routed.unused j hvj

theorem enroll_timesAssigned (s : EpollServer) (fd : Int) (addr : InetAddress) (i : Nat) (rest : List Int)
    (connid : Int) : timesAssigned (s.enroll fd addr i rest).effects connid =
      timesAssigned s.effects connid + if (s.table.vec i).connid = connid then 1 else 0 := by
  simp [timesAssigned, EpollServer.enroll, List.countP_cons]

/-- Where nobody is given a number, only a message of a backend assigns a channel. -/
theorem assign_of_same {e : ServerEvent} (same : timesAssigned (s.step e).effects = timesAssigned s.effects)
    (other : ∀ fromChannel msg, e ≠ .backendMsg fromChannel msg) : e.assign s assignment = assignment := by
  funext c
  cases e with
  | backendMsg fromChannel msg => exact absurd rfl (other fromChannel msg)
  | _ => simp [ServerEvent.assign, same]

theorem accept_routed {startSent : Bool} (inv : s.Inv) (pos : 0 < fd) (routed : s.Routed assignment) :
    (s.step (.accept fd addr startSent)).Routed ((ServerEvent.accept fd addr startSent).assign s assignment) := by
  let opened : EpollServer := { s with isOpen := Function.update s.isOpen fd true }
  have inv' : opened.Inv := (@Move.opened True s fd).inv inv
  have hopened : Shrinks s opened := ⟨fun _ => .inl rfl, rfl⟩
  have freed : Shrinks s (opened.freeFd fd) := hopened.trans (freeFd_shrinks inv' fd)
  have hfreed := freed.routed routed
  have freedInv : (opened.freeFd fd).Inv := inv'.freeFd fd
  have hstep : s.step (.accept fd addr startSent) = (opened.onNewChannel fd addr startSent).2 := rfl
  by_cases full : (opened.freeFd fd).table.getFreeIdx.1 < 0
  · have refused : Shrinks (opened.freeFd fd) (s.step (.accept fd addr startSent)) := by
      rw [hstep, onNewChannel_full full]
      exact ⟨fun i => .inl (by simp [refuse]), rfl⟩
    rw [assign_of_same (freed.trans refused).same (by simp)]
    exact refused.routed hfreed
  · obtain ⟨i, rest, msg, hi, hsplit, -, heq⟩ := @onNewChannel_free _ fd addr startSent freedInv (by omega)
    have enrolled := @Routed.enroll _ fd addr i assignment hfreed freedInv rest pos hi hsplit
    have enrolledInv : ((opened.freeFd fd).enroll fd addr i rest).Inv :=
      freedInv.enroll pos (freeFd_new inv' fd) hi hsplit
    have sent := addEffect_handed_shrinks ((opened.freeFd fd).enroll fd addr i rest) 0 msg
    have sentInv := (@Move.sent True _ 0 msg).inv enrolledInv
    have after : Shrinks ((opened.freeFd fd).enroll fd addr i rest) (s.step (.accept fd addr startSent)) := by
      rw [hstep, heq]
      cases startSent with
      | true => exact sent
      | false => exact sent.trans (closeConn_shrinks sentInv _)
    have hassign : (ServerEvent.accept fd addr startSent).assign s assignment =
        Function.update assignment ((opened.freeFd fd).table.vec i).connid 0 := by
      funext c
      simp only [ServerEvent.assign, after.same, enroll_timesAssigned, freed.same]
      by_cases hc : ((opened.freeFd fd).table.vec i).connid = c
      · subst hc
        simp
      · simp [hc, Function.update_of_ne (Ne.symm hc)]
    rw [hassign]
    exact after.routed enrolled

/-- A message assigns a channel to its own connection only. -/
def asked (s : EpollServer) (msg : BackendMsg) (current : Int) : Int :=
  if msg.cmdid = connsvrStartRsp ∧ msg.accept = 0 ∧ s.isChannelIdValid msg.routechannelInt = true then
    msg.routechannelInt
  else if msg.cmdid = connsvrRoute ∧ s.isChannelIdValid msg.routeInt = true then msg.routeInt
  else current

theorem assign_backendMsg {fromChannel : Int} {msg : BackendMsg}
    (same : timesAssigned (s.step (.backendMsg fromChannel msg)).effects = timesAssigned s.effects) :
    (ServerEvent.backendMsg fromChannel msg).assign s assignment =
      Function.update assignment msg.connidInt (s.asked msg (assignment msg.connidInt)) := by
  funext c
  by_cases hc : msg.connidInt = c
  · subst hc
    simp [ServerEvent.assign, same, asked]
  · simp [ServerEvent.assign, same, hc, Function.update_of_ne (Ne.symm hc)]

/-- The channel that a route message really sets. -/
def routedTo (s : EpollServer) (msg : BackendMsg) (current : Int) : Int :=
  if s.isChannelIdValid msg.routechannelInt = true then msg.routechannelInt else current

theorem asked_startRsp {msg : BackendMsg} (start : msg.cmdid = connsvrStartRsp) (current : Int) :
    s.asked msg current =
      if msg.accept = 0 ∧ s.isChannelIdValid msg.routechannelInt = true then msg.routechannelInt else current := by
  have other : ¬ connsvrStartRsp = connsvrRoute := by decide
  simp [asked, start, other]

theorem asked_route {msg : BackendMsg} (route : msg.cmdid = connsvrRoute) (current : Int) :
    s.asked msg current = if s.isChannelIdValid msg.routeInt = true then msg.routeInt else current := by
  have other : ¬ connsvrRoute = connsvrStartRsp := by decide
  simp [asked, route, other]

theorem asked_other {msg : BackendMsg} (start : ¬ msg.cmdid = connsvrStartRsp) (route : ¬ msg.cmdid = connsvrRoute)
    (current : Int) : s.asked msg current = current := by
  simp [asked, start, route]

theorem routesAlike_iff {msg : BackendMsg} {current : Int} (route : msg.cmdid = connsvrRoute) :
    msg.RoutesAlike s current ↔ s.routedTo msg current = s.asked msg current := by
  rw [asked_route route]
  unfold BackendMsg.RoutesAlike routedTo
  cases valid : s.isChannelIdValid msg.routechannelInt <;> cases wanted : s.isChannelIdValid msg.routeInt
  · simp
  · have hne : msg.routechannelInt ≠ msg.routeInt := by
      intro same
      rw [same, wanted] at valid
      cases valid
    simp [hne, eq_comm]
  · simp
  · simp

/-- The channel of a number that nobody has is of no concern. -/
theorem Routed.of_dead (routed : s.Routed assignment) (inv : s.Inv)
    (dead : s.table.getConnectionRecord connid = none) (id : Int) :
    s.Routed (Function.update assignment connid id) := by
  refine ⟨?_, routed.unused⟩
  intro j hv
  have hne : (s.table.vec j).connid ≠ connid := by
    intro same
    rw [(ConnTable.getConnectionRecord_eq_some inv.table).mpr ⟨hv, same⟩] at dead
    cases dead
  rw [Function.update_of_ne hne]
  exact routed.used j hv

theorem handleMsg_route {fromChannel : Int} {msg : BackendMsg} (route : msg.cmdid = connsvrRoute) :
    s.handleMsg msg fromChannel = s.routeHandle msg := by
  simp [handleMsg, route, connsvrStartRsp, connsvrStop, connsvrRoute]

/-- A route message sets the channel of its connection and sends it on. -/
theorem routeHandle_of_some {msg : BackendMsg} (found : s.table.getConnectionRecord msg.connidInt = some i) :
    ∃ channelid sent, (s.routeHandle msg).2 =
      (s.setChannelid i (s.routedTo msg (s.table.vec i).channelid)).sendMsg channelid sent := by
  simp only [routeHandle, found, routedTo]
  split
  · exact ⟨_, _, rfl⟩
  · have same : s.setChannelid i (s.table.vec i).channelid = s := by
      simp [EpollServer.setChannelid, ConnTable.setChannelid, ConnTable.setRecord, Function.update_eq_self]
    rw [same]
    exact ⟨_, _, rfl⟩

theorem routeHandle_timesAssigned {msg : BackendMsg}
    (found : s.table.getConnectionRecord msg.connidInt = some i) :
    timesAssigned (s.routeHandle msg).2.effects = timesAssigned s.effects := by
  obtain ⟨channelid, sent, heq⟩ := routeHandle_of_some found
  rw [heq]
  exact (sendMsg_shrinks _ _ _).same

theorem routeHandle_routed {msg : BackendMsg} (inv : s.Inv) (routed : s.Routed assignment)
    (found : s.table.getConnectionRecord msg.connidInt = some i) :
    (s.routeHandle msg).2.Routed
      (Function.update assignment msg.connidInt (s.routedTo msg (s.table.vec i).channelid)) := by
  obtain ⟨channelid, sent, heq⟩ := routeHandle_of_some found
  rw [heq]
  exact (sendMsg_shrinks _ _ _).routed (routed.setChannelid inv found _)

@[simp] theorem sendMsg_table (s : EpollServer) (channelid : Int) (msg : ServerMsg) :
    (s.sendMsg channelid msg).table = s.table := by
  unfold sendMsg
  split <;> rfl

/-- The connection of a route message stays, with the channel that was set. -/
theorem routeHandle_record {msg : BackendMsg} (inv : s.Inv)
    (found : s.table.getConnectionRecord msg.connidInt = some i) :
    ((s.routeHandle msg).2.table.vec i).isValid = true ∧
      ((s.routeHandle msg).2.table.vec i).connid = msg.connidInt ∧
      ((s.routeHandle msg).2.table.vec i).channelid = s.routedTo msg (s.table.vec i).channelid := by
  obtain ⟨hv, hc⟩ := (ConnTable.getConnectionRecord_eq_some inv.table).mp found
  obtain ⟨channelid, sent, heq⟩ := routeHandle_of_some found
  simp only [heq, sendMsg_table, EpollServer.setChannelid, ConnTable.setChannelid_isValid,
    ConnTable.setChannelid_connid]
  refine ⟨hv, hc, ?_⟩
  simp [ConnTable.setChannelid, ConnTable.setRecord]

theorem startRspHandle_routed {msg : BackendMsg} (inv : s.Inv) (routed : s.Routed assignment)
    (start : msg.cmdid = connsvrStartRsp) :
    timesAssigned (s.startRspHandle msg).2.effects = timesAssigned s.effects ∧
      (s.startRspHandle msg).2.Routed
        (Function.update assignment msg.connidInt (s.asked msg (assignment msg.connidInt))) := by
  have closed := closeConnid_shrinks inv msg.connidInt
  rw [asked_startRsp start]
  unfold startRspHandle
  split
  next dead => exact ⟨rfl, routed.of_dead inv dead _⟩
  next i found =>
    by_cases accepted : msg.accept = 0
    · by_cases valid : s.isChannelIdValid msg.routechannelInt = true
      · simp only [accepted, ne_eq, not_true_eq_false, if_false, valid, if_true, and_self]
        exact ⟨rfl, routed.setChannelid inv found msg.routechannelInt⟩
      · simp only [accepted, ne_eq, not_true_eq_false, if_false, valid, Bool.false_eq_true, and_false,
          Function.update_eq_self]
        exact ⟨closed.same, closed.routed routed⟩
    · simp only [accepted, ne_eq, not_false_eq_true, if_true, false_and, if_false, Function.update_eq_self]
      exact ⟨closed.same, closed.routed routed⟩

theorem stopHandle_shrinks (inv : s.Inv) (msg : BackendMsg) : Shrinks s (s.stopHandle msg).2 := by
  unfold stopHandle
  split
  · exact .refl s
  · exact sendMsg_closeConnid_shrinks inv _ _ _

theorem msgNtfHandle_shrinks (inv : s.Inv) (msg : BackendMsg) (fromChannel : Int) :
    Shrinks s (s.msgNtfHandle msg fromChannel).2 := by
  unfold msgNtfHandle
  split
  · exact sendMsg_shrinks _ _ _
  · split
    · exact sendMsg_closeConnid_shrinks inv _ _ _
    · refine ⟨fun _ => .inl rfl, ?_⟩
      funext c
      simp [timesAssigned, addEffect]

/-- What a message of a backend does to the channels of the connections. -/
theorem backendMsg_routed {fromChannel : Int} {msg : BackendMsg} (inv : s.Inv) (routed : s.Routed assignment)
    (alike : ∀ i, msg.cmdid = connsvrRoute → s.table.getConnectionRecord msg.connidInt = some i →
      msg.RoutesAlike s (s.table.vec i).channelid) :
    (s.step (.backendMsg fromChannel msg)).Routed
      ((ServerEvent.backendMsg fromChannel msg).assign s assignment) := by
  have spec : timesAssigned (s.handleMsg msg fromChannel).2.effects = timesAssigned s.effects ∧
      (s.handleMsg msg fromChannel).2.Routed
        (Function.update assignment msg.connidInt (s.asked msg (assignment msg.connidInt))) := by
    by_cases start : msg.cmdid = connsvrStartRsp
    · simp only [handleMsg, if_pos start]
      exact startRspHandle_routed inv routed start
    by_cases route : msg.cmdid = connsvrRoute
    · rw [handleMsg_route route]
      cases found : s.table.getConnectionRecord msg.connidInt with
      | none =>
        simp only [routeHandle, found]
        exact ⟨trivial, routed.of_dead inv found _⟩
      | some i =>
        obtain ⟨hv, hc⟩ := (ConnTable.getConnectionRecord_eq_some inv.table).mp found
        have current := routed.used i hv
        rw [hc] at current
        rw [← current, ← (routesAlike_iff route).mp (alike i route found)]
        exact ⟨routeHandle_timesAssigned found, routeHandle_routed inv routed found⟩
    rw [asked_other start route, Function.update_eq_self]
    have shrinks : Shrinks s (s.handleMsg msg fromChannel).2 := by
      simp only [handleMsg, if_neg start, if_neg route]
      split
      · exact stopHandle_shrinks inv msg
      split
      · exact msgNtfHandle_shrinks inv msg fromChannel
      · exact .refl s
    exact ⟨shrinks.same, shrinks.routed routed⟩
  rw [assign_backendMsg spec.1]
  exact spec.2

theorem step_routed {e : ServerEvent} (inv : s.Inv) (possible : e.Possible s) (routed : s.Routed assignment)
    (alike : ∀ fromChannel msg i, e = .backendMsg fromChannel msg → msg.cmdid = connsvrRoute →
      s.table.getConnectionRecord msg.connidInt = some i → msg.RoutesAlike s (s.table.vec i).channelid) :
    (s.step e).Routed (e.assign s assignment) := by
  cases e with
  | accept fd addr startSent => exact accept_routed inv possible.1 routed
  | clientClose fd =>
    have shrinks : Shrinks s (s.step (.clientClose fd)) := by
      simp only [step]
      split
      · exact .refl s
      · exact handleClose_shrinks inv _
    rw [assign_of_same shrinks.same (by simp)]
    exact shrinks.routed routed
  | clientFrame fd payload =>
    have shrinks : Shrinks s (s.step (.clientFrame fd payload)) := by
      simp only [step]
      split
      · exact .refl s
      · unfold forward
        split
        · exact .refl s
        · exact sendMsg_shrinks _ _ _
    rw [assign_of_same shrinks.same (by simp)]
    exact shrinks.routed routed
  | backendMsg fromChannel msg =>
    exact backendMsg_routed inv routed fun i => alike fromChannel msg i rfl
  | tick now =>
    have shrinks : Shrinks s (s.step (.tick now)) := ⟨fun _ => .inl rfl, rfl⟩
    rw [assign_of_same shrinks.same (by simp)]
    exact shrinks.routed routed

/-- Every number below the number of channels is a valid channel. -/
theorem isChannelIdValid_of_lt {id : Int} (fits : s.channelCount < 2147483648) (h0 : 0 ≤ id)
    (h1 : id < s.channelCount) : s.isChannelIdValid id = true := by
  have hint : int32 s.channelCount = s.channelCount := int32_eq_self (by omega) (by omega)
  simp only [isChannelIdValid, hint, decide_eq_true_eq]
  omega

/-- Frames go to the assigned channels exactly when the records have them. -/
theorem forwardsTo_iff (inv : s.Inv) (fits : s.channelCount < 2147483648) :
    s.ForwardsTo assignment ↔
      ∀ i, (s.table.vec i).isValid = true → (s.table.vec i).channelid = assignment (s.table.vec i).connid := by
  have sent : ∀ fd ch i payload, s.channelMap fd = some ch → s.table.getConnectionRecord ch.id = some i →
      (s.step (.clientFrame fd payload)).effects =
        .handed (s.table.vec i).channelid ⟨ch.id, (s.table.vec i).addr, .msgNtf payload⟩ :: s.effects := by
    intro fd ch i payload entry found
    obtain ⟨hv, hc⟩ := (ConnTable.getConnectionRecord_eq_some inv.table).mp found
    have record := inv.table.record i (inv.table.used i hv)
    have valid := isChannelIdValid_of_lt fits record.channelid_nonneg record.channelid_lt
    simp [step, entry, forward, found, sendMsg, valid, addEffect, hc]
  constructor
  · intro forwards i hv
    obtain ⟨ch, entry, hid⟩ := inv.linked i hv
    have found := (ConnTable.getConnectionRecord_eq_some inv.table).mpr ⟨hv, hid.symm⟩
    have heq := (sent _ ch i [] entry found).symm.trans (forwards _ ch i [] entry found)
    obtain ⟨hchannel, -⟩ := Effect.handed.inj (List.cons.inj heq).1
    rw [hchannel, hid]
  · intro used fd ch i payload entry found
    obtain ⟨hv, hc⟩ := (ConnTable.getConnectionRecord_eq_some inv.table).mp found
    rw [sent fd ch i payload entry found, used i hv, hc]

end EpollServer

variable {maxconn channels : Nat} {events : List ServerEvent}

theorem assignmentAt_succ {k : Nat} {e : ServerEvent} (h : events[k]? = some e) :
    assignmentAt maxconn channels events (k + 1) =
      e.assign (serverAt maxconn channels events k) (assignmentAt maxconn channels events k) := by
  simp [assignmentAt, h]

/-- As long as the route messages agree, the records have the channels assigned to them. -/
theorem serverAt_routed (small : maxconn < 4294967296) (possible : PossibleRun maxconn channels events)
    {n : Nat}
    (alike : ∀ k < n, ∀ fromChannel msg i, events[k]? = some (.backendMsg fromChannel msg) →
      msg.cmdid = connsvrRoute →
      (serverAt maxconn channels events k).table.getConnectionRecord msg.connidInt = some i →
      msg.RoutesAlike (serverAt maxconn channels events k)
        ((serverAt maxconn channels events k).table.vec i).channelid) :
    (serverAt maxconn channels events n).Routed (assignmentAt maxconn channels events n) := by
  induction n with
  | zero =>
    refine ⟨?_, ?_⟩
    · intro i hv
      cases hv
    · intro i hv
      rfl
  | succ n ih =>
    have before := ih fun k hk => alike k (by omega)
    cases he : events[n]? with
    | none =>
      simp only [serverAt, stateAt_end he, assignmentAt, he]
      exact before
    | some e =>
      rw [serverAt, stateAt_succ he, assignmentAt_succ he]
      refine EpollServer.step_routed (serverAt_inv small possible n) (possible n e he) before ?_
      intro fromChannel msg i heq
      exact alike n (by omega) fromChannel msg i (by rw [he, heq])

/-- Every frame goes to the channel assigned last to its connection, in every state of a run, if and
only if every route message for a live connection carries, where `RouteHandle` looks for it, the
channel that its `route` asks for. -/
theorem routing_law_iff (small : maxconn < 4294967296) (fits : channels + 1 < 2147483648)
    (possible : PossibleRun maxconn channels events) :
    (∀ k, (serverAt maxconn channels events k).ForwardsTo (assignmentAt maxconn channels events k)) ↔
      ∀ k fromChannel msg i, events[k]? = some (.backendMsg fromChannel msg) → msg.cmdid = connsvrRoute →
        (serverAt maxconn channels events k).table.getConnectionRecord msg.connidInt = some i →
        msg.RoutesAlike (serverAt maxconn channels events k)
          ((serverAt maxconn channels events k).table.vec i).channelid := by
  have inv := serverAt_inv small possible
  have count : ∀ k, (serverAt maxconn channels events k).channelCount < 2147483648 := by
    intro k
    rw [(serverAt_config small possible k).1]
    exact fits
  constructor
  · intro forwards k fromChannel msg i he route found
    obtain ⟨hv, hc⟩ := (ConnTable.getConnectionRecord_eq_some (inv k).table).mp found
    have before := (EpollServer.forwardsTo_iff (inv k) (count k)).mp (forwards k) i hv
    have after := (EpollServer.forwardsTo_iff (inv (k + 1)) (count (k + 1))).mp (forwards (k + 1)) i
    have hstep : serverAt maxconn channels events (k + 1) =
        ((serverAt maxconn channels events k).routeHandle msg).2 := by
      rw [serverAt, stateAt_succ he, EpollServer.step, EpollServer.handleMsg_route route]
      rfl
    obtain ⟨hv', hc', hset⟩ := EpollServer.routeHandle_record (inv k) found
    have same : timesAssigned
        ((serverAt maxconn channels events k).step (.backendMsg fromChannel msg)).effects =
          timesAssigned (serverAt maxconn channels events k).effects := by
      rw [EpollServer.step, EpollServer.handleMsg_route route]
      exact EpollServer.routeHandle_timesAssigned found
    rw [hstep, assignmentAt_succ he, EpollServer.assign_backendMsg same, hc', Function.update_self] at after
    rw [EpollServer.routesAlike_iff route, ← hset, after hv', ← hc, ← before]
  · intro alike k
    rw [EpollServer.forwardsTo_iff (inv k) (count k)]
    exact (serverAt_routed small possible fun j _ => alike j).used

/-- A backend routes the client to channel 1, and its next frame still goes to channel 0. -/
def strayRun : List ServerEvent :=
  [.accept 5 ⟨1, 80⟩ true, .backendMsg 0 ⟨connsvrRoute, 0, ⟨1, 80⟩, 0, 0, 1, []⟩, .clientFrame 5 [7]]

theorem routing_law_stray :
    PossibleRun 1 1 strayRun ∧ assignmentAt 1 1 strayRun 2 0 = 1 ∧
    (serverAt 1 1 strayRun 3).effects =
      .handed 0 ⟨0, ⟨1, 80⟩, .msgNtf [7]⟩ :: (serverAt 1 1 strayRun 2).effects ∧
    ¬ ∀ k, (serverAt 1 1 strayRun k).ForwardsTo (assignmentAt 1 1 strayRun k) := by
  refine ⟨by decide +kernel, by decide +kernel, by decide +kernel, ?_⟩
  intro forwards
  have sent := forwards 2 5 ⟨0, 5, 0, true⟩ 0 [7] (by decide +kernel) (by decide +kernel)
  revert sent
  decide +kernel

/-- The route message also carries its channel as that of a start response. -/
def alikeRun : List ServerEvent :=
  [.accept 5 ⟨1, 80⟩ true, .backendMsg 0 ⟨connsvrRoute, 0, ⟨1, 80⟩, 0, 1, 1, []⟩, .clientFrame 5 [7]]

theorem routing_law_iff_alike :
    PossibleRun 1 1 alikeRun ∧ ∀ k, (serverAt 1 1 alikeRun k).ForwardsTo (assignmentAt 1 1 alikeRun k) := by
  have possible : PossibleRun 1 1 alikeRun := by decide +kernel
  refine ⟨possible, (routing_law_iff (by decide) (by decide) possible).mpr ?_⟩
  intro k fromChannel msg i he route found
  match k with
  | 0 => cases he
  | 1 =>
    obtain ⟨-, rfl⟩ := ServerEvent.backendMsg.inj (Option.some.inj he)
    exact ⟨fun _ => .inl (by decide), fun invalid => absurd invalid (by decide +kernel)⟩
  | 2 => cases he
  | k + 3 => cases he

end Wddlib
