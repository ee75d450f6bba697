import Wddlib.ConnNumbers
import Wddlib.Gateway

namespace Wddlib

/-- The messages that `connsvrtest` sends. -/
def BackendMsg.FromTest (msg : BackendMsg) : Prop :=
  msg.cmdid = connsvrStartRsp ∧ msg.accept = 0 ∧ msg.routechannel = 0 ∨ msg.cmdid = connsvrMsgNtf

/-- What the server does besides passing frames and payloads on: start requests go to channel 0, anywhere else only
stop messages go. -/
def Effect.Control : Effect → Prop
  | .assigned _ _ => True
  | .released _ _ => True
  | .handed channelid ⟨_, _, .startReq _ _⟩ => channelid = 0
  | .handed _ ⟨_, _, .stop _⟩ => True
  | .handed _ ⟨_, _, .route _⟩ => False
  | .handed _ ⟨_, _, .msgNtf _⟩ => False
  | .delivered _ _ _ => False

/-- The server keeps its tables and its log, and every connection is on channel 0. -/
structure EpollServer.Sound (s : EpollServer) : Prop where
  inv : s.Inv
  history : s.History
  numbers : s.Numbers
  routed : s.Routed fun _ => 0
  channel : s.isChannelIdValid 0 = true

namespace EpollServer

/-- What has been added to the log on the way from `s` to `s'`. -/
def Adds (P : Effect → Prop) (s s' : EpollServer) : Prop := ∃ new, s'.effects = new ++ s.effects ∧ ∀ e ∈ new, P e

/-- Numbers that come into use are assigned to new channel objects. -/
structure Opens (s s' : EpollServer) : Prop where
  serial_le : s.nextSerial ≤ s'.nextSerial
  inUse : ∀ c, s'.table.InUse c → s.table.InUse c ∨ ∃ n, s.nextSerial ≤ n ∧ .assigned n c ∈ s'.effects
  assigned : ∀ n c, .assigned n c ∈ s'.effects → .assigned n c ∈ s.effects ∨ s.nextSerial ≤ n

variable {s s' s'' : EpollServer} {lossy : Prop} {ch : ServerChannel} {fd connid : Int} {addr : InetAddress}
  {P : Effect → Prop} {e : Effect} {i : Nat}

theorem Adds.refl (P : Effect → Prop) (s : EpollServer) : Adds P s s := ⟨[], rfl, by simp⟩

theorem Adds.of_eq (h : s'.effects = s.effects) : Adds P s s' := ⟨[], h, by simp⟩

theorem Adds.trans (h : Adds P s s') (h' : Adds P s' s'') : Adds P s s'' := by
  obtain ⟨new, heq, all⟩ := h
  obtain ⟨new', heq', all'⟩ := h'
  refine ⟨new' ++ new, by rw [heq', heq, List.append_assoc], ?_⟩
  intro e he
  rcases List.mem_append.mp he with he | he
  · exact all' e he
  · exact all e he

theorem addEffect_adds (h : P e) : Adds P s (s.addEffect e) := ⟨[e], rfl, by simpa using h⟩

theorem closeConn_adds (s : EpollServer) (connid : Int) : Adds Effect.Control s (s.closeConn connid) := by
  cases found : s.table.getConnectionRecord connid with
  | none =>
    rw [closeConn_of_none found]
    exact .refl _ s
  | some i => exact ⟨[.released i connid], by rw [closeConn_effects found]; rfl, by simp [Effect.Control]⟩

theorem dropChannel_adds (s : EpollServer) (ch : ServerChannel) : Adds Effect.Control s (s.dropChannel ch) :=
  closeConn_adds s ch.id

theorem handleClose_adds (s : EpollServer) (ch : ServerChannel) : Adds Effect.Control s (s.handleClose ch) := by
  rcases handleClose_stop s ch with heq | ⟨channelid, addr, now, heq⟩
  · rw [heq]
    exact dropChannel_adds s ch
  · rw [heq]
    have stop : (Effect.handed channelid ⟨ch.id, addr, .stop now⟩).Control := trivial
    exact (addEffect_adds stop).trans (dropChannel_adds _ ch)

theorem freeFd_adds (s : EpollServer) (fd : Int) : Adds Effect.Control s (s.freeFd fd) := by
  unfold freeFd
  split
  · exact .refl _ s
  · exact handleClose_adds s _

theorem accept_adds {startSent : Bool} (inv : s.Inv) :
    Adds Effect.Control s (s.step (.accept fd addr startSent)) := by
  let opened : EpollServer := { s with isOpen := Function.update s.isOpen fd true }
  have inv' : opened.Inv := (@Move.opened True s fd).inv inv
  have freed : Adds Effect.Control s (opened.freeFd fd) := freeFd_adds opened fd
  have freedInv : (opened.freeFd fd).Inv := inv'.freeFd fd
  show Adds Effect.Control s (opened.onNewChannel fd addr startSent).2
  by_cases full : (opened.freeFd fd).table.getFreeIdx.1 < 0
  · rw [onNewChannel_full full]
    exact freed.trans (.of_eq rfl)
  · obtain ⟨i, rest, hi, hsplit, heq⟩ := @onNewChannel_announce opened fd addr startSent freedInv (by omega)
    have announced : Adds Effect.Control (opened.freeFd fd) ((opened.freeFd fd).announce fd addr i rest) :=
      ⟨_ :: [_], rfl, by simp [Effect.Control, startRequest]⟩
    rw [heq]
    cases startSent with
    | true => exact freed.trans announced
    | false => exact (freed.trans announced).trans (closeConn_adds _ _)

theorem Opens.refl (s : EpollServer) : Opens s s := ⟨le_rfl, fun _ used => .inl used, fun _ _ hm => .inl hm⟩

theorem Opens.trans (h : Opens s s') (h' : Opens s' s'') (keeps : ∀ e, e ∈ s'.effects → e ∈ s''.effects) :
    Opens s s'' where
  serial_le := h.serial_le.trans h'.serial_le
  inUse := by
    intro c used
    rcases h'.inUse c used with used | ⟨n, hn, hm⟩
    · rcases h.inUse c used with used | ⟨n, hn, hm⟩
      · exact .inl used
      · exact .inr ⟨n, hn, keeps _ hm⟩
    · exact .inr ⟨n, h.serial_le.trans hn, hm⟩
  assigned := by
    intro n c hm
    rcases h'.assigned n c hm with hm | hn
    · exact h.assigned n c hm
    · exact .inr (h.serial_le.trans hn)

theorem Move.adds (move : Move lossy s s') : Adds (fun _ => True) s s' := by
  cases move with
  | ticked => exact .of_eq rfl
  | opened => exact .of_eq rfl
  | routed => exact .of_eq rfl
  | refused => exact .of_eq rfl
  | sent => exact addEffect_adds trivial
  | delivered => exact addEffect_adds trivial
  | admitted => exact ⟨[_], rfl, fun _ _ => trivial⟩
  | dropped =>
    obtain ⟨new, heq, -⟩ := dropChannel_adds s _
    exact ⟨new, heq, fun _ _ => trivial⟩
  | abandoned loss connid =>
    obtain ⟨new, heq, -⟩ := closeConn_adds s connid
    exact ⟨new, heq, fun _ _ => trivial⟩

theorem closeConn_opens (inv : s.Inv) (connid : Int) : Opens s (s.closeConn connid) where
  serial_le := by
    unfold closeConn
    split <;> exact le_rfl
  inUse := by
    intro c used
    rw [closeConn_table, ConnTable.closeConn_inUse inv.table] at used
    exact .inl used.2
  assigned := by
    intro n c hm
    cases found : s.table.getConnectionRecord connid with
    | none =>
      rw [closeConn_of_none found] at hm
      exact .inl hm
    | some i =>
      rw [closeConn_effects found] at hm
      rcases List.mem_cons.mp hm with heq | hm
      · cases heq
      · exact .inl hm

theorem addEffect_opens (other : ∀ n c, e ≠ .assigned n c) : Opens s (s.addEffect e) where
  serial_le := le_rfl
  inUse := fun _ used => .inl used
  assigned := by
    intro n c hm
    rcases List.mem_cons.mp hm with heq | hm
    · exact absurd heq.symm (other n c)
    · exact .inl hm

theorem Move.opens (move : Move lossy s s') (inv : s.Inv) : Opens s s' := by
  cases move with
  | sent => exact addEffect_opens (by simp)
  | ticked => exact ⟨le_rfl, fun _ used => .inl used, fun _ _ hm => .inl hm⟩
  | opened => exact ⟨le_rfl, fun _ used => .inl used, fun _ _ hm => .inl hm⟩
  | @dropped ch entry =>
    have closed := closeConn_opens inv ch.id
    exact ⟨closed.serial_le, closed.inUse, closed.assigned⟩
  | routed i => exact ⟨le_rfl, fun _ used => .inl ((setChannelid_inUse _ _).mp used), fun _ _ hm => .inl hm⟩
  | delivered => exact addEffect_opens (by simp)
  | @admitted fd i rest addr pos new hi free live =>
    refine ⟨Nat.le_succ _, ?_, ?_⟩
    · intro c used
      rcases (enroll_inUse inv pos hi free).mp used with rfl | used
      · exact .inr ⟨s.nextSerial, le_rfl, List.mem_cons_self⟩
      · exact .inl used
    · intro n c hm
      rcases List.mem_cons.mp hm with heq | hm
      · exact .inr (Effect.assigned.inj heq).1.ge
      · exact .inl hm
  | refused =>
    refine ⟨Nat.le_succ _, ?_, fun _ _ hm => .inl hm⟩
    intro c used
    exact .inl (by simpa only [refuse, ConnTable.InUse, ConnTable.getFreeIdx_vec] using used)
  | abandoned loss connid => exact closeConn_opens inv connid

theorem Moves.adds (moves : Moves lossy s s') : Adds (fun _ => True) s s' := by
  induction moves with
  | refl => exact .refl _ s
  | tail _ move ih => exact ih.trans move.adds

theorem Adds.subset (h : Adds P s s') (he : e ∈ s.effects) : e ∈ s'.effects := by
  obtain ⟨new, heq, -⟩ := h
  rw [heq]
  exact List.mem_append_right _ he

theorem Moves.opens (moves : Moves lossy s s') (inv : s.Inv) : Opens s s' := by
  induction moves with
  | refl => exact .refl s
  | tail before move ih => exact ih.trans (move.opens (Moves.inv before inv)) fun _ he => move.adds.subset he

theorem assign_zero {ev : ServerEvent} (fromTest : ∀ k msg, ev = .backendMsg k msg → msg.FromTest) :
    ev.assign s (fun _ => 0) = fun _ => 0 := by
  funext c
  unfold ServerEvent.assign
  split
  · rfl
  cases ev with
  | backendMsg k msg =>
    rcases fromTest k msg rfl with ⟨hcmd, -, hroute⟩ | hcmd
    · have hzero : msg.routechannelInt = 0 := by
        rw [BackendMsg.routechannelInt, hroute]
        rfl
      have hother : ¬ msg.cmdid = connsvrRoute := by
        rw [hcmd]
        decide
      simp [hzero, hother]
    · have hother : ¬ msg.cmdid = connsvrRoute := by
        rw [hcmd]
        decide
      have hother' : ¬ msg.cmdid = connsvrStartRsp := by
        rw [hcmd]
        decide
      simp [hother, hother']
  | _ => rfl

theorem Sound.moves (h : s.Sound) (moves : Moves lossy s s') (routed : s'.Routed fun _ => 0) : s'.Sound := by
  have logged : s'.History ∧ s'.Numbers :=
    Moves.induct (P := fun s => s.History ∧ s.Numbers)
      (fun inv move before => ⟨move.history inv before.1, move.numbers inv before.1 before.2⟩) moves h.inv
      ⟨h.history, h.numbers⟩
  have count : s'.channelCount = s.channelCount :=
    Moves.induct (P := fun s' => s'.channelCount = s.channelCount)
      (fun _ move before => move.config.1.trans before) moves h.inv rfl
  refine ⟨moves.inv h.inv, logged.1, logged.2, routed, ?_⟩
  rw [isChannelIdValid, count]
  exact h.channel

theorem Sound.step (h : s.Sound) {ev : ServerEvent} (possible : ev.Possible s)
    (fromTest : ∀ k msg, ev = .backendMsg k msg → msg.FromTest) : (s.step ev).Sound := by
  have routed := step_routed h.inv possible h.routed (by
    rintro k msg i rfl route
    rcases fromTest k msg rfl with ⟨hcmd, -⟩ | hcmd <;> rw [hcmd] at route <;> cases route)
  rw [assign_zero fromTest] at routed
  exact h.moves (step_moves h.inv possible) routed

theorem Sound.sendMsg (h : s.Sound) (channelid : Int) (msg : ServerMsg) : (s.sendMsg channelid msg).Sound := by
  have moves : Moves True s (s.sendMsg channelid msg) := sendMsg_moves s channelid msg
  exact h.moves moves ((sendMsg_shrinks s channelid msg).routed h.routed)

theorem Sound.forward (h : s.Sound) (ch : ServerChannel) (payload : List UInt8) : (s.forward ch payload).Sound := by
  unfold EpollServer.forward
  split
  · exact h
  · exact h.sendMsg _ _

theorem Sound.forwards (h : s.Sound) (ch : ServerChannel) (payloads : List (List UInt8)) :
    (payloads.foldl (fun s payload => s.forward ch payload) s).Sound := by
  induction payloads generalizing s with
  | nil => exact h
  | cons payload payloads ih => exact ih (h.forward ch payload)

/-- The frames of a client are handed to channel 0 one after the other, and nothing else changes. -/
theorem Sound.forward_all (h : s.Sound) (found : s.table.getConnectionRecord ch.id = some i)
    (payloads : List (List UInt8)) :
    payloads.foldl (fun s payload => s.forward ch payload) s =
      { s with
        effects := (payloads.map fun payload =>
          Effect.handed 0 ⟨ch.id, (s.table.vec i).addr, .msgNtf payload⟩).reverse ++ s.effects } := by
  obtain ⟨hv, hc⟩ := (ConnTable.getConnectionRecord_eq_some h.inv.table).mp found
  have hzero : (s.table.vec i).channelid = 0 := h.routed.used i hv
  have hvalid := h.channel
  simp only [isChannelIdValid] at hvalid
  -- the table that the loop looks at stays the same, only the log grows
  have loop : ∀ (payloads : List (List UInt8)) (effects : List Effect),
      payloads.foldl (fun s payload => s.forward ch payload) { s with effects := effects } =
        { s with
          effects := (payloads.map fun payload =>
            Effect.handed 0 ⟨ch.id, (s.table.vec i).addr, .msgNtf payload⟩).reverse ++ effects } := by
    intro payloads
    induction payloads with
    | nil => exact fun _ => rfl
    | cons payload payloads ih =>
      intro effects
      have turn : EpollServer.forward { s with effects := effects } ch payload =
          { s with effects := .handed 0 ⟨ch.id, (s.table.vec i).addr, .msgNtf payload⟩ :: effects } := by
        simp only [EpollServer.forward, found, EpollServer.sendMsg, isChannelIdValid, hzero, hvalid, if_true, hc,
          EpollServer.addEffect]
      rw [List.foldl_cons, turn, ih]
      simp
  exact loop payloads s.effects

/-- A start response of `connsvrtest` changes nothing. -/
theorem Sound.startRsp (h : s.Sound) {msg : BackendMsg} (hcmd : msg.cmdid = connsvrStartRsp) (accept : msg.accept = 0)
    (route : msg.routechannel = 0) (k : Int) : s.step (.backendMsg k msg) = s := by
  have hroute : msg.routechannelInt = 0 := by
    rw [BackendMsg.routechannelInt, route]
    rfl
  simp only [EpollServer.step, handleMsg, hcmd, if_true, startRspHandle, accept, hroute, h.channel]
  cases found : s.table.getConnectionRecord msg.connidInt with
  | none => rfl
  | some i =>
    obtain ⟨hv, -⟩ := (ConnTable.getConnectionRecord_eq_some h.inv.table).mp found
    have hzero : (s.table.vec i).channelid = 0 := h.routed.used i hv
    have hrecord : { s.table.vec i with channelid := 0 } = s.table.vec i := by
      rw [← hzero]
    simp [setChannelid, ConnTable.setChannelid, ConnTable.setRecord, hrecord]

theorem mem_of_assignedTo {effects : List Effect} {n : Nat} (h : assignedTo effects connid = some n) :
    .assigned n connid ∈ effects := by
  obtain ⟨e, he, heq⟩ := List.exists_of_findSome?_eq_some h
  cases e with
  | assigned serial c =>
    simp only [Option.ite_none_right_eq_some] at heq
    obtain ⟨rfl, hserial⟩ := heq
    rw [← Option.some.inj hserial]
    exact he
  | _ => cases heq

/-- A notification of `connsvrtest` is written to the channel object that has its number, or the backend is told to
stop when nobody has it. -/
theorem Sound.msgNtf (h : s.Sound) {msg : BackendMsg} (hcmd : msg.cmdid = connsvrMsgNtf) {k : Int}
    (channel : s.isChannelIdValid k = true) :
    (¬ s.table.InUse msg.connidInt ∧ s.step (.backendMsg k msg) =
      s.addEffect (.handed k ⟨msg.connidInt, msg.addr, .stop s.currentTime⟩)) ∨
    ∃ n, s.table.InUse msg.connidInt ∧ .assigned n msg.connidInt ∈ s.effects ∧
      s.step (.backendMsg k msg) = s.addEffect (.delivered n msg.connidInt msg.buff) := by
  have hstep : s.step (.backendMsg k msg) = (s.msgNtfHandle msg k).2 := by
    simp [EpollServer.step, handleMsg, hcmd, connsvrMsgNtf, connsvrStartRsp, connsvrStop, connsvrRoute]
  rw [hstep, msgNtfHandle]
  cases found : s.table.getConnectionRecord msg.connidInt with
  | none =>
    left
    refine ⟨?_, by simp [EpollServer.sendMsg, channel]⟩
    rw [ConnTable.inUse_iff h.inv.table]
    rintro ⟨i, found'⟩
    rw [found] at found'
    cases found'
  | some i =>
    obtain ⟨hv, hc⟩ := (ConnTable.getConnectionRecord_eq_some h.inv.table).mp found
    obtain ⟨sc, entry, -⟩ := h.inv.linked i hv
    have owner := h.history.owner i hv sc entry
    rw [hc] at owner
    refine .inr ⟨sc.serial, ⟨i, hv, hc⟩, mem_of_assignedTo owner, ?_⟩
    simp [getSvrChannel, found, entry]

end EpollServer

end Wddlib
