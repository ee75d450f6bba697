import Wddlib.GatewayEcho
import Wddlib.MeasuredRun
import Mathlib.Algebra.Order.BigOperators.Group.Finset

namespace Wddlib

/-- What a message on a link is still good for: a payload comes back as a notification, and a notification that comes
too late makes the server send a stop message. -/
def ServerMsg.work (msg : ServerMsg) : Nat :=
  match msg.body with
  | .startReq _ _ => 2
  | .stop _ => 1
  | .route _ => 1
  | .msgNtf _ => 3

def BackendMsg.work (msg : BackendMsg) : Nat := if msg.cmdid = connsvrMsgNtf then 2 else 1

theorem BackendMsg.work_pos (msg : BackendMsg) : 0 < msg.work := by
  unfold BackendMsg.work
  split <;> omega

/-- A message is taken from a link of the server. -/
def GatewayEvent.Delivers (g : Gateway) : GatewayEvent → Prop
  | .toBackend k => g.server.isChannelIdValid k = true ∧ g.up k ≠ []
  | .toServer k => g.server.isChannelIdValid k = true ∧ g.down k ≠ []
  | _ => False

namespace Gateway

def linkWork (g : Gateway) (k : Int) : Nat :=
  ((g.up k).map ServerMsg.work).sum + ((g.down k).map BackendMsg.work).sum

def work (g : Gateway) (channels : Nat) : Nat := ∑ k ∈ Finset.range (channels + 1), g.linkWork k

/-- The connections are the same, and so is what the clients have sent. -/
structure SameClients (g g' : Gateway) : Prop where
  table_eq : g'.server.table = g.server.table
  channelMap_eq : g'.server.channelMap = g.server.channelMap
  count_eq : g'.server.channelCount = g.server.channelCount
  assigned : ∀ n c, .assigned n c ∈ g'.server.effects ↔ .assigned n c ∈ g.server.effects
  released : ∀ i c, .released i c ∈ g'.server.effects ↔ .released i c ∈ g.server.effects
  frames_eq : g'.frames = g.frames
  heard_eq : g'.heard = g.heard
  recvBuf_eq : g'.recvBuf = g.recvBuf

/-- Nothing is on the links. -/
def Idle (g : Gateway) : Prop := ∀ k, g.server.isChannelIdValid k = true → g.up k = [] ∧ g.down k = []

variable {g g' g'' : Gateway} {lossy : Prop} {conf : FrameConf} {channels : Nat} {k : Int} {e : GatewayEvent}

theorem linkWork_of_eq (up_eq : g'.up k = g.up k) (down_eq : g'.down k = g.down k) :
    g'.linkWork k = g.linkWork k := by
  rw [linkWork, linkWork, up_eq, down_eq]

theorem work_lt (few : channels + 1 < 2147483648) (count : g.server.channelCount = channels + 1)
    (valid : g.server.isChannelIdValid k = true) (others : ∀ j, j ≠ k → g'.linkWork j = g.linkWork j)
    (less : g'.linkWork k < g.linkWork k) : g'.work channels < g.work channels := by
  have hcount : int32 ((channels + 1 : Nat) : Int) = (channels + 1 : Nat) := int32_eq_self (by omega) (by omega)
  simp only [EpollServer.isChannelIdValid, count, hcount, decide_eq_true_eq] at valid
  obtain ⟨n, rfl⟩ := Int.eq_ofNat_of_zero_le valid.1
  refine Finset.sum_lt_sum ?_ ⟨n, Finset.mem_range.mpr (by omega), less⟩
  intro j _
  by_cases hj : (j : Int) = n
  · rw [hj]
    exact less.le
  · exact (others j hj).le

/-- The answer of the backend is good for less than what it answers. -/
theorem handleMsg_work (msg : ServerMsg) : ((ConnsvrTest.handleMsg msg).map BackendMsg.work).sum < msg.work := by
  obtain ⟨connid, addr, body⟩ := msg
  cases body <;> simp [ConnsvrTest.handleMsg, ConnsvrTest.startRspHandle, ConnsvrTest.stopHandle,
    ConnsvrTest.routeHandle, ConnsvrTest.msgNtfHandle, BackendMsg.work, ServerMsg.work, connsvrMsgNtf, connsvrStartRsp]

theorem work_toBackend (few : channels + 1 < 2147483648) (count : g.server.channelCount = channels + 1)
    (delivers : GatewayEvent.Delivers g (.toBackend k)) :
    (g.step conf (.toBackend k)).work channels < g.work channels := by
  obtain ⟨valid, some⟩ := delivers
  obtain ⟨msg, rest, hup⟩ := List.exists_cons_of_ne_nil some
  rw [step_toBackend_cons hup]
  refine work_lt few count valid ?_ ?_
  · intro j hj
    exact linkWork_of_eq (Function.update_of_ne hj _ _) (Function.update_of_ne hj _ _)
  · have := handleMsg_work msg
    simp only [linkWork, Function.update_self, hup, List.map_append, List.map_cons, List.sum_append, List.sum_cons]
    omega

theorem Flow.work_toServer (h : Flow lossy g) (few : channels + 1 < 2147483648)
    (count : g.server.channelCount = channels + 1) (delivers : GatewayEvent.Delivers g (.toServer k)) :
    (g.step conf (.toServer k)).work channels < g.work channels := by
  obtain ⟨valid, some⟩ := delivers
  obtain rfl : k = 0 := by
    by_contra hk
    exact some (h.lower k hk)
  obtain ⟨msg, rest, hdown⟩ := List.exists_cons_of_ne_nil some
  have fromTest := h.fromTest msg (by simp [hdown])
  rw [step_toServer_cons hdown]
  -- what the server sends, it sends to the same channel, and that is a stop message
  obtain ⟨new, heffects, hwork, hto⟩ : ∃ new, (g.server.step (.backendMsg 0 msg)).effects = new ++ g.server.effects ∧
      ((sentTo 0 new).map ServerMsg.work).sum < msg.work ∧ ∀ j, j ≠ 0 → sentTo j new = [] := by
    rcases fromTest with ⟨hcmd, accept, route⟩ | hcmd
    · refine ⟨[], ?_, msg.work_pos, fun _ _ => rfl⟩
      rw [h.sound.startRsp hcmd accept route]
      rfl
    · have hmsg : msg.work = 2 := by simp [BackendMsg.work, hcmd]
      rw [hmsg]
      rcases h.sound.msgNtf hcmd h.sound.channel with ⟨-, heq⟩ | ⟨n, -, -, heq⟩
      · refine ⟨[_], by rw [heq]; rfl, by simp [sentTo, ServerMsg.work], ?_⟩
        intro j hj
        simp [sentTo, Ne.symm hj]
      · exact ⟨[_], by rw [heq]; rfl, by simp [sentTo], fun j _ => rfl⟩
  have hup : ∀ j, (advance { g with down := Function.update g.down 0 rest } (g.server.step (.backendMsg 0 msg))).up j =
      g.up j ++ sentTo j new := fun j => advance_up heffects
  refine work_lt few count valid ?_ ?_
  · intro j hj
    refine linkWork_of_eq ?_ (Function.update_of_ne hj _ _)
    rw [hup, hto j hj, List.append_nil]
  · simp only [linkWork, hup, List.map_append, List.sum_append]
    show _ + (List.map BackendMsg.work (Function.update g.down 0 rest 0)).sum < _
    simp only [Function.update_self, hdown, List.map_cons, List.sum_cons]
    omega

theorem SameClients.of_links (server_eq : g'.server = g.server) (frames_eq : g'.frames = g.frames)
    (heard_eq : g'.heard = g.heard) (recvBuf_eq : g'.recvBuf = g.recvBuf) : SameClients g g' := by
  refine ⟨?_, ?_, ?_, ?_, ?_, frames_eq, heard_eq, recvBuf_eq⟩ <;> simp [server_eq]

theorem SameClients.trans (h : SameClients g g') (h' : SameClients g' g'') : SameClients g g'' where
  table_eq := h'.table_eq.trans h.table_eq
  channelMap_eq := h'.channelMap_eq.trans h.channelMap_eq
  count_eq := h'.count_eq.trans h.count_eq
  assigned := fun n c => (h'.assigned n c).trans (h.assigned n c)
  released := fun i c => (h'.released i c).trans (h.released i c)
  frames_eq := h'.frames_eq.trans h.frames_eq
  heard_eq := h'.heard_eq.trans h.heard_eq
  recvBuf_eq := h'.recvBuf_eq.trans h.recvBuf_eq

/-- A backend that sends everything back closes no connection and moves none to another channel. -/
theorem Flow.delivery_same (h : Flow lossy g) {e : GatewayEvent} (delivers : e.Delivers g) :
    SameClients g (g.step conf e) := by
  cases e with
  | toBackend k =>
    obtain ⟨msg, rest, hup⟩ := List.exists_cons_of_ne_nil delivers.2
    rw [step_toBackend_cons hup]
    exact .of_links rfl rfl rfl rfl
  | toServer k =>
    obtain ⟨msg, rest, hdown⟩ := List.exists_cons_of_ne_nil delivers.2
    obtain rfl : k = 0 := by
      by_contra hk
      exact delivers.2 (h.lower k hk)
    rw [step_toServer_cons hdown]
    rcases h.fromTest msg (by simp [hdown]) with ⟨hcmd, accept, route⟩ | hcmd
    · rw [h.sound.startRsp hcmd accept route]
      exact .of_links rfl rfl rfl rfl
    · rcases h.sound.msgNtf hcmd h.sound.channel with ⟨-, heq⟩ | ⟨n, -, -, heq⟩
      · rw [heq]
        exact ⟨rfl, rfl, rfl, by simp [advance, EpollServer.addEffect], by simp [advance, EpollServer.addEffect], rfl,
          rfl, rfl⟩
      · rw [heq]
        exact ⟨rfl, rfl, rfl, by simp [advance, EpollServer.addEffect], by simp [advance, EpollServer.addEffect], rfl,
          rfl, rfl⟩
  | _ => exact absurd delivers id

theorem SameClients.unwrapped (h : SameClients g g')
    (fine : Unwrapped g.server.table.maxconn g.server.effects) :
    Unwrapped g'.server.table.maxconn g'.server.effects := by
  intro i c hr
  rw [h.table_eq]
  exact fine i c ((h.released i c).mp hr)

/-- What deliveries keep. -/
structure Drained (lossy : Prop) (channels : Nat) (g₀ g : Gateway) : Prop where
  flow : Flow lossy g
  unwrapped : Unwrapped g.server.table.maxconn g.server.effects
  count : g.server.channelCount = channels + 1
  same : SameClients g₀ g

theorem deliveries_fall (lossy : Prop) (conf : FrameConf) (few : channels + 1 < 2147483648) (g₀ : Gateway) :
    Falls (step conf) (fun g e => e.Delivers g) (Drained lossy channels g₀) fun g => g.work channels where
  keep := by
    intro g e h delivers
    have same : SameClients g (g.step conf e) := h.flow.delivery_same delivers
    have unwrapped := same.unwrapped h.unwrapped
    refine ⟨?_, unwrapped, same.count_eq.trans h.count, h.same.trans same⟩
    cases e with
    | toBackend k => exact h.flow.toBackend conf k
    | toServer k => exact h.flow.toServer conf k unwrapped
    | _ => exact absurd delivers id
  fall := by
    intro g e h delivers
    cases e with
    | toBackend k => exact work_toBackend few h.count delivers
    | toServer k => exact h.flow.work_toServer few h.count delivers
    | _ => exact absurd delivers id

/-- A loop that ends has found nothing more. -/
theorem drainLoop_last {next : Buffer → Option (List UInt8 × Nat)} {fuel : Nat} {b b' : Buffer}
    {payloads : List (List UInt8)} (h : drainLoop next fuel b = some (payloads, b')) : next b' = none := by
  induction fuel generalizing b payloads with
  | zero => cases h
  | succ fuel ih =>
    simp only [drainLoop] at h
    cases found : next b with
    | none =>
      simp only [found, Option.some.injEq, Prod.mk.injEq] at h
      obtain ⟨-, rfl⟩ := h
      exact found
    | some r =>
      simp only [found] at h
      obtain ⟨⟨rest, last⟩, hrest, heq⟩ := Option.map_eq_some_iff.mp h
      obtain ⟨-, rfl⟩ := Prod.mk.inj heq
      exact ih hrest

/-- In the buffer of a client `OnMsgRecv` has found no frame, with the bytes that were behind the buffer then. -/
def Waits (conf : FrameConf) (g : Gateway) (n : Nat) : Prop := ∃ behind, conf.onMsgRecv behind (g.recvBuf n) = none

/-- Every client with a live number waits for the rest of a frame, and a channel object without a number has got
nothing. -/
structure Framed (conf : FrameConf) (g : Gateway) : Prop where
  unread : ∀ n, (∀ c, .assigned n c ∉ g.server.effects) → (g.recvBuf n).content = []
  waits : ∀ n c, .assigned n c ∈ g.server.effects → g.server.table.InUse c → g.Waits conf n

theorem recv_recvBuf (conf : FrameConf) (g : Gateway) (ch : ServerChannel) (seg : Segment) {n : Nat}
    (other : n ≠ ch.serial) : (g.recv conf ch seg).recvBuf n = g.recvBuf n := by
  unfold Gateway.recv
  dsimp only
  split
  next => exact Function.update_of_ne other _ _
  next =>
    split
    next => exact Function.update_of_ne other _ _
    next => exact (Function.update_of_ne other _ _).trans (Function.update_of_ne other _ _)

/-- A read from a client with a record drains its buffer. -/
theorem recv_waits {ch : ServerChannel} {seg : Segment} (returns : g.Returns conf ch seg)
    (found : g.server.table.getConnectionRecord ch.id ≠ none) : (g.recv conf ch seg).Waits conf ch.serial := by
  obtain ⟨⟨payloads, b⟩, loop⟩ := Option.isSome_iff_exists.mp (returns found)
  obtain ⟨i, hi⟩ := Option.ne_none_iff_exists'.mp found
  refine ⟨seg.behind, ?_⟩
  simp only [Gateway.recv, hi, loop, Function.update_self]
  exact drainLoop_last loop

/-- Only a read changes a receive buffer. -/
theorem step_recvBuf (conf : FrameConf) (g : Gateway) (e : GatewayEvent) (n : Nat) :
    (g.step conf e).recvBuf n = g.recvBuf n ∨
      ∃ fd seg ch, e = .clientBytes fd seg ∧ g.server.channelMap fd = some ch ∧ n = ch.serial := by
  cases e with
  | clientBytes fd seg =>
    simp only [Gateway.step]
    cases entry : g.server.channelMap fd with
    | none => exact .inl rfl
    | some ch =>
      by_cases same : n = ch.serial
      · exact .inr ⟨fd, seg, ch, rfl, entry, same⟩
      · exact .inl (recv_recvBuf conf g ch seg same)
  | toBackend k =>
    left
    simp only [Gateway.step]
    split <;> rfl
  | toServer k =>
    left
    simp only [Gateway.step]
    split <;> rfl
  | accept fd addr startSent => exact .inl rfl
  | clientClose fd => exact .inl rfl
  | tick now => exact .inl rfl
  | loseUp k i => exact .inl rfl
  | loseDown k i => exact .inl rfl

theorem Framed.step (h : Framed conf g) (flow : Flow lossy g) {lossy' : Prop} (after : Flow lossy' (g.step conf e))
    (possible : g.Possible conf e) (before : Unwrapped g.server.table.maxconn g.server.effects)
    (fine : Unwrapped (g.step conf e).server.table.maxconn (g.step conf e).server.effects) :
    Framed conf (g.step conf e) := by
  obtain ⟨_, moves⟩ := step_moves flow.sound.inv possible
  have opens := moves.opens flow.sound.inv
  have keeps : ∀ eff, eff ∈ g.server.effects → eff ∈ (g.step conf e).server.effects := fun eff heff =>
    moves.adds.subset heff
  -- a channel object that has been read from has a number, which it had before
  have read : ∀ n, (g.step conf e).recvBuf n = g.recvBuf n ∨
      ∃ c, .assigned n c ∈ g.server.effects ∧ ((g.server.table.InUse c) → (g.step conf e).Waits conf n) := by
    intro n
    rcases step_recvBuf conf g e n with same | ⟨fd, seg, ch, rfl, entry, rfl⟩
    · exact .inl same
    · refine .inr ⟨ch.id, flow.sound.numbers.named fd ch entry possible.1, fun used => ?_⟩
      have found := (ConnTable.inUse_iff flow.sound.inv.table).mp used
      simp only [Gateway.step, entry]
      exact recv_waits (possible.2 ch entry) (Option.ne_none_iff_exists'.mpr found)
  constructor
  · intro n unassigned
    have old : ∀ c, .assigned n c ∉ g.server.effects := fun c hm => unassigned c (keeps _ hm)
    rcases read n with same | ⟨c, hm, -⟩
    · rw [same]
      exact h.unread n old
    · exact absurd hm (old c)
  · intro n c hm used
    by_cases hn : g.server.nextSerial ≤ n
    · have old : ∀ c, .assigned n c ∉ g.server.effects := fun c hm => by
        have := flow.sound.numbers.serial_lt n c hm
        omega
      rcases read n with same | ⟨c', hm', -⟩
      · refine ⟨fun _ => 0, ?_⟩
        rw [same]
        exact onMsgRecv_nothing conf _ _ (flow.wf n) (h.unread n old)
      · exact absurd hm' (old c')
    · have hold := (opens.assigned n c hm).resolve_right hn
      have inUse : g.server.table.InUse c := by
        rcases opens.inUse c used with used | ⟨n', hn', hm'⟩
        · exact used
        · have := (after.sound.numbers.one_each fine n c n' c hm hm').mpr rfl
          omega
      rcases read n with same | ⟨c', hm', waits⟩
      · obtain ⟨behind, hnone⟩ := h.waits n c hold inUse
        exact ⟨behind, by rw [same]; exact hnone⟩
      · obtain rfl := (flow.sound.numbers.one_each before n c n c' hold hm').mp rfl
        exact waits inUse

/-- As long as something is on a link, it can be delivered. -/
theorem idle_or_delivers (g : Gateway) : g.Idle ∨ ∃ e : GatewayEvent, e.Delivers g := by
  by_cases idle : g.Idle
  · exact .inl idle
  · right
    simp only [Idle, not_forall, not_and_or] at idle
    obtain ⟨k, valid, up | down⟩ := idle
    · exact ⟨.toBackend k, valid, up⟩
    · exact ⟨.toServer k, valid, down⟩

end Gateway

variable {maxconn channels : Nat} {conf : FrameConf} {events : List GatewayEvent}

theorem gatewayAt_framed (small : maxconn < 4294967296) (few : channels + 1 < 2147483648)
    (possible : PossibleGatewayRun maxconn channels conf events) {n : Nat}
    (unwrapped : Unwrapped maxconn (gatewayAt maxconn channels conf events n).server.effects) :
    Gateway.Framed conf (gatewayAt maxconn channels conf events n) := by
  induction n with
  | zero =>
    refine ⟨fun _ _ => Buffer.content_create _, ?_⟩
    rintro n c hm
    cases hm
  | succ n ih =>
    cases he : events[n]? with
    | none =>
      rw [gatewayAt, stateAt_end he] at unwrapped ⊢
      exact ih unwrapped
    | some e =>
      have before : Unwrapped maxconn (gatewayAt maxconn channels conf events n).server.effects := fun i c hr =>
        unwrapped i c (gatewayAt_effects small possible he hr)
      have flow := gatewayAt_flow small few possible before
      have after := gatewayAt_flow small few possible unwrapped
      have scaled : ∀ j, Unwrapped maxconn (gatewayAt maxconn channels conf events j).server.effects →
          Unwrapped (gatewayAt maxconn channels conf events j).server.table.maxconn
            (gatewayAt maxconn channels conf events j).server.effects := by
        intro j fine
        rw [(gatewayAt_inv small possible j).2.2]
        exact fine
      have fine := scaled (n + 1) unwrapped
      rw [gatewayAt, stateAt_succ he] at fine after ⊢
      exact (ih before).step flow after (possible n e he) (scaled n before) fine

/-- After a run without losses, messages can only be delivered so many times, and when none is left every client that
was connected still is and has got back all its frames; what else it sent waits for the rest of a frame, `OnMsgRecv`
having found none in it. -/
theorem echo_complete (small : maxconn < 4294967296) (few : channels + 1 < 2147483648)
    (possible : PossibleGatewayRun maxconn channels conf events) (k : Nat)
    (unwrapped : Unwrapped maxconn (gatewayAt maxconn channels conf events k).server.effects)
    (lossless : ¬ LossyRun maxconn channels conf events k) :
    let g := gatewayAt maxconn channels conf events k
    let Deliveries := UsefulRun (Gateway.step conf) (fun g e => e.Delivers g) g
    (∀ ds, Deliveries ds → ds.length ≤ g.work channels) ∧
    (∃ ds, Deliveries ds ∧ (ds.foldl (Gateway.step conf) g).Idle) ∧
    ∀ ds, Deliveries ds → (ds.foldl (Gateway.step conf) g).Idle →
      ∀ n c, .assigned n c ∈ g.server.effects → g.server.table.getConnectionRecord c ≠ none →
        let g' := ds.foldl (Gateway.step conf) g
        g'.server.table = g.server.table ∧ writtenTo n g'.server.effects = g.frames n ∧
          (writtenTo n g'.server.effects).flatten ++ (g'.recvBuf n).content = g.heard n ∧ g'.Waits conf n := by
  intro g Deliveries
  let lossy := LossyRun maxconn channels conf events k
  obtain ⟨-, count, config⟩ := gatewayAt_inv small possible k
  have flow : g.Flow lossy := gatewayAt_flow small few possible unwrapped
  have start : Gateway.Drained lossy channels g g := by
    refine ⟨flow, ?_, count, .of_links rfl rfl rfl rfl⟩
    rw [config]
    exact unwrapped
  have falls := Gateway.deliveries_fall lossy conf few g
  refine ⟨fun ds run => run.length_le falls start, falls.exists_idle (fun g _ => g.idle_or_delivers) start, ?_⟩
  intro ds run idle n c assigned found g'
  have last : Gateway.Drained lossy channels g g' := run.keep falls start
  have used : g'.server.table.InUse c := by
    rw [last.same.table_eq, ConnTable.inUse_iff flow.sound.inv.table]
    exact Option.ne_none_iff_exists'.mp found
  obtain ⟨hup, hdown⟩ : g'.up 0 = [] ∧ g'.down 0 = [] := idle 0 last.flow.sound.channel
  have echoed := (last.flow.live n c ((last.same.assigned n c).mpr assigned) used).whole lossless
  rw [hup, hdown, last.same.frames_eq] at echoed
  have echoed : writtenTo n g'.server.effects = g.frames n := by simpa [upFor, downFor] using echoed
  have waits := (gatewayAt_framed small few possible unwrapped).waits n c assigned
    ((ConnTable.inUse_iff flow.sound.inv.table).mpr (Option.ne_none_iff_exists'.mp found))
  refine ⟨last.same.table_eq, echoed, ?_, ?_⟩
  · rw [echoed, last.same.recvBuf_eq]
    exact (flow.bytes n).whole lossless
  · rw [Gateway.Waits, last.same.recvBuf_eq]
    exact waits

theorem echo_complete_half :
    ∃ ds : List GatewayEvent, ds.length ≤ 4 ∧
      writtenTo 1 (ds.foldl (Gateway.step ⟨0, 2⟩) (gatewayAt 2 1 ⟨0, 2⟩ echoRun 6)).server.effects = [[0, 3, 9]] := by
  obtain ⟨bounded, ⟨ds, run, idle⟩, complete⟩ :=
    echo_complete (by decide) (by decide) (by decide +kernel) 6 (by decide +kernel)
      (show ¬ LossyRun 2 1 ⟨0, 2⟩ echoRun 6 by decide +kernel)
  have hwork : (gatewayAt 2 1 ⟨0, 2⟩ echoRun 6).work 1 = 4 := by decide +kernel
  have hframes : (gatewayAt 2 1 ⟨0, 2⟩ echoRun 6).frames 1 = [[0, 3, 9]] := by decide +kernel
  refine ⟨ds, (bounded ds run).trans_eq hwork, ?_⟩
  exact (complete ds run idle 1 0 (by decide +kernel) (by decide +kernel)).2.1.trans hframes

end Wddlib
