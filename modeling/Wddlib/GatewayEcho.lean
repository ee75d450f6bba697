import Wddlib.GatewayFlow

namespace Wddlib

namespace Gateway

variable {g : Gateway} {lossy : Prop} {conf : FrameConf}

/-- A read keeps the bytes that were pending, unless there are too many of them: then they are thrown away. -/
theorem scatterRead_pending {b : Buffer} {chunk : List UInt8} (wf : b.Wf) (fits : chunk.length ≤ 1073741824) :
    ∃ pending, (b.scatterRead chunk).Wf ∧ (b.scatterRead chunk).content = pending ++ chunk ∧
      pending.Sublist b.content ∧ (¬ kMaxRecvBufSize < b.readableBytes → pending = b.content) := by
  have hread := Buffer.readableBytes_eq wf
  by_cases flooded : kMaxRecvBufSize < b.readableBytes
  · obtain ⟨wf', hcontent⟩ := Buffer.retrieve_spec wf b.readableBytes
    have hnil : (b.retrieve b.readableBytes).2.content = [] := by
      rw [hcontent, hread, List.drop_length]
    have hread' := Buffer.readableBytes_eq wf'
    rw [hnil] at hread'
    have same : b.scatterRead chunk = (b.retrieve b.readableBytes).2.scatterRead chunk := by
      have few : ¬ (b.retrieve b.readableBytes).2.readableBytes > kMaxRecvBufSize := by simp [hread']
      simp only [Buffer.scatterRead, gt_iff_lt, flooded, few, if_true, if_false]
    obtain ⟨wf'', hcontent''⟩ := @Buffer.scatterRead_spec _ chunk wf' (by simp [hnil])
      (by rw [hnil, List.length_nil]; omega)
    rw [← same] at wf'' hcontent''
    exact ⟨[], wf'', by rw [hcontent'', hnil], List.nil_sublist _, fun fine => absurd flooded fine⟩
  · have hmax : kMaxRecvBufSize < 1073741824 := by decide
    obtain ⟨wf', hcontent⟩ := @Buffer.scatterRead_spec _ chunk wf (by omega) (by omega)
    exact ⟨b.content, wf', hcontent, .refl _, fun _ => rfl⟩

/-- What the loop of `OnMsgRecv` forwards and what it leaves are the bytes it has found, in order, wherever the length
field is looked for. -/
theorem drainLoop_partition {conf : FrameConf} {behind : Nat → UInt8} {fuel : Nat} {b b' : Buffer}
    {payloads : List (List UInt8)} (wf : b.Wf)
    (h : drainLoop (conf.onMsgRecv behind) fuel b = some (payloads, b')) :
    b'.Wf ∧ payloads.flatten ++ b'.content = b.content := by
  induction fuel generalizing b payloads with
  | zero => simp [drainLoop] at h
  | succ fuel ih =>
    simp only [drainLoop] at h
    cases turn : conf.onMsgRecv behind b with
    | none =>
      simp only [turn, Option.some.injEq, Prod.mk.injEq] at h
      obtain ⟨rfl, rfl⟩ := h
      exact ⟨wf, rfl⟩
    | some found =>
      simp only [turn] at h
      obtain ⟨⟨rest, last⟩, hrest, heq⟩ := Option.map_eq_some_iff.mp h
      obtain ⟨rfl, rfl⟩ := Prod.mk.inj heq
      rw [FrameConf.onMsgRecv_ite conf behind wf] at turn
      split at turn
      next =>
        obtain rfl := Option.some.inj turn
        obtain ⟨wf', hcontent⟩ := Buffer.retrieve_spec wf (conf.msglen behind b)
        obtain ⟨wf'', hpart⟩ := ih wf' hrest
        refine ⟨wf'', ?_⟩
        rw [List.flatten_cons, List.append_assoc, hpart, hcontent]
        exact List.take_append_drop _ _
      next => cases turn

theorem onMsgRecv_nothing (conf : FrameConf) (behind : Nat → UInt8) (b : Buffer) (wf : b.Wf) (h : b.content = []) :
    conf.onMsgRecv behind b = none := by
  rw [FrameConf.onMsgRecv_ite conf behind wf, h, List.length_nil, Nat.zero_mod]
  exact if_neg (by omega)

/-- The frames of a client go to channel 0, and the bytes that are left stay in the buffer. -/
theorem Flow.forward (h : Flow lossy g) {ch : ServerChannel} {i : Nat} {b : Buffer} {payloads : List (List UInt8)}
    (named : .assigned ch.serial ch.id ∈ g.server.effects)
    (found : g.server.table.getConnectionRecord ch.id = some i)
    (fine : Unwrapped g.server.table.maxconn g.server.effects) (wf : b.Wf)
    (part : payloads.flatten ++ b.content = (g.recvBuf ch.serial).content) :
    Flow lossy { g.advance (payloads.foldl (fun s payload => s.forward ch payload) g.server) with
      recvBuf := Function.update g.recvBuf ch.serial b
      frames := Function.update g.frames ch.serial (g.frames ch.serial ++ payloads) } := by
  have sound := h.sound.forwards ch payloads
  have one := h.sound.numbers.one_each fine
  rw [h.sound.forward_all found] at sound ⊢
  let new : List Effect := (payloads.map fun payload =>
    Effect.handed 0 ⟨ch.id, (g.server.table.vec i).addr, .msgNtf payload⟩).reverse
  have hup : ∀ k, (g.advance { g.server with effects := new ++ g.server.effects }).up k =
      g.up k ++ if k = 0 then payloads.map fun payload => ⟨ch.id, (g.server.table.vec i).addr, .msgNtf payload⟩
        else [] := by
    intro k
    rw [← sentTo_forwards]
    exact advance_up rfl
  have hflight : ∀ c, upFor c ((g.advance { g.server with effects := new ++ g.server.effects }).up 0) =
      upFor c (g.up 0) ++ if ch.id = c then payloads else [] := by
    intro c
    rw [hup, if_pos rfl, upFor_append, upFor_forwards]
  have hwritten : ∀ n, writtenTo n (new ++ g.server.effects) = writtenTo n g.server.effects := by
    intro n
    rw [writtenTo_append, writtenTo_forwards, List.append_nil]
  have hassigned : ∀ n c, .assigned n c ∈ new ++ g.server.effects ↔ .assigned n c ∈ g.server.effects := by
    intro n c
    simp [new]
  have hframes : ∀ n, Function.update g.frames ch.serial (g.frames ch.serial ++ payloads) n =
      g.frames n ++ if n = ch.serial then payloads else [] := by
    intro n
    by_cases hn : n = ch.serial
    · subst hn
      rw [Function.update_self, if_pos rfl]
    · rw [Function.update_of_ne hn, if_neg hn, List.append_nil]
  refine ⟨sound, ?_, h.lower, h.fromTest, ?_, ?_, ?_, ?_, ?_, ?_⟩
  · intro k hk msg hm
    refine h.upper k hk msg ?_
    have same := hup k
    rw [if_neg hk, List.append_nil] at same
    rw [← same]
    exact hm
  · intro c unassigned
    have old : ∀ n, .assigned n c ∉ g.server.effects := fun n hm => unassigned n ((hassigned n c).mpr hm)
    obtain ⟨hu, hd⟩ := h.unnumbered c old
    have hc : ¬ ch.id = c := by
      rintro rfl
      exact old _ named
    exact ⟨by rw [hflight, hu, if_neg hc]; rfl, hd⟩
  · intro n unassigned
    have old : ∀ c, .assigned n c ∉ g.server.effects := fun c hm => unassigned c ((hassigned n c).mpr hm)
    obtain ⟨hw, hf⟩ := h.silent n old
    have hn : ¬ n = ch.serial := by
      rintro rfl
      exact old _ named
    exact ⟨(hwritten n).trans hw, (hframes n).trans (by rw [hf, if_neg hn]; rfl)⟩
  · intro n c hm used
    have hm := (hassigned n c).mp hm
    have before := h.live n c hm used
    have hsame : n = ch.serial ↔ ch.id = c := (one n c _ _ hm named).trans eq_comm
    simp only [hframes, hsame]
    show Carried lossy (writtenTo n (new ++ g.server.effects) ++ (downFor c (g.down 0) ++ upFor c _)) _
    rw [hwritten, hflight, ← List.append_assoc, ← List.append_assoc, List.append_assoc (writtenTo _ _)]
    exact before.append _
  · intro n
    simp only [hframes]
    show Kept lossy (writtenTo n (new ++ g.server.effects)) _
    rw [hwritten]
    exact (h.kept n).grow _
  · intro n
    by_cases hn : n = ch.serial
    · subst hn
      simpa only [Function.update_self] using wf
    · simpa only [Function.update_of_ne hn] using h.wf n
  · intro n
    by_cases hn : n = ch.serial
    · subst hn
      simp only [Function.update_self, List.flatten_append, List.append_assoc, part]
      exact h.bytes _
    · simp only [Function.update_of_ne hn]
      exact h.bytes n

theorem Flow.recv (h : Flow lossy g) {conf : FrameConf} {ch : ServerChannel} {seg : Segment}
    (named : .assigned ch.serial ch.id ∈ g.server.effects)
    (fine : Unwrapped g.server.table.maxconn g.server.effects)
    (losing : kMaxRecvBufSize < (g.recvBuf ch.serial).readableBytes → lossy) : Flow lossy (g.recv conf ch seg) := by
  obtain ⟨pending, wf, hcontent, sub, whole⟩ := scatterRead_pending (h.wf ch.serial) seg.fits
  let g' : Gateway := { g with
    recvBuf := Function.update g.recvBuf ch.serial ((g.recvBuf ch.serial).scatterRead seg.chunk)
    heard := Function.update g.heard ch.serial (g.heard ch.serial ++ seg.chunk) }
  have read : Flow lossy g' := by
    refine { h with wf := ?_, bytes := ?_ }
    · intro n
      by_cases hn : n = ch.serial
      · subst hn
        simpa only [g', Function.update_self] using wf
      · simpa only [g', Function.update_of_ne hn] using h.wf n
    · intro n
      by_cases hn : n = ch.serial
      · subst hn
        have pend : Carried lossy pending (g.recvBuf ch.serial).content :=
          ⟨sub, fun fine => whole fun flooded => fine (losing flooded)⟩
        simp only [g', Function.update_self, hcontent, ← List.append_assoc]
        exact ((pend.append_left _).trans (h.bytes ch.serial)).append _
      · simpa only [g', Function.update_of_ne hn] using h.bytes n
  unfold Gateway.recv
  cases found : g.server.table.getConnectionRecord ch.id with
  | none => simpa only [found] using read
  | some i =>
    simp only [found]
    split
    next => exact read
    next payloads b loop =>
      obtain ⟨wf', part⟩ := drainLoop_partition wf loop
      have hbuf : g'.recvBuf ch.serial = (g.recvBuf ch.serial).scatterRead seg.chunk := Function.update_self _ _ _
      exact read.forward named found fine wf' (by rw [part, hbuf])

theorem forwards_moves (s : EpollServer) (ch : ServerChannel) (payloads : List (List UInt8)) :
    EpollServer.Moves True s (payloads.foldl (fun s payload => s.forward ch payload) s) := by
  induction payloads generalizing s with
  | nil => exact .refl
  | cons payload payloads ih =>
    have turn : EpollServer.Moves True s (s.forward ch payload) := by
      unfold EpollServer.forward
      split
      · exact .refl
      · exact EpollServer.sendMsg_moves s _ _
    exact turn.trans (ih _)

/-- What happens to the server in an event. -/
theorem step_moves (inv : g.server.Inv) {e : GatewayEvent} (possible : g.Possible conf e) :
    ∃ lossy, EpollServer.Moves lossy g.server (g.step conf e).server := by
  cases e with
  | accept fd addr startSent => exact ⟨_, EpollServer.step_moves (e := .accept fd addr startSent) inv possible⟩
  | clientClose fd => exact ⟨_, EpollServer.step_moves (e := .clientClose fd) inv trivial⟩
  | tick now => exact ⟨_, EpollServer.step_moves (e := .tick now) inv trivial⟩
  | clientBytes fd seg =>
    simp only [step]
    split
    next => exact ⟨True, .refl⟩
    next ch _ =>
      unfold recv
      dsimp only
      split
      next => exact ⟨True, .refl⟩
      next =>
        split
        next => exact ⟨True, .refl⟩
        next payloads b _ => exact ⟨True, forwards_moves g.server ch payloads⟩
  | toBackend k =>
    cases hup : g.up k with
    | nil =>
      rw [step_toBackend_nil hup]
      exact ⟨True, .refl⟩
    | cons msg rest =>
      rw [step_toBackend_cons hup]
      exact ⟨True, .refl⟩
  | toServer k =>
    cases hdown : g.down k with
    | nil =>
      rw [step_toServer_nil hdown]
      exact ⟨True, .refl⟩
    | cons msg rest =>
      rw [step_toServer_cons hdown]
      exact ⟨_, EpollServer.step_moves (e := .backendMsg k msg) inv trivial⟩
  | loseUp k i => exact ⟨True, .refl⟩
  | loseDown k i => exact ⟨True, .refl⟩

theorem create_flow (lossy : Prop) {maxconn channels : Nat} (small : maxconn < 4294967296)
    (few : channels + 1 < 2147483648) : Flow lossy (create maxconn channels) where
  sound := by
    refine ⟨EpollServer.create_inv small channels, EpollServer.create_history _ _, EpollServer.create_numbers _ _,
      ⟨?_, ?_⟩, ?_⟩
    · intro i hv
      cases hv
    · intro i hv
      rfl
    · have hcount : int32 ((channels + 1 : Nat) : Int) = channels + 1 := int32_eq_self (by omega) (by omega)
      simp only [create, EpollServer.create, EpollServer.isChannelIdValid, hcount, decide_eq_true_eq]
      omega
  upper := by
    intro k hk msg hm
    cases hm
  lower := fun _ _ => rfl
  fromTest := by
    intro msg hm
    cases hm
  unnumbered := fun _ _ => ⟨rfl, rfl⟩
  silent := fun _ _ => ⟨rfl, rfl⟩
  live := by
    intro n c hm
    cases hm
  kept := fun _ => .nil lossy []
  wf := fun _ => Buffer.create_wf (by decide)
  bytes := by
    intro n
    have empty : (Buffer.create 1024).content = [] := Buffer.content_create _
    simp only [create, empty, List.flatten_nil, List.append_nil]
    exact .nil lossy

theorem Flow.step (h : Flow lossy g) {e : GatewayEvent} (possible : g.Possible conf e) (losing : g.Loses e → lossy)
    (fine : Unwrapped (g.step conf e).server.table.maxconn (g.step conf e).server.effects)
    (before : Unwrapped g.server.table.maxconn g.server.effects) : Flow lossy (g.step conf e) := by
  have inv := h.sound.inv
  cases e with
  | accept fd addr startSent =>
    have moves := EpollServer.step_moves (e := .accept fd addr startSent) inv possible
    exact h.control (h.sound.step possible (by simp)) (moves.opens inv) (EpollServer.accept_adds inv) fine
  | clientClose fd =>
    have moves := EpollServer.step_moves (e := .clientClose fd) inv trivial
    refine h.control (h.sound.step trivial (by simp)) (moves.opens inv) ?_ fine
    simp only [EpollServer.step]
    split
    · exact .refl _ _
    · exact EpollServer.handleClose_adds _ _
  | tick now =>
    have moves := EpollServer.step_moves (e := .tick now) inv trivial
    exact h.control (h.sound.step trivial (by simp)) (moves.opens inv) (.of_eq rfl) fine
  | clientBytes fd seg =>
    simp only [Gateway.step]
    cases entry : g.server.channelMap fd with
    | none => exact h
    | some ch =>
      exact h.recv (h.sound.numbers.named fd ch entry possible.1) before fun flooded => losing ⟨ch, entry, flooded⟩
  | toBackend k => exact h.toBackend conf k
  | toServer k => exact h.toServer conf k fine
  | loseUp k i => exact h.loseUp (losing trivial) k i
  | loseDown k i => exact h.loseDown (losing trivial) k i

end Gateway

variable {maxconn channels : Nat} {conf : FrameConf} {events : List GatewayEvent}

theorem gatewayAt_inv (small : maxconn < 4294967296) (possible : PossibleGatewayRun maxconn channels conf events)
    (k : Nat) : (gatewayAt maxconn channels conf events k).server.Inv ∧
      (gatewayAt maxconn channels conf events k).server.channelCount = channels + 1 ∧
      (gatewayAt maxconn channels conf events k).server.table.maxconn = maxconn := by
  let Config (s : EpollServer) : Prop := s.channelCount = channels + 1 ∧ s.table.maxconn = maxconn
  let Kept (g : Gateway) : Prop := g.server.Inv ∧ Config g.server
  have start : Kept (.create maxconn channels) := ⟨EpollServer.create_inv small channels, rfl, rfl⟩
  refine stateAt_induct start ?_ k
  intro k e he ⟨inv, config⟩
  obtain ⟨lossy, moves⟩ := Gateway.step_moves inv (possible k e he)
  refine ⟨moves.inv inv, ?_⟩
  have keep {s s' : EpollServer} (_ : s.Inv) (move : EpollServer.Move lossy s s') (before : Config s) : Config s' :=
    ⟨move.config.1.trans before.1, move.config.2.trans before.2⟩
  exact EpollServer.Moves.induct keep moves inv config

/-- The log of a run only grows. -/
theorem gatewayAt_effects (small : maxconn < 4294967296) (possible : PossibleGatewayRun maxconn channels conf events)
    {k : Nat} {e : GatewayEvent} (he : events[k]? = some e) {eff : Effect}
    (hm : eff ∈ (gatewayAt maxconn channels conf events k).server.effects) :
    eff ∈ (gatewayAt maxconn channels conf events (k + 1)).server.effects := by
  obtain ⟨lossy, moves⟩ := Gateway.step_moves (gatewayAt_inv small possible k).1 (possible k e he)
  rw [gatewayAt, stateAt_succ he]
  exact moves.adds.subset hm

theorem gatewayAt_flow (small : maxconn < 4294967296) (few : channels + 1 < 2147483648)
    (possible : PossibleGatewayRun maxconn channels conf events) {n : Nat}
    (unwrapped : Unwrapped maxconn (gatewayAt maxconn channels conf events n).server.effects) :
    (gatewayAt maxconn channels conf events n).Flow (LossyRun maxconn channels conf events n) := by
  suffices upto : ∀ m ≤ n, Unwrapped maxconn (gatewayAt maxconn channels conf events m).server.effects →
      (gatewayAt maxconn channels conf events m).Flow (LossyRun maxconn channels conf events n) from
    upto n le_rfl unwrapped
  intro m
  induction m with
  | zero => exact fun _ _ => Gateway.create_flow _ small few
  | succ m ih =>
    intro hm fine
    cases he : events[m]? with
    | none =>
      rw [gatewayAt, stateAt_end he] at fine ⊢
      exact ih (by omega) fine
    | some e =>
      have before : Unwrapped maxconn (gatewayAt maxconn channels conf events m).server.effects := fun i c hr =>
        fine i c (gatewayAt_effects small possible he hr)
      have flow := ih (by omega) before
      have scaled (j : Nat) (fine : Unwrapped maxconn (gatewayAt maxconn channels conf events j).server.effects) :
          Unwrapped (gatewayAt maxconn channels conf events j).server.table.maxconn
            (gatewayAt maxconn channels conf events j).server.effects := by
        rw [(gatewayAt_inv small possible j).2.2]
        exact fine
      have after := scaled (m + 1) fine
      rw [gatewayAt, stateAt_succ he] at after ⊢
      exact flow.step (possible m e he) (fun loss => ⟨m, by omega, e, he, loss⟩) after (scaled m before)

/-- Whatever is lost on the way, a client gets back only frames that it sent itself, in the order in which it sent
them and none of them twice. -/
theorem echo_in_order (small : maxconn < 4294967296) (few : channels + 1 < 2147483648)
    (possible : PossibleGatewayRun maxconn channels conf events) (k : Nat)
    (unwrapped : Unwrapped maxconn (gatewayAt maxconn channels conf events k).server.effects) (n : Nat) :
    let g := gatewayAt maxconn channels conf events k
    (writtenTo n g.server.effects).Sublist (g.frames n) ∧ (g.frames n).flatten.Sublist (g.heard n) := by
  intro g
  have flow : g.Flow (LossyRun maxconn channels conf events k) := gatewayAt_flow small few possible unwrapped
  exact ⟨(flow.kept n).sublist, (List.sublist_append_left _ _).trans (flow.bytes n).sublist⟩

/-- Two clients; the second one sends a frame and a half, and the backend's answer to its start request is lost. -/
def echoRun : List GatewayEvent :=
  [.accept 5 ⟨1, 80⟩ true, .accept 6 ⟨2, 80⟩ true, .clientBytes 6 ⟨[0, 3, 9, 0, 4], fun _ => 0, by decide, by decide⟩,
    .toBackend 0, .toBackend 0, .toBackend 0, .loseDown 0 1, .toServer 0, .toServer 0,
    .clientBytes 6 ⟨[1, 2], fun _ => 0, by decide, by decide⟩]

theorem echo_in_order_lost :
    LossyRun 2 1 ⟨0, 2⟩ echoRun 10 ∧
      writtenTo 1 (gatewayAt 2 1 ⟨0, 2⟩ echoRun 10).server.effects = [[0, 3, 9]] ∧
      (writtenTo 1 (gatewayAt 2 1 ⟨0, 2⟩ echoRun 10).server.effects).Sublist
        ((gatewayAt 2 1 ⟨0, 2⟩ echoRun 10).frames 1) := by
  refine ⟨by decide +kernel, by decide +kernel, ?_⟩
  exact (echo_in_order (by decide) (by decide) (by decide +kernel) 10 (by decide +kernel) 1).1

/-- As long as nothing is lost, a client has got back the beginning of what it sent; while it is connected, what is
missing is on its way or waits for the rest of its frame. -/
theorem echo_lossless (small : maxconn < 4294967296) (few : channels + 1 < 2147483648)
    (possible : PossibleGatewayRun maxconn channels conf events) (k : Nat)
    (unwrapped : Unwrapped maxconn (gatewayAt maxconn channels conf events k).server.effects)
    (lossless : ¬ LossyRun maxconn channels conf events k) :
    let g := gatewayAt maxconn channels conf events k
    (∀ n, (writtenTo n g.server.effects).flatten <+: g.heard n) ∧
    ∀ n c, .assigned n c ∈ g.server.effects → g.server.table.getConnectionRecord c ≠ none →
      writtenTo n g.server.effects ++ (downFor c (g.down 0) ++ upFor c (g.up 0)) = g.frames n ∧
      (g.frames n).flatten ++ (g.recvBuf n).content = g.heard n := by
  intro g
  have flow : g.Flow (LossyRun maxconn channels conf events k) := gatewayAt_flow small few possible unwrapped
  constructor
  · intro n
    have start : (g.frames n).flatten <+: g.heard n := ⟨_, (flow.bytes n).whole lossless⟩
    exact ((flow.kept n).prefix_flatten lossless).trans start
  · intro n c assigned found
    have used : g.server.table.InUse c :=
      (ConnTable.inUse_iff flow.sound.inv.table).mpr (Option.ne_none_iff_exists'.mp found)
    exact ⟨(flow.live n c assigned used).whole lossless, (flow.bytes n).whole lossless⟩

theorem echo_lossless_half :
    ¬ LossyRun 2 1 ⟨0, 2⟩ echoRun 6 ∧
      (gatewayAt 2 1 ⟨0, 2⟩ echoRun 6).frames 1 = [[0, 3, 9]] ∧
      writtenTo 1 (gatewayAt 2 1 ⟨0, 2⟩ echoRun 6).server.effects ++
        (downFor 0 ((gatewayAt 2 1 ⟨0, 2⟩ echoRun 6).down 0) ++ upFor 0 ((gatewayAt 2 1 ⟨0, 2⟩ echoRun 6).up 0)) =
        (gatewayAt 2 1 ⟨0, 2⟩ echoRun 6).frames 1 := by
  have lossless : ¬ LossyRun 2 1 ⟨0, 2⟩ echoRun 6 := by decide +kernel
  refine ⟨lossless, by decide +kernel, ?_⟩
  have echo := (echo_lossless (by decide) (by decide) (by decide +kernel) 6 (by decide +kernel) lossless).2
  exact (echo 1 0 (by decide +kernel) (by decide +kernel)).1

end Wddlib
