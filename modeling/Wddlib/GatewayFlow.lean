import Wddlib.GatewayServer
import Wddlib.LossyFlow

namespace Wddlib

/-- The payloads that are on their way to the backend for the connection with the number `c`. -/
def upFor (c : Int) (msgs : List ServerMsg) : List (List UInt8) :=
  msgs.filterMap fun msg =>
    match msg.body with
    | .msgNtf buff => if msg.connid = c then some buff else none
    | _ => none

/-- The payloads that are on their way back from the backend. -/
def downFor (c : Int) (msgs : List BackendMsg) : List (List UInt8) :=
  msgs.filterMap fun msg => if msg.cmdid = connsvrMsgNtf ∧ msg.connidInt = c then some msg.buff else none

/-- What the links, the log and the client streams have to do with each other. `lossy` tells whether anything may have
been lost. -/
structure Gateway.Flow (lossy : Prop) (g : Gateway) : Prop where
  sound : g.server.Sound
  upper : ∀ k, k ≠ 0 → ∀ msg ∈ g.up k, ∃ now, msg.body = .stop now
  lower : ∀ k, k ≠ 0 → g.down k = []
  fromTest : ∀ msg ∈ g.down 0, msg.FromTest
  unnumbered : ∀ c, (∀ n, .assigned n c ∉ g.server.effects) → upFor c (g.up 0) = [] ∧ downFor c (g.down 0) = []
  silent : ∀ n, (∀ c, .assigned n c ∉ g.server.effects) → writtenTo n g.server.effects = [] ∧ g.frames n = []
  live : ∀ n c, .assigned n c ∈ g.server.effects → g.server.table.InUse c →
    Carried lossy (writtenTo n g.server.effects ++ (downFor c (g.down 0) ++ upFor c (g.up 0))) (g.frames n)
  kept : ∀ n, Kept lossy (writtenTo n g.server.effects) (g.frames n)
  wf : ∀ n, (g.recvBuf n).Wf
  bytes : ∀ n, Carried lossy ((g.frames n).flatten ++ (g.recvBuf n).content) (g.heard n)

section Queues

variable {c : Int} {n : Nat} {k : Int} {new old : List Effect}

@[simp] theorem upFor_append (c : Int) (msgs more : List ServerMsg) :
    upFor c (msgs ++ more) = upFor c msgs ++ upFor c more := List.filterMap_append

@[simp] theorem downFor_append (c : Int) (msgs more : List BackendMsg) :
    downFor c (msgs ++ more) = downFor c msgs ++ downFor c more := List.filterMap_append

theorem writtenTo_append : writtenTo n (new ++ old) = writtenTo n old ++ writtenTo n new := by
  simp [writtenTo]

theorem writtenTo_delivered (m n : Nat) (c : Int) (payload : List UInt8) (effects : List Effect) :
    writtenTo m (.delivered n c payload :: effects) =
      writtenTo m effects ++ if n = m then [payload] else [] := by
  by_cases hn : n = m <;> simp [writtenTo, hn]

theorem writtenTo_control (control : ∀ e ∈ new, e.Control) : writtenTo n new = [] := by
  refine List.filterMap_eq_nil_iff.mpr ?_
  intro e he
  have := control e (List.mem_reverse.mp he)
  cases e with
  | delivered => exact absurd this id
  | _ => rfl

theorem mem_sentTo {msg : ServerMsg} : msg ∈ sentTo k new ↔ .handed k msg ∈ new := by
  rw [sentTo, List.mem_filterMap]
  constructor
  · rintro ⟨e, he, heq⟩
    cases e with
    | handed channelid m =>
      simp only [Option.ite_none_right_eq_some, Option.some.injEq] at heq
      obtain ⟨rfl, rfl⟩ := heq
      exact List.mem_reverse.mp he
    | _ => cases heq
  · intro hm
    exact ⟨_, List.mem_reverse.mpr hm, by simp⟩

theorem upFor_control (control : ∀ e ∈ new, e.Control) : upFor c (sentTo k new) = [] := by
  refine List.filterMap_eq_nil_iff.mpr ?_
  intro msg hm
  have := control _ (mem_sentTo.mp hm)
  obtain ⟨connid, addr, body⟩ := msg
  cases body with
  | msgNtf => exact absurd this id
  | _ => rfl

theorem stop_of_control (control : ∀ e ∈ new, e.Control) (hk : k ≠ 0) {msg : ServerMsg} (hm : msg ∈ sentTo k new) :
    ∃ now, msg.body = .stop now := by
  have := control _ (mem_sentTo.mp hm)
  obtain ⟨connid, addr, body⟩ := msg
  cases body with
  | startReq => exact absurd this hk
  | stop now => exact ⟨now, rfl⟩
  | route => exact absurd this id
  | msgNtf => exact absurd this id

section Forwards

variable {addr : InetAddress} {connid : Int} {payloads : List (List UInt8)}

theorem sentTo_forwards (k : Int) (payloads : List (List UInt8)) :
    sentTo k (payloads.map fun payload => Effect.handed 0 ⟨connid, addr, .msgNtf payload⟩).reverse =
      if k = 0 then payloads.map fun payload => ⟨connid, addr, .msgNtf payload⟩ else [] := by
  rw [sentTo, List.reverse_reverse, List.filterMap_map]
  by_cases hk : k = 0
  · subst hk
    rw [if_pos rfl, ← List.filterMap_eq_map]
    exact List.filterMap_congr fun _ _ => by simp
  · rw [if_neg hk]
    refine List.filterMap_eq_nil_iff.mpr fun _ _ => ?_
    simp [Ne.symm hk]

theorem upFor_forwards (c : Int) (payloads : List (List UInt8)) :
    upFor c (payloads.map fun payload => ⟨connid, addr, .msgNtf payload⟩) = if connid = c then payloads else [] := by
  rw [upFor, List.filterMap_map]
  by_cases hc : connid = c
  · subst hc
    rw [if_pos rfl]
    exact (List.filterMap_congr fun _ _ => by simp).trans List.filterMap_some
  · rw [if_neg hc]
    refine List.filterMap_eq_nil_iff.mpr fun _ _ => ?_
    simp [hc]

theorem writtenTo_forwards (n : Nat) (payloads : List (List UInt8)) :
    writtenTo n (payloads.map fun payload => Effect.handed 0 ⟨connid, addr, .msgNtf payload⟩).reverse = [] := by
  rw [writtenTo, List.reverse_reverse, List.filterMap_map]
  exact List.filterMap_eq_nil_iff.mpr fun _ _ => rfl

end Forwards

theorem upFor_cons_ntf (c connid : Int) (addr : InetAddress) (buff : List UInt8) (rest : List ServerMsg) :
    upFor c (⟨connid, addr, .msgNtf buff⟩ :: rest) = if connid = c then buff :: upFor c rest else upFor c rest := by
  by_cases hc : connid = c <;> simp [upFor, hc]

theorem downFor_cons_ntf {msg : BackendMsg} (hcmd : msg.cmdid = connsvrMsgNtf) (rest : List BackendMsg) :
    downFor c (msg :: rest) = if msg.connidInt = c then msg.buff :: downFor c rest else downFor c rest := by
  by_cases hc : msg.connidInt = c <;> simp [downFor, hcmd, hc]

theorem downFor_cons_other {msg : BackendMsg} (hcmd : msg.cmdid ≠ connsvrMsgNtf) (rest : List BackendMsg) :
    downFor c (msg :: rest) = downFor c rest := by
  simp [downFor, hcmd]

end Queues

namespace Gateway

variable {g : Gateway} {lossy : Prop} {server : EpollServer} {new : List Effect} {k : Int}

theorem advance_up (h : server.effects = new ++ g.server.effects) :
    (g.advance server).up k = g.up k ++ sentTo k new := by
  simp [advance, h]

/-- Events in which the server passes nothing on. -/
theorem Flow.control (h : Flow lossy g) (sound : server.Sound) (opens : EpollServer.Opens g.server server)
    (adds : EpollServer.Adds Effect.Control g.server server) (fine : Unwrapped server.table.maxconn server.effects) :
    Flow lossy (g.advance server) := by
  obtain ⟨new, heffects, control⟩ := adds
  have keeps : ∀ e, e ∈ g.server.effects → e ∈ server.effects := fun e he => by
    rw [heffects]
    exact List.mem_append_right _ he
  have hup : ∀ c, upFor c ((g.advance server).up 0) = upFor c (g.up 0) := by
    intro c
    rw [advance_up heffects, upFor_append, upFor_control control, List.append_nil]
  have hwritten : ∀ n, writtenTo n (g.advance server).server.effects = writtenTo n g.server.effects := by
    intro n
    show writtenTo n server.effects = _
    rw [heffects, writtenTo_append, writtenTo_control control, List.append_nil]
  have hdown : (g.advance server).down = g.down := rfl
  have hframes : (g.advance server).frames = g.frames := rfl
  -- a new channel object has sent and got nothing, and nothing is on its way for its number
  have fresh : ∀ n c, g.server.nextSerial ≤ n → .assigned n c ∈ server.effects →
      (∀ c, .assigned n c ∉ g.server.effects) ∧ ∀ n', .assigned n' c ∉ g.server.effects := by
    intro n c hn hm
    constructor
    · intro c' hm'
      exact absurd (h.sound.numbers.serial_lt n c' hm') (by omega)
    · intro n' hm'
      have hlt := h.sound.numbers.serial_lt n' c hm'
      have := (sound.numbers.one_each fine n c n' c hm (keeps _ hm')).mpr rfl
      omega
  refine ⟨sound, ?_, h.lower, h.fromTest, ?_, ?_, ?_, ?_, h.wf, h.bytes⟩
  · intro k hk msg hm
    rw [advance_up heffects] at hm
    rcases List.mem_append.mp hm with old | sent
    · exact h.upper k hk msg old
    · exact stop_of_control control hk sent
  · intro c unassigned
    rw [hup, hdown]
    exact h.unnumbered c fun n hm => unassigned n (keeps _ hm)
  · intro n unassigned
    rw [hwritten, hframes]
    exact h.silent n fun c hm => unassigned c (keeps _ hm)
  · intro n c hm used
    rw [hwritten, hup, hdown, hframes]
    by_cases hn : g.server.nextSerial ≤ n
    · obtain ⟨newcomer, number⟩ := fresh n c hn hm
      obtain ⟨hw, hf⟩ := h.silent n newcomer
      obtain ⟨hu, hd⟩ := h.unnumbered c number
      rw [hw, hf, hu, hd]
      exact .nil lossy
    · have hold := (opens.assigned n c hm).resolve_right hn
      refine h.live n c hold ?_
      rcases opens.inUse c used with used | ⟨n', hn', hm'⟩
      · exact used
      · have := (sound.numbers.one_each fine n c n' c hm hm').mpr rfl
        omega
  · intro n
    rw [hwritten, hframes]
    exact h.kept n

/-- The links are all that an event changes; what is under way for a number that nobody has any more may vanish. -/
theorem Flow.of_flight {g' : Gateway} (h : Flow lossy g) (server_eq : g'.server = g.server)
    (frames_eq : g'.frames = g.frames) (recvBuf_eq : g'.recvBuf = g.recvBuf) (heard_eq : g'.heard = g.heard)
    (upper : ∀ k, k ≠ 0 → ∀ msg ∈ g'.up k, ∃ now, msg.body = .stop now) (lower : ∀ k, k ≠ 0 → g'.down k = [])
    (fromTest : ∀ msg ∈ g'.down 0, msg.FromTest)
    (flight : ∀ c, Carried (lossy ∨ ¬ g.server.table.InUse c) (downFor c (g'.down 0) ++ upFor c (g'.up 0))
      (downFor c (g.down 0) ++ upFor c (g.up 0))) : Flow lossy g' := by
  refine ⟨?_, upper, lower, fromTest, ?_, ?_, ?_, ?_, ?_, ?_⟩
  · rw [server_eq]
    exact h.sound
  · intro c unassigned
    rw [server_eq] at unassigned
    obtain ⟨hu, hd⟩ := h.unnumbered c unassigned
    have nothing := flight c
    rw [hu, hd] at nothing
    exact (List.append_eq_nil_iff.mp nothing.eq_nil).symm
  · rw [server_eq, frames_eq]
    exact h.silent
  · intro n c hm used
    rw [server_eq] at hm used ⊢
    rw [frames_eq]
    have carried : Carried lossy _ _ := (flight c).mono fun loss => loss.resolve_right (not_not_intro used)
    exact (carried.append_left _).trans (h.live n c hm used)
  · rw [server_eq, frames_eq]
    exact h.kept
  · rw [recvBuf_eq]
    exact h.wf
  · rw [frames_eq, recvBuf_eq, heard_eq]
    exact h.bytes

theorem Flow.loseUp (h : Flow lossy g) (loss : lossy) (k : Int) (i : Nat) :
    Flow lossy { g with up := Function.update g.up k ((g.up k).eraseIdx i) } := by
  have sub : ∀ k', (Function.update g.up k ((g.up k).eraseIdx i) k').Sublist (g.up k') := by
    intro k'
    by_cases hk : k' = k
    · subst hk
      rw [Function.update_self]
      exact List.eraseIdx_sublist _ _
    · rw [Function.update_of_ne hk]
  refine h.of_flight rfl rfl rfl rfl ?_ h.lower h.fromTest ?_
  · intro k' hk msg hm
    exact h.upper k' hk msg ((sub k').subset hm)
  · intro c
    exact (Carried.lose (.inl loss) (.refl _ _) ((sub 0).filterMap _)).append_left _

theorem Flow.loseDown (h : Flow lossy g) (loss : lossy) (k : Int) (i : Nat) :
    Flow lossy { g with down := Function.update g.down k ((g.down k).eraseIdx i) } := by
  have sub : ∀ k', (Function.update g.down k ((g.down k).eraseIdx i) k').Sublist (g.down k') := by
    intro k'
    by_cases hk : k' = k
    · subst hk
      rw [Function.update_self]
      exact List.eraseIdx_sublist _ _
    · rw [Function.update_of_ne hk]
  refine h.of_flight rfl rfl rfl rfl h.upper ?_ ?_ ?_
  · intro k' hk
    have hnone := sub k'
    rw [h.lower k' hk] at hnone
    exact List.sublist_nil.mp hnone
  · intro msg hm
    exact h.fromTest msg ((sub 0).subset hm)
  · intro c
    exact (Carried.lose (.inl loss) (.refl _ _) ((sub 0).filterMap _)).append _

theorem connid_uint32 {c : Int} (nonneg : 0 ≤ c) (lt : c < 2147483648) : int32 (uint32 c).toNat = c := by
  have hmod : (c % 4294967296).toNat = c.toNat := by omega
  simp only [uint32, hmod, UInt32.toNat_ofNat', int32]
  omega

/-- The backend sends a payload back under the number that it came with, and no other payload. -/
theorem downFor_handleMsg {msg : ServerMsg} (range : ∀ buff, msg.body = .msgNtf buff → 0 ≤ msg.connid ∧
    msg.connid < 2147483648) (c : Int) : downFor c (ConnsvrTest.handleMsg msg) = upFor c [msg] := by
  obtain ⟨connid, addr, body⟩ := msg
  cases body with
  | startReq => rfl
  | stop => rfl
  | route => rfl
  | msgNtf buff =>
    obtain ⟨nonneg, lt⟩ := range buff rfl
    have hconnid := connid_uint32 nonneg lt
    rw [upFor_cons_ntf]
    show downFor c [⟨connsvrMsgNtf, uint32 connid, addr, 0, 0, 0, buff⟩] = _
    rw [downFor_cons_ntf rfl, BackendMsg.connidInt, hconnid]
    rfl

theorem handleMsg_fromTest (msg : ServerMsg) : ∀ m ∈ ConnsvrTest.handleMsg msg, m.FromTest := by
  intro m hm
  obtain ⟨connid, addr, body⟩ := msg
  cases body with
  | startReq =>
    obtain rfl := List.mem_singleton.mp hm
    exact .inl ⟨rfl, rfl, rfl⟩
  | stop => cases hm
  | route => cases hm
  | msgNtf buff =>
    obtain rfl := List.mem_singleton.mp hm
    exact .inr rfl

/-- A payload on its way has the number of a channel object. -/
theorem Flow.up_range (h : Flow lossy g) {msg : ServerMsg} (hm : msg ∈ g.up 0) {buff : List UInt8}
    (hbody : msg.body = .msgNtf buff) : 0 ≤ msg.connid ∧ msg.connid < 2147483648 := by
  by_contra out
  have unassigned : ∀ n, .assigned n msg.connid ∉ g.server.effects := fun n hassigned =>
    out (h.sound.numbers.range n _ hassigned)
  have nothing := (h.unnumbered _ unassigned).1
  have := List.filterMap_eq_nil_iff.mp nothing msg hm
  rw [hbody] at this
  simp at this

theorem Flow.toBackend (h : Flow lossy g) (conf : FrameConf) (k : Int) : Flow lossy (g.step conf (.toBackend k)) := by
  cases hup : g.up k with
  | nil =>
    rw [step_toBackend_nil hup]
    exact h
  | cons msg rest =>
    rw [step_toBackend_cons hup]
    have hm : msg ∈ g.up k := by simp [hup]
    by_cases hk : k = 0
    · subst hk
      refine h.of_flight rfl rfl rfl rfl ?_ ?_ ?_ ?_
      · intro k' hk' m hm'
        simp only [Function.update_of_ne hk'] at hm'
        exact h.upper k' hk' m hm'
      · intro k' hk'
        simp only [Function.update_of_ne hk']
        exact h.lower k' hk'
      · intro m hm'
        simp only [Function.update_self] at hm'
        rcases List.mem_append.mp hm' with old | new
        · exact h.fromTest m old
        · exact handleMsg_fromTest msg m new
      · intro c
        have answer := downFor_handleMsg (fun buff hbody => h.up_range hm hbody) c
        have hsplit : upFor c (g.up 0) = upFor c [msg] ++ upFor c rest := by
          rw [hup, ← upFor_append]
          rfl
        simp only [Function.update_self, downFor_append]
        rw [answer, hsplit, List.append_assoc]
        exact .refl _ _
    · -- the other backends are only told to stop
      obtain ⟨now, hbody⟩ := h.upper k hk msg hm
      have silent : ConnsvrTest.handleMsg msg = [] := by
        simp [ConnsvrTest.handleMsg, hbody, ConnsvrTest.stopHandle]
      rw [silent, List.append_nil, Function.update_eq_self]
      refine h.of_flight rfl rfl rfl rfl ?_ h.lower h.fromTest ?_
      · intro k' hk' m hm'
        by_cases hkk : k' = k
        · subst hkk
          simp only [Function.update_self] at hm'
          exact h.upper k' hk' m (by simp [hup, hm'])
        · simp only [Function.update_of_ne hkk] at hm'
          exact h.upper k' hk' m hm'
      · intro c
        simp only [Function.update_of_ne (Ne.symm hk)]
        exact .refl _ _

theorem advance_self (g : Gateway) : g.advance g.server = g := by
  simp [advance, sentTo]

/-- The oldest payload on the way back is written to the channel object that has its number. -/
theorem Flow.deliver (h : Flow lossy g) {msg : BackendMsg} {rest : List BackendMsg} {n : Nat}
    (hdown : g.down 0 = msg :: rest) (hcmd : msg.cmdid = connsvrMsgNtf) (used : g.server.table.InUse msg.connidInt)
    (assigned : .assigned n msg.connidInt ∈ g.server.effects)
    (sound : (g.server.addEffect (.delivered n msg.connidInt msg.buff)).Sound)
    (fine : Unwrapped g.server.table.maxconn (.delivered n msg.connidInt msg.buff :: g.server.effects))
    (lower : ∀ k, k ≠ 0 → Function.update g.down 0 rest k = [])
    (fromTest : ∀ m ∈ Function.update g.down 0 rest 0, m.FromTest) :
    Flow lossy (advance { g with down := Function.update g.down 0 rest }
      (g.server.addEffect (.delivered n msg.connidInt msg.buff))) := by
  have hup : ∀ k, (advance { g with down := Function.update g.down 0 rest }
      (g.server.addEffect (.delivered n msg.connidInt msg.buff))).up k = g.up k := by
    intro k
    have hnew : (g.server.addEffect (.delivered n msg.connidInt msg.buff)).effects =
        [.delivered n msg.connidInt msg.buff] ++ g.server.effects := rfl
    exact (advance_up hnew).trans (List.append_nil _)
  have hflight : ∀ c, downFor c (g.down 0) =
      if msg.connidInt = c then msg.buff :: downFor c rest else downFor c rest := by
    intro c
    rw [hdown, downFor_cons_ntf hcmd]
  have one := h.sound.numbers.one_each fun i connid hr => fine i connid (List.mem_cons_of_mem _ hr)
  have live : ∀ m c, .assigned m c ∈ g.server.effects → g.server.table.InUse c →
      Carried lossy (writtenTo m (.delivered n msg.connidInt msg.buff :: g.server.effects) ++
        (downFor c rest ++ upFor c (g.up 0))) (g.frames m) := by
    intro m c hm usedc
    have before := h.live m c hm usedc
    rw [hflight] at before
    rw [writtenTo_delivered]
    by_cases hn : n = m
    · subst hn
      obtain rfl := (one n _ n c assigned hm).mp rfl
      rw [if_pos rfl] at before ⊢
      simpa using before
    · have hc : ¬ msg.connidInt = c := fun hc => hn ((one n _ m c assigned hm).mpr hc)
      rw [if_neg hc] at before
      rw [if_neg hn, List.append_nil]
      exact before
  refine ⟨sound, ?_, lower, fromTest, ?_, ?_, ?_, ?_, h.wf, h.bytes⟩
  · intro k hk
    rw [hup]
    exact h.upper k hk
  · intro c unassigned
    obtain ⟨hu, hd⟩ := h.unnumbered c fun m hm => unassigned m (List.mem_cons_of_mem _ hm)
    refine ⟨by rw [hup, hu], ?_⟩
    rw [hflight] at hd
    show downFor c (Function.update g.down 0 rest 0) = []
    rw [Function.update_self]
    split at hd
    next => cases hd
    next => exact hd
  · intro m unassigned
    obtain ⟨hw, hf⟩ := h.silent m fun c hm => unassigned c (List.mem_cons_of_mem _ hm)
    have hn : ¬ n = m := by
      rintro rfl
      exact unassigned _ (List.mem_cons_of_mem _ assigned)
    refine ⟨?_, hf⟩
    show writtenTo m (.delivered n msg.connidInt msg.buff :: g.server.effects) = []
    rw [writtenTo_delivered, hw, if_neg hn]
    rfl
  · intro m c hm usedc
    rw [hup]
    have old := (List.mem_cons.mp hm).resolve_left (by simp)
    show Carried lossy (writtenTo m (.delivered n msg.connidInt msg.buff :: g.server.effects) ++
      (downFor c (Function.update g.down 0 rest 0) ++ upFor c (g.up 0))) (g.frames m)
    rw [Function.update_self]
    exact live m c old usedc
  · intro m
    show Kept lossy (writtenTo m (.delivered n msg.connidInt msg.buff :: g.server.effects)) (g.frames m)
    by_cases hn : n = m
    · subst hn
      exact (live n _ assigned used).kept
    · rw [writtenTo_delivered, if_neg hn, List.append_nil]
      exact h.kept m

theorem Flow.toServer (h : Flow lossy g) (conf : FrameConf) (k : Int)
    (fine : Unwrapped (g.step conf (.toServer k)).server.table.maxconn (g.step conf (.toServer k)).server.effects) :
    Flow lossy (g.step conf (.toServer k)) := by
  cases hdown : g.down k with
  | nil =>
    rw [step_toServer_nil hdown]
    exact h
  | cons msg rest =>
    obtain rfl : k = 0 := by
      by_contra hk
      rw [h.lower k hk] at hdown
      cases hdown
    rw [step_toServer_cons hdown] at fine ⊢
    have hm : msg ∈ g.down 0 := by simp [hdown]
    have lower : ∀ k, k ≠ 0 → Function.update g.down 0 rest k = [] := by
      intro k hk
      rw [Function.update_of_ne hk]
      exact h.lower k hk
    have fromTest : ∀ m ∈ Function.update g.down 0 rest 0, m.FromTest := by
      intro m hm'
      rw [Function.update_self] at hm'
      exact h.fromTest m (by simp [hdown, hm'])
    rcases h.fromTest msg hm with ⟨hcmd, accept, route⟩ | hcmd
    · -- a start response: nothing happens
      rw [h.sound.startRsp hcmd accept route]
      have other : msg.cmdid ≠ connsvrMsgNtf := by
        rw [hcmd]
        decide
      have same : advance { g with down := Function.update g.down 0 rest } g.server =
          { g with down := Function.update g.down 0 rest } := advance_self _
      rw [same]
      refine h.of_flight rfl rfl rfl rfl h.upper lower fromTest ?_
      intro c
      simp only [Function.update_self, hdown]
      rw [downFor_cons_other other]
      exact .refl _ _
    · have sound : (g.server.step (.backendMsg 0 msg)).Sound := by
        refine h.sound.step trivial ?_
        intro k msg' heq
        obtain ⟨-, rfl⟩ := ServerEvent.backendMsg.inj heq
        exact h.fromTest msg hm
      rcases h.sound.msgNtf hcmd h.sound.channel with ⟨unused, heq⟩ | ⟨n, used, assigned, heq⟩
      · -- nobody has the number: the payload is dropped and the backend told to stop
        rw [heq] at fine sound ⊢
        have flow := h.control sound (EpollServer.addEffect_opens (by simp))
          (EpollServer.addEffect_adds (by trivial)) fine
        refine flow.of_flight rfl rfl rfl rfl flow.upper lower fromTest ?_
        intro c
        have hflight : downFor c (g.down 0) =
            if msg.connidInt = c then msg.buff :: downFor c rest else downFor c rest := by
          rw [hdown, downFor_cons_ntf hcmd]
        refine Carried.append ?_ _
        show Carried _ (downFor c (Function.update g.down 0 rest 0)) (downFor c (g.down 0))
        rw [Function.update_self, hflight]
        split
        next hc => exact .lose (.inr (hc ▸ unused)) (.refl _ _) (List.sublist_cons_self _ _)
        next => exact .refl _ _
      · rw [heq] at fine sound ⊢
        exact h.deliver hdown hcmd used assigned sound fine lower fromTest

end Gateway

end Wddlib
