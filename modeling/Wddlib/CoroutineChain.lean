import Wddlib.CoControl

namespace Wddlib

/-- The `co_resume` calls that a chain of waiting coroutines stands for, caller and target. -/
def callsOf : List Nat → List (Option Nat × Nat)
  | [] => []
  | x :: xs => (xs.head?, x) :: callsOf xs

/-- `co_init` is only applied to coroutines off the chain, and `co_resume` to coroutines that are
ready or were suspended by their own `co_yield`. -/
def CoEvent.Legal (c : Control) : CoEvent → Prop
  | .init x _ _ => ¬ OnChain c.parent c.pRunCo x
  | .resume x _ => c.status x = .ready ∨ c.status x = .suspend ∧ c.ctx (some x) = some ⟨some x, .yield⟩
  | _ => True

theorem callsOf_caller {xs : List Nat} {call : Option Nat × Nat} (h : call ∈ callsOf xs) :
    call.1 = none ∨ ∃ y ∈ xs.tail, call.1 = some y := by
  induction xs with
  | nil => cases h
  | cons x xs ih =>
    rcases List.mem_cons.mp h with rfl | h
    · cases xs with
      | nil => exact .inl rfl
      | cons y ys => exact .inr ⟨y, by simp, rfl⟩
    · rcases ih h with hnone | ⟨y, hy, heq⟩
      · exact .inl hnone
      · exact .inr ⟨y, List.mem_of_mem_tail hy, heq⟩

theorem callsOf_target {xs : List Nat} {call : Option Nat × Nat} (h : call ∈ callsOf xs) : call.2 ∈ xs := by
  induction xs with
  | nil => cases h
  | cons x xs ih =>
    rcases List.mem_cons.mp h with rfl | h
    · simp
    · exact List.mem_cons_of_mem x (ih h)

/-- Every waiting coroutine is the caller of a call. -/
theorem exists_call_of_mem_tail {x : Nat} {xs : List Nat} (h : x ∈ xs.tail) : ∃ y, (some x, y) ∈ callsOf xs := by
  induction xs with
  | nil => cases h
  | cons r rest ih =>
    cases rest with
    | nil => cases h
    | cons y ys =>
      rcases List.mem_cons.mp h with rfl | h
      · exact ⟨r, by simp [callsOf]⟩
      · obtain ⟨z, hz⟩ := ih h
        exact ⟨z, List.mem_cons_of_mem _ hz⟩

/-- Callers are members of the chain. -/
theorem callsOf_caller_off {x : Nat} {xs : List Nat} {call : Option Nat × Nat} (h : call ∈ callsOf xs)
    (off : x ∉ xs) : call.1 ≠ some x := by
  rcases callsOf_caller h with hnone | ⟨y, hy, heq⟩
  · simp [hnone]
  · rw [heq]
    rintro ⟨⟩
    exact off (List.mem_of_mem_tail hy)

/-- The running coroutine waits in no call. -/
theorem callsOf_caller_head {xs : List Nat} {call : Option Nat × Nat} (nodup : xs.Nodup) (h : call ∈ callsOf xs) :
    call.1 ≠ xs.head? := by
  cases xs with
  | nil => cases h
  | cons x xs =>
    rcases callsOf_caller h with hnone | ⟨y, hy, heq⟩
    · simp [hnone]
    · rw [heq]
      rintro ⟨⟩
      exact (List.nodup_cons.mp nodup).1 hy

namespace Control

variable {c : Control} {chain xs : List Nat} {x y : Nat} {src dst : Option Nat} {pending : Pending}
  {saved : SavedCtx}

/-- The state of a schedule whose coroutines `chain`, the running one first, wait for each other. -/
structure ChainInv (c : Control) (chain : List Nat) : Prop where
  alive : c.lost = false
  linked : Chain c.parent c.pRunCo chain
  executing : c.owner = c.pRunCo
  calls_eq : c.calls = callsOf chain
  running : ∀ x, c.pRunCo = some x → c.status x = .run
  waiting : ∀ x ∈ chain.tail, c.status x = .suspend
  saved : ∀ call ∈ callsOf chain, c.ctx call.1 = some ⟨call.1, .resume call.2⟩
  resumer : ∀ call ∈ callsOf chain, c.resumer call.2 = some call.1
  idle : ∀ x, x ∉ chain → c.active x = true → (c.status x = .suspend ∨ c.status x = .ended) ∧ c.parent x = none

theorem swap_of_some (h : Function.update c.ctx src (some ⟨c.owner, pending⟩) dst = some saved) :
    c.swap src dst pending =
      { c with
        ctx := Function.update (Function.update c.ctx src (some ⟨c.owner, pending⟩)) dst none
        owner := saved.owner
        arrival := saved.pending
        calls := CoMachine.callsAfter c.calls saved
        lost := decide (saved.pending = .finished) } := by
  simp [swap, h]

theorem ChainInv.head (inv : c.ChainInv chain) : c.pRunCo = chain.head? := chain_start inv.linked

theorem ChainInv.owner_eq (inv : c.ChainInv chain) : c.owner = chain.head? := inv.executing.trans inv.head

theorem ChainInv.nodup (inv : c.ChainInv chain) : chain.Nodup := chain_nodup inv.linked

theorem ChainInv.not_running (inv : c.ChainInv chain) (off : x ∉ chain) : c.pRunCo ≠ some x := by
  rw [inv.head]
  intro hhead
  exact off (List.mem_of_mem_head? hhead)

/-- The members of the chain run or wait in `co_resume`; they can not be resumed. -/
theorem ChainInv.legal_off_chain (inv : c.ChainInv chain)
    (legal : c.status x = .ready ∨ c.status x = .suspend ∧ c.ctx (some x) = some ⟨some x, .yield⟩) :
    x ∉ chain := by
  intro hx
  cases chain with
  | nil => cases hx
  | cons r rest =>
    rcases List.mem_cons.mp hx with rfl | hx
    · have hrun := inv.running x inv.head
      rcases legal with hready | ⟨hsuspend, -⟩
      · rw [hready] at hrun
        cases hrun
      · rw [hsuspend] at hrun
        cases hrun
    · have hsuspend := inv.waiting x hx
      rcases legal with hready | ⟨-, hctx⟩
      · rw [hready] at hsuspend
        cases hsuspend
      · obtain ⟨z, hz⟩ := @exists_call_of_mem_tail x (r :: rest) hx
        have hsaved := inv.saved _ hz
        rw [hctx] at hsaved
        cases hsaved

/-- Control goes to a coroutine off the chain. -/
theorem resume_eq (alone : c.pRunCo ≠ some x)
    (legal : c.status x = .ready ∨ c.status x = .suspend ∧ c.ctx (some x) = some ⟨some x, .yield⟩) :
    c.resume x =
      { c with
        pRunCo := some x
        status := Function.update c.waitingStatus x .run
        parent := Function.update c.parent x c.pRunCo
        ctx := Function.update (Function.update c.ctx c.pRunCo (some ⟨c.owner, .resume x⟩)) (some x) none
        owner := some x
        arrival := if c.status x = .ready then .start else .yield
        calls := (c.owner, x) :: c.calls
        lost := false
        resumer := Function.update c.resumer x (some c.owner)
        active := Function.update c.active x true } := by
  unfold resume
  rw [link_status_of_ne alone]
  rcases legal with hready | ⟨hsuspend, hctx⟩
  · simp only [hready, if_true, switchTo, link_eq, setStatus, makecontext, Function.update_self]
    refine (swap_of_some (?_ : _ = some ⟨some x, .start⟩)).trans ?_
    · simp only
      rw [Function.update_of_ne (Ne.symm alone), Function.update_self]
    · simp only [CoMachine.callsAfter]
      rw [Function.update_comm alone, Function.update_idem, Function.update_comm (Ne.symm alone)]
      rfl
  · simp only [hsuspend, switchTo, link_eq, setStatus, Function.update_self]
    refine (swap_of_some (?_ : _ = some ⟨some x, .yield⟩)).trans ?_
    · simp only
      rw [Function.update_of_ne (Ne.symm alone), hctx]
    · rfl

theorem ChainInv.resume_arrival (inv : c.ChainInv chain)
    (legal : c.status x = .ready ∨ c.status x = .suspend ∧ c.ctx (some x) = some ⟨some x, .yield⟩) :
    (c.resume x).arrival = if c.status x = .ready then .start else .yield := by
  rw [resume_eq (inv.not_running (inv.legal_off_chain legal)) legal]

/-- The other coroutines off the chain keep their status and their context. -/
theorem ChainInv.resume_other (inv : c.ChainInv chain)
    (legal : c.status x = .ready ∨ c.status x = .suspend ∧ c.ctx (some x) = some ⟨some x, .yield⟩) (hyx : y ≠ x)
    (hy : y ∉ chain) : (c.resume x).status y = c.status y ∧ (c.resume x).ctx (some y) = c.ctx (some y) := by
  have apart := inv.not_running hy
  have hsome : some y ≠ some x := fun heq => hyx (Option.some.inj heq)
  rw [resume_eq (inv.not_running (inv.legal_off_chain legal)) legal]
  simp only [Function.update_of_ne hyx, Function.update_of_ne hsome, Function.update_of_ne (Ne.symm apart),
    waitingStatus_of_ne apart, and_self]

theorem ChainInv.resume (inv : c.ChainInv chain)
    (legal : c.status x = .ready ∨ c.status x = .suspend ∧ c.ctx (some x) = some ⟨some x, .yield⟩) :
    (c.resume x).ChainInv (x :: chain) := by
  have hx := inv.legal_off_chain legal
  have alone := inv.not_running hx
  rw [resume_eq alone legal]
  refine ⟨rfl, ⟨rfl, ?_⟩, rfl, ?_, ?_, ?_, ?_, ?_, ?_⟩
  · simp only [Function.update_self]
    refine chain_frame inv.linked fun y hy => Function.update_of_ne ?_ _ _
    rintro rfl
    exact hx hy
  · simp only [callsOf, inv.executing, inv.calls_eq, inv.head]
  · rintro y ⟨⟩
    exact Function.update_self _ _ _
  · intro y hy
    have hyx : y ≠ x := by
      rintro rfl
      exact hx hy
    simp only [Function.update_of_ne hyx]
    cases chain with
    | nil => cases hy
    | cons r rest =>
      simp only [waitingStatus, inv.head, List.head?_cons]
      rcases List.mem_cons.mp hy with rfl | hy
      · exact Function.update_self _ _ _
      · by_cases hyr : y = r
        · rw [hyr]
          exact Function.update_self _ _ _
        · rw [Function.update_of_ne hyr]
          exact inv.waiting y hy
  · intro call hcall
    simp only
    rcases List.mem_cons.mp hcall with rfl | hcall
    · rw [← inv.head, Function.update_of_ne alone, Function.update_self, inv.executing]
    · have hne : call.1 ≠ c.pRunCo := by
        rw [inv.head]
        exact callsOf_caller_head inv.nodup hcall
      rw [Function.update_of_ne (callsOf_caller_off hcall hx), Function.update_of_ne hne]
      exact inv.saved call hcall
  · intro call hcall
    simp only
    rcases List.mem_cons.mp hcall with rfl | hrest
    · rw [Function.update_self, inv.executing, inv.head]
    · have hne : call.2 ≠ x := by
        intro heq
        exact hx (heq ▸ callsOf_target hrest)
      rw [Function.update_of_ne hne]
      exact inv.resumer call hrest
  · intro y hy hactive
    have hyx : y ≠ x := by
      rintro rfl
      exact hy (by simp)
    have hy' : y ∉ chain := fun h => hy (by simp [h])
    simp only [Function.update_of_ne hyx] at hactive ⊢
    rw [waitingStatus_of_ne (inv.not_running hy')]
    exact inv.idle y hy' hactive

/-- The statuses once the parent runs again. -/
def runningStatus (status : Nat → CoState) : Option Nat → Nat → CoState
  | none => status
  | some p => Function.update status p .run

/-- The executing coroutine gives control back to the `co_resume` call that waits in its parent. -/
theorem switchBack_to_saved {parent caller : Option Nat} (hparent : c.parent x = parent) (howner : c.owner = some x)
    (hne : parent ≠ some x) (hsaved : c.ctx parent = some ⟨caller, .resume x⟩) (status : CoState) (pending : Pending) :
    (c.setStatus x status).switchBack x pending =
      { c with
        pRunCo := parent
        status := runningStatus (Function.update c.status x status) parent
        parent := Function.update c.parent x none
        ctx := Function.update (Function.update c.ctx (some x) (some ⟨some x, pending⟩)) parent none
        owner := caller
        arrival := .resume x
        calls := CoMachine.callsAfter c.calls ⟨caller, .resume x⟩
        lost := false } := by
  have hload : Function.update c.ctx (some x) (some ⟨some x, pending⟩) parent = some ⟨caller, .resume x⟩ := by
    rw [Function.update_of_ne hne]
    exact hsaved
  cases parent with
  | none =>
    have hsame : Function.update c.parent x none = c.parent := by
      rw [← hparent, Function.update_eq_self]
    simp only [switchBack, setStatus, hparent, hsame]
    refine (swap_of_some (?_ : _ = some ⟨caller, .resume x⟩)).trans ?_
    · simp only [howner]
      exact hload
    · simp only [howner]
      rfl
  | some p =>
    simp only [switchBack, setStatus, setParent, hparent]
    refine (swap_of_some (?_ : _ = some ⟨caller, .resume x⟩)).trans ?_
    · simp only [howner]
      exact hload
    · simp only [howner]
      rfl

/-- The running coroutine gives control back: it leaves the chain with status `status`. -/
theorem switchBack_eq (inv : c.ChainInv (x :: xs)) (status : CoState) (pending : Pending) :
    (c.setStatus x status).switchBack x pending =
      { c with
        pRunCo := xs.head?
        status := match xs.head? with
          | none => Function.update c.status x status
          | some p => Function.update (Function.update c.status x status) p .run
        parent := Function.update c.parent x none
        ctx := Function.update (Function.update c.ctx (some x) (some ⟨some x, pending⟩)) xs.head? none
        owner := xs.head?
        arrival := .resume x
        calls := callsOf xs
        lost := false } := by
  have hsaved : c.ctx xs.head? = some ⟨xs.head?, .resume x⟩ := inv.saved (xs.head?, x) (by simp [callsOf])
  have hne : xs.head? ≠ some x := by
    intro h
    exact (List.nodup_cons.mp inv.nodup).1 (List.mem_of_mem_head? h)
  have hcalls : CoMachine.callsAfter c.calls ⟨xs.head?, .resume x⟩ = callsOf xs := by
    simp [CoMachine.callsAfter, inv.calls_eq, callsOf]
  rw [switchBack_to_saved (chain_start inv.linked.2) inv.owner_eq hne hsaved, hcalls]
  cases xs.head? with
  | none => rfl
  | some p => rfl

/-- Whoever gives control back has the status it was given, and its own context. -/
theorem ChainInv.switchBack_self (inv : c.ChainInv (x :: xs)) (status : CoState) (pending : Pending) :
    ((c.setStatus x status).switchBack x pending).status x = status ∧
      ((c.setStatus x status).switchBack x pending).ctx (some x) = some ⟨some x, pending⟩ := by
  have hne : xs.head? ≠ some x := by
    intro h
    exact (List.nodup_cons.mp inv.nodup).1 (List.mem_of_mem_head? h)
  rw [switchBack_eq inv status pending]
  simp only [Function.update_of_ne (Ne.symm hne), Function.update_self, and_true]
  cases hhead : xs.head? with
  | none => exact Function.update_self _ _ _
  | some p =>
    have hxp : x ≠ p := by
      rintro rfl
      exact hne hhead
    simp only [Function.update_of_ne hxp, Function.update_self]

theorem ChainInv.switchBack_other (inv : c.ChainInv (x :: xs)) (status : CoState) (pending : Pending)
    (hyx : y ≠ x) (hyp : xs.head? ≠ some y) :
    ((c.setStatus x status).switchBack x pending).status y = c.status y ∧
      ((c.setStatus x status).switchBack x pending).ctx (some y) = c.ctx (some y) := by
  have hsome : some y ≠ some x := fun heq => hyx (Option.some.inj heq)
  rw [switchBack_eq inv status pending]
  simp only [Function.update_of_ne (Ne.symm hyp), Function.update_of_ne hsome, and_true]
  cases hhead : xs.head? with
  | none => exact Function.update_of_ne hyx _ _
  | some p =>
    have hne : y ≠ p := by
      rintro rfl
      exact hyp hhead
    simp only [Function.update_of_ne hne, Function.update_of_ne hyx]

theorem ChainInv.switchBack (inv : c.ChainInv (x :: xs)) {status : CoState}
    (hstatus : status = .suspend ∨ status = .ended) (pending : Pending) :
    ((c.setStatus x status).switchBack x pending).ChainInv xs := by
  obtain ⟨hx, hnodup⟩ := List.nodup_cons.mp inv.nodup
  have hlinked : Chain c.parent xs.head? xs := by
    have h := inv.linked.2
    rw [chain_start h] at h
    exact h
  have self_status := (inv.switchBack_self status pending).1
  have other_status := fun y hyx hyp => (@ChainInv.switchBack_other c xs x y inv status pending hyx hyp).1
  rw [switchBack_eq inv status pending] at self_status other_status ⊢
  refine ⟨rfl, ?_, rfl, rfl, ?_, ?_, ?_, ?_, ?_⟩
  · refine chain_frame hlinked fun y hy => Function.update_of_ne ?_ _ _
    rintro rfl
    exact hx hy
  · intro y hy
    simp only at hy ⊢
    rw [hy]
    exact Function.update_self _ _ _
  · intro y hy
    have hyx : y ≠ x := by
      rintro rfl
      exact hx (List.mem_of_mem_tail hy)
    have hyp : xs.head? ≠ some y := by
      cases xs with
      | nil => cases hy
      | cons r rest =>
        rintro ⟨⟩
        exact (List.nodup_cons.mp hnodup).1 hy
    rw [other_status y hyx hyp]
    exact inv.waiting y (List.mem_of_mem_tail hy)
  · intro call hcall
    simp only [Function.update_of_ne (callsOf_caller_head hnodup hcall),
      Function.update_of_ne (callsOf_caller_off hcall hx)]
    exact inv.saved call (List.mem_cons_of_mem _ hcall)
  · intro call hcall
    exact inv.resumer call (List.mem_cons_of_mem _ hcall)
  · intro y hy hactive
    by_cases hyx : y = x
    · subst hyx
      rw [self_status]
      exact ⟨hstatus, Function.update_self _ _ _⟩
    · have hyp : xs.head? ≠ some y := fun hhead => hy (List.mem_of_mem_head? hhead)
      rw [other_status y hyx hyp]
      simp only [Function.update_of_ne hyx]
      exact inv.idle y (by simp [hyx, hy]) hactive

theorem ChainInv.init (inv : c.ChainInv chain) (hx : x ∉ chain) : (c.init x).ChainInv chain := by
  have hne : ∀ y ∈ chain, y ≠ x := by
    rintro y hy rfl
    exact hx hy
  refine ⟨inv.alive, inv.linked, inv.executing, inv.calls_eq, ?_, ?_, inv.saved, inv.resumer, ?_⟩
  · intro y hy
    have hmem : y ∈ chain := by
      have hhead : c.pRunCo = some y := hy
      rw [inv.head] at hhead
      exact List.mem_of_mem_head? hhead
    simp only [Control.init, setStatus, Function.update_of_ne (hne y hmem)]
    exact inv.running y hy
  · intro y hy
    simp only [Control.init, setStatus, Function.update_of_ne (hne y (List.mem_of_mem_tail hy))]
    exact inv.waiting y hy
  · intro y hy hactive
    by_cases hyx : y = x
    · subst hyx
      simp [Control.init] at hactive
    · simp only [Control.init, setStatus, Function.update_of_ne hyx] at hactive ⊢
      exact inv.idle y hy hactive

/-- What is left of the chain when a coroutine gives control back. -/
theorem ChainInv.yield (inv : c.ChainInv chain) : c.yield.ChainInv chain.tail := by
  cases chain with
  | nil =>
    have hnone : c.pRunCo = none := inv.head
    simp only [Control.yield, hnone]
    exact inv
  | cons x xs =>
    have hsome : c.pRunCo = some x := inv.head
    simp only [Control.yield, hsome]
    exact inv.switchBack (.inl rfl) .yield

theorem ChainInv.ret (inv : c.ChainInv chain) : c.ret.ChainInv chain.tail := by
  have howner : c.owner = chain.head? := inv.owner_eq
  cases chain with
  | nil =>
    have hnone : c.owner = none := howner
    simp only [Control.ret, hnone]
    exact inv
  | cons x xs =>
    have hsome : c.owner = some x := howner
    simp only [Control.ret, hsome]
    exact inv.switchBack (.inr rfl) .finished

/-- The chain after an event. -/
def chainAfter (chain : List Nat) : CoEvent → List Nat
  | .resume x _ => x :: chain
  | .yield _ => chain.tail
  | .ret => chain.tail
  | _ => chain

theorem ChainInv.step (inv : c.ChainInv chain) {e : CoEvent} (legal : e.Legal c) :
    (c.step e).ChainInv (chainAfter chain e) := by
  simp only [Control.step, inv.alive, Bool.false_eq_true, if_false]
  cases e with
  | init x pStack iStackSize => exact inv.init fun hx => legal ((onChain_iff_mem inv.linked).mpr hx)
  | resume x ssize => exact inv.resume legal
  | yield ssize => exact inv.yield
  | ret => exact inv.ret
  | write bytes => exact inv

theorem create_chainInv (isDynamicStack : Bool) (firststack secondstack : List UInt8) :
    (CoMachine.create isDynamicStack firststack secondstack).control.ChainInv [] := by
  refine ⟨rfl, rfl, rfl, rfl, ?_, ?_, ?_, ?_, ?_⟩
  · rintro x ⟨⟩
  · rintro x ⟨⟩
  · rintro call ⟨⟩
  · rintro call ⟨⟩
  · rintro x - ⟨⟩

/-- The running coroutine gives control to the one that resumed it. -/
theorem ChainInv.gives_back (inv : c.ChainInv (x :: xs)) {status : CoState} {pending : Pending} :
    let c' := (c.setStatus x status).switchBack x pending
    c.resumer x = some c'.owner ∧ c'.pRunCo = c'.owner ∧ c'.arrival = .resume x := by
  simp only [switchBack_eq inv status pending]
  refine ⟨inv.resumer (xs.head?, x) (by simp [callsOf]), ?_, ?_⟩ <;> trivial

end Control

variable {isDynamicStack : Bool} {firststack secondstack : List UInt8} {events : List CoEvent}

/-- The machine after the first `k` events. -/
def coAt (isDynamicStack : Bool) (firststack secondstack : List UInt8) (events : List CoEvent) (k : Nat) :
    CoMachine :=
  stateAt CoMachine.step (.create isDynamicStack firststack secondstack) events k

theorem coAt_succ {k : Nat} {e : CoEvent} (h : events[k]? = some e) :
    coAt isDynamicStack firststack secondstack events (k + 1) =
      (coAt isDynamicStack firststack secondstack events k).step e :=
  stateAt_succ h

/-- Every call of the run is legal where it is made. -/
def LegalRun (isDynamicStack : Bool) (firststack secondstack : List UInt8) (events : List CoEvent) : Prop :=
  ∀ k (e : CoEvent), events[k]? = some e → e.Legal (coAt isDynamicStack firststack secondstack events k).control

/-- A call that is legal whatever the chain is. -/
def CoEvent.plainlyLegal (c : Control) : CoEvent → Bool
  | .init _ _ _ => decide (c.pRunCo = none)
  | .resume x _ =>
    decide (c.status x = .ready ∨ c.status x = .suspend ∧ c.ctx (some x) = some ⟨some x, .yield⟩)
  | _ => true

theorem CoEvent.legal_of_plainlyLegal {c : Control} {e : CoEvent} (h : e.plainlyLegal c = true) : e.Legal c := by
  cases e with
  | init x pStack iStackSize =>
    have hnone : c.pRunCo = none := of_decide_eq_true h
    unfold CoEvent.Legal
    rw [hnone]
    rintro ⟨⟩
  | resume x ssize =>
    simp only [CoEvent.plainlyLegal, decide_eq_true_eq] at h
    exact h
  | yield ssize => trivial
  | ret => trivial
  | write bytes => trivial

theorem legalRun_of_plain
    (h : ∀ k : Fin events.length,
      (events.get k).plainlyLegal (coAt isDynamicStack firststack secondstack events k).control = true) :
    LegalRun isDynamicStack firststack secondstack events := by
  refine forall_event_iff.mpr fun k => ?_
  exact CoEvent.legal_of_plainlyLegal (h k)

/-- Some coroutines, the running one first, wait for each other. -/
def CoMachine.Chained (s : CoMachine) : Prop := ∃ chain, s.control.ChainInv chain

theorem CoMachine.create_chained (isDynamicStack : Bool) (firststack secondstack : List UInt8) :
    (CoMachine.create isDynamicStack firststack secondstack).Chained :=
  ⟨[], Control.create_chainInv isDynamicStack firststack secondstack⟩

theorem coAt_chained (legal : LegalRun isDynamicStack firststack secondstack events) (k : Nat) :
    (coAt isDynamicStack firststack secondstack events k).Chained := by
  refine stateAt_induct (CoMachine.create_chained isDynamicStack firststack secondstack) ?_ k
  rintro k e he ⟨chain, inv⟩
  refine ⟨Control.chainAfter chain e, ?_⟩
  rw [CoMachine.control_step]
  exact inv.step (legal k e he)

/-- In every state of a legal run the chain of parents is the stack of the `co_resume` calls that have
not returned, and whoever yields or returns gives control back to the one that resumed it last. -/
theorem resume_chain_invariant (legal : LegalRun isDynamicStack firststack secondstack events) (k : Nat) :
    let s := coAt isDynamicStack firststack secondstack events k
    let s' := coAt isDynamicStack firststack secondstack events (k + 1)
    (∃ chain, Chain (fun x => (s.co x).parent) s.pRunCo chain ∧ chain.Nodup ∧ s.calls = callsOf chain ∧
      (∀ x, s.pRunCo = some x → (s.co x).status = .run) ∧
      (∀ x ∈ chain.tail, (s.co x).status = .suspend) ∧
      ∀ x, x ∉ chain → resumedSinceInit x s.log = true →
        ((s.co x).status = .suspend ∨ (s.co x).status = .ended) ∧ (s.co x).parent = none) ∧
    s.lost = false ∧ s.owner = s.pRunCo ∧
    ∀ e x, events[k]? = some e → (e = .ret ∨ ∃ ssize, e = .yield ssize) → s.pRunCo = some x →
      lastResumer s.log x = some s'.owner ∧ s'.pRunCo = s'.owner ∧ s'.arrival = .resume x := by
  intro s s'
  obtain ⟨chain, inv⟩ : s.Chained := coAt_chained legal k
  refine ⟨⟨chain, inv.linked, inv.nodup, inv.calls_eq, inv.running, inv.waiting, inv.idle⟩, inv.alive,
    inv.executing, ?_⟩
  intro e x he gives hx
  have hstep : s'.control = s.control.step e := by
    rw [← CoMachine.control_step]
    exact congrArg CoMachine.control (coAt_succ he)
  have hhead : s.control.pRunCo = some x := hx
  have howner : s.control.owner = some x := inv.executing.trans hhead
  obtain ⟨xs, rfl⟩ : ∃ xs, chain = x :: xs := by
    rw [inv.head] at hhead
    exact List.head?_eq_some_iff.mp hhead
  have given : ∃ status pending, s'.control = (s.control.setStatus x status).switchBack x pending := by
    rw [hstep]
    rcases gives with rfl | ⟨ssize, rfl⟩
    · exact ⟨.ended, .finished, by simp [Control.step, inv.alive, Control.ret, howner]⟩
    · exact ⟨.suspend, .yield, by simp [Control.step, inv.alive, Control.yield, hhead]⟩
  obtain ⟨status, pending, heq⟩ := given
  have back := @Control.ChainInv.gives_back _ xs x inv status pending
  rw [← heq] at back
  exact back

/-- Coroutine 0 resumes coroutine 1 twice; both return in the end. -/
def nestedRun : List CoEvent :=
  [.init 0 .malloced 64, .init 1 .malloced 64, .resume 0 0, .resume 1 0, .yield 0, .resume 1 0, .ret, .ret]

theorem resume_chain_invariant_nested :
    LegalRun false [] [] nestedRun ∧ (coAt false [] [] nestedRun 4).calls = [(some 0, 1), (none, 0)] ∧
    lastResumer (coAt false [] [] nestedRun 4).log 1 = some (coAt false [] [] nestedRun 5).owner := by
  have legal : LegalRun false [] [] nestedRun := legalRun_of_plain (by decide +kernel)
  refine ⟨legal, by decide +kernel, ?_⟩
  exact ((resume_chain_invariant legal 4).2.2.2 (.yield 0) 1 rfl (.inr ⟨0, rfl⟩) (by decide +kernel)).1

end Wddlib
