import Wddlib.CoroutineStack
import Mathlib.Data.List.Chain

namespace Wddlib

/-- The coroutine whose stack an event restores and the one that is executing then. -/
def CoEvent.restores (s : CoMachine) : CoEvent → Option (Nat × Nat)
  | .resume x _ => if (s.co x).status = .suspend then s.pRunCo.map fun r => (x, r) else none
  | .yield _ => s.pRunCo.bind fun x => (s.co x).parent.map fun p => (p, x)
  | .ret => s.owner.bind fun x => (s.co x).parent.map fun p => (p, x)
  | _ => none

namespace Memory

variable {m : Memory} {chain : List Nat} {x y : Nat}

def second (m : Memory) (x : Nat) : Bool := (m.copy x).usesecondstack

@[simp] theorem save_second (m : Memory) (x ssize : Nat) : (m.save x ssize).second = m.second := by
  funext y
  by_cases hy : y = x
  · subst hy
    simp [second, save]
  · simp [second, save, Function.update_of_ne hy]

@[simp] theorem saveParent_second (m : Memory) (p : Option Nat) (ssize : Nat) :
    (m.saveParent p ssize).second = m.second := by
  cases p with
  | none => rfl
  | some p => exact save_second m p ssize

@[simp] theorem setBuffer_second (m : Memory) (second : Bool) (bytes : List UInt8) :
    (m.setBuffer second bytes).second = m.second := by
  funext y
  rw [Memory.second, (setBuffer_copy m second bytes).1]
  rfl

@[simp] theorem restore_second (m : Memory) (x : Nat) : (m.restore x).second = m.second :=
  setBuffer_second _ _ _

@[simp] theorem restoreParent_second (m : Memory) (p : Option Nat) : (m.restoreParent p).second = m.second := by
  cases p with
  | none => rfl
  | some p => exact restore_second m p

theorem start_second (m : Memory) (x : Nat) (second : Bool) :
    (m.start x second).second = Function.update m.second x second := by
  funext y
  by_cases hy : y = x
  · subst hy
    simp [Memory.second, start]
  · simp [Memory.second, start, Function.update_of_ne hy]

theorem init_second (m : Memory) (x : Nat) : (m.init x).second = Function.update m.second x false := by
  funext y
  by_cases hy : y = x
  · subst hy
    simp [Memory.second, init]
  · simp [Memory.second, init, Function.update_of_ne hy]

/-- Neighbours on a chain use different stacks. -/
def Apart (second : Nat → Bool) (chain : List Nat) : Prop := chain.IsChain fun x y => second x ≠ second y

theorem Apart.update {second : Nat → Bool} (h : Apart second chain) (hx : x ∉ chain) (b : Bool) :
    Apart (Function.update second x b) chain := by
  refine List.IsChain.imp_of_mem_imp ?_ h
  intro y z hy hz hne
  have hyx : y ≠ x := by
    rintro rfl
    exact hx hy
  have hzx : z ≠ x := by
    rintro rfl
    exact hx hz
  rw [Function.update_of_ne hyx, Function.update_of_ne hzx]
  exact hne

end Memory

namespace CoMachine

variable {s : CoMachine} {chain xs : List Nat} {x ssize : Nat}

/-- The running coroutine and its parent use different stacks. -/
def Separate (s : CoMachine) : Prop :=
  ∀ x p, s.pRunCo = some x → (s.co x).parent = some p → (s.co x).usesecondstack ≠ (s.co p).usesecondstack

/-- Waiting coroutines use the two stacks in turn. -/
structure SeparateInv (s : CoMachine) (chain : List Nat) : Prop where
  dynamic : s.isDynamicStack = true
  chained : s.control.ChainInv chain
  apart : Memory.Apart s.memory.second chain

theorem SeparateInv.separate (inv : s.SeparateInv chain) : s.Separate := by
  intro x p running hparent
  have hlinked := inv.chained.linked
  have happart := inv.apart
  cases chain with
  | nil =>
    have hnone : s.pRunCo = none := inv.chained.head
    rw [running] at hnone
    cases hnone
  | cons r rest =>
    have hsome : s.pRunCo = some r := inv.chained.head
    obtain rfl := Option.some.inj (running.symm.trans hsome)
    cases rest with
    | nil =>
      have hnone : (s.co x).parent = none := hlinked.2
      rw [hparent] at hnone
      cases hnone
    | cons q qs =>
      have hq : (s.co x).parent = some q := hlinked.2.1
      obtain rfl := Option.some.inj (hparent.symm.trans hq)
      exact (List.isChain_cons_cons.mp happart).1

/-- A target off the chain keeps its status while its parent is linked. -/
theorem coResume_second (dynamic : s.isDynamicStack = true) (inv : s.control.ChainInv chain)
    (legal : (CoEvent.resume x ssize).Legal s.control) :
    (s.coResume x ssize).2.memory.second =
      if s.control.status x = .ready then
        Function.update s.memory.second x (s.memory.freeStack s.pRunCo) else s.memory.second := by
  have hx := inv.legal_off_chain legal
  have status_eq := Control.link_status_of_ne (inv.not_running hx)
  have free_eq : ∀ p, (s.memory.saveParent s.pRunCo ssize).freeStack p = s.memory.freeStack p := by
    intro p
    cases p with
    | none => rfl
    | some p =>
      have h := congrFun (Memory.saveParent_second s.memory s.pRunCo ssize) p
      simp only [Memory.second] at h
      simp only [Memory.freeStack, h]
  rw [memory_coResume dynamic, status_eq]
  rcases legal with hready | ⟨hsuspend, -⟩
  · simp only [hready, if_true, Memory.start_second, Memory.saveParent_second, free_eq]
  · simp [hsuspend]

theorem SeparateInv.resume (inv : s.SeparateInv chain) (legal : (CoEvent.resume x ssize).Legal s.control)
    (other : (s.co x).status = .suspend → ∀ r, s.pRunCo = some r →
      (s.co x).usesecondstack ≠ (s.co r).usesecondstack) :
    (s.coResume x ssize).2.SeparateInv (x :: chain) := by
  have hx := inv.chained.legal_off_chain legal
  refine ⟨(coResume_isDynamicStack s x ssize).trans inv.dynamic, ?_, ?_⟩
  · rw [control_coResume]
    exact inv.chained.resume legal
  · rw [coResume_second inv.dynamic inv.chained legal]
    have hhead : s.pRunCo = chain.head? := inv.chained.head
    split
    next hready =>
      refine List.isChain_cons.mpr ⟨?_, inv.apart.update hx _⟩
      intro r hr
      have hrun : s.pRunCo = some r := hhead.trans hr
      have hrx : r ≠ x := by
        rintro rfl
        exact hx (List.mem_of_mem_head? hr)
      rw [Function.update_self, Function.update_of_ne hrx, hrun]
      simp [Memory.freeStack, Memory.second]
    next hother =>
      have hsuspend : (s.co x).status = .suspend := (legal.resolve_left hother).1
      refine List.isChain_cons.mpr ⟨?_, inv.apart⟩
      intro r hr
      exact other hsuspend r (hhead.trans hr)

theorem SeparateInv.switchBack (inv : s.SeparateInv (x :: xs)) {s' : CoMachine}
    (dynamic : s'.isDynamicStack = true) (chained : s'.control.ChainInv xs)
    (second_eq : s'.memory.second = s.memory.second) : s'.SeparateInv xs := by
  refine ⟨dynamic, chained, ?_⟩
  rw [second_eq]
  exact inv.apart.tail

theorem writeStack_second (s : CoMachine) (bytes : List UInt8) :
    (s.writeStack bytes).memory.second = s.memory.second := by
  unfold writeStack
  split
  · rfl
  · split
    · rw [memory_setBuffer, Memory.setBuffer_second]
    · rfl

/-- An event that does not resume a suspended coroutine on the stack of the running one keeps the
stacks of a chain in turn. -/
theorem SeparateInv.step (inv : s.SeparateInv chain) {e : CoEvent} (legal : e.Legal s.control)
    (other : ∀ x ssize r, e = .resume x ssize → (s.co x).status = .suspend → s.pRunCo = some r →
      (s.co x).usesecondstack ≠ (s.co r).usesecondstack) :
    (s.step e).SeparateInv (Control.chainAfter chain e) := by
  have halive : s.lost = false := inv.chained.alive
  have hdynamic := (step_isDynamicStack s e).trans inv.dynamic
  have hchained : (s.step e).control.ChainInv (Control.chainAfter chain e) := by
    rw [control_step]
    exact inv.chained.step legal
  simp only [CoMachine.step, halive, Bool.false_eq_true, if_false] at hdynamic hchained ⊢
  cases e with
  | init x pStack iStackSize =>
    refine ⟨hdynamic, hchained, ?_⟩
    rw [memory_coInit, Memory.init_second]
    exact inv.apart.update (fun hx => legal ((onChain_iff_mem inv.chained.linked).mpr hx)) false
  | resume x ssize => exact inv.resume legal fun hs r => other x ssize r rfl hs
  | yield ssize =>
    cases chain with
    | nil =>
      have hnone : s.pRunCo = none := inv.chained.head
      simp only [coYield, hnone]
      exact inv
    | cons x xs =>
      refine inv.switchBack hdynamic hchained ?_
      rw [memory_coYield inv.dynamic inv.chained.head]
      simp
  | ret =>
    have howner : s.owner = chain.head? := inv.chained.owner_eq
    cases chain with
    | nil =>
      have hnone : s.owner = none := howner
      simp only [hnone]
      exact inv
    | cons x xs =>
      have hsome : s.owner = some x := howner
      simp only [hsome] at hdynamic hchained ⊢
      refine inv.switchBack hdynamic hchained ?_
      rw [memory_process inv.dynamic]
      simp
  | write bytes =>
    refine ⟨hdynamic, hchained, ?_⟩
    rw [show Control.chainAfter chain (.write bytes) = chain from rfl]
    simp only [writeStack_second]
    exact inv.apart

end CoMachine

variable {firststack secondstack : List UInt8} {events : List CoEvent}

def CoMachine.Separated (s : CoMachine) : Prop := ∃ chain, s.SeparateInv chain

theorem CoMachine.create_separated (firststack secondstack : List UInt8) :
    (CoMachine.create true firststack secondstack).Separated :=
  ⟨[], rfl, Control.create_chainInv true firststack secondstack, List.isChain_nil⟩

/-- No running coroutine resumes a suspended one that uses its stack. -/
def ResumesApart (firststack secondstack : List UInt8) (events : List CoEvent) : Prop :=
  ∀ k x ssize r, events[k]? = some (.resume x ssize) →
    ((coAt true firststack secondstack events k).co x).status = .suspend →
    (coAt true firststack secondstack events k).pRunCo = some r →
    ((coAt true firststack secondstack events k).co x).usesecondstack ≠
      ((coAt true firststack secondstack events k).co r).usesecondstack

theorem coAt_separated (legal : LegalRun true firststack secondstack events)
    (other : ResumesApart firststack secondstack events) (k : Nat) :
    (coAt true firststack secondstack events k).Separated := by
  refine stateAt_induct (CoMachine.create_separated firststack secondstack) ?_ k
  rintro k e he ⟨chain, inv⟩
  refine ⟨_, inv.step (legal k e he) ?_⟩
  rintro x ssize r rfl
  exact other k x ssize r he

/-- A suspended coroutine that is resumed by a running one stays on its stack. -/
theorem coResume_suspended_stack {s : CoMachine} {chain : List Nat} {x r ssize : Nat}
    (dynamic : s.isDynamicStack = true) (inv : s.control.ChainInv chain)
    (legal : (CoEvent.resume x ssize).Legal s.control) (suspended : (s.co x).status = .suspend)
    (running : s.pRunCo = some r) (separate : (s.coResume x ssize).2.Separate) :
    (s.co x).usesecondstack ≠ (s.co r).usesecondstack := by
  have hchained := inv.resume legal
  rw [← CoMachine.control_coResume s x ssize] at hchained
  have hhead : s.control.pRunCo = chain.head? := inv.head
  have hrun : (s.coResume x ssize).2.pRunCo = some x := hchained.head
  have hparent : ((s.coResume x ssize).2.co x).parent = some r := by
    have h : ((s.coResume x ssize).2.co x).parent = chain.head? := chain_start hchained.linked.2
    rw [h, ← hhead]
    exact running
  have hsecond := CoMachine.coResume_second dynamic inv legal
  have hstatus : s.control.status x = .suspend := suspended
  rw [hstatus, if_neg (by decide)] at hsecond
  have hx : ((s.coResume x ssize).2.co x).usesecondstack = (s.co x).usesecondstack := congrFun hsecond x
  have hr : ((s.coResume x ssize).2.co r).usesecondstack = (s.co r).usesecondstack := congrFun hsecond r
  rw [← hx, ← hr]
  exact separate x r hrun hparent

theorem coAt_dynamic (firststack secondstack : List UInt8) (events : List CoEvent) (k : Nat) :
    (coAt true firststack secondstack events k).isDynamicStack = true := by
  induction k with
  | zero => rfl
  | succ k ih =>
    cases he : events[k]? with
    | none =>
      rw [coAt, stateAt_end he]
      exact ih
    | some e =>
      rw [coAt_succ he, CoMachine.step_isDynamicStack]
      exact ih

/-- In every state of a legal run the running coroutine and its parent use different stacks, and in
other words no event restores a stack onto the one that is executing, if and only if no running
coroutine resumes a suspended one that was started on its own stack. -/
theorem stack_separation_iff (legal : LegalRun true firststack secondstack events) :
    ((∀ k, (coAt true firststack secondstack events k).Separate) ↔
      ResumesApart firststack secondstack events) ∧
    ((∀ k, (coAt true firststack secondstack events k).Separate) ↔
      ∀ k e x r, events[k]? = some e → e.restores (coAt true firststack secondstack events k) = some (x, r) →
        ((coAt true firststack secondstack events k).co x).usesecondstack ≠
          ((coAt true firststack secondstack events k).co r).usesecondstack) := by
  have resumed : (∀ k, (coAt true firststack secondstack events k).Separate) →
      ResumesApart firststack secondstack events := by
    intro separate k x ssize r he suspended running
    obtain ⟨chain, inv⟩ := coAt_chained legal k
    have after := separate (k + 1)
    have halive : (coAt true firststack secondstack events k).lost = false := inv.alive
    have hstep : (coAt true firststack secondstack events k).step (.resume x ssize) =
        ((coAt true firststack secondstack events k).coResume x ssize).2 := by
      simp [CoMachine.step, halive]
    rw [coAt_succ he, hstep] at after
    exact coResume_suspended_stack (coAt_dynamic _ _ _ k) inv (legal k _ he) suspended running after
  have separate_of : ResumesApart firststack secondstack events →
      ∀ k, (coAt true firststack secondstack events k).Separate := by
    intro other k
    obtain ⟨chain, inv⟩ := coAt_separated legal other k
    exact inv.separate
  refine ⟨⟨resumed, separate_of⟩, ?_, ?_⟩
  · intro separate k e x r he restored
    obtain ⟨chain, inv⟩ := coAt_chained legal k
    cases e with
    | init y pStack iStackSize => cases restored
    | resume y ssize =>
      simp only [CoEvent.restores] at restored
      split at restored
      next suspended =>
        obtain ⟨q, hq, heq⟩ := Option.map_eq_some_iff.mp restored
        obtain ⟨rfl, rfl⟩ := Prod.mk.inj heq
        exact resumed separate k y ssize q he suspended hq
      next => cases restored
    | yield ssize =>
      obtain ⟨y, hy, hmap⟩ := Option.bind_eq_some_iff.mp restored
      obtain ⟨p, hp, heq⟩ := Option.map_eq_some_iff.mp hmap
      obtain ⟨rfl, rfl⟩ := Prod.mk.inj heq
      exact (separate k y p hy hp).symm
    | ret =>
      obtain ⟨y, hy, hmap⟩ := Option.bind_eq_some_iff.mp restored
      obtain ⟨p, hp, heq⟩ := Option.map_eq_some_iff.mp hmap
      obtain ⟨rfl, rfl⟩ := Prod.mk.inj heq
      have hrun : (coAt true firststack secondstack events k).pRunCo = some y := inv.executing.symm.trans hy
      exact (separate k y p hrun hp).symm
    | write bytes => cases restored
  · intro apart
    refine separate_of ?_
    intro k x ssize r he suspended running
    exact apart k _ x r he (by simp [CoEvent.restores, suspended, running])

/-- Two coroutines that were both started outside of all coroutines meet. -/
def meetingRun : List CoEvent :=
  [.init 0 .first 1, .init 1 .first 1, .resume 0 0, .yield 0, .resume 1 0, .resume 0 1]

theorem stack_separation_meeting :
    LegalRun true [0] [0] meetingRun ∧
    CoEvent.restores (coAt true [0] [0] meetingRun 5) (.resume 0 1) = some (0, 1) ∧
    ((coAt true [0] [0] meetingRun 5).co 0).usesecondstack = false ∧
    ((coAt true [0] [0] meetingRun 5).co 1).usesecondstack = false ∧
    ¬ ∀ k, (coAt true [0] [0] meetingRun k).Separate := by
  refine ⟨legalRun_of_plain (by decide +kernel), by decide +kernel, by decide +kernel, by decide +kernel, ?_⟩
  intro separate
  exact separate 6 0 1 (by decide +kernel) (by decide +kernel) (by decide +kernel)

/-- A coroutine resumes twice the one that it has started. -/
def ownChildRun : List CoEvent :=
  [.init 0 .first 1, .init 1 .first 1, .resume 0 0, .resume 1 1, .yield 1, .resume 1 1, .ret, .ret]

theorem stack_separation_iff_ownChild :
    LegalRun true [0] [0] ownChildRun ∧ ∀ k, (coAt true [0] [0] ownChildRun k).Separate := by
  have legal : LegalRun true [0] [0] ownChildRun := legalRun_of_plain (by decide +kernel)
  refine ⟨legal, (stack_separation_iff legal).1.mpr ?_⟩
  intro k x ssize r he suspended running
  match k with
  | 2 =>
    obtain ⟨rfl, rfl⟩ := CoEvent.resume.inj (Option.some.inj he)
    exact absurd suspended (by decide +kernel)
  | 3 =>
    obtain ⟨rfl, rfl⟩ := CoEvent.resume.inj (Option.some.inj he)
    exact absurd suspended (by decide +kernel)
  | 5 =>
    obtain ⟨rfl, rfl⟩ := CoEvent.resume.inj (Option.some.inj he)
    have hrun : (coAt true [0] [0] ownChildRun 5).pRunCo = some 0 := by decide +kernel
    obtain rfl := Option.some.inj (hrun.symm.trans running)
    decide +kernel
  | 0 => cases he
  | 1 => cases he
  | 4 => cases he
  | 6 => cases he
  | 7 => cases he
  | k + 8 => cases he

end Wddlib
