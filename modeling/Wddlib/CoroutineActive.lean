import Wddlib.CoroutineChain

namespace Wddlib

namespace Control

variable {c : Control} {x : Nat}

theorem swap_links (c : Control) (src dst : Option Nat) (pending : Pending) :
    (c.swap src dst pending).pRunCo = c.pRunCo ∧ (c.swap src dst pending).parent = c.parent := by
  unfold swap
  simp only
  split <;> exact ⟨rfl, rfl⟩

/-- `co_resume` hangs its target below the running coroutine, whatever the target is. -/
theorem resume_links (c : Control) (x : Nat) :
    (c.resume x).pRunCo = some x ∧ (c.resume x).parent = Function.update c.parent x c.pRunCo := by
  have linked : (c.link x).pRunCo = some x ∧ (c.link x).parent = Function.update c.parent x c.pRunCo := by
    rw [link_eq]
    exact ⟨rfl, rfl⟩
  unfold resume
  split
  · exact ⟨(swap_links _ _ _ _).1.trans linked.1, (swap_links _ _ _ _).2.trans linked.2⟩
  · exact ⟨(swap_links _ _ _ _).1.trans linked.1, (swap_links _ _ _ _).2.trans linked.2⟩
  · exact linked

/-- Whoever gives control back is no longer below its parent. -/
theorem switchBack_links (c : Control) (x : Nat) (pending : Pending) :
    (c.switchBack x pending).pRunCo = c.parent x ∧
      (c.switchBack x pending).parent = Function.update c.parent x none := by
  unfold switchBack
  cases hp : c.parent x with
  | none =>
    have hsame : Function.update c.parent x none = c.parent := by
      rw [← hp, Function.update_eq_self]
    rw [hsame]
    exact swap_links _ _ _ _
  | some p => exact swap_links _ _ _ _

theorem ends_cleared {parent : Nat → Option Nat} (all : ∀ y, Ends parent (some y)) (x y : Nat) :
    Ends (Function.update parent x none) (some y) :=
  ends_update all .none (by rintro ⟨⟩) y

/-- No way to parents is endless. -/
def Acyclic (c : Control) : Prop := (∀ y, Ends c.parent (some y)) ∧ Ends c.parent c.pRunCo

theorem Acyclic.switchBack (h : c.Acyclic) (x : Nat) (pending : Pending) : (c.switchBack x pending).Acyclic := by
  obtain ⟨hrun, hparent⟩ := switchBack_links c x pending
  have all : ∀ y, Ends (c.switchBack x pending).parent (some y) := by
    rw [hparent]
    exact ends_cleared h.1 x
  refine ⟨all, ?_⟩
  cases hp : (c.switchBack x pending).pRunCo with
  | none => exact .none
  | some p => exact all p

theorem Acyclic.resume (h : c.Acyclic) (off : ¬ OnChain c.parent c.pRunCo x) : (c.resume x).Acyclic := by
  obtain ⟨hrun, hparent⟩ := resume_links c x
  have all : ∀ y, Ends (c.resume x).parent (some y) := by
    rw [hparent]
    exact ends_update h.1 h.2 off
  refine ⟨all, ?_⟩
  rw [hrun]
  exact all x

theorem Acyclic.yield (h : c.Acyclic) : c.yield.Acyclic := by
  unfold Control.yield
  split
  · exact h
  next x _ => exact @Acyclic.switchBack (c.setStatus x .suspend) h x .yield

theorem Acyclic.ret (h : c.Acyclic) : c.ret.Acyclic := by
  unfold Control.ret
  split
  · exact h
  next x _ => exact @Acyclic.switchBack (c.setStatus x .ended) h x .finished

theorem Acyclic.step (h : c.Acyclic) {e : CoEvent}
    (off : ∀ x ssize, e = .resume x ssize → c.lost = false → ¬ OnChain c.parent c.pRunCo x) :
    (c.step e).Acyclic := by
  unfold Control.step
  cases hlost : c.lost with
  | true => exact h
  | false =>
    simp only [Bool.false_eq_true, if_false]
    cases e with
    | init x pStack iStackSize => exact h
    | resume x ssize => exact h.resume (off x ssize rfl hlost)
    | yield ssize => exact h.yield
    | ret => exact h.ret
    | write bytes => exact h

/-- Resuming a member of the chain makes the chain endless. -/
theorem not_ends_resume (on : OnChain c.parent c.pRunCo x) : ¬ Ends (c.resume x).parent (c.resume x).pRunCo := by
  obtain ⟨hrun, hparent⟩ := resume_links c x
  rw [hrun, hparent]
  exact not_ends_of_onChain on

end Control

/-- The running coroutine is suspended before its status is looked at, so it is resumed. -/
theorem CoMachine.coResume_running {s : CoMachine} {x : Nat} (ssize : Nat) (running : s.pRunCo = some x) :
    (s.coResume x ssize).1 = none := by
  have status_eq : ((s.linkParent x ssize).co x).status = (s.control.link x).status x := by
    rw [← CoMachine.control_linkParent s x ssize]
    rfl
  have hrun : s.control.pRunCo = some x := running
  have hsuspend : (s.control.link x).status x = .suspend := by
    rw [Control.link_eq]
    simp [Control.waitingStatus, hrun]
  simp only [CoMachine.coResume, status_eq, hsuspend]

variable {isDynamicStack : Bool} {firststack secondstack : List UInt8} {events : List CoEvent}

def CoMachine.Acyclic (s : CoMachine) : Prop := s.control.Acyclic

theorem CoMachine.create_acyclic (isDynamicStack : Bool) (firststack secondstack : List UInt8) :
    (CoMachine.create isDynamicStack firststack secondstack).Acyclic :=
  ⟨fun _ => .some .none, .none⟩

theorem coAt_acyclic
    (off : ∀ k x ssize, events[k]? = some (.resume x ssize) →
      (coAt isDynamicStack firststack secondstack events k).lost = false →
      ¬ OnChain (fun y => ((coAt isDynamicStack firststack secondstack events k).co y).parent)
        (coAt isDynamicStack firststack secondstack events k).pRunCo x) (k : Nat) :
    (coAt isDynamicStack firststack secondstack events k).Acyclic := by
  refine stateAt_induct (CoMachine.create_acyclic isDynamicStack firststack secondstack) ?_ k
  intro k e he before
  unfold CoMachine.Acyclic at before ⊢
  rw [CoMachine.control_step]
  refine before.step ?_
  rintro x ssize rfl alive
  exact off k x ssize he alive

/-- A call of `co_resume` for a member of the chain never fails and leaves the chain as it was; it
makes the chain endless. The chain is finite in every state of a run if and only if the run has no
such call. -/
theorem active_resume_closes_cycle (isDynamicStack : Bool) (firststack secondstack : List UInt8)
    (events : List CoEvent) :
    (∀ k x ssize,
      let s := coAt isDynamicStack firststack secondstack events k
      let s' := (s.coResume x ssize).2
      OnChain (fun y => (s.co y).parent) s.pRunCo x →
        ¬ ((∃ ret, (s.coResume x ssize).1 = some ret ∧ ret < 0) ∧ s'.pRunCo = s.pRunCo ∧
          ∀ y, (s'.co y).parent = (s.co y).parent) ∧
        ¬ Ends (fun y => (s'.co y).parent) s'.pRunCo) ∧
    ((∀ k, Ends (fun y => ((coAt isDynamicStack firststack secondstack events k).co y).parent)
        (coAt isDynamicStack firststack secondstack events k).pRunCo) ↔
      ∀ k x ssize, events[k]? = some (.resume x ssize) →
        (coAt isDynamicStack firststack secondstack events k).lost = false →
        ¬ OnChain (fun y => ((coAt isDynamicStack firststack secondstack events k).co y).parent)
          (coAt isDynamicStack firststack secondstack events k).pRunCo x) := by
  have closes : ∀ (s : CoMachine) x ssize, OnChain s.control.parent s.control.pRunCo x →
      ¬ Ends (s.coResume x ssize).2.control.parent (s.coResume x ssize).2.control.pRunCo := by
    intro s x ssize on
    rw [CoMachine.control_coResume]
    exact Control.not_ends_resume on
  refine ⟨?_, ?_, ?_⟩
  · intro k x ssize s s' on
    refine ⟨?_, closes s x ssize on⟩
    rintro ⟨⟨ret, hret, -⟩, same, -⟩
    have hrun : s'.pRunCo = some x := by
      have hcontrol := (Control.resume_links s.control x).1
      rw [← CoMachine.control_coResume s x ssize] at hcontrol
      exact hcontrol
    rw [CoMachine.coResume_running ssize (same.symm.trans hrun)] at hret
    cases hret
  · intro ends k x ssize he alive on
    have after := ends (k + 1)
    have hstep : (coAt isDynamicStack firststack secondstack events k).step (.resume x ssize) =
        ((coAt isDynamicStack firststack secondstack events k).coResume x ssize).2 := by
      simp [CoMachine.step, alive]
    rw [coAt_succ he, hstep] at after
    exact closes _ x ssize on after
  · intro off k
    exact (coAt_acyclic off k).2

/-- A running coroutine resumes itself. -/
def selfRun : List CoEvent := [.init 0 .malloced 64, .resume 0 0, .resume 0 0]

/-- A coroutine resumes the one that waits for it. -/
def ancestorRun : List CoEvent :=
  [.init 0 .malloced 64, .init 1 .malloced 64, .resume 0 0, .resume 1 0, .resume 0 0]

theorem active_resume_accepted :
    (coAt false [] [] selfRun 2).pRunCo = some 0 ∧ ((coAt false [] [] selfRun 2).coResume 0 0).1 = none ∧
    (coAt false [] [] selfRun 3).pRunCo = some 0 ∧ ((coAt false [] [] selfRun 3).co 0).parent = some 0 ∧
    ((coAt false [] [] ancestorRun 4).coResume 0 0).1 = none ∧
    (coAt false [] [] ancestorRun 5).pRunCo = some 0 ∧
    ((coAt false [] [] ancestorRun 5).co 0).parent = some 1 ∧
    ((coAt false [] [] ancestorRun 5).co 1).parent = some 0 := by
  decide +kernel

end Wddlib
