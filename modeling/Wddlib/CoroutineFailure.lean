import Wddlib.CoroutineActive

namespace Wddlib

namespace CoMachine

variable {s : CoMachine} {pCo : Option Nat} {x ssize : Nat}

/-- `co_resume` with the check of its argument. -/
def coResumeCall (s : CoMachine) (pCo : Option Nat) (ssize : Nat) : Option Int × CoMachine :=
  match pCo with
  | none => (some (-1), s)
  | some x => s.coResume x ssize

/-- A call that fails leaves `pRunCo` and the status and the parent of every coroutine alone, and
whatever is called next does what it would have done without it. -/
def FailsCleanly (s : CoMachine) (pCo : Option Nat) (ssize : Nat) : Prop :=
  ∀ ret, (s.coResumeCall pCo ssize).1 = some ret → ret < 0 →
    (s.coResumeCall pCo ssize).2.pRunCo = s.pRunCo ∧
    (∀ y, ((s.coResumeCall pCo ssize).2.co y).status = (s.co y).status ∧
      ((s.coResumeCall pCo ssize).2.co y).parent = (s.co y).parent) ∧
    (∀ next size, ((s.coResumeCall pCo ssize).2.coResumeCall next size).1 = (s.coResumeCall next size).1) ∧
    (∀ size, ((s.coResumeCall pCo ssize).2.coYield size).1 = (s.coYield size).1) ∧
    ∀ e, ((s.coResumeCall pCo ssize).2.step e).control = (s.step e).control

theorem linkParent_status (alone : s.pRunCo ≠ some x) (ssize : Nat) :
    ((s.linkParent x ssize).co x).status = (s.co x).status := by
  have linked := Control.link_status_of_ne (c := s.control) alone
  rw [← control_linkParent s x ssize] at linked
  exact linked

/-- The last branch of the switch: whatever has no code to continue is rejected, after it has been
made the running coroutine. -/
theorem coResume_rejected (alone : s.pRunCo ≠ some x) (ready : (s.co x).status ≠ .ready)
    (suspended : (s.co x).status ≠ .suspend) :
    s.coResume x ssize = (some (-2), s.linkParent x ssize) := by
  rw [← linkParent_status alone ssize] at ready suspended
  unfold coResume
  dsimp only
  split
  next h => exact absurd h ready
  next h => exact absurd h suspended
  next => rfl

theorem coResume_accepted (h : s.pRunCo = some x ∨ (s.co x).status = .ready ∨ (s.co x).status = .suspend) :
    (s.coResume x ssize).1 = none := by
  by_cases running : s.pRunCo = some x
  · exact coResume_running ssize running
  · have status_eq := linkParent_status running ssize
    rcases h with h | h | h
    · exact absurd h running
    · simp only [coResume, status_eq, h]
    · simp only [coResume, status_eq, h]

/-- A failing `co_resume` leaves no trace exactly when it never gets to the switch; a coroutine that
can be continued is not rejected there. -/
theorem failed_resume_clean_iff (s : CoMachine) (pCo : Option Nat) (ssize : Nat) :
    s.FailsCleanly pCo ssize ↔
      ∀ x, pCo = some x → s.pRunCo = some x ∨ (s.co x).status = .ready ∨ (s.co x).status = .suspend := by
  constructor
  · rintro clean x rfl
    by_contra rejected
    have alone : s.pRunCo ≠ some x := fun h => rejected (.inl h)
    have call : s.coResumeCall (some x) ssize = (some (-2), s.linkParent x ssize) :=
      coResume_rejected alone (fun h => rejected (.inr (.inl h))) (fun h => rejected (.inr (.inr h)))
    have same := (clean (-2) (congrArg Prod.fst call) (by decide)).1
    rw [call] at same
    exact alone same.symm
  · intro accepted ret hret hneg
    cases pCo with
    | none => exact ⟨rfl, fun y => ⟨rfl, rfl⟩, fun next size => rfl, fun size => rfl, fun e => rfl⟩
    | some x =>
      have gone : (s.coResumeCall (some x) ssize).1 = none := coResume_accepted (accepted x rfl)
      rw [gone] at hret
      cases hret

end CoMachine

/-- A coroutine has returned; it is resumed again from outside of all coroutines. -/
def endedRun : List CoEvent := [.init 0 .malloced 64, .resume 0 0, .ret]

/-- The ended coroutine counts as running afterwards, so that a `co_yield` outside of all coroutines,
which fails without the call, switches. -/
theorem failed_resume_leaves_trace :
    (coAt false [] [] endedRun 3).pRunCo = none ∧
      ((coAt false [] [] endedRun 3).coResumeCall (some 0) 0).1 = some (-2) ∧
      ((coAt false [] [] endedRun 3).coResumeCall (some 0) 0).2.pRunCo = some 0 ∧
      ((coAt false [] [] endedRun 3).coYield 0).1 = some (-1) ∧
      (((coAt false [] [] endedRun 3).coResumeCall (some 0) 0).2.coYield 0).1 = none ∧
      ¬ (coAt false [] [] endedRun 3).FailsCleanly (some 0) 0 := by
  refine ⟨by decide +kernel, by decide +kernel, by decide +kernel, by decide +kernel, by decide +kernel, ?_⟩
  intro clean
  exact absurd (clean (-2) (by decide +kernel) (by decide)).1 (by decide +kernel)

end Wddlib
