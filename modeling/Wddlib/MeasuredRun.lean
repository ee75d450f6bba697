import Mathlib.Data.List.Basic

namespace Wddlib

universe u v

variable {σ : Type u} {ε : Type v}

/-- The events of a run are all useful where they occur. -/
def UsefulRun (step : σ → ε → σ) (Useful : σ → ε → Prop) : σ → List ε → Prop
  | _, [] => True
  | s, e :: events => Useful s e ∧ UsefulRun step Useful (step s e) events

/-- Useful events keep `Inv` and make the measure fall. -/
structure Falls (step : σ → ε → σ) (Useful : σ → ε → Prop) (Inv : σ → Prop) (measure : σ → Nat) : Prop where
  keep : ∀ s e, Inv s → Useful s e → Inv (step s e)
  fall : ∀ s e, Inv s → Useful s e → measure (step s e) < measure s

variable {step : σ → ε → σ} {Useful : σ → ε → Prop} {Inv Idle : σ → Prop} {measure : σ → Nat} {s : σ}
  {events : List ε}

theorem UsefulRun.keep (run : UsefulRun step Useful s events) (falls : Falls step Useful Inv measure) (inv : Inv s) :
    Inv (events.foldl step s) := by
  induction events generalizing s with
  | nil => exact inv
  | cons e events ih => exact ih run.2 (falls.keep s e inv run.1)

/-- A run of useful events is no longer than the measure of its first state. -/
theorem UsefulRun.length_le (run : UsefulRun step Useful s events) (falls : Falls step Useful Inv measure)
    (inv : Inv s) : events.length ≤ measure s := by
  induction events generalizing s with
  | nil => exact Nat.zero_le _
  | cons e events ih =>
    have after := ih run.2 (falls.keep s e inv run.1)
    have := falls.fall s e inv run.1
    simp only [List.length_cons]
    omega

/-- Where a useful event is left as long as the state is not idle, useful events lead to an idle one. -/
theorem Falls.exists_idle (falls : Falls step Useful Inv measure)
    (progress : ∀ s, Inv s → Idle s ∨ ∃ e, Useful s e) (inv : Inv s) :
    ∃ events, UsefulRun step Useful s events ∧ Idle (events.foldl step s) := by
  induction hm : measure s using Nat.strongRecOn generalizing s with
  | _ m ih =>
    rcases progress s inv with idle | ⟨e, useful⟩
    · exact ⟨[], trivial, idle⟩
    · have less : measure (step s e) < m := by
        rw [← hm]
        exact falls.fall s e inv useful
      obtain ⟨events, run, idle⟩ := ih _ less (falls.keep s e inv useful) rfl
      exact ⟨e :: events, ⟨useful, run⟩, idle⟩

end Wddlib
