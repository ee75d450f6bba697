import Mathlib.Data.List.Basic
import Mathlib.Logic.Function.Basic

namespace Wddlib

universe u v

variable {σ : Type u} {ε : Type v} {step : σ → ε → σ} {s : σ} {events : List ε}

/-- The state after the first `k` events of a run. -/
def stateAt (step : σ → ε → σ) (s : σ) (events : List ε) (k : Nat) : σ :=
  (events.take k).foldl step s

theorem stateAt_zero (step : σ → ε → σ) (s : σ) (events : List ε) : stateAt step s events 0 = s := by
  simp [stateAt]

theorem stateAt_succ {k : Nat} {e : ε} (h : events[k]? = some e) :
    stateAt step s events (k + 1) = step (stateAt step s events k) e := by
  simp [stateAt, List.take_add_one, h, List.foldl_append]

theorem stateAt_end {k : Nat} (h : events[k]? = none) :
    stateAt step s events (k + 1) = stateAt step s events k := by
  simp [stateAt, List.take_add_one, h]

theorem stateAt_of_length_le {k : Nat} (h : events.length ≤ k) :
    stateAt step s events k = events.foldl step s := by
  simp [stateAt, List.take_of_length_le h]

theorem stateAt_take {j k : Nat} (h : j ≤ k) :
    stateAt step s (events.take k) j = stateAt step s events j := by
  simp [stateAt, List.take_take, Nat.min_eq_left h]

/-- A property that every step of a run keeps holds in every state of the run. -/
theorem stateAt_induct {Inv : σ → Prop} (start : Inv s)
    (keep : ∀ k e, events[k]? = some e → Inv (stateAt step s events k) →
      Inv (step (stateAt step s events k) e)) (k : Nat) : Inv (stateAt step s events k) := by
  induction k with
  | zero =>
    rw [stateAt_zero]
    exact start
  | succ k ih =>
    cases h : events[k]? with
    | none =>
      rw [stateAt_end h]
      exact ih
    | some e =>
      rw [stateAt_succ h]
      exact keep k e h ih

/-- What holds of every event of a list can be checked event by event. -/
theorem forall_event_iff {P : Nat → ε → Prop} :
    (∀ k e, events[k]? = some e → P k e) ↔ ∀ k : Fin events.length, P k (events.get k) := by
  constructor
  · intro h k
    exact h k _ (by simp)
  · intro h k e he
    obtain ⟨hk, rfl⟩ := List.getElem?_eq_some_iff.mp he
    exact h ⟨k, hk⟩

/-- Every entry of a log, the latest of which stands first, meets a condition on the entries before
it. -/
def LogOk (ok : List ε → ε → Prop) : List ε → Prop
  | [] => True
  | e :: log => ok log e ∧ LogOk ok log

theorem LogOk.entry {ok : List ε → ε → Prop} {log later earlier : List ε} {e : ε} (h : LogOk ok log)
    (split : log = later ++ e :: earlier) : ok earlier e := by
  induction later generalizing log with
  | nil =>
    subst split
    exact h.1
  | cons x later ih =>
    subst split
    exact ih h.2 rfl

/-- An entry of a partial map that was taken out is gone, the others are there. -/
theorem update_none_eq_some [DecidableEq σ] {map : σ → Option ε} {a b : σ} {v : ε} :
    Function.update map a none b = some v ↔ b ≠ a ∧ map b = some v := by
  simp [Function.update_apply]

end Wddlib
