import Mathlib.Data.List.Nodup
import Mathlib.Logic.Function.Basic

namespace Wddlib

universe u

variable {α : Type u} {parent parent' : α → Option α} {start : Option α} {x y : α} {xs ys : List α}

/-- `Chain parent start xs`: going from `start` to parents visits exactly `xs` and ends. -/
def Chain (parent : α → Option α) : Option α → List α → Prop
  | start, [] => start = none
  | start, x :: xs => start = some x ∧ Chain parent (parent x) xs

/-- `x` is met on the way from `start` to parents. -/
inductive OnChain (parent : α → Option α) : Option α → α → Prop where
  | here (x : α) : OnChain parent (some x) x
  | above {x y : α} (h : OnChain parent (parent y) x) : OnChain parent (some y) x

/-- The way from `start` to parents ends. -/
inductive Ends (parent : α → Option α) : Option α → Prop where
  | none : Ends parent none
  | some {x : α} (h : Ends parent (parent x)) : Ends parent (some x)

/-- The chain from `start`, unless it is longer than `n`. -/
def climb (parent : α → Option α) : Nat → Option α → Option (List α)
  | _, none => some []
  | 0, some _ => none
  | n + 1, some x => (climb parent n (parent x)).map (x :: ·)

theorem climb_chain {n : Nat} (h : climb parent n start = some xs) : Chain parent start xs := by
  induction n generalizing start xs with
  | zero =>
    cases start with
    | none =>
      cases Option.some.inj h
      rfl
    | some x => cases h
  | succ n ih =>
    cases start with
    | none =>
      cases Option.some.inj h
      rfl
    | some x =>
      obtain ⟨ys, hys, rfl⟩ := Option.map_eq_some_iff.mp h
      exact ⟨rfl, ih hys⟩

theorem chain_start (h : Chain parent start xs) : start = xs.head? := by
  cases xs with
  | nil => exact h
  | cons x xs => exact h.1

theorem chain_frame (h : Chain parent start xs) (same : ∀ y ∈ xs, parent' y = parent y) :
    Chain parent' start xs := by
  induction xs generalizing start with
  | nil => exact h
  | cons x xs ih =>
    refine ⟨h.1, ?_⟩
    rw [same x (by simp)]
    exact ih h.2 fun y hy => same y (by simp [hy])

theorem chain_unique (h : Chain parent start xs) (h' : Chain parent start ys) : xs = ys := by
  induction xs generalizing start ys with
  | nil =>
    cases ys with
    | nil => rfl
    | cons y ys =>
      have hnone : start = none := h
      rw [hnone] at h'
      cases h'.1
  | cons x xs ih =>
    cases ys with
    | nil =>
      have hnone : start = none := h'
      rw [hnone] at h
      cases h.1
    | cons y ys =>
      obtain rfl := Option.some.inj (h.1.symm.trans h'.1)
      rw [ih h.2 h'.2]

theorem chain_of_append (h : Chain parent start (ys ++ x :: xs)) : Chain parent (some x) (x :: xs) := by
  induction ys generalizing start with
  | nil => exact ⟨rfl, h.2⟩
  | cons y ys ih => exact ih h.2

/-- A chain that ends does not come back to where it was. -/
theorem chain_nodup (h : Chain parent start xs) : xs.Nodup := by
  induction xs generalizing start with
  | nil => exact List.nodup_nil
  | cons x xs ih =>
    refine List.nodup_cons.mpr ⟨?_, ih h.2⟩
    intro hx
    obtain ⟨ys, zs, rfl⟩ := List.append_of_mem hx
    have again := chain_of_append h.2
    have whole : Chain parent (some x) (x :: (ys ++ x :: zs)) := ⟨rfl, h.2⟩
    have hlength := congrArg List.length (chain_unique whole again)
    simp at hlength
    omega

theorem onChain_iff_mem (h : Chain parent start xs) : OnChain parent start x ↔ x ∈ xs := by
  constructor
  · intro on
    induction on generalizing xs with
    | here x =>
      cases xs with
      | nil => cases h
      | cons y ys =>
        obtain rfl := Option.some.inj h.1
        simp
    | above _ ih =>
      cases xs with
      | nil => cases h
      | cons z zs =>
        obtain rfl := Option.some.inj h.1
        exact List.mem_cons_of_mem _ (ih h.2)
  · intro hx
    induction xs generalizing start with
    | nil => cases hx
    | cons y ys ih =>
      rw [h.1]
      rcases List.mem_cons.mp hx with rfl | hx
      · exact .here x
      · exact .above (ih h.2 hx)

theorem ends_iff_chain : Ends parent start ↔ ∃ xs, Chain parent start xs := by
  constructor
  · intro ends
    induction ends with
    | none => exact ⟨[], rfl⟩
    | @some x _ ih =>
      obtain ⟨xs, hxs⟩ := ih
      exact ⟨x :: xs, rfl, hxs⟩
  · rintro ⟨xs, h⟩
    induction xs generalizing start with
    | nil =>
      have hnone : start = Option.none := h
      rw [hnone]
      exact .none
    | cons x xs ih =>
      rw [h.1]
      exact .some (ih h.2)

theorem ends_parent (h : Ends parent (some x)) : Ends parent (parent x) := by
  cases h with
  | some h => exact h

section update

variable [DecidableEq α]

/-- The way to `x` does not depend on the parent of `x`. -/
theorem onChain_update (h : OnChain parent start x) (above : Option α) :
    OnChain (Function.update parent x above) start x := by
  induction h with
  | here x => exact .here x
  | @above x y _ ih =>
    by_cases hy : y = x
    · subst hy
      exact .here y
    · refine .above ?_
      rw [Function.update_of_ne hy]
      exact ih

/-- Hanging `x` below a chain that has `x` closes a cycle. -/
theorem not_ends_of_onChain (h : OnChain parent start x) :
    ¬ Ends (Function.update parent x start) (some x) := by
  intro ends
  obtain ⟨xs, hxs⟩ := ends_iff_chain.mp (ends_parent ends)
  have whole : Chain (Function.update parent x start) (some x) (x :: xs) := ⟨rfl, hxs⟩
  have again : OnChain (Function.update parent x start) (Function.update parent x start x) x := by
    rw [Function.update_self]
    exact onChain_update h start
  exact (List.nodup_cons.mp (chain_nodup whole)).1 ((onChain_iff_mem hxs).mp again)

/-- Hanging `x` below a chain without `x` keeps all chains finite. -/
theorem ends_update (all : ∀ y, Ends parent (some y)) (ends : Ends parent start)
    (off : ¬ OnChain parent start x) (y : α) : Ends (Function.update parent x start) (some y) := by
  have above : Ends (Function.update parent x start) start := by
    obtain ⟨xs, hxs⟩ := ends_iff_chain.mp ends
    refine ends_iff_chain.mpr ⟨xs, chain_frame hxs fun z hz => Function.update_of_ne ?_ _ _⟩
    rintro rfl
    exact off ((onChain_iff_mem hxs).mpr hz)
  obtain ⟨ys, hys⟩ := ends_iff_chain.mp (all y)
  clear all
  induction ys generalizing y with
  | nil => cases hys
  | cons z zs ih =>
    obtain rfl := Option.some.inj hys.1
    refine .some ?_
    by_cases hy : y = x
    · subst hy
      rw [Function.update_self]
      exact above
    · rw [Function.update_of_ne hy]
      cases hparent : parent y with
      | none => exact .none
      | some w =>
        have hrest := hys.2
        rw [hparent] at hrest
        exact ih w hrest

end update

end Wddlib
