import Mathlib.Data.List.Nodup
import Mathlib.Logic.Function.Basic
import Mathlib.Tactic.Common

namespace Wddlib

variable {ι : Type} {next next' : ι → ι} {null head x y : ι} {xs ys zs : List ι}

/-- `Walk next null head xs`: following `next` from `head` visits exactly `xs` and ends in `null`. -/
def Walk (next : ι → ι) (null : ι) : ι → List ι → Prop
  | head, [] => head = null
  | head, x :: xs => head = x ∧ x ≠ null ∧ Walk next null (next x) xs

theorem walk_head_eq (h : Walk next null head xs) : head = xs.head?.getD null := by
  cases xs with
  | nil => exact h
  | cons x xs => exact h.1

/-- A walk reads only the links of the nodes it visits. -/
theorem walk_frame (h : Walk next null head xs) (same : ∀ a ∈ xs, next' a = next a) :
    Walk next' null head xs := by
  induction xs generalizing head with
  | nil => exact h
  | cons a xs ih =>
    refine ⟨h.1, h.2.1, ?_⟩
    rw [same a (by simp)]
    exact ih h.2.2 (fun b hb => same b (by simp [hb]))

theorem walk_tail_of_append (h : Walk next null head (xs ++ ys)) :
    Walk next null (ys.head?.getD null) ys := by
  induction xs generalizing head with
  | nil =>
    have hys : Walk next null head ys := h
    rw [walk_head_eq hys] at hys
    exact hys
  | cons a xs ih => exact ih h.2.2

/-- Redirecting the link of one visited node replaces everything behind it. -/
theorem walk_splice (h : Walk next null head (xs ++ y :: ys)) (same : ∀ a ∈ xs, next' a = next a)
    (rest : Walk next' null (next' y) zs) : Walk next' null head (xs ++ y :: zs) := by
  induction xs generalizing head with
  | nil => exact ⟨h.1, h.2.1, rest⟩
  | cons a xs ih =>
    refine ⟨h.1, h.2.1, ?_⟩
    rw [same a (by simp)]
    exact ih h.2.2 (fun b hb => same b (by simp [hb]))

/-- The link of a visited node names the node behind it. -/
theorem walk_link (h : Walk next null head (xs ++ y :: ys)) : next y = ys.head?.getD null := by
  induction xs generalizing head with
  | nil => exact walk_head_eq h.2.2
  | cons a xs ih => exact ih h.2.2

theorem walk_link_mem (h : Walk next null head xs) (hx : y ∈ xs) : next y ∈ xs ∨ next y = null := by
  obtain ⟨front, behind, rfl⟩ := List.append_of_mem hx
  rw [walk_link h]
  cases behind with
  | nil => exact .inr rfl
  | cons b behind => exact .inl (by simp)

/-- What follows `xs` is replaced by `zs`: the last node of `xs`, or the head when there is none, now names
the start of `zs`. -/
theorem walk_join (h : Walk next null head (xs ++ ys)) (nodup : xs.Nodup) {head' start : ι}
    (hhead : head' = if xs = [] then start else head)
    (same : ∀ a ∈ xs, xs.getLast? ≠ some a → next' a = next a)
    (link : ∀ a, xs.getLast? = some a → next' a = start) (rest : Walk next' null start zs) :
    Walk next' null head' (xs ++ zs) := by
  cases hl : xs.getLast? with
  | none =>
    have empty : xs = [] := List.getLast?_eq_none_iff.mp hl
    subst empty
    simpa [hhead] using rest
  | some z =>
    obtain ⟨front, hfront⟩ := List.getLast?_eq_some_iff.mp hl
    subst hfront
    simp only [List.append_eq_nil_iff, List.cons_ne_self, and_false, if_false] at hhead
    rw [hhead, List.append_assoc]
    have hw : Walk next null head (front ++ z :: ys) := by simpa using h
    refine walk_splice hw ?_ ?_
    · intro a ha
      refine same a (by simp [ha]) ?_
      intro he
      have haz : z = a := by simpa using he
      subst haz
      exact (List.nodup_append.mp nodup).2.2 z ha z (by simp) rfl
    · rw [link z hl]
      exact rest

/-- Unlinking `y`: its predecessor, or the head when there is none, now names its successor. -/
theorem walk_remove (h : Walk next null head (xs ++ y :: ys))
    (nodup : (xs ++ y :: ys).Nodup) {head' : ι}
    (hhead : head' = if xs = [] then ys.head?.getD null else head)
    (same : ∀ a ∈ xs ++ ys, xs.getLast? ≠ some a → next' a = next a)
    (link : ∀ a, xs.getLast? = some a → next' a = ys.head?.getD null) :
    Walk next' null head' (xs ++ ys) := by
  have hys : Walk next' null (ys.head?.getD null) ys := by
    have hw : Walk next null head ((xs ++ [y]) ++ ys) := by simpa using h
    refine walk_frame (walk_tail_of_append hw) ?_
    intro a ha
    refine same a (by simp [ha]) ?_
    intro hl
    have hd := (List.nodup_append.mp nodup).2.2 a (List.mem_of_getLast? hl) a (by simp [ha])
    exact hd rfl
  exact walk_join h (List.nodup_append.mp nodup).1 hhead (fun a ha => same a (by simp [ha])) link hys

/-- Appending `y`: the last node, or the head when there is none, now names it. -/
theorem walk_push_back (h : Walk next null head xs) (hy : y ≠ null) (nodup : xs.Nodup) {head' : ι}
    (hhead : head' = if xs = [] then y else head)
    (same : ∀ a ∈ xs, xs.getLast? ≠ some a → next' a = next a)
    (link : ∀ a, xs.getLast? = some a → next' a = y) (last : next' y = null) :
    Walk next' null head' (xs ++ [y]) := by
  have single : Walk next' null y [y] := ⟨rfl, hy, last⟩
  have hw : Walk next null head (xs ++ []) := by simpa using h
  exact walk_join hw nodup hhead same link single

end Wddlib
