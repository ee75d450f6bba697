import Mathlib.Data.List.Basic
import Mathlib.Data.List.Range
import Mathlib.Data.Nat.ModEq

namespace Wddlib

variable {β : Type} {K : Nat} {slot slot' : Nat → Option β} {all : List β} {x y : β}

/-- `K` slots that are filled one after the other and over again: they hold the last entries of `all`, the
oldest one in the slot that is filled next. -/
structure CyclicSlots (K : Nat) (slot : Nat → Option β) (all : List β) : Prop where
  slot_eq : ∀ j < K, slot ((all.length + j) % K) = if K ≤ all.length + j then all[all.length + j - K]? else none

theorem add_mod_inj {n a b : Nat} (ha : a < K) (hb : b < K) (h : (n + a) % K = (n + b) % K) : a = b := by
  have hmod : a ≡ b [MOD K] := Nat.ModEq.add_left_cancel' n h
  rw [Nat.ModEq, Nat.mod_eq_of_lt ha, Nat.mod_eq_of_lt hb] at hmod
  exact hmod

namespace CyclicSlots

theorem empty (K : Nat) (none_eq : ∀ i < K, slot i = none) : CyclicSlots K slot [] := by
  refine ⟨fun j hj => ?_⟩
  rw [List.length_nil, Nat.zero_add, Nat.mod_eq_of_lt hj, none_eq j hj, if_neg (by omega)]

theorem congr (slots : CyclicSlots K slot all) (same : ∀ i < K, slot' i = slot i) : CyclicSlots K slot' all := by
  refine ⟨fun j hj => ?_⟩
  rw [same _ (Nat.mod_lt _ (Nat.zero_lt_of_lt hj))]
  exact slots.slot_eq j hj

/-- The slots that keep their place when the last one is filled or changed. -/
theorem other_slot {n j : Nat} (hj : j + 1 < K) : (n + (j + 1)) % K ≠ n % K := by
  intro h
  have hzero := @add_mod_inj K n (j + 1) 0 hj (by omega) h
  omega

theorem push (slots : CyclicSlots K slot all) (hslot : slot' (all.length % K) = some x)
    (others : ∀ i < K, i ≠ all.length % K → slot' i = slot i) : CyclicSlots K slot' (all ++ [x]) := by
  refine ⟨fun j hj => ?_⟩
  rw [List.length_append, List.length_singleton, Nat.add_assoc, Nat.add_comm 1 j]
  by_cases hlast : j + 1 = K
  · rw [hlast, Nat.add_mod_right, hslot, if_pos (by omega), Nat.add_sub_cancel, List.getElem?_concat_length]
  · rw [others _ (Nat.mod_lt _ (by omega)) (other_slot (by omega)), slots.slot_eq (j + 1) (by omega)]
    split
    next hle => rw [List.getElem?_append_left (by omega)]
    next => rfl

theorem setLast (slots : CyclicSlots K slot (all ++ [x])) (hslot : slot' (all.length % K) = some y)
    (others : ∀ i < K, i ≠ all.length % K → slot' i = slot i) : CyclicSlots K slot' (all ++ [y]) := by
  refine ⟨fun j hj => ?_⟩
  have before := slots.slot_eq j hj
  rw [List.length_append, List.length_singleton, Nat.add_assoc, Nat.add_comm 1 j] at before ⊢
  by_cases hlast : j + 1 = K
  · rw [hlast, Nat.add_mod_right, hslot, if_pos (by omega), Nat.add_sub_cancel, List.getElem?_concat_length]
  · rw [others _ (Nat.mod_lt _ (by omega)) (other_slot (by omega)), before]
    split
    next hle => rw [List.getElem?_append_left (by omega), List.getElem?_append_left (by omega)]
    next => rfl

/-- The slot that was filled last. -/
theorem last_slot (slots : CyclicSlots K slot (all ++ [x])) (hK : 0 < K) : slot (all.length % K) = some x := by
  have h := slots.slot_eq (K - 1) (by omega)
  rw [List.length_append, List.length_singleton, show all.length + 1 + (K - 1) = all.length + K by omega,
    Nat.add_mod_right, if_pos (by omega), Nat.add_sub_cancel, List.getElem?_concat_length] at h
  exact h

/-- Every entry in a slot is one of `all`; one in another slot than the last is not the last. -/
theorem mem_of_slot (slots : CyclicSlots K slot (all ++ [x])) {i : Nat} (hi : i < K) (hne : i ≠ all.length % K)
    (h : slot i = some y) : y ∈ all := by
  obtain ⟨j, hj, rfl⟩ : ∃ j < K, ((all ++ [x]).length + j) % K = i := by
    refine ⟨(i + (K - (all ++ [x]).length % K)) % K, Nat.mod_lt _ (by omega), ?_⟩
    have hlt := Nat.mod_lt (all ++ [x]).length (show K > 0 by omega)
    have hsum : (all ++ [x]).length + (i + (K - (all ++ [x]).length % K)) =
        i + K * ((all ++ [x]).length / K + 1) := by
      have hdiv := Nat.div_add_mod (all ++ [x]).length K
      rw [Nat.mul_add, Nat.mul_one]
      omega
    rw [Nat.add_mod_mod, hsum, Nat.add_mul_mod_self_left, Nat.mod_eq_of_lt hi]
  rw [slots.slot_eq j hj] at h
  rw [List.length_append, List.length_singleton] at h hne
  split at h
  next hle =>
    have hlast : j + 1 ≠ K := by
      intro hlast
      rw [Nat.add_assoc, Nat.add_comm 1 j, hlast, Nat.add_mod_right] at hne
      exact hne rfl
    rw [List.getElem?_append_left (by omega)] at h
    exact List.mem_of_getElem? h
  next => cases h

theorem filterMap_getElem?_range (l : List β) : ((List.range l.length).filterMap fun j => l[j]?) = l := by
  induction l using List.reverseRecOn with
  | nil => rfl
  | append_singleton l x ih =>
    rw [List.length_append, List.length_singleton, List.range_succ, List.filterMap_append]
    have front : ((List.range l.length).filterMap fun j => (l ++ [x])[j]?) =
        (List.range l.length).filterMap fun j => l[j]? := by
      refine List.filterMap_congr fun j hj => ?_
      rw [List.getElem?_append_left (List.mem_range.mp hj)]
    rw [front, ih, List.filterMap_cons, List.getElem?_concat_length, List.filterMap_nil]

/-- From the slot that is filled next to the one filled last, the slots hold the end of `all`. -/
theorem read (slots : CyclicSlots K slot all) :
    ((List.range K).filterMap fun j => slot ((all.length + j) % K)) = all.drop (all.length - K) := by
  have hread : ((List.range K).filterMap fun j => slot ((all.length + j) % K)) =
      (List.range K).filterMap fun j => if K ≤ all.length + j then all[all.length + j - K]? else none :=
    List.filterMap_congr fun j hj => slots.slot_eq j (List.mem_range.mp hj)
  rw [hread]
  by_cases hle : K ≤ all.length
  · have hfull := filterMap_getElem?_range (all.drop (all.length - K))
    rw [List.length_drop, show all.length - (all.length - K) = K by omega] at hfull
    refine Eq.trans (List.filterMap_congr fun j _ => ?_) hfull
    rw [if_pos (by omega), List.getElem?_drop, show all.length - K + j = all.length + j - K by omega]
  · rw [show all.length - K = 0 by omega, List.drop_zero, show K = (K - all.length) + all.length by omega,
      List.range_add, List.filterMap_append, List.filterMap_map]
    have front : ((List.range (K - all.length)).filterMap fun j =>
        if K - all.length + all.length ≤ all.length + j then all[all.length + j - (K - all.length + all.length)]?
        else none) = [] := by
      rw [List.filterMap_eq_nil_iff]
      intro j hj
      rw [if_neg (by have := List.mem_range.mp hj; omega)]
    rw [front, List.nil_append]
    refine Eq.trans (List.filterMap_congr fun j _ => ?_) (filterMap_getElem?_range all)
    simp only [Function.comp_apply]
    rw [if_pos (by omega), show all.length + (K - all.length + j) - (K - all.length + all.length) = j by omega]

end CyclicSlots

end Wddlib
