import Mathlib.Order.Lattice

namespace Wddlib

universe u

variable {β : Type u} [LinearOrder β] {key : Nat → Option β} {n i c : Nat} {t s : β}

/-- Of the entries below `n` that have a key, `i` is the first one with the greatest key. -/
structure FirstMax (key : Nat → Option β) (n i : Nat) (t : β) : Prop where
  lt : i < n
  key_eq : key i = some t
  first : ∀ j < i, ∀ s, key j = some s → s < t
  greatest : ∀ j < n, ∀ s, key j = some s → s ≤ t

namespace FirstMax

/-- One more entry that has no key. -/
theorem skip (h : FirstMax key n i t) (none_eq : key n = none) : FirstMax key (n + 1) i t := by
  refine ⟨Nat.lt_succ_of_lt h.lt, h.key_eq, h.first, ?_⟩
  intro j hj s hs
  rcases Nat.lt_succ_iff_lt_or_eq.mp hj with hlt | rfl
  · exact h.greatest j hlt s hs
  · rw [none_eq] at hs
    cases hs

theorem newer (h : FirstMax key n i t) (hs : key n = some s) (hlt : t < s) : FirstMax key (n + 1) n s := by
  have below : ∀ j < n, ∀ s', key j = some s' → s' < s := fun j hj s' h' => (h.greatest j hj s' h').trans_lt hlt
  refine ⟨Nat.lt_succ_self n, hs, below, ?_⟩
  intro j hj s' h'
  rcases Nat.lt_succ_iff_lt_or_eq.mp hj with hj | rfl
  · exact (below j hj s' h').le
  · exact (Option.some.inj (h'.symm.trans hs)).le

theorem older (h : FirstMax key n i t) (hs : key n = some s) (hle : ¬ t < s) : FirstMax key (n + 1) i t := by
  refine ⟨Nat.lt_succ_of_lt h.lt, h.key_eq, h.first, ?_⟩
  intro j hj s' h'
  rcases Nat.lt_succ_iff_lt_or_eq.mp hj with hj | rfl
  · exact h.greatest j hj s' h'
  · rw [← Option.some.inj (hs.symm.trans h')]
    exact not_lt.mp hle

/-- The first entry that has a key at all. -/
theorem single (none_eq : ∀ j < n, key j = none) (hs : key n = some s) : FirstMax key (n + 1) n s := by
  refine ⟨Nat.lt_succ_self n, hs, ?_, ?_⟩
  · intro j hj s' h'
    rw [none_eq j hj] at h'
    cases h'
  · intro j hj s' h'
    rcases Nat.lt_succ_iff_lt_or_eq.mp hj with hj | rfl
    · rw [none_eq j hj] at h'
      cases h'
    · exact (Option.some.inj (h'.symm.trans hs)).le

/-- An entry with the greatest key is the first one exactly when no entry before it has the same key. -/
theorem eq_iff (h : FirstMax key n i t) (hc : c < n) (hs : key c = some s)
    (greatest : ∀ j < n, ∀ s', key j = some s' → s' ≤ s) : i = c ↔ ∀ j < c, key j ≠ some s := by
  constructor
  · rintro rfl j hj hsame
    have heq : s = t := Option.some.inj (hs.symm.trans h.key_eq)
    exact absurd (h.first j hj s hsame) (heq ▸ lt_irrefl s)
  · intro alone
    have heq : t = s := le_antisymm (greatest i h.lt t h.key_eq) (h.greatest c hc s hs)
    rcases Nat.lt_trichotomy i c with hlt | hsame | hgt
    · exact absurd (heq ▸ h.key_eq) (alone i hlt)
    · exact hsame
    · exact absurd (h.first c hgt s hs) (heq ▸ lt_irrefl s)

end FirstMax

end Wddlib
