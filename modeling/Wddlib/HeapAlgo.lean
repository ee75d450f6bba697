import Mathlib.Logic.Equiv.Basic
import Mathlib.Order.Lattice
import Mathlib.Tactic.Common

namespace Wddlib

universe u v

/-- A random-access range over a container state: an element is copied out by `read` and
overwritten by `assign`, which may have side effects on the container. -/
structure Cells (σ : Type u) (α : Type v) where
  read : σ → Nat → α
  assign : σ → Nat → α → σ

section Algorithms

variable {σ : Type u} {α : Type v} (cells : Cells σ α) (less : α → α → Bool)

/-- `std::__push_heap` with top index 0: move the hole up while the parent is less than `value`,
then drop `value` into it. The budget is at least the hole index, which every move decreases. -/
def pushHole (value : α) : Nat → σ → Nat → σ
  | 0, s, hole => cells.assign s hole value
  | fuel + 1, s, hole =>
    if 0 < hole ∧ less (cells.read s ((hole - 1) / 2)) value = true then
      pushHole value fuel (cells.assign s hole (cells.read s ((hole - 1) / 2))) ((hole - 1) / 2)
    else cells.assign s hole value

/-- The loop of `std::__adjust_heap`: move the hole down to the child that is not less than its
sibling, while it has two children. -/
def sinkHole (len : Nat) : Nat → σ → Nat → σ × Nat
  | 0, s, hole => (s, hole)
  | fuel + 1, s, hole =>
    if hole < (len - 1) / 2 then
      let secondChild := 2 * (hole + 1)
      let child := if less (cells.read s secondChild) (cells.read s (secondChild - 1)) = true
        then secondChild - 1 else secondChild
      sinkHole len fuel (cells.assign s hole (cells.read s child)) child
    else (s, hole)

/-- `std::__adjust_heap`. A hole with a left child only exists when `len` is even and the hole is
the last inner position. -/
def adjustHeap (s : σ) (hole len : Nat) (value : α) : σ :=
  let sunk := sinkHole cells less len len s hole
  if len % 2 = 0 ∧ 2 * sunk.2 + 2 = len then
    let child := 2 * (sunk.2 + 1) - 1
    pushHole cells less value child (cells.assign sunk.1 sunk.2 (cells.read sunk.1 child)) child
  else pushHole cells less value sunk.2 sunk.1 sunk.2

/-- `std::push_heap` on the first `last` positions. -/
def pushHeap (s : σ) (last : Nat) : σ :=
  pushHole cells less (cells.read s (last - 1)) (last - 1) s (last - 1)

/-- `std::pop_heap` on the first `last` positions. -/
def popHeap (s : σ) (last : Nat) : σ :=
  if 1 < last then
    let value := cells.read s (last - 1)
    adjustHeap cells less (cells.assign s (last - 1) (cells.read s 0)) 0 (last - 1) value
  else s

section Keeps

variable {cells less} {P : σ → Prop} {s : σ}

/-- The algorithms reach the container through `assign` only. -/
theorem pushHole_keeps (keep : ∀ s i v, P s → P (cells.assign s i v)) (h : P s) (value : α) (fuel hole : Nat) :
    P (pushHole cells less value fuel s hole) := by
  induction fuel generalizing s hole with
  | zero => exact keep _ _ _ h
  | succ fuel ih =>
    simp only [pushHole]
    split
    · exact ih (keep _ _ _ h) _
    · exact keep _ _ _ h

theorem sinkHole_keeps (keep : ∀ s i v, P s → P (cells.assign s i v)) (h : P s) (len fuel hole : Nat) :
    P (sinkHole cells less len fuel s hole).1 := by
  induction fuel generalizing s hole with
  | zero => exact h
  | succ fuel ih =>
    simp only [sinkHole]
    split
    · exact ih (keep _ _ _ h) _
    · exact h

theorem pushHeap_keeps (keep : ∀ s i v, P s → P (cells.assign s i v)) (h : P s) (last : Nat) :
    P (pushHeap cells less s last) :=
  pushHole_keeps keep h _ _ _

theorem popHeap_keeps (keep : ∀ s i v, P s → P (cells.assign s i v)) (h : P s) (last : Nat) :
    P (popHeap cells less s last) := by
  unfold popHeap
  split
  · have sunk : P (sinkHole cells less (last - 1) (last - 1)
        (cells.assign s (last - 1) (cells.read s 0)) 0).1 := sinkHole_keeps keep (keep _ _ _ h) _ _ _
    simp only [adjustHeap]
    split
    · exact pushHole_keeps keep (keep _ _ _ sunk) _ _ _
    · exact pushHole_keeps keep sunk _ _ _
  · exact h

end Keeps

end Algorithms

section Order

variable {β : Type u} {κ : Type v} [LinearOrder κ] (key : β → κ)

/-- The first `n` positions form a binary heap with a minimal key at the root. -/
def HeapOrdered (a : Nat → β) (n : Nat) : Prop :=
  ∀ i, 0 < i → i < n → key (a ((i - 1) / 2)) ≤ key (a i)

/-- Heap order except that the element at `hole` may be smaller than its ancestors. -/
structure RisingAt (a : Nat → β) (n hole : Nat) : Prop where
  off : ∀ i, 0 < i → i < n → i ≠ hole → key (a ((i - 1) / 2)) ≤ key (a i)
  skip : 0 < hole → ∀ c, 0 < c → c < n → (c - 1) / 2 = hole → key (a ((hole - 1) / 2)) ≤ key (a c)

/-- Heap order except that nothing is known about the element at `hole`. -/
structure SinkingAt (a : Nat → β) (n hole : Nat) : Prop where
  off : ∀ i, 0 < i → i < n → i ≠ hole → (i - 1) / 2 ≠ hole → key (a ((i - 1) / 2)) ≤ key (a i)
  skip : 0 < hole → ∀ c, 0 < c → c < n → (c - 1) / 2 = hole → key (a ((hole - 1) / 2)) ≤ key (a c)

variable {key} {a : Nat → β} {n hole : Nat}

theorem HeapOrdered.root_le (h : HeapOrdered key a n) {i : Nat} (hi : i < n) : key (a 0) ≤ key (a i) := by
  induction i using Nat.strongRecOn with
  | ind i ih =>
    rcases Nat.eq_zero_or_pos i with rfl | hpos
    · exact le_rfl
    · exact (ih ((i - 1) / 2) (by omega) (by omega)).trans (h i hpos hi)

theorem HeapOrdered.none_due (h : HeapOrdered key a n) {bound : κ} (idle : ¬ (0 < n ∧ key (a 0) ≤ bound)) :
    ∀ i, i < n → bound < key (a i) := by
  intro i hi
  have hroot : bound < key (a 0) := not_le.mp fun hle => idle ⟨by omega, hle⟩
  exact hroot.trans_le (h.root_le hi)

theorem HeapOrdered.mono (h : HeapOrdered key a n) {m : Nat} (hm : m ≤ n) : HeapOrdered key a m :=
  fun i hpos hi => h i hpos (by omega)

theorem HeapOrdered.congr (h : HeapOrdered key a n) {b : Nat → β} (same : ∀ i, i < n → b i = a i) :
    HeapOrdered key b n := by
  intro i hpos hi
  rw [same i hi, same _ (by omega)]
  exact h i hpos hi

/-- A new element behind a heap. -/
theorem HeapOrdered.rising_last (h : HeapOrdered key a n) (e : β) :
    RisingAt key (Function.update a n e) (n + 1) n := by
  constructor
  · intro i hi hin hne
    rw [Function.update_of_ne hne, Function.update_of_ne (by omega)]
    exact h i hi (by omega)
  · intro _ c _ hcn hcp
    omega

/-- Moving the hole to its parent, whose element takes the hole's place. -/
theorem RisingAt.move (h : RisingAt key a n hole) (hpos : 0 < hole) (hn : hole < n)
    (lt : key (a hole) < key (a ((hole - 1) / 2))) :
    RisingAt key (a ∘ Equiv.swap hole ((hole - 1) / 2)) n ((hole - 1) / 2) := by
  have hlt : (hole - 1) / 2 < hole := by omega
  have self : (a ∘ Equiv.swap hole ((hole - 1) / 2)) hole = a ((hole - 1) / 2) := by simp
  have parent : (a ∘ Equiv.swap hole ((hole - 1) / 2)) ((hole - 1) / 2) = a hole := by simp
  have other : ∀ i, i ≠ hole → i ≠ (hole - 1) / 2 → (a ∘ Equiv.swap hole ((hole - 1) / 2)) i = a i := by
    intro i h1 h2
    simp [Equiv.swap_apply_of_ne_of_ne h1 h2]
  constructor
  · intro i hi hin hip
    by_cases hih : i = hole
    · subst hih
      rw [self, parent]
      exact lt.le
    · rw [other i hih hip]
      by_cases hph : (i - 1) / 2 = hole
      · rw [hph, self]
        exact h.skip hpos i hi hin hph
      · by_cases hpp : (i - 1) / 2 = (hole - 1) / 2
        · rw [hpp, parent]
          have hle := h.off i hi hin hih
          rw [hpp] at hle
          exact lt.le.trans hle
        · rw [other _ hph hpp]
          exact h.off i hi hin hih
  · intro hp c hc hcn hcp
    have hup := h.off ((hole - 1) / 2) hp (by omega) (by omega)
    rw [other (((hole - 1) / 2 - 1) / 2) (by omega) (by omega)]
    by_cases hch : c = hole
    · subst hch
      rw [self]
      exact hup
    · rw [other c hch (by omega)]
      have hle := h.off c hc hcn hch
      rw [hcp] at hle
      exact hup.trans hle

theorem RisingAt.stop (h : RisingAt key a n hole)
    (hstop : 0 < hole → key (a ((hole - 1) / 2)) ≤ key (a hole)) : HeapOrdered key a n := by
  intro i hi hin
  by_cases hih : i = hole
  · subst hih
    exact hstop hi
  · exact h.off i hi hin hih

/-- Nothing has to be known about the root. -/
theorem HeapOrdered.sinking (h : HeapOrdered key a n) : SinkingAt key a n 0 := by
  constructor
  · intro i hi hin _ _
    exact h i hi hin
  · intro hpos
    omega

/-- Moving the hole to a least child, whose element takes the hole's place. -/
theorem SinkingAt.move (h : SinkingAt key a n hole) {c : Nat} (hc : 0 < c) (hcn : c < n)
    (hch : (c - 1) / 2 = hole)
    (least : ∀ d, 0 < d → d < n → (d - 1) / 2 = hole → key (a c) ≤ key (a d)) :
    SinkingAt key (a ∘ Equiv.swap hole c) n c := by
  have hlt : hole < c := by omega
  have self : (a ∘ Equiv.swap hole c) hole = a c := by simp
  have other : ∀ i, i ≠ hole → i ≠ c → (a ∘ Equiv.swap hole c) i = a i := by
    intro i h1 h2
    simp [Equiv.swap_apply_of_ne_of_ne h1 h2]
  constructor
  · intro i hi hin hic hpc
    by_cases hih : i = hole
    · subst hih
      rw [self, other ((i - 1) / 2) (by omega) hpc]
      exact h.skip hi c hc hcn hch
    · rw [other i hih hic]
      by_cases hph : (i - 1) / 2 = hole
      · rw [hph, self]
        exact least i hi hin hph
      · rw [other _ hph hpc]
        exact h.off i hi hin hih hph
  · intro _ d hd hdn hdc
    rw [hch, self, other d (by omega) (by omega)]
    have hle := h.off d hd hdn (by omega) (by omega)
    rw [hdc] at hle
    exact hle

/-- At a leaf the hole's element can only be too small. -/
theorem SinkingAt.rising (h : SinkingAt key a n hole) (leaf : n ≤ 2 * hole + 1) : RisingAt key a n hole := by
  constructor
  · intro i hi hin hih
    exact h.off i hi hin hih (by omega)
  · intro _ c hc hcn hch
    omega

end Order

section Rearrange

variable {β : Type u} {m n : Nat} {a b c : Nat → β}

/-- `b` holds the elements of `a`, permuted among the first `n` positions. -/
def Rearranged (n : Nat) (a b : Nat → β) : Prop :=
  ∃ π : Equiv.Perm Nat, (∀ i, n ≤ i → π i = i) ∧ b = a ∘ π

theorem Rearranged.refl (n : Nat) (a : Nat → β) : Rearranged n a a :=
  ⟨Equiv.refl _, fun _ _ => rfl, rfl⟩

theorem Rearranged.trans (hab : Rearranged n a b) (hbc : Rearranged n b c) : Rearranged n a c := by
  obtain ⟨π, hπ, rfl⟩ := hab
  obtain ⟨ρ, hρ, rfl⟩ := hbc
  refine ⟨ρ.trans π, ?_, rfl⟩
  intro i hi
  simp [hρ i hi, hπ i hi]

theorem Rearranged.swap {i j : Nat} (hi : i < n) (hj : j < n) (a : Nat → β) :
    Rearranged n a (a ∘ Equiv.swap i j) :=
  ⟨Equiv.swap i j, fun _ hk => Equiv.swap_apply_of_ne_of_ne (by omega) (by omega), rfl⟩

theorem Rearranged.mono (h : Rearranged m a b) (hm : m ≤ n) : Rearranged n a b := by
  obtain ⟨π, hπ, rfl⟩ := h
  exact ⟨π, fun i hi => hπ i (by omega), rfl⟩

theorem Rearranged.beyond (h : Rearranged n a b) {i : Nat} (hi : n ≤ i) : b i = a i := by
  obtain ⟨π, hπ, rfl⟩ := h
  simp [hπ i hi]

/-- Each position of the result holds the element of exactly one position of the original. -/
theorem Rearranged.origin (h : Rearranged n a b) :
    ∃ f : Nat → Nat, Function.Bijective f ∧ (∀ i, f i < n ↔ i < n) ∧ ∀ i, b i = a (f i) := by
  obtain ⟨π, hπ, rfl⟩ := h
  refine ⟨π, π.bijective, ?_, fun _ => rfl⟩
  intro i
  constructor
  · intro hlt
    by_contra hge
    rw [hπ i (by omega)] at hlt
    omega
  · intro hlt
    by_contra hge
    have hfix := hπ (π i) (by omega)
    have := π.injective hfix
    omega

end Rearrange

section Rules

variable {σ : Type u} {α β : Type v} {κ : Type} [LinearOrder κ]

/-- An invariant of a container while one of its first `n` positions is a hole. `open_ s hole a`
says that the container holds `a` once the element of `hole` is put back, `full s a` that it
holds `a`. -/
structure HoleRule (cells : Cells σ α) (payload : α → β) (n : Nat)
    (open_ : σ → Nat → (Nat → β) → Prop) (full : σ → (Nat → β) → Prop) : Prop where
  view : ∀ {s hole a i}, open_ s hole a → i < n → i ≠ hole → payload (cells.read s i) = a i
  move : ∀ {s hole a i}, open_ s hole a → hole < n → i < n → i ≠ hole →
    open_ (cells.assign s hole (cells.read s i)) i (a ∘ Equiv.swap hole i)
  fill : ∀ {s hole a v}, open_ s hole a → hole < n → payload v = a hole → full (cells.assign s hole v) a
  lift : ∀ {s hole a}, full s a → hole < n → open_ s hole a
  see : ∀ {s a i}, full s a → i < n → payload (cells.read s i) = a i

variable {cells : Cells σ α} {less : α → α → Bool} {payload : α → β} {key : β → κ} {n m : Nat}
  {open_ : σ → Nat → (Nat → β) → Prop} {full : σ → (Nat → β) → Prop} {s : σ} {a : Nat → β} {hole : Nat}

/-- The elements stay the same; an order with an element that may be too small is repaired, and a root
that is not larger than the new element stays. -/
theorem pushHole_rule (rule : HoleRule cells payload n open_ full)
    (hless : ∀ x y, less x y = true ↔ key (payload y) < key (payload x)) (hm : m ≤ n) {value : α}
    {fuel : Nat} (hf : hole ≤ fuel) (hh : hole < m) (ho : open_ s hole a) (hv : payload value = a hole) :
    ∃ b, full (pushHole cells less value fuel s hole) b ∧ Rearranged m a b ∧
      (RisingAt key a m hole → HeapOrdered key b m) ∧
      (hole ≠ 0 → key (a 0) ≤ key (a hole) → b 0 = a 0) := by
  induction fuel generalizing s a hole with
  | zero =>
    have hz : hole = 0 := by omega
    exact ⟨a, rule.fill ho (by omega) hv, .refl m a, fun rising => rising.stop (by omega), fun _ _ => rfl⟩
  | succ fuel ih =>
    simp only [pushHole]
    split
    next go =>
      have hlt := (hless _ _).mp go.2
      rw [rule.view ho (by omega) (by omega), hv] at hlt
      have hv' : payload value = (a ∘ Equiv.swap hole ((hole - 1) / 2)) ((hole - 1) / 2) := by
        simp [hv]
      obtain ⟨b, hb, hperm, hord, hroot⟩ := ih (by omega) (by omega)
        (rule.move ho (by omega) (by omega) (by omega)) hv'
      refine ⟨b, hb, (Rearranged.swap hh (by omega) a).trans hperm, fun rising => hord (rising.move go.1 hh hlt), ?_⟩
      intro hpos hle
      have hparent : (hole - 1) / 2 ≠ 0 := by
        intro hzero
        rw [hzero] at hlt
        exact absurd hle (not_le.mpr hlt)
      have root : (a ∘ Equiv.swap hole ((hole - 1) / 2)) 0 = a 0 := by
        simp [Equiv.swap_apply_of_ne_of_ne hpos.symm hparent.symm]
      rw [← root]
      refine hroot hparent ?_
      rw [root]
      simpa using hle
    next stop =>
      refine ⟨a, rule.fill ho (by omega) hv, .refl m a, fun rising => rising.stop ?_, fun _ _ => rfl⟩
      intro hpos
      have hnot : ¬ less (cells.read s ((hole - 1) / 2)) value = true := fun e => stop ⟨hpos, e⟩
      rw [hless, rule.view ho (by omega) (by omega), hv] at hnot
      exact not_lt.mp hnot

theorem sinkHole_rule (rule : HoleRule cells payload n open_ full)
    (hless : ∀ x y, less x y = true ↔ key (payload y) < key (payload x)) (hm : m ≤ n)
    {fuel : Nat} (hf : m ≤ hole + fuel) (hh : hole < m) (ho : open_ s hole a) :
    ∃ b, open_ (sinkHole cells less m fuel s hole).1 (sinkHole cells less m fuel s hole).2 b ∧
      (sinkHole cells less m fuel s hole).2 < m ∧
      (m - 1) / 2 ≤ (sinkHole cells less m fuel s hole).2 ∧
      (SinkingAt key a m hole → SinkingAt key b m (sinkHole cells less m fuel s hole).2) ∧ Rearranged m a b ∧
      b (sinkHole cells less m fuel s hole).2 = a hole := by
  induction fuel generalizing s a hole with
  | zero => omega
  | succ fuel ih =>
    simp only [sinkHole]
    split
    next go =>
      generalize hc : (if less (cells.read s (2 * (hole + 1))) (cells.read s (2 * (hole + 1) - 1)) = true
        then 2 * (hole + 1) - 1 else 2 * (hole + 1)) = child
      have hsec := rule.view ho (show 2 * (hole + 1) < n by omega) (by omega)
      have hfst := rule.view ho (show 2 * (hole + 1) - 1 < n by omega) (by omega)
      have hchild : 0 < child ∧ child < m ∧ (child - 1) / 2 = hole := by
        split at hc <;> omega
      have least : ∀ d, 0 < d → d < m → (d - 1) / 2 = hole → key (a child) ≤ key (a d) := by
        intro d hd hdm hdh
        have hcases : d = 2 * (hole + 1) ∨ d = 2 * (hole + 1) - 1 := by omega
        split at hc
        next hl =>
          have hlt := (hless _ _).mp hl
          rw [hsec, hfst, hc] at hlt
          rcases hcases with rfl | rfl
          · exact hlt.le
          · rw [hc]
        next hl =>
          have hle := not_lt.mp (fun e => hl ((hless _ _).mpr e))
          rw [hsec, hfst] at hle
          subst hc
          rcases hcases with rfl | rfl
          · exact le_rfl
          · exact hle
      obtain ⟨b, hb, hlt, hleaf, hsink, hperm, hval⟩ := ih (by omega) hchild.2.1
        (rule.move ho (by omega) (by omega) (by omega))
      refine ⟨b, hb, hlt, hleaf, ?_, (Rearranged.swap hh hchild.2.1 a).trans hperm, ?_⟩
      · intro sinking
        exact hsink (sinking.move hchild.1 hchild.2.1 hchild.2.2 least)
      · rw [hval]
        simp
    next stop => exact ⟨a, ho, hh, by omega, id, .refl m a, rfl⟩

theorem adjustHeap_rule (rule : HoleRule cells payload n open_ full)
    (hless : ∀ x y, less x y = true ↔ key (payload y) < key (payload x)) (hm : m ≤ n) {value : α}
    (hh : hole < m) (ho : open_ s hole a) (hv : payload value = a hole) :
    ∃ b, full (adjustHeap cells less s hole m value) b ∧ Rearranged m a b ∧
      (SinkingAt key a m hole → HeapOrdered key b m) := by
  obtain ⟨b, hb, hlt, hleaf, hsink, hperm, hval⟩ :=
    sinkHole_rule rule hless hm (by omega : m ≤ hole + m) hh ho
  simp only [adjustHeap]
  generalize sinkHole cells less m m s hole = sunk at *
  split
  next one =>
    have hchild : 2 * (sunk.2 + 1) - 1 < m := by omega
    have hv' : payload value = (b ∘ Equiv.swap sunk.2 (2 * (sunk.2 + 1) - 1)) (2 * (sunk.2 + 1) - 1) := by
      simp [hv, hval]
    obtain ⟨c, hc, hperm', hord, -⟩ := pushHole_rule rule hless hm (Nat.le_refl _) hchild
      (rule.move hb (by omega) (by omega) (by omega)) hv'
    refine ⟨c, hc, hperm.trans ((Rearranged.swap hlt hchild b).trans hperm'), ?_⟩
    intro sinking
    have only : ∀ d, 0 < d → d < m → (d - 1) / 2 = sunk.2 → key (b (2 * (sunk.2 + 1) - 1)) ≤ key (b d) := by
      intro d hd hdm hdh
      rw [show d = 2 * (sunk.2 + 1) - 1 by omega]
    have hmoved := (hsink sinking).move (by omega) hchild (by omega) only
    exact hord (hmoved.rising (by omega))
  next none =>
    obtain ⟨c, hc, hperm', hord, -⟩ := pushHole_rule rule hless hm (Nat.le_refl _) hlt hb (hv.trans hval.symm)
    exact ⟨c, hc, hperm.trans hperm', fun sinking => hord ((hsink sinking).rising (by omega))⟩

/-- `std::push_heap` on a prefix of `m` elements. -/
theorem pushHeap_rule (rule : HoleRule cells payload n open_ full)
    (hless : ∀ x y, less x y = true ↔ key (payload y) < key (payload x)) (hm : m ≤ n) {last : Nat}
    (hl : 0 < last) (hlm : last ≤ m) (hfull : full s a) :
    ∃ b, full (pushHeap cells less s last) b ∧ Rearranged m a b ∧
      (RisingAt key a m (last - 1) → HeapOrdered key b m) ∧
      (last - 1 ≠ 0 → key (a 0) ≤ key (a (last - 1)) → b 0 = a 0) :=
  pushHole_rule rule hless hm (Nat.le_refl _) (by omega) (rule.lift hfull (by omega))
    (rule.see hfull (by omega))

/-- `std::pop_heap` moves the root behind the heap formed by the other elements. -/
theorem popHeap_rule (rule : HoleRule cells payload n open_ full)
    (hless : ∀ x y, less x y = true ↔ key (payload y) < key (payload x)) (hn : 0 < n)
    (hfull : full s a) :
    ∃ b, full (popHeap cells less s n) b ∧ Rearranged n a b ∧ b (n - 1) = a 0 ∧
      (SinkingAt key a n 0 → HeapOrdered key b (n - 1)) := by
  unfold popHeap
  split
  next many =>
    have hmove := rule.move (rule.lift hfull (show n - 1 < n by omega)) (show n - 1 < n by omega) hn
      (show 0 ≠ n - 1 by omega)
    have hv : payload (cells.read s (n - 1)) = (a ∘ Equiv.swap (n - 1) 0) 0 := by
      simp [rule.see hfull (show n - 1 < n by omega)]
    have other : ∀ i, i ≠ 0 → i < n - 1 → (a ∘ Equiv.swap (n - 1) 0) i = a i := by
      intro i h0 hi
      simp [Equiv.swap_apply_of_ne_of_ne (show i ≠ n - 1 by omega) h0]
    obtain ⟨b, hb, hperm, hord⟩ := adjustHeap_rule rule hless (Nat.sub_le n 1)
      (show 0 < n - 1 by omega) hmove hv
    refine ⟨b, hb, (Rearranged.swap (by omega) hn a).trans (hperm.mono (Nat.sub_le n 1)), ?_, ?_⟩
    · rw [hperm.beyond (Nat.le_refl _)]
      simp
    · intro sinking
      refine hord ⟨?_, fun h0 => absurd h0 (by omega)⟩
      intro i hi hin _ hp
      rw [other i (by omega) hin, other _ hp (by omega)]
      exact sinking.off i hi (by omega) (by omega) hp
  next one =>
    have hone : n = 1 := by omega
    subst hone
    refine ⟨a, hfull, .refl 1 a, rfl, ?_⟩
    intro _ i hi hin
    omega

end Rules

end Wddlib
