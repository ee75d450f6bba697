import Mathlib.Data.List.Nodup
import Mathlib.Data.List.Perm.Basic
import Mathlib.Logic.Function.Basic

namespace Wddlib

universe u v

/-- A block of memory. -/
structure Block (α : Type u) where
  addr : α
  size : Nat
  deriving DecidableEq, Repr

/-- A call of an allocator: the block it hands out, or the address it is given back, `none` for NULL. -/
inductive HeapCall (α : Type u) where
  | alloc (block : Block α)
  | free (addr : Option α)
  deriving DecidableEq, Repr

variable {α : Type u} {ι : Type v} [DecidableEq α]

/-- The blocks that were handed out and not given back, after `calls`, the latest of which stands first. -/
def outstanding : List (HeapCall α) → List (Block α)
  | [] => []
  | .alloc block :: calls => block :: outstanding calls
  | .free none :: calls => outstanding calls
  | .free (some addr) :: calls => (outstanding calls).filter fun block => block.addr ≠ addr

/-- No block is handed out while another one has its address, and none is given back that is not
outstanding. -/
def HeapSound : List (HeapCall α) → Prop
  | [] => True
  | .alloc block :: calls => (∀ other ∈ outstanding calls, other.addr ≠ block.addr) ∧ HeapSound calls
  | .free none :: calls => HeapSound calls
  | .free (some addr) :: calls => (∃ block ∈ outstanding calls, block.addr = addr) ∧ HeapSound calls

/-- The owners hold the outstanding blocks, each of them one of its own. -/
structure BlockLedger (calls : List (HeapCall α)) (hold : ι → Option (Block α)) : Prop where
  sound : HeapSound calls
  exact : ∀ block, block ∈ outstanding calls ↔ ∃ i, hold i = some block
  apart : ∀ i j block other, hold i = some block → hold j = some other → block.addr = other.addr → i = j

/-- An allocator that answers by its history never hands out an address that is in use. -/
def AllocatesFresh (allocfunc : List (HeapCall α) → Nat → α) : Prop :=
  ∀ calls size, HeapSound calls → ∀ block ∈ outstanding calls, block.addr ≠ allocfunc calls size

theorem HeapSound.nodup {calls : List (HeapCall α)} (sound : HeapSound calls) :
    ((outstanding calls).map Block.addr).Nodup := by
  induction calls with
  | nil => exact List.nodup_nil
  | cons call calls ih =>
    cases call with
    | alloc block =>
      refine List.nodup_cons.mpr ⟨?_, ih sound.2⟩
      intro mem
      obtain ⟨other, hother, heq⟩ := List.mem_map.mp mem
      exact sound.1 other hother heq
    | free addr =>
      cases addr with
      | none => exact ih sound
      | some addr => exact (ih sound.2).sublist (List.filter_sublist.map Block.addr)

namespace BlockLedger

variable {calls : List (HeapCall α)} {hold : ι → Option (Block α)}

theorem empty (none_eq : ∀ i, hold i = none) : BlockLedger [] hold := by
  refine ⟨trivial, ?_, ?_⟩
  · intro block
    simp [outstanding, none_eq]
  · intro i j block other h
    rw [none_eq] at h
    cases h

theorem of_same (h : BlockLedger calls hold) {hold' : ι → Option (Block α)} (same : ∀ i, hold i = hold' i) :
    BlockLedger calls hold' := by
  obtain rfl : hold = hold' := funext same
  exact h

/-- The outstanding blocks, listed by their owners. -/
theorem perm (h : BlockLedger calls hold) {owners : List ι} (nodup : owners.Nodup)
    (all : ∀ i block, hold i = some block → i ∈ owners) : (outstanding calls).Perm (owners.filterMap hold) := by
  refine (List.perm_ext_iff_of_nodup h.sound.nodup.of_map ?_).mpr ?_
  · refine nodup.filterMap ?_
    intro i j block hi hj
    exact h.apart i j block block hi hj rfl
  · intro block
    rw [h.exact, List.mem_filterMap]
    exact ⟨fun ⟨i, hi⟩ => ⟨i, all i block hi, hi⟩, fun ⟨i, _, hi⟩ => ⟨i, hi⟩⟩

variable [DecidableEq ι]

/-- An owner without a block is handed one. -/
theorem alloc (h : BlockLedger calls hold) (i : ι) {block : Block α} (idle : hold i = none)
    (fresh : ∀ other ∈ outstanding calls, other.addr ≠ block.addr) :
    BlockLedger (.alloc block :: calls) (Function.update hold i (some block)) := by
  have others : ∀ j other, j ≠ i → hold j = some other → other.addr ≠ block.addr := by
    intro j other _ hj
    exact fresh other ((h.exact other).mpr ⟨j, hj⟩)
  refine ⟨⟨fresh, h.sound⟩, ?_, ?_⟩
  · intro other
    rw [outstanding, List.mem_cons, h.exact]
    constructor
    · rintro (rfl | ⟨j, hj⟩)
      · exact ⟨i, Function.update_self _ _ _⟩
      · have hji : j ≠ i := by
          rintro rfl
          rw [idle] at hj
          cases hj
        exact ⟨j, (Function.update_of_ne hji _ _).trans hj⟩
    · rintro ⟨j, hj⟩
      by_cases hji : j = i
      · subst hji
        rw [Function.update_self] at hj
        exact .inl (Option.some.inj hj).symm
      · rw [Function.update_of_ne hji] at hj
        exact .inr ⟨j, hj⟩
  · intro j k first second hj hk heq
    by_cases hji : j = i
    · by_cases hki : k = i
      · rw [hji, hki]
      · rw [hji, Function.update_self] at hj
        rw [Function.update_of_ne hki] at hk
        obtain rfl := Option.some.inj hj
        exact absurd heq.symm (others k second hki hk)
    · rw [Function.update_of_ne hji] at hj
      by_cases hki : k = i
      · rw [hki, Function.update_self] at hk
        obtain rfl := Option.some.inj hk
        exact absurd heq (others j first hji hj)
      · rw [Function.update_of_ne hki] at hk
        exact h.apart j k first second hj hk heq

/-- An owner gives back what it holds; without a block it gives back NULL. -/
theorem free (h : BlockLedger calls hold) (i : ι) :
    BlockLedger (.free ((hold i).map Block.addr) :: calls) (Function.update hold i none) := by
  cases held : hold i with
  | none =>
    have same : Function.update hold i none = hold := by rw [← held, Function.update_eq_self]
    rw [same]
    exact ⟨h.sound, h.exact, h.apart⟩
  | some block =>
    refine ⟨⟨⟨block, (h.exact block).mpr ⟨i, held⟩, rfl⟩, h.sound⟩, ?_, ?_⟩
    · intro other
      simp only [outstanding, Option.map_some, List.mem_filter, h.exact, decide_eq_true_eq]
      constructor
      · rintro ⟨⟨j, hj⟩, hne⟩
        have hji : j ≠ i := by
          rintro rfl
          rw [held] at hj
          exact hne (congrArg Block.addr (Option.some.inj hj)).symm
        exact ⟨j, (Function.update_of_ne hji _ _).trans hj⟩
      · rintro ⟨j, hj⟩
        have hji : j ≠ i := by
          rintro rfl
          rw [Function.update_self] at hj
          cases hj
        rw [Function.update_of_ne hji] at hj
        exact ⟨⟨j, hj⟩, fun heq => hji (h.apart j i other block hj held heq)⟩
    · intro j k first second hj hk
      have kept : ∀ l other, Function.update hold i none l = some other → hold l = some other := by
        intro l other hl
        by_cases hli : l = i
        · rw [hli, Function.update_self] at hl
          cases hl
        · rwa [Function.update_of_ne hli] at hl
      exact h.apart j k first second (kept j first hj) (kept k second hk)

/-- An owner gives back what it holds for a new block. -/
theorem replace (h : BlockLedger calls hold) (i : ι) {block : Block α}
    (fresh : ∀ other ∈ outstanding (.free ((hold i).map Block.addr) :: calls), other.addr ≠ block.addr) :
    BlockLedger (.alloc block :: .free ((hold i).map Block.addr) :: calls) (Function.update hold i (some block)) := by
  have h' := (h.free i).alloc i (Function.update_self _ _ _) fresh
  rwa [Function.update_idem] at h'

end BlockLedger

end Wddlib
