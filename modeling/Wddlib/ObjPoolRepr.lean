import Wddlib.ObjPool
import Wddlib.LinkedIndex
import Mathlib.Data.Int.Interval
import Mathlib.Tactic.Linarith

namespace Wddlib

namespace TObjPool

def next (pool : TObjPool) (i : Int) : Int := (pool.idx i).nextIdx
def prev (pool : TObjPool) (i : Int) : Int := (pool.idx i).prevIdx

theorem modifyIdx_idx (pool : TObjPool) (i j : Int) (f : TPoolIdx → TPoolIdx) :
    (pool.modifyIdx i f).idx j = if j = i then f (pool.idx j) else pool.idx j := by
  by_cases h : j = i
  · subst h
    simp [modifyIdx]
  · simp [modifyIdx, h]

theorem setNext_idx (pool : TObjPool) (i j next : Int) : (pool.setNext i next).idx j =
    { pool.idx j with nextIdx := if j = i then next else (pool.idx j).nextIdx } := by
  rw [setNext, modifyIdx_idx]
  split <;> rfl

theorem setPrev_idx (pool : TObjPool) (i j prev : Int) : (pool.setPrev i prev).idx j =
    { pool.idx j with prevIdx := if j = i then prev else (pool.idx j).prevIdx } := by
  rw [setPrev, modifyIdx_idx]
  split <;> rfl

theorem setUsedFlag_idx (pool : TObjPool) (i j flag : Int) : (pool.setUsedFlag i flag).idx j =
    { pool.idx j with usedFlag := if j = i then flag else (pool.idx j).usedFlag } := by
  rw [setUsedFlag, modifyIdx_idx]
  split <;> rfl

theorem setAccumulate_idx (pool : TObjPool) (i j accumulate : Int) :
    (pool.setAccumulate i accumulate).idx j =
    { pool.idx j with accumulate := if j = i then accumulate else (pool.idx j).accumulate } := by
  rw [setAccumulate, modifyIdx_idx]
  split <;> rfl

end TObjPool

open TObjPool

theorem allocRelink_idx (pool : TObjPool) (i : Int) :
    (allocRelink pool).idx i = {
      nextIdx := if i = pool.freeHead then pool.usedHead else (pool.idx i).nextIdx
      prevIdx := if i = pool.freeHead then -1
        else if 0 ≤ i ∧ i = pool.usedHead then pool.freeHead
        else if 0 ≤ i ∧ i = (pool.idx pool.freeHead).nextIdx then -1 else (pool.idx i).prevIdx
      accumulate := (pool.idx i).accumulate
      usedFlag := if i = pool.freeHead then 1 else (pool.idx i).usedFlag } := by
  by_cases hn : (pool.idx pool.freeHead).nextIdx < 0 <;> by_cases hu : pool.usedHead < 0
  all_goals
    simp only [allocRelink, hn, hu, ge_iff_le, if_true, if_false, setPrev_idx, setNext_idx,
      setUsedFlag_idx, ← not_lt, not_true, not_false_eq_true, TPoolIdx.mk.injEq]
    grind

theorem allocRelink_header (pool : TObjPool) :
    (allocRelink pool).capacity = pool.capacity ∧ (allocRelink pool).unitSize = pool.unitSize ∧
      (allocRelink pool).usedCount = int32 (pool.usedCount + 1) ∧
      (allocRelink pool).freeHead = pool.next pool.freeHead ∧
      (allocRelink pool).usedHead = pool.freeHead ∧
      (allocRelink pool).freeTail = if pool.next pool.freeHead < 0 then -1 else pool.freeTail := by
  by_cases hn : (pool.idx pool.freeHead).nextIdx < 0 <;> by_cases hu : pool.usedHead < 0
  all_goals
    simp [allocRelink, TObjPool.next, hn, hu, ← not_lt, setPrev, setNext, setUsedFlag, modifyIdx]

theorem freeRelink_idx {pool : TObjPool} {p : Int} (_hn : pool.next p ≠ p)
    (_hp : pool.prev p ≠ p) (_ht : pool.freeTail ≠ p) (i : Int) :
    (freeRelink pool p).idx i = {
      nextIdx := if i = p then -1 else if 0 ≤ i ∧ i = pool.freeTail then p
        else if 0 ≤ i ∧ i = pool.prev p then pool.next p else pool.next i
      prevIdx := if i = p then pool.freeTail
        else if 0 ≤ i ∧ i = pool.next p then pool.prev p else pool.prev i
      accumulate := (pool.idx i).accumulate
      usedFlag := if i = p then 0 else (pool.idx i).usedFlag } := by
  simp only [TObjPool.next, TObjPool.prev] at *
  by_cases hf : pool.freeTail < 0 <;> by_cases hu : (pool.idx p).nextIdx < 0 <;>
    by_cases hv : (pool.idx p).prevIdx < 0 <;> by_cases hh : pool.usedHead = p
  all_goals
    simp only [freeRelink, hf, hu, hv, hh, ge_iff_le, if_true, if_false, setPrev_idx, setNext_idx,
      setUsedFlag_idx, ← not_lt, not_true, not_false_eq_true, TPoolIdx.mk.injEq]
    grind

theorem freeRelink_header (pool : TObjPool) (p : Int) :
    (freeRelink pool p).capacity = pool.capacity ∧ (freeRelink pool p).unitSize = pool.unitSize ∧
      (freeRelink pool p).usedCount = int32 (pool.usedCount - 1) ∧
      (freeRelink pool p).freeHead = (if pool.freeTail < 0 then p else pool.freeHead) ∧
      (freeRelink pool p).usedHead = (if pool.usedHead = p then pool.next p else pool.usedHead) ∧
      (freeRelink pool p).freeTail = p := by
  by_cases hf : pool.freeTail < 0 <;> by_cases hu : (pool.idx p).nextIdx < 0 <;>
    by_cases hv : (pool.idx p).prevIdx < 0 <;> by_cases hh : pool.usedHead = p
  all_goals
    simp [freeRelink, TObjPool.next, hf, hu, hv, hh, ← not_lt, setPrev, setNext, setUsedFlag, modifyIdx]

/-- The two sequences a pool represents: the free slots in the order they will be handed out, and
the used slots with the most recent allocation first. -/
structure PoolRepr (pool : TObjPool) (free used : List Int) : Prop where
  freeNext : Walk pool.next (-1) pool.freeHead free
  freePrev : Walk pool.prev (-1) (free.getLast?.getD (-1)) free.reverse
  usedNext : Walk pool.next (-1) pool.usedHead used
  usedPrev : Walk pool.prev (-1) (used.getLast?.getD (-1)) used.reverse
  freeTail : pool.freeTail = free.getLast?.getD (-1)
  nodup : (free ++ used).Nodup
  slots : ∀ p, p ∈ free ++ used ↔ 0 ≤ p ∧ p < pool.capacity
  usedFlag : ∀ p, 0 ≤ p → p < pool.capacity → (pool.idx p).usedFlag = if p ∈ used then 1 else 0
  usedCount : pool.usedCount = used.length

/-- The bounds on capacity and generations under which every handle is a non-negative `int`. -/
structure PoolBounds (pool : TObjPool) : Prop where
  capacity_pos : 1 ≤ pool.capacity
  capacity_le : pool.capacity ≤ 1073741824
  generation : ∀ p, 0 ≤ p → p < pool.capacity →
    0 ≤ (pool.idx p).accumulate ∧ pool.capacity * (pool.idx p).accumulate + p < 2147483648

theorem PoolRepr.length_eq {pool : TObjPool} {free used : List Int} (h : PoolRepr pool free used) :
    free.length + used.length = pool.capacity.toNat := by
  have hset : (free ++ used).toFinset = Finset.Ico 0 pool.capacity := by
    ext p
    simp only [List.mem_toFinset, Finset.mem_Ico]
    exact h.slots p
  have hcard := List.toFinset_card_of_nodup h.nodup
  rw [hset, Int.card_Ico, List.length_append] at hcard
  simpa using hcard.symm

theorem PoolRepr.disjoint {pool : TObjPool} {free used : List Int} (h : PoolRepr pool free used)
    {a : Int} (hf : a ∈ free) (hu : a ∈ used) : False :=
  (List.nodup_append.mp h.nodup).2.2 a hf a hu rfl

theorem PoolRepr.nonneg {pool : TObjPool} {free used : List Int} (h : PoolRepr pool free used)
    {a : Int} (ha : a ∈ free ++ used) : 0 ≤ a :=
  ((h.slots a).mp ha).1

theorem getLast?_getD_cons {α : Type} (x d : α) (xs : List α) :
    (x :: xs).getLast?.getD d = if xs = [] then x else xs.getLast?.getD d := by
  cases xs with
  | nil => rfl
  | cons y ys => simp [List.getLast?_cons]

theorem getD_eq_iff_some {o : Option Int} {a : Int} (ha : 0 ≤ a) : a = o.getD (-1) ↔ o = some a := by
  cases o with
  | none => simp; omega
  | some b => simp [eq_comm]

end Wddlib
