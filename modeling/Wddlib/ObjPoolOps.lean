import Wddlib.ObjPoolRelink
import Mathlib.Tactic.Ring
import Mathlib.Tactic.NormNum

namespace Wddlib

open TObjPool

/-- The generation an allocation of slot `x` stores: one more, or 1 again once the next handle
would leave the range of `int`. -/
def nextGeneration (capacity accumulate x : Int) : Int :=
  if capacity * (accumulate + 1) + x < 2147483648 then accumulate + 1 else 1

/-- `id` is the handle under which slot `p` is currently allocated. -/
def IsHandle (pool : TObjPool) (used : List Int) (p id : Int) : Prop :=
  p ∈ used ∧ id = pool.capacity * (pool.idx p).accumulate + p

theorem logicIdx_eq {pool : TObjPool} {accumulate p : Int} (hp : 0 ≤ p)
    (nonneg : 0 ≤ pool.capacity * accumulate) (bound : pool.capacity * accumulate + p < 2147483648) :
    pool.logicIdx accumulate p = pool.capacity * accumulate + p := by
  rw [TObjPool.logicIdx, int32_int32_add, int32_eq_self (by omega) bound]

section Ops

variable {pool : TObjPool} {free used : List Int} {x p id : Int}

theorem PoolBounds.handle (b : PoolBounds pool) (hp : 0 ≤ p) (hp' : p < pool.capacity) :
    0 ≤ pool.capacity * (pool.idx p).accumulate ∧
      pool.logicIdx (pool.idx p).accumulate p = pool.capacity * (pool.idx p).accumulate + p := by
  obtain ⟨hg, hb⟩ := b.generation p hp hp'
  have hn : 0 ≤ pool.capacity * (pool.idx p).accumulate :=
    Int.mul_nonneg (by have := b.capacity_pos; omega) hg
  exact ⟨hn, logicIdx_eq hp hn hb⟩

theorem handle_emod {c a : Int} (hp : 0 ≤ p) (hp' : p < c) : (c * a + p) % c = p := by
  rw [Int.add_comm, Int.add_mul_emod_self_left, Int.emod_eq_of_lt hp hp']

theorem handle_tmod {c a : Int} (hn : 0 ≤ c * a) (hp : 0 ≤ p) (hp' : p < c) : (c * a + p).tmod c = p := by
  rw [Int.tmod_eq_emod_of_nonneg (by omega), handle_emod hp hp']

theorem setAccumulate_repr (h : PoolRepr pool free used) (i a : Int) :
    PoolRepr (pool.setAccumulate i a) free used := by
  have hnext : (pool.setAccumulate i a).next = pool.next := by
    funext j
    simp [TObjPool.next, setAccumulate_idx]
  have hprev : (pool.setAccumulate i a).prev = pool.prev := by
    funext j
    simp [TObjPool.prev, setAccumulate_idx]
  refine ⟨?_, ?_, ?_, ?_, h.freeTail, h.nodup, h.slots, ?_, h.usedCount⟩
  · rw [hnext]; exact h.freeNext
  · rw [hprev]; exact h.freePrev
  · rw [hnext]; exact h.usedNext
  · rw [hprev]; exact h.usedPrev
  · intro p hp hp'
    simpa [setAccumulate_idx] using h.usedFlag p hp hp'

theorem objpoolAlloc_full (h : PoolRepr pool [] used) (b : PoolBounds pool) :
    objpoolAlloc pool = (errObjpoolFull, pool) := by
  have hlen := h.length_eq
  have hcount := h.usedCount
  have := b.capacity_pos
  simp only [List.length_nil] at hlen
  simp [objpoolAlloc, show pool.usedCount ≥ pool.capacity by omega]

/-- The overflow test of `objpool_alloc` sees the first handle beyond the range of `int`. -/
theorem nextGeneration_test {c a : Int} (hc : 1 ≤ c) (hc' : c ≤ 1073741824) (hx : 0 ≤ x)
    (ha : 0 ≤ a) (bound : c * a + x < 2147483648) (hcap : pool.capacity = c) :
    (if int32 (a + 1) < 0 ∨ pool.logicIdx (int32 (a + 1)) x < 0 then 1 else int32 (a + 1)) =
      nextGeneration c a x := by
  have step : c * (a + 1) = c * a + c := by ring
  have self_le : a ≤ c * a := by nlinarith
  unfold nextGeneration
  by_cases fits : c * (a + 1) + x < 2147483648
  · have hgen : int32 (a + 1) = a + 1 := int32_eq_self (by omega) (by omega)
    have hlogic : pool.logicIdx (a + 1) x = c * (a + 1) + x := by
      rw [← hcap]
      exact logicIdx_eq hx (by rw [hcap]; omega) (by rw [hcap]; exact fits)
    rw [hgen, hlogic, if_pos fits, if_neg (by omega)]
  · rw [if_neg fits, if_pos]
    by_cases top : a + 1 < 2147483648
    · right
      rw [int32_eq_self (by omega) top, TObjPool.logicIdx, int32_int32_add, hcap,
        int32_eq_sub (by omega) (by omega)]
      omega
    · left
      rw [int32_eq_sub (by omega) (by omega)]
      omega

theorem nextGeneration_bounds {c a : Int} (hc : 1 ≤ c) (hc' : c ≤ 1073741824) (hx : x < c)
    (ha : 0 ≤ a) : 1 ≤ nextGeneration c a x ∧ c * nextGeneration c a x + x < 2147483648 := by
  unfold nextGeneration
  split
  next fits => exact ⟨by omega, fits⟩
  next => exact ⟨by omega, by omega⟩

theorem setAccumulate_setAccumulate (i a a' : Int) :
    (pool.setAccumulate i a).setAccumulate i a' = pool.setAccumulate i a' := by
  simp [TObjPool.setAccumulate, TObjPool.modifyIdx]

theorem objpoolAlloc_eq (h : PoolRepr pool (x :: free) used) (b : PoolBounds pool) :
    objpoolAlloc pool =
      (pool.capacity * nextGeneration pool.capacity (pool.idx x).accumulate x + x,
        (allocRelink pool).setAccumulate x (nextGeneration pool.capacity (pool.idx x).accumulate x)) := by
  have hx : pool.freeHead = x := h.freeNext.1
  have hlen := h.length_eq
  have hcount := h.usedCount
  obtain ⟨hx0, hxc⟩ := (h.slots x).mp (by simp)
  have hcap := b.capacity_pos
  obtain ⟨hg, hb⟩ := b.generation x hx0 hxc
  have room : ¬ pool.usedCount ≥ pool.capacity := by
    simp only [List.length_cons] at hlen
    omega
  have hacc : ((allocRelink pool).idx x).accumulate = (pool.idx x).accumulate := by
    rw [allocRelink_idx]
  have test := nextGeneration_test hcap b.capacity_le hx0 hg hb
    (allocRelink_header pool).1
  obtain ⟨hg1, hgb⟩ := nextGeneration_bounds hcap b.capacity_le hxc hg
  have final : (allocRelink pool).logicIdx (nextGeneration pool.capacity (pool.idx x).accumulate x) x =
      pool.capacity * nextGeneration pool.capacity (pool.idx x).accumulate x + x := by
    have hpos := Int.mul_nonneg (show 0 ≤ pool.capacity by omega) (Int.le_trans Int.one_nonneg hg1)
    rw [TObjPool.logicIdx, int32_int32_add, (allocRelink_header pool).1, int32_eq_self (by omega) hgb]
  have same : ∀ g j : Int, ((allocRelink pool).setAccumulate x g).logicIdx j x =
      (allocRelink pool).logicIdx j x := fun _ _ => rfl
  simp only [objpoolAlloc, room, if_false, hx, hacc, setAccumulate_idx, if_true, same,
    setAccumulate_setAccumulate]
  split at test
  next wraps => rw [if_pos wraps, test, final]
  next fits => rw [if_neg fits, test, final]

theorem objpoolAlloc_spec (h : PoolRepr pool (x :: free) used) (b : PoolBounds pool) :
    ∃ pool', objpoolAlloc pool =
        (pool.capacity * nextGeneration pool.capacity (pool.idx x).accumulate x + x, pool') ∧
      PoolRepr pool' free (x :: used) ∧ PoolBounds pool' ∧ pool'.capacity = pool.capacity ∧
      pool'.unitSize = pool.unitSize ∧
      ∀ i, (pool'.idx i).accumulate = if i = x then nextGeneration pool.capacity (pool.idx x).accumulate x
        else (pool.idx i).accumulate := by
  obtain ⟨hx0, hxc⟩ := (h.slots x).mp (by simp)
  obtain ⟨hcap, hunit, -⟩ := allocRelink_header pool
  obtain ⟨hg1, hgb⟩ := nextGeneration_bounds b.capacity_pos b.capacity_le hxc (b.generation x hx0 hxc).1
  have hacc : ∀ i, (((allocRelink pool).setAccumulate x
      (nextGeneration pool.capacity (pool.idx x).accumulate x)).idx i).accumulate =
      if i = x then nextGeneration pool.capacity (pool.idx x).accumulate x
      else (pool.idx i).accumulate := by
    intro i
    simp [setAccumulate_idx, allocRelink_idx]
  refine ⟨_, objpoolAlloc_eq h b, setAccumulate_repr (allocRelink_repr h b.capacity_le) _ _, ?_,
    hcap, hunit, hacc⟩
  refine ⟨hcap ▸ b.capacity_pos, hcap ▸ b.capacity_le, ?_⟩
  intro p hp hp'
  change p < (allocRelink pool).capacity at hp'
  change 0 ≤ _ ∧ (allocRelink pool).capacity * _ + p < _
  rw [hcap] at hp' ⊢
  rw [hacc]
  by_cases he : p = x
  · subst he
    simp only [if_true]
    exact ⟨by omega, hgb⟩
  · simp only [he, if_false]
    exact b.generation p hp hp'

theorem PoolRepr.used_range (h : PoolRepr pool free used) (hp : p ∈ used) :
    0 ≤ p ∧ p < pool.capacity ∧ 0 < pool.usedCount ∧ (pool.idx p).usedFlag = 1 := by
  obtain ⟨hp0, hpc⟩ := (h.slots p).mp (by simp [hp])
  have hcount := h.usedCount
  have hpos := List.length_pos_of_mem hp
  exact ⟨hp0, hpc, by omega, by simp [h.usedFlag p hp0 hpc, hp]⟩

theorem IsHandle.emod_eq (hid : IsHandle pool used p id) (h : PoolRepr pool free used) :
    id % pool.capacity = p := by
  obtain ⟨hp0, hpc, -⟩ := h.used_range hid.1
  rw [hid.2, handle_emod hp0 hpc]

theorem objpoolFree_of_handle (h : PoolRepr pool free used) (b : PoolBounds pool)
    (hid : IsHandle pool used p id) : objpoolFree pool id = (0, freeRelink pool p) := by
  obtain ⟨hp0, hpc, hcount, hflag⟩ := h.used_range hid.1
  obtain ⟨hn, hlogic⟩ := b.handle hp0 hpc
  have hmod : id.tmod pool.capacity = p := by rw [hid.2, handle_tmod hn hp0 hpc]
  simp only [objpoolFree, hmod]
  rw [if_neg (by omega), if_neg (by omega), if_neg (fun hne => hne (hid.2.trans hlogic.symm))]

theorem objpoolGet_of_handle (h : PoolRepr pool free used) (b : PoolBounds pool)
    (hid : IsHandle pool used p id) : objpoolGet pool id = some (pool.objAt p) := by
  obtain ⟨hp0, hpc, hcount, hflag⟩ := h.used_range hid.1
  obtain ⟨hn, hlogic⟩ := b.handle hp0 hpc
  have hmod : id.tmod pool.capacity = p := by rw [hid.2, handle_tmod hn hp0 hpc]
  simp only [objpoolGet, hmod]
  rw [if_neg (by omega), if_neg (fun hne => hne (hid.2.trans hlogic.symm)), if_neg (by omega)]

/-- Without a handle the slot named by `id` fails one of the two checks shared by `objpool_get`
and `objpool_free`. -/
theorem not_handle_cases (h : PoolRepr pool free used) (b : PoolBounds pool)
    (hid : ¬ IsHandle pool used (id.tmod pool.capacity) id)
    (range : ¬ (id.tmod pool.capacity ≥ pool.capacity ∨ id.tmod pool.capacity < 0 ∨ pool.usedCount ≤ 0)) :
    (pool.idx (id.tmod pool.capacity)).usedFlag = 0 ∨
      id ≠ pool.logicIdx (pool.idx (id.tmod pool.capacity)).accumulate (id.tmod pool.capacity) := by
  have hp0 : 0 ≤ id.tmod pool.capacity := by omega
  have hpc : id.tmod pool.capacity < pool.capacity := by omega
  by_cases hm : id.tmod pool.capacity ∈ used
  · right
    rw [(b.handle hp0 hpc).2]
    exact fun e => hid ⟨hm, e⟩
  · left
    simp [h.usedFlag _ hp0 hpc, hm]

theorem objpoolFree_of_not_handle (h : PoolRepr pool free used) (b : PoolBounds pool)
    (hid : ¬ IsHandle pool used (id.tmod pool.capacity) id) :
    objpoolFree pool id = (errObjpoolLogicerror, pool) := by
  unfold objpoolFree
  by_cases range : id.tmod pool.capacity ≥ pool.capacity ∨ id.tmod pool.capacity < 0 ∨ pool.usedCount ≤ 0
  · simp only [range, if_true]
  · simp only [range, if_false]
    rcases not_handle_cases h b hid range with flag | bad
    · simp [flag]
    · simp [bad]

theorem objpoolGet_of_not_handle (h : PoolRepr pool free used) (b : PoolBounds pool)
    (hid : ¬ IsHandle pool used (id.tmod pool.capacity) id) : objpoolGet pool id = none := by
  unfold objpoolGet
  by_cases range : id.tmod pool.capacity ≥ pool.capacity ∨ id.tmod pool.capacity < 0 ∨ pool.usedCount ≤ 0
  · simp only [range, if_true]
  · simp only [range, if_false]
    rcases not_handle_cases h b hid range with flag | bad
    · simp [flag]
    · simp [bad]

theorem objpoolFreeBypos_of_used (h : PoolRepr pool free used) (b : PoolBounds pool) (hp : p ∈ used) :
    objpoolFreeBypos pool p = (0, freeRelink pool p) := by
  obtain ⟨hp0, hpc, hcount, -⟩ := h.used_range hp
  rw [objpoolFreeBypos, if_neg (by omega), (b.handle hp0 hpc).2]
  exact objpoolFree_of_handle h b ⟨hp, rfl⟩

theorem objpoolFreeBypos_of_not_used (h : PoolRepr pool free used) (b : PoolBounds pool) (hp : p ∉ used) :
    objpoolFreeBypos pool p = (errObjpoolLogicerror, pool) := by
  unfold objpoolFreeBypos
  split
  next => rfl
  next range =>
    have hp0 : 0 ≤ p := by omega
    have hpc : p < pool.capacity := by omega
    obtain ⟨hn, hlogic⟩ := b.handle hp0 hpc
    rw [hlogic]
    apply objpoolFree_of_not_handle h b
    rw [handle_tmod hn hp0 hpc]
    exact fun hh => hp hh.1

/-- A successful release, described on the two sequences. -/
theorem freeRelink_spec (h : PoolRepr pool free used) (b : PoolBounds pool) (hp : p ∈ used) :
    ∃ before after, used = before ++ p :: after ∧
      PoolRepr (freeRelink pool p) (free ++ [p]) (before ++ after) ∧ PoolBounds (freeRelink pool p) ∧
      (freeRelink pool p).capacity = pool.capacity ∧ (freeRelink pool p).unitSize = pool.unitSize ∧
      ∀ i, ((freeRelink pool p).idx i).accumulate = (pool.idx i).accumulate := by
  obtain ⟨before, after, rfl⟩ := List.append_of_mem hp
  obtain ⟨hcap, hunit, -⟩ := freeRelink_header pool p
  have hacc : ∀ i, ((freeRelink pool p).idx i).accumulate = (pool.idx i).accumulate := by
    intro i
    rw [h.freeRelink_idx_eq]
  refine ⟨before, after, rfl, freeRelink_repr h b.capacity_le, ⟨?_, ?_, ?_⟩, hcap, hunit, hacc⟩
  · exact hcap ▸ b.capacity_pos
  · exact hcap ▸ b.capacity_le
  · intro i hi hi'
    rw [hcap] at hi' ⊢
    rw [hacc]
    exact b.generation i hi hi'

end Ops

end Wddlib
