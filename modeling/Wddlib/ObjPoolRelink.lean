import Wddlib.ObjPoolRepr

namespace Wddlib

open TObjPool

section Alloc

variable {pool : TObjPool} {free used : List Int} {x : Int}

theorem PoolRepr.head_notMem (h : PoolRepr pool (x :: free) used) : x ∉ free ∧ x ∉ used :=
  ⟨(List.nodup_cons.mp (List.nodup_append.mp h.nodup).1).1, fun hm => h.disjoint (by simp) hm⟩

theorem allocRelink_next (h : PoolRepr pool (x :: free) used) (a : Int) :
    (allocRelink pool).next a = if a = x then pool.usedHead else pool.next a := by
  simp [TObjPool.next, allocRelink_idx, h.freeNext.1]

theorem allocRelink_prev (h : PoolRepr pool (x :: free) used) {a : Int} (ha : 0 ≤ a) (hne : a ≠ x) :
    (allocRelink pool).prev a =
      if used.head? = some a then x else if free.head? = some a then -1 else pool.prev a := by
  have hx : pool.freeHead = x := h.freeNext.1
  have hu : a = pool.usedHead ↔ used.head? = some a := by
    rw [walk_head_eq h.usedNext, getD_eq_iff_some ha]
  have hn : a = (pool.idx x).nextIdx ↔ free.head? = some a := by
    rw [show (pool.idx x).nextIdx = free.head?.getD (-1) from walk_head_eq h.freeNext.2.2,
      getD_eq_iff_some ha]
  simp [TObjPool.prev, allocRelink_idx, hx, hne, ha, hu, hn]

theorem allocRelink_freePrev (h : PoolRepr pool (x :: free) used) :
    Walk (allocRelink pool).prev (-1) (free.getLast?.getD (-1)) free.reverse := by
  have hndf := (List.nodup_append.mp h.nodup).1
  have hw : Walk pool.prev (-1) ((x :: free).getLast?.getD (-1)) (free.reverse ++ x :: []) := by
    simpa using h.freePrev
  have notUsed : ∀ a ∈ free, used.head? ≠ some a :=
    fun a ha e => h.disjoint (by simp [ha]) (List.mem_of_head? e)
  have prevEq : ∀ a ∈ free, (allocRelink pool).prev a = if free.head? = some a then -1 else pool.prev a := by
    intro a ha
    rw [allocRelink_prev h (h.nonneg (by simp [ha])) (fun e => h.head_notMem.1 (e ▸ ha)),
      if_neg (notUsed a ha)]
  suffices hr : Walk (allocRelink pool).prev (-1) (free.getLast?.getD (-1)) (free.reverse ++ []) by
    simpa using hr
  refine walk_remove hw (by simpa using List.nodup_reverse.mpr hndf) ?_ ?_ ?_
  · rw [getLast?_getD_cons]
    cases free <;> simp
  · intro a ha hl
    rw [prevEq a (by simpa using ha), if_neg (by simpa using hl)]
  · intro a ha
    have hhd : free.head? = some a := by simpa using ha
    rw [prevEq a (List.mem_of_head? hhd), if_pos hhd]
    rfl

theorem allocRelink_usedPrev (h : PoolRepr pool (x :: free) used) :
    Walk (allocRelink pool).prev (-1) ((x :: used).getLast?.getD (-1)) (x :: used).reverse := by
  have hxin := h.nonneg (a := x) (by simp)
  have hndu := (List.nodup_append.mp h.nodup).2.1
  have prevSelf : (allocRelink pool).prev x = -1 := by
    simp [TObjPool.prev, allocRelink_idx, h.freeNext.1]
  have prevEq : ∀ a ∈ used, (allocRelink pool).prev a = if used.head? = some a then x else pool.prev a := by
    intro a ha
    have hnf : free.head? ≠ some a :=
      fun e => h.disjoint (List.mem_cons_of_mem _ (List.mem_of_head? e)) ha
    rw [allocRelink_prev h (h.nonneg (by simp [ha])) (fun e => h.head_notMem.2 (e ▸ ha)), if_neg hnf]
  suffices hr : Walk (allocRelink pool).prev (-1) ((x :: used).getLast?.getD (-1)) (used.reverse ++ [x]) by
    simpa using hr
  refine walk_push_back h.usedPrev (by omega) (List.nodup_reverse.mpr hndu) ?_ ?_ ?_ prevSelf
  · rw [getLast?_getD_cons]
    simp
  · intro a ha hl
    rw [prevEq a (by simpa using ha), if_neg (by simpa using hl)]
  · intro a ha
    have hhd : used.head? = some a := by simpa using ha
    rw [prevEq a (List.mem_of_head? hhd), if_pos hhd]

/-- An allocation moves the first free slot to the front of the used list. -/
theorem allocRelink_repr (h : PoolRepr pool (x :: free) used) (small : pool.capacity ≤ 1073741824) :
    PoolRepr (allocRelink pool) free (x :: used) := by
  have hx : pool.freeHead = x := h.freeNext.1
  have hlen := h.length_eq
  obtain ⟨hcap, -, hcount, hfh, hush, hft⟩ := allocRelink_header pool
  rw [hx] at hfh hush hft
  have nextEq := allocRelink_next h
  refine ⟨?_, allocRelink_freePrev h, ?_, allocRelink_usedPrev h, ?_, ?_, ?_, ?_, ?_⟩
  · rw [hfh]
    refine walk_frame h.freeNext.2.2 ?_
    intro a ha
    rw [nextEq, if_neg (fun e : a = x => h.head_notMem.1 (e ▸ ha))]
  · rw [hush]
    refine ⟨rfl, h.freeNext.2.1, ?_⟩
    rw [nextEq, if_pos rfl]
    refine walk_frame h.usedNext ?_
    intro a ha
    rw [nextEq, if_neg (fun e : a = x => h.head_notMem.2 (e ▸ ha))]
  · rw [hft, walk_head_eq h.freeNext.2.2, h.freeTail, getLast?_getD_cons]
    cases hf : free with
    | nil => simp
    | cons b bs =>
      have hb := h.nonneg (a := b) (by simp [hf])
      simp [show ¬ b < 0 by omega]
  · have hperm : (free ++ x :: used).Perm (x :: free ++ used) := List.perm_middle
    exact hperm.nodup_iff.mpr h.nodup
  · intro p
    rw [hcap, ← h.slots p]
    simp only [List.mem_append, List.mem_cons]
    tauto
  · intro p hp hp'
    rw [hcap] at hp'
    simp only [allocRelink_idx, hx, List.mem_cons]
    by_cases he : p = x
    · simp [he]
    · simp [he, h.usedFlag p hp hp']
  · rw [hcount, h.usedCount, int32_eq_self (by omega) (by simp at hlen; omega)]
    simp

end Alloc

section Free

variable {pool : TObjPool} {free before after : List Int} {x : Int}

theorem PoolRepr.used_notMem (h : PoolRepr pool free (before ++ x :: after)) :
    x ∉ free ∧ x ∉ before ++ after :=
  ⟨fun hm => h.disjoint hm (by simp),
    (List.nodup_cons.mp (List.nodup_middle.mp (List.nodup_append.mp h.nodup).2.1)).1⟩

theorem PoolRepr.used_links (h : PoolRepr pool free (before ++ x :: after)) :
    pool.next x = after.head?.getD (-1) ∧ pool.prev x = before.getLast?.getD (-1) := by
  have hw : Walk pool.prev (-1) ((before ++ x :: after).getLast?.getD (-1))
      (after.reverse ++ x :: before.reverse) := by simpa using h.usedPrev
  exact ⟨walk_link h.usedNext, by simpa using walk_link hw⟩

/-- A used slot is neither its own neighbour nor the free tail, so the writes of `objpool_free`
do not alias. -/
theorem PoolRepr.used_unaliased (h : PoolRepr pool free (before ++ x :: after)) :
    pool.next x ≠ x ∧ pool.prev x ≠ x ∧ pool.freeTail ≠ x := by
  have hxin := h.nonneg (a := x) (by simp)
  have distinct : ∀ o : Option Int, (o = some x → False) → o.getD (-1) ≠ x :=
    fun o hn e => hn ((getD_eq_iff_some hxin).mp e.symm)
  rw [h.used_links.1, h.used_links.2, h.freeTail]
  refine ⟨distinct _ ?_, distinct _ ?_, distinct _ ?_⟩
  · exact fun e => h.used_notMem.2 (by simp [List.mem_of_head? e])
  · exact fun e => h.used_notMem.2 (by simp [List.mem_of_getLast? e])
  · exact fun e => h.used_notMem.1 (List.mem_of_getLast? e)

theorem PoolRepr.freeRelink_idx_eq (h : PoolRepr pool free (before ++ x :: after)) (a : Int) :
    (freeRelink pool x).idx a = {
      nextIdx := if a = x then -1 else if 0 ≤ a ∧ a = pool.freeTail then x
        else if 0 ≤ a ∧ a = pool.prev x then pool.next x else pool.next a
      prevIdx := if a = x then pool.freeTail
        else if 0 ≤ a ∧ a = pool.next x then pool.prev x else pool.prev a
      accumulate := (pool.idx a).accumulate
      usedFlag := if a = x then 0 else (pool.idx a).usedFlag } :=
  freeRelink_idx h.used_unaliased.1 h.used_unaliased.2.1 h.used_unaliased.2.2 a

theorem freeRelink_next (h : PoolRepr pool free (before ++ x :: after)) {a : Int} (ha : 0 ≤ a)
    (hne : a ≠ x) : (freeRelink pool x).next a =
      if free.getLast? = some a then x
      else if before.getLast? = some a then after.head?.getD (-1) else pool.next a := by
  change ((freeRelink pool x).idx a).nextIdx = _
  rw [h.freeRelink_idx_eq, h.freeTail, h.used_links.2, h.used_links.1]
  simp only [hne, ha, true_and, if_false, getD_eq_iff_some ha]

theorem freeRelink_prev (h : PoolRepr pool free (before ++ x :: after)) {a : Int} (ha : 0 ≤ a)
    (hne : a ≠ x) : (freeRelink pool x).prev a =
      if after.head? = some a then before.getLast?.getD (-1) else pool.prev a := by
  change ((freeRelink pool x).idx a).prevIdx = _
  rw [h.freeRelink_idx_eq, h.used_links.2, h.used_links.1]
  simp only [hne, ha, true_and, if_false, getD_eq_iff_some ha]

theorem freeRelink_freeNext (h : PoolRepr pool free (before ++ x :: after)) :
    Walk (freeRelink pool x).next (-1) (freeRelink pool x).freeHead (free ++ [x]) := by
  have hxin := h.nonneg (a := x) (by simp)
  have nextEq : ∀ a ∈ free, (freeRelink pool x).next a = if free.getLast? = some a then x else pool.next a := by
    intro a ha
    have hnb : before.getLast? ≠ some a := fun e => h.disjoint ha (by simp [List.mem_of_getLast? e])
    rw [freeRelink_next h (h.nonneg (by simp [ha])) (fun e => h.used_notMem.1 (e ▸ ha)), if_neg hnb]
  refine walk_push_back h.freeNext (by omega) (List.nodup_append.mp h.nodup).1 ?_ ?_ ?_ ?_
  · rw [(freeRelink_header pool x).2.2.2.1, h.freeTail]
    cases hl : free.getLast? with
    | none => simp [List.getLast?_eq_none_iff.mp hl]
    | some b =>
      have hbm := List.mem_of_getLast? hl
      have hb := h.nonneg (a := b) (by simp [hbm])
      simp [show ¬ b < 0 by omega, show free ≠ [] from fun e => by simp [e] at hbm]
  · intro a ha hl
    rw [nextEq a ha, if_neg hl]
  · intro a hl
    rw [nextEq a (List.mem_of_getLast? hl), if_pos hl]
  · simp [TObjPool.next, h.freeRelink_idx_eq]

theorem freeRelink_freePrev (h : PoolRepr pool free (before ++ x :: after)) :
    Walk (freeRelink pool x).prev (-1) ((free ++ [x]).getLast?.getD (-1)) (free ++ [x]).reverse := by
  have hxin := h.nonneg (a := x) (by simp)
  have prevSelf : (freeRelink pool x).prev x = pool.freeTail := by
    simp [TObjPool.prev, h.freeRelink_idx_eq]
  have hw : Walk (freeRelink pool x).prev (-1) x (x :: free.reverse) := by
    refine ⟨rfl, by omega, ?_⟩
    rw [prevSelf, h.freeTail]
    refine walk_frame h.freePrev ?_
    intro a ha
    have ham : a ∈ free := by simpa using ha
    have hna : after.head? ≠ some a := fun e => h.disjoint ham (by simp [List.mem_of_head? e])
    rw [freeRelink_prev h (h.nonneg (by simp [ham])) (fun e => h.used_notMem.1 (e ▸ ham)), if_neg hna]
  simpa using hw

theorem freeRelink_usedNext (h : PoolRepr pool free (before ++ x :: after)) :
    Walk (freeRelink pool x).next (-1) (freeRelink pool x).usedHead (before ++ after) := by
  have nextEq : ∀ a ∈ before ++ after, (freeRelink pool x).next a =
      if before.getLast? = some a then after.head?.getD (-1) else pool.next a := by
    intro a ha
    have hmem : a ∈ before ++ x :: after := by
      simp only [List.mem_append, List.mem_cons] at ha ⊢
      tauto
    have hnf : free.getLast? ≠ some a := fun e => h.disjoint (List.mem_of_getLast? e) hmem
    rw [freeRelink_next h (h.nonneg (List.mem_append_right _ hmem)) (fun e => h.used_notMem.2 (e ▸ ha)),
      if_neg hnf]
  refine walk_remove h.usedNext (List.nodup_append.mp h.nodup).2.1 ?_ ?_ ?_
  · rw [(freeRelink_header pool x).2.2.2.2.1, walk_head_eq h.usedNext, h.used_links.1]
    cases hb : before with
    | nil => simp
    | cons b bs =>
      have hbx : b ≠ x := fun e => h.used_notMem.2 (by simp [hb, e])
      simp [hbx]
  · intro a ha hl
    rw [nextEq a ha, if_neg hl]
  · intro a hl
    rw [nextEq a (by simp [List.mem_of_getLast? hl]), if_pos hl]

theorem freeRelink_usedPrev (h : PoolRepr pool free (before ++ x :: after)) :
    Walk (freeRelink pool x).prev (-1) ((before ++ after).getLast?.getD (-1)) (before ++ after).reverse := by
  have hndu := (List.nodup_append.mp h.nodup).2.1
  have hw : Walk pool.prev (-1) ((before ++ x :: after).getLast?.getD (-1))
      (after.reverse ++ x :: before.reverse) := by simpa using h.usedPrev
  have prevEq : ∀ a ∈ before ++ after, (freeRelink pool x).prev a =
      if after.head? = some a then before.getLast?.getD (-1) else pool.prev a := by
    intro a ha
    refine freeRelink_prev h (h.nonneg ?_) (fun e => h.used_notMem.2 (e ▸ ha))
    simp only [List.mem_append, List.mem_cons] at ha ⊢
    tauto
  suffices hr : Walk (freeRelink pool x).prev (-1) ((before ++ after).getLast?.getD (-1))
      (after.reverse ++ before.reverse) by simpa using hr
  refine walk_remove hw (by simpa using List.nodup_reverse.mpr hndu) ?_ ?_ ?_
  · cases hl : after.getLast? with
    | none => simp [List.getLast?_eq_none_iff.mp hl]
    | some b =>
      have hne : after ≠ [] := fun e => by simp [e] at hl
      simp [hl, hne, List.getLast?_append, List.getLast?_cons]
  · intro a ha hl
    rw [prevEq a (by simp at ha ⊢; tauto), if_neg (by simpa using hl)]
  · intro a hl
    have hhd : after.head? = some a := by simpa using hl
    rw [prevEq a (by simp [List.mem_of_head? hhd]), if_pos hhd]
    simp

/-- A release takes the slot out of the used list and appends it to the free list. -/
theorem freeRelink_repr (h : PoolRepr pool free (before ++ x :: after))
    (small : pool.capacity ≤ 1073741824) :
    PoolRepr (freeRelink pool x) (free ++ [x]) (before ++ after) := by
  have hlen := h.length_eq
  obtain ⟨hcap, -, hcount, -, -, hft⟩ := freeRelink_header pool x
  refine ⟨freeRelink_freeNext h, freeRelink_freePrev h, freeRelink_usedNext h, freeRelink_usedPrev h,
    by simp [hft], ?_, ?_, ?_, ?_⟩
  · have hmid : (x :: (before ++ after)).Perm (before ++ x :: after) := List.perm_middle.symm
    have hperm : (free ++ [x] ++ (before ++ after)).Perm (free ++ (before ++ x :: after)) := by
      rw [List.append_assoc, List.singleton_append]
      exact hmid.append_left free
    exact hperm.nodup_iff.mpr h.nodup
  · intro p
    rw [hcap, ← h.slots p]
    simp only [List.mem_append, List.mem_cons, List.not_mem_nil, or_false]
    tauto
  · intro p hp hp'
    rw [hcap] at hp'
    rw [h.freeRelink_idx_eq]
    by_cases he : p = x
    · simp only [he, if_true]
      rw [if_neg h.used_notMem.2]
    · simp only [he, if_false]
      rw [h.usedFlag p hp hp']
      simp [he]
  · rw [hcount, h.usedCount, int32_eq_self (by simp; omega) (by simp at hlen ⊢; omega)]
    simp
    omega

end Free

end Wddlib
