import Wddlib.LiteTimerSift
import Wddlib.ObjPoolOps

namespace Wddlib

theorem Rearranged.mem_iff {β : Type} {n : Nat} {a b : Nat → β} (h : Rearranged n a b) (x : β) :
    (∃ i, i < n ∧ b i = x) ↔ ∃ i, i < n ∧ a i = x := by
  obtain ⟨f, bij, range, eq⟩ := h.origin
  constructor
  · rintro ⟨i, hi, rfl⟩
    exact ⟨f i, (range i).mpr hi, (eq i).symm⟩
  · rintro ⟨j, hj, rfl⟩
    obtain ⟨i, rfl⟩ := bij.2 j
    exact ⟨i, (range i).mp hj, eq i⟩

theorem live_iff {pool : TObjPool} {free used : List Int} (h : PoolRepr pool free used) (b : PoolBounds pool)
    (id : Int) : objpoolGet pool id ≠ none ↔ IsHandle pool used (id.tmod pool.capacity) id := by
  constructor
  · intro live
    by_contra hid
    exact live (objpoolGet_of_not_handle h b hid)
  · intro hid
    simp [objpoolGet_of_handle h b hid]

theorem live_nonneg {pool : TObjPool} {free used : List Int} (h : PoolRepr pool free used)
    (b : PoolBounds pool) {id : Int} (live : objpoolGet pool id ≠ none) : 0 ≤ id := by
  have hid := (live_iff h b id).mp live
  obtain ⟨hp0, hpc, -⟩ := h.used_range hid.1
  have hn := (b.handle hp0 hpc).1
  rw [hid.2]
  omega

/-- `objpool_alloc` in terms of the ids `objpool_get` accepts. -/
theorem objpoolAlloc_live {pool : TObjPool} {x : Int} {free used : List Int}
    (h : PoolRepr pool (x :: free) used) (b : PoolBounds pool) :
    ∃ id pool', objpoolAlloc pool = (id, pool') ∧ PoolRepr pool' free (x :: used) ∧ PoolBounds pool' ∧
      pool'.capacity = pool.capacity ∧ id.tmod pool.capacity = x ∧ objpoolGet pool' id ≠ none ∧
      ∀ id', objpoolGet pool id' ≠ none → objpoolGet pool' id' ≠ none ∧ id'.tmod pool.capacity ≠ x := by
  obtain ⟨pool', halloc, hrepr, hbounds, hcap, -, hacc⟩ := objpoolAlloc_spec h b
  obtain ⟨hx0, hxc⟩ := (h.slots x).mp (by simp)
  have hx : x ∉ used := fun hmem => (List.nodup_append.mp h.nodup).2.2 x (by simp) x hmem rfl
  generalize hid : pool.capacity * nextGeneration pool.capacity (pool.idx x).accumulate x + x = id at halloc
  have handle : IsHandle pool' (x :: used) x id := by
    refine ⟨by simp, ?_⟩
    rw [hacc, hcap, if_pos rfl, hid]
  have live : objpoolGet pool' id ≠ none := by simp [objpoolGet_of_handle hrepr hbounds handle]
  have slot : id.tmod pool.capacity = x := by
    rw [Int.tmod_eq_emod_of_nonneg (live_nonneg hrepr hbounds live), ← hcap]
    exact handle.emod_eq hrepr
  refine ⟨id, pool', halloc, hrepr, hbounds, hcap, slot, live, ?_⟩
  intro id' live'
  have old := (live_iff h b id').mp live'
  have apart : id'.tmod pool.capacity ≠ x := fun he => hx (he ▸ old.1)
  refine ⟨?_, apart⟩
  rw [live_iff hrepr hbounds, hcap]
  refine ⟨by simp [old.1], ?_⟩
  rw [hacc, hcap, if_neg apart]
  exact old.2

/-- `objpool_free` in terms of the ids `objpool_get` accepts. -/
theorem objpoolFree_live {pool : TObjPool} {id : Int} {free used : List Int} (h : PoolRepr pool free used)
    (b : PoolBounds pool) (live : objpoolGet pool id ≠ none) :
    ∃ pool' free' used', objpoolFree pool id = (0, pool') ∧ PoolRepr pool' free' used' ∧ PoolBounds pool' ∧
      pool'.capacity = pool.capacity ∧ used'.length = used.length - 1 ∧
      ∀ id', objpoolGet pool id' ≠ none → id'.tmod pool.capacity ≠ id.tmod pool.capacity →
        objpoolGet pool' id' ≠ none := by
  have hid := (live_iff h b id).mp live
  obtain ⟨before, after, hused, hrepr, hbounds, hcap, -, hacc⟩ := freeRelink_spec h b hid.1
  refine ⟨_, _, _, objpoolFree_of_handle h b hid, hrepr, hbounds, hcap, by simp [hused], ?_⟩
  intro id' live' apart
  obtain ⟨hmem, heq⟩ := (live_iff h b id').mp live'
  rw [live_iff hrepr hbounds, hcap]
  refine ⟨?_, ?_⟩
  · rw [hused] at hmem
    simpa [apart] using hmem
  · rw [hacc, hcap]
    exact heq

section Cells

variable {β : Type} {pool pool' : TObjPool} {n i : Nat} {bufs : Int → β} {mgr : LiteTimerMgr β}
  {a : Nat → Int × Int}

theorem TimerCells.setExpire (h : TimerCells pool n bufs (fun _ => True) mgr a) (hi : i < n) (t : Int) :
    TimerCells pool n bufs (fun _ => True) (mgr.setExpireTime i t) (Function.update a i ((a i).1, t)) := by
  have ids : ∀ j, (Function.update a i ((a i).1, t) j).1 = (a j).1 := by
    intro j
    by_cases hj : j = i
    · subst hj
      simp
    · simp [hj]
  have timer : ∀ j, (mgr.setExpireTime i t).timerAt j =
      if j = i then { mgr.timerAt i with expireTime := t } else mgr.timerAt j :=
    timerAt_set mgr (by rw [h.size]; exact hi) _
  refine ⟨by simpa [LiteTimerMgr.setExpireTime] using h.size, h.argPool, h.buf, ?_, ?_, ?_, ?_, ?_⟩
  · intro j hj
    rw [timer]
    split
    next e => rw [e]; exact h.index i hi
    next => exact h.index j hj
  · intro j hj
    rw [ids]
    exact h.live j hj
  · intro j k hj hk hjk
    rw [ids, ids]
    exact h.apart j k hj hk hjk
  · intro j hj _
    rw [timer]
    by_cases e : j = i
    · subst e
      have hid := congrArg Prod.fst (h.cell j hj trivial)
      simpa [LiteTimer.payload] using hid
    · simpa [e] using h.cell j hj trivial
  · intro j hj _
    rw [ids]
    exact h.back j hj trivial

theorem TimerCells.pop (h : TimerCells pool n bufs (fun _ => True) mgr a) :
    TimerCells pool (n - 1) bufs (fun _ => True) mgr.popBack a := by
  have timer : ∀ j, j < n - 1 → mgr.popBack.timerAt j = mgr.timerAt j := by
    intro j hj
    have hj' : j < mgr.timerHeap.length - 1 := by rw [h.size]; exact hj
    simp only [LiteTimerMgr.timerAt, LiteTimerMgr.popBack, List.getD_eq_getElem?_getD,
      List.getElem?_dropLast, hj', if_true]
  refine ⟨by simp [LiteTimerMgr.popBack, h.size], h.argPool, h.buf, ?_, ?_, ?_, ?_, ?_⟩
  · intro j hj
    rw [timer j hj]
    exact h.index j (by omega)
  · intro j hj
    exact h.live j (by omega)
  · intro j k hj hk
    exact h.apart j k (by omega) (by omega)
  · intro j hj _
    rw [timer j hj]
    exact h.cell j (by omega) trivial
  · intro j hj _
    exact h.back j (by omega) trivial

theorem TimerCells.withPool (h : TimerCells pool n bufs (fun _ => True) mgr a)
    (hcap : pool'.capacity = pool.capacity) (live : ∀ i, i < n → objpoolGet pool' (a i).1 ≠ none) :
    TimerCells pool' n bufs (fun _ => True) { mgr with timerArgPool := some pool' } a := by
  refine ⟨h.size, rfl, h.buf, h.index, live, ?_, h.cell, ?_⟩
  · rw [hcap]
    exact h.apart
  · rw [hcap]
    exact h.back

theorem TimerCells.ownBufs (h : TimerCells pool n bufs (fun _ => True) mgr a) :
    TimerCells pool n (fun slot => (mgr.args slot).buf) (fun _ => True) mgr a := by
  rw [funext h.buf]
  exact h

/-- Writing the caller's data into the object of a slot. -/
theorem TimerCells.writeBuf (h : TimerCells pool n bufs (fun _ => True) mgr a) (x : Int) (buf : β) :
    TimerCells pool n (Function.update bufs x buf) (fun _ => True)
      { mgr with args := Function.update mgr.args x { mgr.args x with buf := buf } } a := by
  refine ⟨h.size, h.argPool, ?_, h.index, h.live, h.apart, h.cell, ?_⟩
  · intro slot
    by_cases e : slot = x
    · subst e
      simp
    · simp [e, h.buf slot]
  · intro j hj _
    by_cases e : (a j).1.tmod pool.capacity = x
    · subst e
      simpa using h.back j hj trivial
    · simpa [e] using h.back j hj trivial

/-- `push_back` of a timer whose id is in no cell yet. -/
theorem TimerCells.push (h : TimerCells pool n bufs (fun _ => True) mgr a) {id t : Int}
    (live : objpoolGet pool id ≠ none)
    (fresh : ∀ i, i < n → (a i).1.tmod pool.capacity ≠ id.tmod pool.capacity) :
    TimerCells pool (n + 1) bufs (fun _ => True)
      (LiteTimerMgr.setTimerIdxById { mgr with timerHeap := mgr.timerHeap ++ [⟨id, n, t⟩] } id n).2
      (Function.update a n (id, t)) := by
  rw [setTimerIdxById_live _ (by exact h.argPool) live]
  have old : ∀ j, j < n → Function.update a n (id, t) j = a j := by
    intro j hj
    simp [show j ≠ n by omega]
  have timer : ∀ j, j < n + 1 → (mgr.timerHeap ++ [(⟨id, n, t⟩ : LiteTimer)]).getD j default =
      if j = n then ⟨id, n, t⟩ else mgr.timerAt j := by
    intro j hj
    by_cases e : j = n
    · subst e
      simp [← h.size]
    · have hlt : j < mgr.timerHeap.length := by
        rw [h.size]
        omega
      simp [e, LiteTimerMgr.timerAt, List.getElem?_append_left hlt]
  have split : ∀ j, j < n + 1 → j = n ∨ j < n := by
    intro j hj
    omega
  refine ⟨by simp [h.size], h.argPool, ?_, ?_, ?_, ?_, ?_, ?_⟩
  · intro slot
    by_cases e : slot = id.tmod pool.capacity
    · subst e
      simp [h.buf]
    · simp [e, h.buf slot]
  · intro j hj
    simp only [LiteTimerMgr.timerAt]
    rw [timer j hj]
    rcases split j hj with rfl | hlt
    · simp
    · simpa [show j ≠ n by omega] using h.index j hlt
  · intro j hj
    rcases split j hj with rfl | hlt
    · simpa using live
    · rw [old j hlt]
      exact h.live j hlt
  · intro j k hj hk hjk
    rcases split j hj with rfl | hlt
    · rw [old k (by omega)]
      simpa using (fresh k (by omega)).symm
    · rw [old j hlt]
      rcases split k hk with rfl | hlt'
      · simpa using fresh j hlt
      · rw [old k hlt']
        exact h.apart j k hlt hlt' hjk
  · intro j hj _
    simp only [LiteTimerMgr.timerAt]
    rw [timer j hj]
    rcases split j hj with rfl | hlt
    · simp [LiteTimer.payload]
    · rw [old j hlt, if_neg (show j ≠ n by omega)]
      exact h.cell j hlt trivial
  · intro j hj _
    rcases split j hj with rfl | hlt
    · simp
    · rw [old j hlt]
      simpa [fresh j hlt] using h.back j hlt trivial

/-- The last step of the move, from what `std::push_heap` has left. -/
theorem moveToBack_pop {b₁ : Nat → Int × Int} (hn : 0 < n)
    (pushed : TimerCells pool n bufs (fun _ => True)
      (pushHeap LiteTimerMgr.cells LiteTimer.less (mgr.setExpireTime i 0) (i + 1)) b₁) :
    ∃ b, TimerCells pool n bufs (fun _ => True) (mgr.moveToBack i) b ∧ Rearranged n b₁ b ∧
      b (n - 1) = b₁ 0 ∧ (SinkingAt Prod.snd b₁ n 0 → HeapOrdered Prod.snd b (n - 1)) := by
  obtain ⟨b, hb, hperm, hlast, hord⟩ :=
    popHeap_rule (timerCells_rule pool n bufs) LiteTimer.less_iff hn pushed
  refine ⟨b, ?_, hperm, hlast, hord⟩
  simp only [LiteTimerMgr.moveToBack, Int.toNat_natCast]
  rw [pushed.size]
  exact hb

/-- A timer keyed below all others rises to the root of the whole heap, although only the prefix
up to its position is sifted. -/
theorem pushHeap_lowest (h : TimerCells pool n bufs (fun _ => True) mgr a) (hi : i < n)
    (ordered : HeapOrdered Prod.snd a n) (positive : ∀ j, j < n → 0 < (a j).2) :
    ∃ b₁, TimerCells pool n bufs (fun _ => True)
        (pushHeap LiteTimerMgr.cells LiteTimer.less (mgr.setExpireTime i 0) (i + 1)) b₁ ∧
      HeapOrdered Prod.snd b₁ n ∧ Rearranged n (Function.update a i ((a i).1, 0)) b₁ ∧ b₁ 0 = ((a i).1, 0) := by
  generalize ha' : Function.update a i ((a i).1, 0) = a'
  have self : a' i = ((a i).1, 0) := by simp [← ha']
  have other : ∀ j, j ≠ i → a' j = a j := by
    intro j hj
    simp [← ha', hj]
  have rising : RisingAt Prod.snd a' n i := by
    constructor
    · intro j hj hjn hji
      rw [other j hji]
      by_cases hp : (j - 1) / 2 = i
      · rw [hp, self]
        exact (positive j hjn).le
      · rw [other _ hp]
        exact ordered j hj hjn
    · intro hpos c hc hcn hci
      rw [other _ (by omega), other c (by omega)]
      have hparent := ordered c hc hcn
      rw [hci] at hparent
      exact (ordered i hpos hi).trans hparent
  have keyed := h.setExpire hi 0
  rw [ha'] at keyed
  obtain ⟨b₁, hb₁, hperm₁, hord₁, -⟩ := pushHeap_rule (timerCells_rule pool n bufs) LiteTimer.less_iff
    (Nat.le_refl n) (show 0 < i + 1 by omega) (show i + 1 ≤ n by omega) keyed
  refine ⟨b₁, hb₁, hord₁ rising, hperm₁, ?_⟩
  obtain ⟨j, hj, hji⟩ := (hperm₁.mem_iff (a' i)).mpr ⟨i, hi, rfl⟩
  obtain ⟨k, hk, hka⟩ := (hperm₁.mem_iff (b₁ 0)).mp ⟨0, by omega, rfl⟩
  have hle := (hord₁ rising).root_le hj
  rw [hji, self, ← hka] at hle
  by_cases hki : k = i
  · rw [← hka, hki, self]
  · rw [other k hki] at hle
    have := positive k hk
    simp only at hle
    omega

/-- The timer at the root stays there, whatever its key was. -/
theorem pushHeap_root (h : TimerCells pool n bufs (fun _ => True) mgr a) (hn : 0 < n) :
    TimerCells pool n bufs (fun _ => True)
      (pushHeap LiteTimerMgr.cells LiteTimer.less (mgr.setExpireTime 0 0) 1) (Function.update a 0 ((a 0).1, 0)) := by
  have keyed := h.setExpire hn 0
  obtain ⟨b₁, hb₁, hperm₁, -⟩ := pushHeap_rule (timerCells_rule pool n bufs) LiteTimer.less_iff
    (show 1 ≤ n by omega) Nat.one_pos (Nat.le_refl 1) keyed
  have same : b₁ = Function.update a 0 ((a 0).1, 0) := by
    funext j
    by_cases hj : j = 0
    · subst hj
      obtain ⟨k, hk, hka⟩ := (hperm₁.mem_iff (b₁ 0)).mp ⟨0, Nat.one_pos, rfl⟩
      obtain rfl : k = 0 := by omega
      exact hka.symm
    · exact hperm₁.beyond (by omega)
  rw [← same]
  exact hb₁

/-- The timer is popped to the back, because it is the root or every expire time is positive. -/
theorem moveToBack_spec (h : TimerCells pool n bufs (fun _ => True) mgr a) (hi : i < n)
    (ordered : HeapOrdered Prod.snd a n) (hits : i = 0 ∨ 0 < (a 0).2) :
    ∃ b, TimerCells pool n bufs (fun _ => True) (mgr.moveToBack i) b ∧ HeapOrdered Prod.snd b (n - 1) ∧
      Rearranged n (Function.update a i ((a i).1, 0)) b ∧ b (n - 1) = ((a i).1, 0) := by
  rcases hits with rfl | positive
  · obtain ⟨b, hb, hperm, hlast, hord⟩ := moveToBack_pop hi (pushHeap_root h hi)
    have sinking : SinkingAt Prod.snd (Function.update a 0 ((a 0).1, 0)) n 0 := by
      constructor
      · intro j hj hjn _ hp
        rw [Function.update_of_ne hp, Function.update_of_ne (by omega)]
        exact ordered j hj hjn
      · intro hpos
        omega
    exact ⟨b, hb, hord sinking, hperm, by rw [hlast, Function.update_self]⟩
  · obtain ⟨b₁, hb₁, hord₁, hperm₁, root⟩ :=
      pushHeap_lowest h hi ordered fun j hj => positive.trans_le (ordered.root_le hj)
    obtain ⟨b, hb, hperm, hlast, hord⟩ := moveToBack_pop (by omega) hb₁
    exact ⟨b, hb, hord hord₁.sinking, hperm₁.trans hperm, hlast.trans root⟩

/-- Under a root that is not positive the timer does not get to the root, and the root is popped in
its place. -/
theorem moveToBack_misses (h : TimerCells pool n bufs (fun _ => True) mgr a) (hi : i < n) (inner : i ≠ 0)
    (early : (a 0).2 ≤ 0) :
    ∃ b, TimerCells pool n bufs (fun _ => True) (mgr.moveToBack i) b ∧
      Rearranged n (Function.update a i ((a i).1, 0)) b ∧ b (n - 1) = a 0 := by
  obtain ⟨b₁, hb₁, hperm₁, -, root⟩ := pushHeap_rule (timerCells_rule pool n bufs) LiteTimer.less_iff
    (Nat.le_refl n) (show 0 < i + 1 by omega) (show i + 1 ≤ n by omega) (h.setExpire hi 0)
  obtain ⟨b, hb, hperm, hlast, -⟩ := moveToBack_pop (by omega) hb₁
  have hzero : Function.update a i ((a i).1, 0) 0 = a 0 := Function.update_of_ne inner.symm _ _
  rw [Nat.add_sub_cancel, Function.update_self, hzero] at root
  exact ⟨b, hb, hperm₁.trans hperm, hlast.trans (root inner early)⟩

end Cells

/-- The heap and the argument pool of a timer manager in step: `a` lists the ids and expire times
of the heap, in heap order, and `used` the slots of the pool, one for each of them. -/
structure TimerSync {β : Type} (mgr : LiteTimerMgr β) (pool : TObjPool) (free used : List Int)
    (a : Nat → Int × Int) : Prop where
  repr : PoolRepr pool free used
  bounds : PoolBounds pool
  cells : TimerCells pool used.length (fun slot => (mgr.args slot).buf) (fun _ => True) mgr a
  ordered : HeapOrdered Prod.snd a used.length

/-- The same with only positive expire times, as long as nobody asks for another one. -/
structure TimerInv {β : Type} (mgr : LiteTimerMgr β) (pool : TObjPool) (free used : List Int)
    (a : Nat → Int × Int) : Prop extends sync : TimerSync mgr pool free used a where
  positive : ∀ i, i < used.length → 0 < (a i).2

end Wddlib
