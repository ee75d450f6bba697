import Wddlib.ObjPoolOps

namespace Wddlib

open TObjPool

section Travel

variable {σ : Type} {pool : TObjPool} {free used : List Int}

/-- What a traversal does to the used slots it has not reached yet: the slots kept, the slots
removed in visiting order, and the callback state at the end. -/
def travelVisit (travel : σ → Option ObjPtr → TravelRet × σ) (obj : Int → ObjPtr) :
    List Int → σ → List Int × List Int × σ
  | [], arg => ([], [], arg)
  | x :: xs, arg =>
    match travel arg (some (obj x)) with
    | (.breakTravel, arg) => (x :: xs, [], arg)
    | (.removeMe, arg) =>
      let visited := travelVisit travel obj xs arg
      (visited.1, x :: visited.2.1, visited.2.2)
    | (.doThing, arg) =>
      let visited := travelVisit travel obj xs arg
      (x :: visited.1, visited.2)

theorem objpoolGetBypos_of_used (h : PoolRepr pool free used) {p : Int} (hp : p ∈ used) :
    objpoolGetBypos pool p = some (pool.objAt p) := by
  obtain ⟨hp0, hpc, hcount, -⟩ := h.used_range hp
  rw [objpoolGetBypos, if_neg (by omega)]

/-- The loop follows the used list although the callback may have the visited slot removed: the
next link is read before the slot moves to the free list. -/
theorem travelLoop_spec (travel : σ → Option ObjPtr → TravelRet × σ) {before rest : List Int}
    (h : PoolRepr pool free (before ++ rest)) (b : PoolBounds pool) {fuel : Nat} (enough : rest.length < fuel)
    (arg : σ) :
    ∃ pool', travelLoop travel fuel pool (rest.head?.getD (-1)) arg =
        some (pool', (travelVisit travel pool.objAt rest arg).2.2) ∧
      PoolRepr pool' (free ++ (travelVisit travel pool.objAt rest arg).2.1)
        (before ++ (travelVisit travel pool.objAt rest arg).1) ∧
      PoolBounds pool' ∧ pool'.capacity = pool.capacity := by
  induction rest generalizing pool free before fuel arg with
  | nil =>
    obtain ⟨fuel, rfl⟩ := Nat.exists_eq_succ_of_ne_zero (by omega : fuel ≠ 0)
    exact ⟨pool, by simp [travelLoop, travelVisit], by simpa [travelVisit] using h, b, rfl⟩
  | cons x xs ih =>
    obtain ⟨fuel, rfl⟩ := Nat.exists_eq_succ_of_ne_zero (by omega : fuel ≠ 0)
    have hx : x ∈ before ++ x :: xs := by simp
    have hx0 := h.nonneg (a := x) (by simp)
    have hnext : (pool.idx x).nextIdx = xs.head?.getD (-1) := h.used_links.1
    simp only [travelLoop, List.head?_cons, Option.getD_some, show ¬ x = -1 by omega, if_false,
      objpoolGetBypos_of_used h hx, hnext, travelVisit]
    cases hans : travel arg (some (pool.objAt x)) with
    | mk ret arg' =>
      cases ret with
      | breakTravel => exact ⟨pool, rfl, by simpa using h, b, rfl⟩
      | doThing =>
        have h' : PoolRepr pool free ((before ++ [x]) ++ xs) := by simpa using h
        obtain ⟨pool', hrun, hrepr, hb, hcap⟩ := ih h' b (by simpa using enough) arg'
        exact ⟨pool', hrun, by simpa using hrepr, hb, hcap⟩
      | removeMe =>
        obtain ⟨-, -, -, -, hb', hcap', hunit', -⟩ := freeRelink_spec h b hx
        have hobj : (freeRelink pool x).objAt = pool.objAt := by
          funext i
          simp [TObjPool.objAt, hunit']
        obtain ⟨pool', hrun, hrepr, hb, hcap⟩ :=
          ih (freeRelink_repr h b.capacity_le) hb' (by simpa using enough) arg'
        rw [hobj] at hrun hrepr
        simp only [objpoolFreeBypos_of_used h b hx]
        exact ⟨pool', hrun, by simpa using hrepr, hb, hcap.trans hcap'⟩

theorem objpoolTravelUsed_spec (travel : σ → Option ObjPtr → TravelRet × σ)
    (h : PoolRepr pool free used) (b : PoolBounds pool) (arg : σ) :
    ∃ pool', objpoolTravelUsed travel pool arg =
        some (pool', (travelVisit travel pool.objAt used arg).2.2) ∧
      PoolRepr pool' (free ++ (travelVisit travel pool.objAt used arg).2.1)
        (travelVisit travel pool.objAt used arg).1 ∧
      PoolBounds pool' ∧ pool'.capacity = pool.capacity := by
  have hcount := h.usedCount
  have h' : PoolRepr pool free ([] ++ used) := h
  have enough : used.length < pool.usedCount.toNat + 1 := by omega
  obtain ⟨pool', hrun, hrepr, hrest⟩ := travelLoop_spec travel h' b enough arg
  rw [← walk_head_eq h.usedNext] at hrun
  exact ⟨pool', hrun, hrepr, hrest⟩

end Travel

end Wddlib
