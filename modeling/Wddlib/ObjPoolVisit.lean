import Wddlib.ObjPoolRun
import Mathlib.Data.List.Nodup

namespace Wddlib

open TObjPool

section Log

variable {σ : Type} {pool : TObjPool} {free used : List Int}

/-- A callback that writes down what it is called on and what it answers. -/
def logged (travel : σ → Option ObjPtr → TravelRet × σ) (arg : σ × List (Option ObjPtr × TravelRet))
    (node : Option ObjPtr) : TravelRet × σ × List (Option ObjPtr × TravelRet) :=
  let answer := travel arg.1 node
  (answer.1, answer.2, arg.2 ++ [(node, answer.1)])

/-- The calls of a traversal of the slots that are left. -/
def travelCalls (travel : σ → Option ObjPtr → TravelRet × σ) (obj : Int → ObjPtr) :
    List Int → σ → List (Option ObjPtr × TravelRet)
  | [], _ => []
  | x :: xs, arg =>
    match travel arg (some (obj x)) with
    | (.breakTravel, _) => [(some (obj x), .breakTravel)]
    | (ret, arg) => (some (obj x), ret) :: travelCalls travel obj xs arg

/-- The slots that were answered `REMOVE_ME`, in the order of the calls. -/
def removedSlots (calls : List (Option ObjPtr × TravelRet)) : List Int :=
  calls.filterMap fun call => if call.2 = .removeMe then call.1.map ObjPtr.slot else none

theorem travelVisit_logged (travel : σ → Option ObjPtr → TravelRet × σ) (obj : Int → ObjPtr) (xs : List Int) (arg : σ)
    (log : List (Option ObjPtr × TravelRet)) :
    travelVisit (logged travel) obj xs (arg, log) =
      ((travelVisit travel obj xs arg).1, (travelVisit travel obj xs arg).2.1,
        (travelVisit travel obj xs arg).2.2, log ++ travelCalls travel obj xs arg) := by
  induction xs generalizing arg log with
  | nil => simp [travelVisit, travelCalls]
  | cons x xs ih =>
    cases hans : travel arg (some (obj x)) with
    | mk ret arg' =>
      cases ret with
      | breakTravel => simp [travelVisit, travelCalls, logged, hans]
      | removeMe => simp [travelVisit, travelCalls, logged, hans, ih]
      | doThing => simp [travelVisit, travelCalls, logged, hans, ih]

/-- The log does not influence the traversal. -/
theorem travelLoop_logged (travel : σ → Option ObjPtr → TravelRet × σ) (fuel : Nat) (pool : TObjPool) (i : Int)
    (arg : σ) (log : List (Option ObjPtr × TravelRet)) :
    (travelLoop (logged travel) fuel pool i (arg, log)).map (fun r => (r.1, r.2.1)) =
      travelLoop travel fuel pool i arg := by
  induction fuel generalizing pool i arg log with
  | zero => rfl
  | succ fuel ih =>
    simp only [travelLoop]
    split
    · rfl
    · cases hans : travel arg (objpoolGetBypos pool i) with
      | mk ret arg' =>
        cases ret with
        | breakTravel => simp [logged, hans]
        | removeMe => simp [logged, hans, ih]
        | doThing => simp [logged, hans, ih]

theorem travelCalls_nodes (travel : σ → Option ObjPtr → TravelRet × σ) (obj : Int → ObjPtr) (xs : List Int) (arg : σ) :
    (travelCalls travel obj xs arg).map Prod.fst =
      (xs.take (travelCalls travel obj xs arg).length).map fun x => some (obj x) := by
  induction xs generalizing arg with
  | nil => simp [travelCalls]
  | cons x xs ih =>
    cases hans : travel arg (some (obj x)) with
    | mk ret arg' =>
      cases ret with
      | breakTravel => simp [travelCalls, hans]
      | removeMe => simp [travelCalls, hans, ih]
      | doThing => simp [travelCalls, hans, ih]

theorem noBreak_cons {call : Option ObjPtr × TravelRet} {calls : List (Option ObjPtr × TravelRet)}
    (hgo : ∀ c ∈ calls.dropLast, c.2 ≠ .breakTravel) (hcall : call.2 ≠ .breakTravel) :
    ∀ c ∈ (call :: calls).dropLast, c.2 ≠ .breakTravel := by
  cases calls with
  | nil => simp
  | cons first rest =>
    intro c hc
    rw [List.dropLast_cons_cons, List.mem_cons] at hc
    rcases hc with rfl | hc
    · exact hcall
    · exact hgo c hc

theorem end_cons {call : Option ObjPtr × TravelRet} {calls : List (Option ObjPtr × TravelRet)} {x : Int}
    {xs : List Int} (hend : calls.length = xs.length ∨ ∃ c, calls.getLast? = some c ∧ c.2 = .breakTravel) :
    (call :: calls).length = (x :: xs).length ∨ ∃ c, (call :: calls).getLast? = some c ∧ c.2 = .breakTravel := by
  rcases hend with hlen | ⟨c, hlast, hc⟩
  · exact Or.inl (by simp [hlen])
  · exact Or.inr ⟨c, by simp [List.getLast?_cons, hlast], hc⟩

/-- The traversal ends behind the first `BREAK_TRAVEL`, or behind the last slot. -/
theorem travelCalls_end (travel : σ → Option ObjPtr → TravelRet × σ) (obj : Int → ObjPtr) (xs : List Int) (arg : σ) :
    (∀ call ∈ (travelCalls travel obj xs arg).dropLast, call.2 ≠ .breakTravel) ∧
      ((travelCalls travel obj xs arg).length = xs.length ∨
        ∃ call, (travelCalls travel obj xs arg).getLast? = some call ∧ call.2 = .breakTravel) := by
  induction xs generalizing arg with
  | nil => simp [travelCalls]
  | cons x xs ih =>
    cases hans : travel arg (some (obj x)) with
    | mk ret arg' =>
      obtain ⟨hgo, hend⟩ := ih arg'
      cases ret with
      | breakTravel => simp [travelCalls, hans]
      | removeMe =>
        simp only [travelCalls, hans]
        exact ⟨noBreak_cons hgo (by simp), end_cons hend⟩
      | doThing =>
        simp only [travelCalls, hans]
        exact ⟨noBreak_cons hgo (by simp), end_cons hend⟩

theorem travelVisit_removed {obj : Int → ObjPtr} (hobj : ∀ x, (obj x).slot = x)
    (travel : σ → Option ObjPtr → TravelRet × σ) (xs : List Int) (arg : σ) :
    (travelVisit travel obj xs arg).2.1 = removedSlots (travelCalls travel obj xs arg) := by
  induction xs generalizing arg with
  | nil => simp [travelVisit, travelCalls, removedSlots]
  | cons x xs ih =>
    cases hans : travel arg (some (obj x)) with
    | mk ret arg' =>
      have htail := ih arg'
      cases ret with
      | breakTravel => simp [travelVisit, travelCalls, removedSlots, hans]
      | removeMe => simpa [travelVisit, travelCalls, removedSlots, hans, hobj] using htail
      | doThing => simpa [travelVisit, travelCalls, removedSlots, hans] using htail

theorem travelVisit_removed_subset (travel : σ → Option ObjPtr → TravelRet × σ) (obj : Int → ObjPtr) (xs : List Int)
    (arg : σ) : (travelVisit travel obj xs arg).2.1 ⊆ xs := by
  induction xs generalizing arg with
  | nil => simp [travelVisit]
  | cons x xs ih =>
    cases hans : travel arg (some (obj x)) with
    | mk ret arg' =>
      have htail := ih arg'
      cases ret with
      | breakTravel => simp [travelVisit, hans]
      | removeMe =>
        simp only [travelVisit, hans]
        exact List.cons_subset_cons x htail
      | doThing =>
        simp only [travelVisit, hans]
        exact List.subset_cons_of_subset x htail

/-- What is kept is what was there without what was removed. -/
theorem travelVisit_kept (travel : σ → Option ObjPtr → TravelRet × σ) (obj : Int → ObjPtr) {xs : List Int}
    (nodup : xs.Nodup) (arg : σ) :
    (travelVisit travel obj xs arg).1 = xs.filter fun x => x ∉ (travelVisit travel obj xs arg).2.1 := by
  induction xs generalizing arg with
  | nil => rfl
  | cons x xs ih =>
    obtain ⟨hx, nodup⟩ := List.nodup_cons.mp nodup
    cases hans : travel arg (some (obj x)) with
    | mk ret arg' =>
      have htail := ih nodup arg'
      have hsub := travelVisit_removed_subset travel obj xs arg'
      cases ret with
      | breakTravel => simp [travelVisit, hans]
      | removeMe =>
        have hne : ∀ y ∈ xs, y ≠ x := fun y hy he => hx (he ▸ hy)
        simp only [travelVisit, hans]
        rw [List.filter_cons_of_neg (by simp), htail]
        refine List.filter_congr fun y hy => ?_
        simp [hne y hy]
      | doThing =>
        have hkeep : x ∉ (travelVisit travel obj xs arg').2.1 := fun hr => hx (hsub hr)
        simp only [travelVisit, hans]
        rw [List.filter_cons_of_pos (by simpa using hkeep), ← htail]

end Log

/-- A pool with the time at which each slot was allocated last. -/
structure StampedPool where
  pool : TObjPool
  clock : Nat
  stamp : Int → Nat

/-- The operation on the pool; a successful allocation dates its slot. -/
def PoolOp.stamped {σ : Type} (s : StampedPool) : PoolOp σ → Option StampedPool
  | .call .alloc =>
    let id := (objpoolAlloc s.pool).1
    if id < 0 then some { s with pool := (objpoolAlloc s.pool).2 }
    else some ⟨(objpoolAlloc s.pool).2, s.clock + 1, Function.update s.stamp (id % s.pool.capacity) (s.clock + 1)⟩
  | op => (op.apply s.pool).map fun pool => { s with pool := pool }

def stampedRun {σ : Type} (s : StampedPool) (ops : List (PoolOp σ)) : Option StampedPool :=
  ops.foldlM PoolOp.stamped s

def NewestFirst (stamp : Int → Nat) (used : List Int) : Prop :=
  used.Pairwise fun p q => stamp q < stamp p

/-- The used list is ordered by the allocation dates, the newest first. -/
structure StampedPool.Ordered (s : StampedPool) (free used : List Int) : Prop where
  repr : PoolRepr s.pool free used
  bounds : PoolBounds s.pool
  newestFirst : NewestFirst s.stamp used
  past : ∀ p ∈ used, s.stamp p ≤ s.clock

section Stamped

variable {σ : Type} {s : StampedPool} {free used : List Int}

theorem StampedPool.Ordered.shrink (inv : s.Ordered free used) {pool : TObjPool} {free' used' : List Int}
    (h : PoolRepr pool free' used') (b : PoolBounds pool) (hsub : used'.Sublist used) :
    StampedPool.Ordered { s with pool := pool } free' used' :=
  ⟨h, b, inv.newestFirst.sublist hsub, fun p hp => inv.past p (hsub.subset hp)⟩

theorem NewestFirst.alloc {stamp : Int → Nat} {clock : Nat} (ordered : NewestFirst stamp used)
    (past : ∀ p ∈ used, stamp p ≤ clock) {x : Int} (hx : x ∉ used) :
    NewestFirst (Function.update stamp x (clock + 1)) (x :: used) ∧
      ∀ p ∈ x :: used, Function.update stamp x (clock + 1) p ≤ clock + 1 := by
  have hold : ∀ p ∈ used, Function.update stamp x (clock + 1) p = stamp p := by
    intro p hp
    have hne : p ≠ x := fun he => hx (he ▸ hp)
    exact Function.update_of_ne hne _ _
  refine ⟨List.pairwise_cons.mpr ⟨fun q hq => ?_, ?_⟩, fun p hp => ?_⟩
  · rw [hold q hq, Function.update_self]
    exact Nat.lt_succ_of_le (past q hq)
  · refine ordered.imp_of_mem fun hp hq hlt => ?_
    rw [hold _ hp, hold _ hq]
    exact hlt
  · rcases List.mem_cons.mp hp with rfl | hp
    · rw [Function.update_self]
    · rw [hold p hp]
      exact Nat.le_succ_of_le (past p hp)

theorem stamped_ordered (inv : s.Ordered free used) (op : PoolOp σ) :
    ∃ s' free' used', op.stamped s = some s' ∧ op.apply s.pool = some s'.pool ∧ s'.Ordered free' used' := by
  cases op with
  | call c =>
    obtain ⟨x, rest, pool', rfl, rfl, h, b, -, heq, -⟩ | ⟨p, before, after, pool', hc, rfl, h, b, -, heq, -⟩ |
      ⟨code, hneg, heq⟩ := poolCall_cases inv.repr inv.bounds c
    · obtain ⟨hx0, hxc⟩ := (inv.repr.slots x).mp (by simp)
      have hid := (nextGeneration_bounds inv.bounds.capacity_pos inv.bounds.capacity_le hxc
        (inv.bounds.generation x hx0 hxc).1).1
      have hnn : ¬ s.pool.capacity * nextGeneration s.pool.capacity (s.pool.idx x).accumulate x + x < 0 := by
        have hcap : 0 ≤ s.pool.capacity := by omega
        have hmul := Int.mul_nonneg hcap (Int.le_trans (by decide) hid)
        omega
      obtain ⟨hnew, hpast⟩ := inv.newestFirst.alloc inv.past inv.repr.head_notMem.2
      have heq' : objpoolAlloc s.pool = _ := heq
      refine ⟨⟨pool', s.clock + 1, Function.update s.stamp x (s.clock + 1)⟩, rest, x :: used, ?_, ?_, h, b, hnew, hpast⟩
      · simp only [PoolOp.stamped, heq', hnn, if_false, handle_emod hx0 hxc]
      · simp [PoolOp.apply, heq]
    · have hshrink := inv.shrink h b (List.Sublist.append_left (List.sublist_cons_self p after) before)
      refine ⟨_, _, _, ?_, by simp [PoolOp.apply, heq], hshrink⟩
      rcases hc with rfl | ⟨id, rfl, -⟩
      · simp [PoolOp.stamped, PoolOp.apply, heq]
      · simp [PoolOp.stamped, PoolOp.apply, heq]
    · refine ⟨s, free, used, ?_, by simp [PoolOp.apply, heq], inv⟩
      cases c with
      | alloc =>
        have heq' : objpoolAlloc s.pool = _ := heq
        simp only [PoolOp.stamped, heq', hneg, if_true]
      | free id => simp [PoolOp.stamped, PoolOp.apply, heq]
      | freeBypos pos => simp [PoolOp.stamped, PoolOp.apply, heq]
  | travelUsed travel arg =>
    obtain ⟨pool', hrun, h, b, -⟩ := objpoolTravelUsed_spec travel inv.repr inv.bounds arg
    have hsub : ((travelVisit travel s.pool.objAt used arg).1).Sublist used := by
      rw [travelVisit_kept travel _ (List.nodup_append.mp inv.repr.nodup).2.1]
      exact List.filter_sublist
    exact ⟨_, _, _, by simp [PoolOp.stamped, PoolOp.apply, hrun], by simp [PoolOp.apply, hrun], inv.shrink h b hsub⟩

theorem stampedRun_ordered (inv : s.Ordered free used) (ops : List (PoolOp σ)) :
    ∃ s' free' used', stampedRun s ops = some s' ∧ poolRun s.pool ops = some s'.pool ∧ s'.Ordered free' used' := by
  induction ops generalizing s free used with
  | nil => exact ⟨s, free, used, rfl, rfl, inv⟩
  | cons op ops ih =>
    obtain ⟨s₁, free₁, used₁, hstamp, hop, inv₁⟩ := stamped_ordered inv op
    obtain ⟨s₂, free₂, used₂, hrun, hpool, inv₂⟩ := ih inv₁
    refine ⟨s₂, free₂, used₂, ?_, ?_, inv₂⟩
    · simpa [stampedRun, List.foldlM_cons, hstamp] using hrun
    · simpa [poolRun, List.foldlM_cons, hop] using hpool

/-- One traversal of a represented pool, with its calls written down. -/
theorem objpoolTravelUsed_logged {τ : Type} {pool : TObjPool} (h : PoolRepr pool free used) (b : PoolBounds pool)
    (travel : τ → Option ObjPtr → TravelRet × τ) (arg : τ) :
    ∃ pool' arg', objpoolTravelUsed (logged travel) pool (arg, []) =
        some (pool', arg', travelCalls travel pool.objAt used arg) ∧
      objpoolTravelUsed travel pool arg = some (pool', arg') ∧
      PoolRepr pool' (free ++ removedSlots (travelCalls travel pool.objAt used arg))
        (used.filter fun p => p ∉ removedSlots (travelCalls travel pool.objAt used arg)) := by
  obtain ⟨pool', hrun, hrepr, -⟩ := objpoolTravelUsed_spec (logged travel) h b (arg, [])
  rw [travelVisit_logged] at hrun hrepr
  rw [← travelVisit_removed (fun _ => rfl) travel used arg,
    ← travelVisit_kept travel pool.objAt (List.nodup_append.mp h.nodup).2.1]
  refine ⟨pool', _, hrun, ?_, hrepr⟩
  have hplain := travelLoop_logged travel (pool.usedCount.toNat + 1) pool pool.usedHead arg []
  rw [show travelLoop (logged travel) _ _ _ _ = _ from hrun] at hplain
  exact hplain.symm

end Stamped

/-- A traversal of a reached pool visits the used slots, the latest allocation first, up to the first
`BREAK_TRAVEL`; the slots answered `REMOVE_ME` move to the end of the free list, the others stay. -/
theorem objpool_travel_newest_first {σ τ : Type} {malloc : Nat → Bool} {cap unit : Nat} {pool₀ : TObjPool}
    (hpos : 1 ≤ cap) (hle : cap ≤ 1073741824) (hinit : objpoolInit malloc cap unit = (0, some pool₀))
    (ops : List (PoolOp σ)) (travel : τ → Option ObjPtr → TravelRet × τ) (arg : τ) :
    ∃ s free used, stampedRun ⟨pool₀, 0, fun _ => 0⟩ ops = some s ∧ poolRun pool₀ ops = some s.pool ∧
      PoolRepr s.pool free used ∧ NewestFirst s.stamp used ∧
      ∃ pool' arg' calls, objpoolTravelUsed travel s.pool arg = some (pool', arg') ∧
        objpoolTravelUsed (logged travel) s.pool (arg, []) = some (pool', arg', calls) ∧
        calls.map Prod.fst = (used.take calls.length).map (fun p => some (s.pool.objAt p)) ∧
        (calls.map Prod.fst).Nodup ∧
        (∀ call ∈ calls.dropLast, call.2 ≠ .breakTravel) ∧
        (calls.length = used.length ∨ ∃ call, calls.getLast? = some call ∧ call.2 = .breakTravel) ∧
        PoolRepr pool' (free ++ removedSlots calls) (used.filter fun p => p ∉ removedSlots calls) := by
  obtain ⟨h₀, b₀, -⟩ := objpoolInit_spec hpos hle hinit
  have inv₀ : StampedPool.Ordered ⟨pool₀, 0, fun _ => 0⟩ _ [] := ⟨h₀, b₀, List.Pairwise.nil, by simp⟩
  obtain ⟨s, free, used, hstamp, hpool, inv⟩ := stampedRun_ordered inv₀ ops
  obtain ⟨pool', arg', hlogged, hrun, hrepr⟩ := objpoolTravelUsed_logged inv.repr inv.bounds travel arg
  have hnodes := travelCalls_nodes travel s.pool.objAt used arg
  obtain ⟨hgo, hend⟩ := travelCalls_end travel s.pool.objAt used arg
  refine ⟨s, free, used, hstamp, hpool, inv.repr, inv.newestFirst, pool', arg', _, hrun, hlogged, hnodes, ?_, hgo,
    hend, hrepr⟩
  rw [hnodes]
  have hused := (List.nodup_append.mp inv.repr.nodup).2.1
  refine ((List.take_sublist _ _).nodup hused).map fun p q he => ?_
  exact congrArg ObjPtr.slot (Option.some.inj he)

theorem objpool_travel_newest_first_three :
    ∃ pool₀, objpoolInit (fun _ => true) 4 8 = (0, some pool₀) ∧ ∃ s free used,
      stampedRun ⟨pool₀, 0, fun _ => 0⟩ ([.call .alloc, .call .alloc, .call .alloc] : List (PoolOp Unit)) = some s ∧
      PoolRepr s.pool free used ∧ NewestFirst s.stamp used ∧ ∃ pool' n calls,
        objpoolTravelUsed (logged fun n _ => (if n = 1 then TravelRet.removeMe else .doThing, n + 1)) s.pool (0, []) =
          some (pool', n, calls) ∧
        PoolRepr pool' (free ++ removedSlots calls) (used.filter fun p => p ∉ removedSlots calls) := by
  refine ⟨_, rfl, ?_⟩
  obtain ⟨s, free, used, hstamp, -, hrepr, hnew, pool', n, calls, -, hlogged, -, -, -, -, hrepr'⟩ :=
    @objpool_travel_newest_first Unit Nat (fun _ => true) 4 8 _ (by decide) (by decide) rfl
      [.call .alloc, .call .alloc, .call .alloc]
      (fun n _ => (if n = 1 then TravelRet.removeMe else .doThing, n + 1)) 0
  exact ⟨s, free, used, hstamp, hrepr, hnew, pool', n, calls, hlogged, hrepr'⟩

end Wddlib
