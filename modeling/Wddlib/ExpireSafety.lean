import Wddlib.ExpireLedger

namespace Wddlib

section Positions

variable {pool : TObjPool} {free used : List Int} {p : Int}

theorem objpoolGetBypos_eq_some_iff {ptr : ObjPtr} :
    objpoolGetBypos pool p = some ptr ↔
      (0 ≤ p ∧ p < pool.capacity ∧ 0 < pool.usedCount) ∧ ptr = pool.objAt p := by
  unfold objpoolGetBypos
  split
  next h =>
    simp only [reduceCtorEq, false_iff]
    omega
  next h =>
    simp only [Option.some.injEq]
    constructor
    · rintro rfl
      exact ⟨by omega, rfl⟩
    · rintro ⟨-, rfl⟩
      rfl

theorem objpoolGetBypos_of_get (h : PoolRepr pool free used) (b : PoolBounds pool) {id : Int} {ptr : ObjPtr}
    (hget : objpoolGet pool id = some ptr) :
    objpoolGetBypos pool ptr.slot = some ptr ∧ (pool.idx ptr.slot).usedFlag = 1 := by
  by_cases hid : IsHandle pool used (id.tmod pool.capacity) id
  · rw [objpoolGet_of_handle h b hid] at hget
    obtain rfl := Option.some.inj hget
    exact ⟨objpoolGetBypos_of_used h hid.1, (h.used_range hid.1).2.2.2⟩
  · rw [objpoolGet_of_not_handle h b hid] at hget
    cases hget

/-- The handle of a slot that is allocated. -/
theorem objpoolGet_of_flag (h : PoolRepr pool free used) (b : PoolBounds pool) (hp : 0 ≤ p) (hp' : p < pool.capacity)
    (flag : (pool.idx p).usedFlag = 1) :
    objpoolGet pool (pool.logicIdx (pool.idx p).accumulate p) = some (pool.objAt p) := by
  have hused : p ∈ used := by
    by_contra hno
    rw [h.usedFlag p hp hp', if_neg hno] at flag
    cases flag
  exact objpoolGet_of_handle h b ⟨hused, (b.handle hp hp').2⟩

/-- The node of a sweep by position: the position it has come to, unless the pool is empty. -/
theorem SweepState.node_part_iff {s : SweepState} (kept : s.mgr.Kept) {tNow iEnd : Int} {x : Nat}
    (hsweep : s.sweep s.mgr.sch.owner = some (.part tNow iEnd false)) :
    s.node = some (tNow, x) ↔
      s.iLastPos < iEnd ∧ s.iLastPos = x ∧ (x : Int) < s.mgr.pool.capacity ∧ s.mgr.geCoCount ≠ 0 := by
  obtain ⟨free, used, ledger⟩ := kept
  have hcount := ledger.registry.repr.usedCount
  simp only [SweepState.node, hsweep, SCoMgr.geCoCount, objpoolGetUsedItems]
  constructor
  · intro hnode
    split at hnode
    next hlt =>
      obtain ⟨ptr, hptr, hpair⟩ := Option.map_eq_some_iff.mp hnode
      obtain ⟨hrange, rfl⟩ := objpoolGetBypos_eq_some_iff.mp hptr
      have hx : s.iLastPos.toNat = x := congrArg Prod.snd hpair
      exact ⟨hlt, by omega, by omega, by omega⟩
    next => cases hnode
  · rintro ⟨hlt, hx, hrange, busy⟩
    rw [if_pos hlt, objpoolGetBypos_eq_some_iff.mpr ⟨by omega, rfl⟩]
    simp only [Option.map_some, TObjPool.objAt, hx, Int.toNat_natCast]

/-- Access by position agrees with access by handle on the slots that are allocated; it knows no
other difference than that of an empty pool. So `ProcessPartExpire` looks at every position of
its window, allocated or not, unless the pool is empty. -/
theorem bypos_ignores_use {σ : Type} {malloc : Nat → Bool} {cap unit : Nat} {pool₀ : TObjPool} (hpos : 1 ≤ cap)
    (hle : cap ≤ 1073741824) (hinit : objpoolInit malloc cap unit = (0, some pool₀)) (ops : List (PoolOp σ)) :
    (∃ pool, poolRun pool₀ ops = some pool ∧ pool.capacity = cap ∧
      (∀ id ptr, objpoolGet pool id = some ptr → objpoolGetBypos pool ptr.slot = objpoolGet pool id) ∧
      (∀ p : Int, 0 ≤ p → p < cap → (pool.idx p).usedFlag = 1 →
        objpoolGetBypos pool p = objpoolGet pool (pool.logicIdx (pool.idx p).accumulate p) ∧
          objpoolGetBypos pool p = some (pool.objAt p)) ∧
      (∀ p : Int, p < 0 ∨ (cap : Int) ≤ p ∨ pool.usedCount = 0 → objpoolGetBypos pool p = none) ∧
      (∀ p : Int, 0 ≤ p → p < cap → (pool.idx p).usedFlag ≠ 1 → pool.usedCount ≠ 0 →
        objpoolGetBypos pool p = some (pool.objAt p) ∧ ∀ id, objpoolGet pool id ≠ some (pool.objAt p))) ∧
    ∀ (m : SCoMgr) (events : List SweepEvent) (k : Nat) (tNow iEnd : Int) (x : Nat), m.Created →
      (sweepAt m events k).sweep (sweepAt m events k).mgr.sch.owner = some (.part tNow iEnd false) →
      ((sweepAt m events k).node = some (tNow, x) ↔
        (sweepAt m events k).iLastPos < iEnd ∧ (sweepAt m events k).iLastPos = x ∧
          (x : Int) < (sweepAt m events k).mgr.pool.capacity ∧ (sweepAt m events k).mgr.geCoCount ≠ 0) := by
  refine ⟨?_, ?_⟩
  · obtain ⟨h₀, b₀, hcap₀, -⟩ := objpoolInit_spec hpos hle hinit
    obtain ⟨pool, free, used, hrun, h, b, hcap⟩ := poolRun_repr h₀ b₀ ops
    rw [hcap₀] at hcap
    have hcount : 0 ≤ pool.usedCount := by
      rw [h.usedCount]
      omega
    refine ⟨pool, hrun, hcap, ?_, ?_, ?_, ?_⟩
    · intro id ptr hget
      rw [hget]
      exact (objpoolGetBypos_of_get h b hget).1
    · intro p hp hp' flag
      rw [← hcap] at hp'
      have hget := objpoolGet_of_flag h b hp hp' flag
      have hbypos := (objpoolGetBypos_of_get h b hget).1
      exact ⟨hbypos.trans hget.symm, hbypos⟩
    · intro p out
      unfold objpoolGetBypos
      rw [if_pos (by omega)]
    · intro p hp hp' flag busy
      refine ⟨objpoolGetBypos_eq_some_iff.mpr ⟨by omega, rfl⟩, ?_⟩
      intro id hget
      exact flag (objpoolGetBypos_of_get h b hget).2
  · intro m events k tNow iEnd x start hsweep
    exact SweepState.node_part_iff (sweepAt_dated start events k).kept hsweep

end Positions

theorem bypos_ignores_use_one :
    ∃ pool₀ pool, objpoolInit (fun _ => true) 2 4096 = (0, some pool₀) ∧
      poolRun pool₀ ([.call .alloc] : List (PoolOp Unit)) = some pool ∧
      objpoolGetBypos pool 0 = objpoolGet pool 2 ∧ (pool.idx 0).usedFlag = 1 ∧ objpoolGetBypos pool 7 = none ∧
      (sweepAt smallMgr [.alloc, .processPartExpire (-1) 2] 2).node = some (-1, 0) := by
  obtain ⟨⟨pool, hrun, -, -, hused, hnone, -⟩, hscan⟩ :=
    @bypos_ignores_use Unit (fun _ => true) 2 4096 _ (by decide) (by decide) rfl [.call .alloc]
  obtain rfl := Option.some.inj (show some _ = some pool from hrun)
  refine ⟨_, _, rfl, hrun, (hused 0 (by decide) (by decide) (by decide +kernel)).1, by decide +kernel,
    hnone 7 (.inr (.inl (by decide))), ?_⟩
  exact (hscan smallMgr [.alloc, .processPartExpire (-1) 2] 2 (-1) 2 0 smallMgr_initial.created
    (by decide +kernel)).mpr (by decide +kernel)

/-- One of two coroutines is there. The position of the other one leads to its slot all the same,
and a sweep by position looks at it. -/
theorem bypos_finds_free_slot :
    ∃ pool₀ pool, objpoolInit (fun _ => true) 2 4096 = (0, some pool₀) ∧
      poolRun pool₀ ([.call .alloc] : List (PoolOp Unit)) = some pool ∧ (pool.idx 1).usedFlag = 0 ∧
      objpoolGetBypos pool 1 = some (pool.objAt 1) ∧
      (sweepAt smallMgr [.alloc, .processPartExpire (-1) 2, .loop 0, .loop 0] 4).node = some (-1, 1) ∧
      ((sweepAt smallMgr [.alloc, .processPartExpire (-1) 2, .loop 0, .loop 0] 4).mgr.pool.idx 1).usedFlag = 0 := by
  refine ⟨_, _, rfl, rfl, by decide +kernel, by decide +kernel, by decide +kernel, by decide +kernel⟩

/-- The code of coroutine `x` waits in a call `Yield(e)`. -/
def SweepState.SuspendedIn (s : SweepState) (x : Nat) (e : Int) : Prop :=
  (s.mgr.sch.co x).status = .suspend ∧ s.mgr.sch.ctx (some x) = some ⟨some x, .yield⟩ ∧ s.deadline x = some e

/-- The coroutine that a sweep resumes next, if any, waits in a `Yield` that is due. -/
def SweepState.ResumesDue (s : SweepState) : Prop :=
  ∀ tNow x y, s.node = some (tNow, x) → (s.mgr.info x).tExpireTime ≤ tNow →
    s.mgr.getCo (s.mgr.info x).iPoolID = some y → ∃ e, s.SuspendedIn y e ∧ e ≤ tNow

/-- A sweep comes to no coroutine that is not waiting in a `Yield` unless its last deadline, 0 without
one, is ahead. -/
def SweepState.IdleAhead (s : SweepState) : Prop :=
  ∀ tNow x, s.node = some (tNow, x) → (s.mgr.pool.idx x).usedFlag = 1 → (∀ e, ¬ s.SuspendedIn x e) →
    tNow < (s.deadline x).getD 0

/-- A sweep comes to no slot that was never given out unless what its memory holds is ahead too, or
names no coroutine. -/
def SweepState.BlankHarmless (s : SweepState) : Prop :=
  ∀ tNow x, s.node = some (tNow, x) → (s.mgr.pool.idx x).accumulate = 0 →
    tNow < (s.mgr.info x).tExpireTime ∨ s.mgr.getCo (s.mgr.info x).iPoolID = none

namespace SweepState

variable {s : SweepState}

theorem node_range {tNow : Int} {x : Nat} (h : s.node = some (tNow, x)) : (x : Int) < s.mgr.pool.capacity := by
  have inside : ∀ t i, ((objpoolGetBypos s.mgr.pool i).map fun p => (t, p.slot.toNat)) = some (tNow, x) →
      (x : Int) < s.mgr.pool.capacity := by
    intro t i hnode
    obtain ⟨ptr, hptr, hpair⟩ := Option.map_eq_some_iff.mp hnode
    obtain ⟨hrange, rfl⟩ := objpoolGetBypos_eq_some_iff.mp hptr
    have hx : i.toNat = x := congrArg Prod.snd hpair
    omega
  unfold node at h
  split at h
  · split at h
    · cases h
    · exact inside _ _ h
  · split at h
    · exact inside _ _ h
    · cases h
  · cases h

theorem Dated.resumesDue (h : s.Dated) (ahead : s.IdleAhead) (harmless : s.BlankHarmless) : s.ResumesDue := by
  intro tNow x y hnode due hget
  obtain ⟨free, used, ledger⟩ := h.kept
  have hrange := node_range hnode
  have hgen := (ledger.registry.bounds.generation x (by omega) hrange).1
  by_cases born : (s.mgr.pool.idx x).accumulate = 0
  · rcases harmless tNow x hnode born with later | noOne
    · omega
    · rw [noOne] at hget
      cases hget
  · by_cases hx : (x : Int) ∈ used
    · have hself : s.mgr.getCo (s.mgr.info x).iPoolID = some x := ledger.registry.getCo_iff.mpr ⟨hx, rfl⟩
      obtain rfl := Option.some.inj (hself.symm.trans hget)
      have hdate := h.date x hrange (by omega)
      have hflag := (ledger.registry.repr.used_range hx).2.2.2
      by_cases suspended : ∃ e, s.SuspendedIn x e
      · obtain ⟨e, hsus⟩ := suspended
        rw [hsus.2.2, Option.getD_some] at hdate
        exact ⟨e, hsus, by omega⟩
      · have later := ahead tNow x hnode hflag fun e he => suspended ⟨e, he⟩
        omega
    · rw [ledger.getCo_of_free hx hrange (by omega)] at hget
      cases hget

theorem Dated.idleAhead (h : s.Dated) (due : s.ResumesDue) : s.IdleAhead := by
  intro tNow x hnode hflag idle
  obtain ⟨free, used, ledger⟩ := h.kept
  have hrange := node_range hnode
  have hx : (x : Int) ∈ used := by
    by_contra hno
    rw [ledger.registry.repr.usedFlag x (by omega) hrange, if_neg hno] at hflag
    cases hflag
  by_contra early
  have hdate := h.date x hrange (ledger.registry.born x hx)
  obtain ⟨e, hsus, -⟩ := due tNow x x hnode (by omega) (ledger.registry.getCo_iff.mpr ⟨hx, rfl⟩)
  exact idle e hsus

end SweepState

/-- In a run whose sweeps come to idle coroutines ahead of their deadlines, whoever is swept waits in a
`Yield` that is due; and only in such a run. -/
theorem sweeps_resume_due {m : SCoMgr} (start : m.Created) (events : List SweepEvent) :
    ((∀ k ssize, events[k]? = some (.loop ssize) →
        (sweepAt m events k).IdleAhead ∧ (sweepAt m events k).BlankHarmless) →
      ∀ k ssize, events[k]? = some (.loop ssize) → (sweepAt m events k).ResumesDue) ∧
    ((∀ k ssize, events[k]? = some (.loop ssize) → (sweepAt m events k).ResumesDue) →
      ∀ k ssize, events[k]? = some (.loop ssize) → (sweepAt m events k).IdleAhead) := by
  have dated := sweepAt_dated start events
  constructor
  · intro inTime k ssize turn
    obtain ⟨ahead, harmless⟩ := inTime k ssize turn
    exact (dated k).resumesDue ahead harmless
  · intro due k ssize turn
    exact (dated k).idleAhead (due k ssize turn)

/-- A coroutine waits until 5 and is swept at 7. -/
def dueRun : List SweepEvent := [.alloc, .resume 2 0, .yield 5 0, .processAllExpire 7, .loop 0]

theorem sweeps_resume_due_once : (sweepAt smallMgr dueRun 4).ResumesDue := by
  have waits : (sweepAt smallMgr dueRun 4).SuspendedIn 0 5 :=
    ⟨by decide +kernel, by decide +kernel, by decide +kernel⟩
  have hnode : (sweepAt smallMgr dueRun 4).node = some (7, 0) := by decide +kernel
  have born : ((sweepAt smallMgr dueRun 4).mgr.pool.idx (0 : Nat)).accumulate = 1 := by decide +kernel
  refine (sweeps_resume_due smallMgr_initial.created dueRun).1 ?_ 4 0 (by decide)
  intro k ssize turn
  have hk : k = 4 := by
    rcases k with _ | _ | _ | _ | _ | k
    · cases turn
    · cases turn
    · cases turn
    · cases turn
    · rfl
    · cases turn
  subst hk
  refine ⟨?_, ?_⟩
  · intro tNow x hx _ idle
    obtain ⟨rfl, rfl⟩ := Prod.mk.inj (Option.some.inj (hnode.symm.trans hx))
    exact absurd waits (idle 5)
  · intro tNow x hx unborn
    obtain ⟨rfl, rfl⟩ := Prod.mk.inj (Option.some.inj (hnode.symm.trans hx))
    rw [born] at unborn
    cases unborn

/-- A coroutine that has never been resumed is started by a sweep, and a coroutine that sweeps while
it runs resumes itself. -/
theorem sweeps_start_and_resume_running :
    (sweepAt smallMgr [.alloc, .processAllExpire 0, .loop 0] 3).mgr.sch.owner = some 0 ∧
      (sweepAt smallMgr [.alloc, .processAllExpire 0, .loop 0] 3).mgr.sch.arrival = .start ∧
      ¬ (sweepAt smallMgr [.alloc, .processAllExpire 0, .loop 0] 2).ResumesDue ∧
      (sweepAt smallMgr [.alloc, .resume 2 0, .processPartExpire 0 2, .loop 0] 3).mgr.sch.owner = some 0 ∧
      ¬ (sweepAt smallMgr [.alloc, .resume 2 0, .processPartExpire 0 2, .loop 0] 3).ResumesDue := by
  refine ⟨by decide +kernel, by decide +kernel, ?_, by decide +kernel, ?_⟩
  · intro due
    obtain ⟨e, ⟨hstatus, -⟩, -⟩ := due 0 0 0 (by decide +kernel) (by decide +kernel) (by decide +kernel)
    exact absurd hstatus (by decide +kernel)
  · intro due
    obtain ⟨e, ⟨hstatus, -⟩, -⟩ := due 0 0 0 (by decide +kernel) (by decide +kernel) (by decide +kernel)
    exact absurd hstatus (by decide +kernel)

end Wddlib
