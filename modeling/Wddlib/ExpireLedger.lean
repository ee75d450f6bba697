import Wddlib.CoMgrExpire

namespace Wddlib

namespace SCoMgr

variable {m m' : SCoMgr} {free used : List Int} {x y : Nat} {id : Int}

theorem step_alive (alive : m.sch.lost = false) (e : MgrEvent) :
    m.step e = match e with
      | .alloc => m.alloc.2.record (.allocated m.alloc.1)
      | .resume iPoolID ssize => m.resume iPoolID ssize
      | .yield expiretime ssize => m.yield expiretime ssize
      | .ret => m.finish
      | .release iPoolID => (m.release iPoolID).2.record (.released iPoolID (m.release iPoolID).1)
      | .timeOut pCo => m.markTimeOut pCo := by
  unfold step
  rw [alive]
  cases e <;> rfl

theorem release_info (m : SCoMgr) (id : Int) : (m.release id).2.info = m.info := by
  unfold release
  split <;> rfl

theorem resumeReturn_info (m : SCoMgr) (caller : Option Nat) (id : Int) (x : Nat) :
    (m.resumeReturn caller id x).info = m.info := by
  unfold resumeReturn
  dsimp only
  split
  · exact release_info _ _
  · rfl

theorem goOn_info (m : SCoMgr) : m.goOn.info = m.info := by
  unfold goOn
  dsimp only
  split
  · exact resumeReturn_info _ _ _ _
  · rfl
  · rfl

theorem resume_info (m : SCoMgr) (id : Int) (ssize : Nat) : (m.resume id ssize).info = m.info := by
  unfold resume
  split
  · rfl
  · dsimp only
    split
    · exact release_info _ _
    · exact goOn_info _

theorem finish_info (m : SCoMgr) : m.finish.info = m.info := by
  unfold finish
  split
  · rfl
  · exact goOn_info _

/-- `Yield` writes to the coroutine that it finds running. -/
theorem yield_info (hget : m.getCo m.iRunningID = some x) (expiretime : Int) (ssize : Nat) :
    (m.yield expiretime ssize).info =
      Function.update m.info x { m.info x with tExpireTime := expiretime, isTimeOut := false } := by
  simp only [yield, hget]
  split
  · rfl
  · exact goOn_info _

/-- The slots of a pool that have been given out at some time have kept the id of the last time. -/
structure Ledger (m : SCoMgr) (free used : List Int) : Prop where
  registry : m.Registry free used
  ids : ∀ x : Nat, (x : Int) < m.pool.capacity → 1 ≤ (m.pool.idx x).accumulate →
    (m.info x).iPoolID = m.pool.capacity * (m.pool.idx x).accumulate + x

/-- Some free and used slots fit the state. -/
def Kept (m : SCoMgr) : Prop := ∃ free used, m.Ledger free used

/-- `m'` follows `m` with no slot given out in between. -/
structure Follows (m m' : SCoMgr) : Prop where
  kept : m'.Kept
  capacity : m'.pool.capacity = m.pool.capacity
  accumulate : ∀ i, (m'.pool.idx i).accumulate = (m.pool.idx i).accumulate

theorem Follows.trans (h : m.Follows m') {m'' : SCoMgr} (h' : m'.Follows m'') : m.Follows m'' :=
  ⟨h'.kept, h'.capacity.trans h.capacity, fun i => (h'.accumulate i).trans (h.accumulate i)⟩

theorem Kept.same (h : m.Kept) (hpool : m'.pool = m.pool) (hid : ∀ x, (m'.info x).iPoolID = (m.info x).iPoolID) :
    m.Follows m' := by
  obtain ⟨free, used, ledger⟩ := h
  refine ⟨⟨free, used, ledger.registry.frame hpool hid, ?_⟩, by rw [hpool], fun i => by rw [hpool]⟩
  intro x hx born
  rw [hpool] at hx born ⊢
  rw [hid]
  exact ledger.ids x hx born

theorem Kept.record (h : m.Kept) (entry : MgrLog) : m.Follows (m.record entry) := h.same rfl fun _ => rfl

theorem Kept.release (h : m.Kept) (id : Int) : m.Follows (m.release id).2 := by
  cases hget : m.getCo id with
  | none =>
    rw [release_of_none hget]
    exact h.same rfl fun _ => rfl
  | some x =>
    obtain ⟨free, used, ledger⟩ := h
    obtain ⟨hx, rfl⟩ := ledger.registry.getCo_iff.mp hget
    obtain ⟨before, after, pool', -, heq, registry, hacc, hcap⟩ := ledger.registry.release hx
    rw [heq] at registry ⊢
    refine ⟨⟨_, _, registry, ?_⟩, hcap, hacc⟩
    intro y hy born
    dsimp only at hy born ⊢
    rw [hcap] at hy ⊢
    rw [hacc] at born ⊢
    exact ledger.ids y hy born

theorem Kept.released (h : m.Kept) (id : Int) (entry : MgrLog) : m.Follows ((m.release id).2.record entry) :=
  (h.release id).trans ((h.release id).kept.record entry)

theorem Kept.goOn (h : m.Kept) : m.Follows m.goOn := by
  unfold SCoMgr.goOn
  dsimp only
  split
  next iPoolID pCo _ _ =>
    have back : m.Follows
        { m with iRunningID := 0, frame := Function.update m.frame m.sch.owner none } := h.same rfl fun _ => rfl
    unfold resumeReturn
    dsimp only
    split
    · exact back.trans (back.kept.released _ _)
    · exact back.trans (back.kept.record _)
  next => exact h.same rfl fun _ => rfl
  next => exact h.same rfl fun _ => rfl

theorem Kept.same_goOn (h : m.Kept) (hpool : m'.pool = m.pool)
    (hid : ∀ x, (m'.info x).iPoolID = (m.info x).iPoolID) : m.Follows m'.goOn :=
  (h.same hpool hid).trans (h.same hpool hid).kept.goOn

theorem Kept.resume (h : m.Kept) (id : Int) (ssize : Nat) : m.Follows (m.resume id ssize) := by
  unfold SCoMgr.resume
  split
  · exact h.record _
  · dsimp only
    split
    next ret sch _ =>
      have failed : m.Follows { m with iRunningID := id, sch := sch } := h.same rfl fun _ => rfl
      exact failed.trans (failed.kept.released _ _)
    next => exact h.same_goOn rfl fun _ => rfl

theorem modifyInfo_id (m : SCoMgr) (x y : Nat) {f : CoInfo → CoInfo}
    (hf : (f (m.info x)).iPoolID = (m.info x).iPoolID) :
    ((m.modifyInfo x f).info y).iPoolID = (m.info y).iPoolID := by
  by_cases hyx : y = x
  · subst hyx
    simp [modifyInfo, hf]
  · simp [modifyInfo, Function.update_of_ne hyx]

theorem Kept.yield (h : m.Kept) (expiretime : Int) (ssize : Nat) : m.Follows (m.yield expiretime ssize) := by
  unfold SCoMgr.yield
  split
  · exact h.record _
  next pCo _ =>
    have written : m.Follows (m.modifyInfo pCo fun i => { i with tExpireTime := expiretime, isTimeOut := false }) :=
      h.same rfl fun y => modifyInfo_id m pCo y rfl
    dsimp only
    split
    · exact written.trans (written.kept.same rfl fun _ => rfl)
    · exact written.trans (written.kept.same_goOn rfl fun _ => rfl)

theorem Kept.finish (h : m.Kept) : m.Follows m.finish := by
  unfold SCoMgr.finish
  split
  · exact h.same rfl fun _ => rfl
  · exact h.same_goOn rfl fun _ => rfl

theorem Kept.markTimeOut (h : m.Kept) (x : Nat) : m.Follows (m.markTimeOut x) :=
  h.same rfl fun y => markTimeOut_id m x y

/-- `Alloc` fails and changes nothing, or takes a slot that was free. -/
theorem Ledger.alloc (h : m.Ledger free used) :
    (m.alloc = (-1, m)) ∨
    ∃ (x : Nat) (pool' : TObjPool), (x : Int) ∉ used ∧ (x : Int) < m.pool.capacity ∧
      m.alloc.2 = initCo { m with pool := pool' } m.alloc.1 x ∧ m.alloc.2.getCo m.alloc.1 = some x ∧
      pool'.capacity = m.pool.capacity ∧
      (∀ i, i ≠ (x : Int) → (pool'.idx i).accumulate = (m.pool.idx i).accumulate) ∧
      (pool'.idx x).accumulate = nextGeneration m.pool.capacity (m.pool.idx x).accumulate x ∧
      m.pool.freeHead = x ∧ m.pool.usedCount < m.pool.capacity ∧
      ∃ rest, m.alloc.2.Ledger rest ((x : Int) :: used) := by
  cases free with
  | nil => exact .inl h.registry.alloc_full
  | cons p rest =>
    obtain ⟨x, pool', rfl, heq, registry, hx, hcap, hacc⟩ := h.registry.alloc
    have hfst := congrArg Prod.fst heq
    have hsnd := congrArg Prod.snd heq
    dsimp only at hfst hsnd
    obtain ⟨-, -, -, hinfo, hpool⟩ := initCo_fields { m with pool := pool' } m.alloc.1 x
    rw [← hsnd] at hinfo hpool
    have hrange := ((h.registry.repr.slots x).mp (by simp)).2
    have hlen := h.registry.repr.length_eq
    have hcount := h.registry.repr.usedCount
    have hpos := h.registry.bounds.capacity_pos
    simp only [List.length_cons] at hlen
    refine .inr ⟨x, pool', hx, hrange, hsnd, ?_, hcap, ?_, by rw [hacc, if_pos rfl], h.registry.repr.freeNext.1,
      by omega, rest, registry, ?_⟩
    · refine registry.getCo_iff.mpr ⟨by simp, ?_⟩
      rw [hinfo, Function.update_self]
    · intro i hi
      rw [hacc, if_neg hi]
    · intro y hy born
      by_cases hyx : y = x
      · subst hyx
        exact registry.poolId y (by simp)
      · have hne : (y : Int) ≠ x := fun h => hyx (Int.ofNat.inj h)
        rw [hpool] at hy born ⊢
        dsimp only at hy born ⊢
        rw [hacc, if_neg hne] at born ⊢
        rw [hinfo, Function.update_of_ne hyx, hcap]
        exact h.ids y (by rw [← hcap]; exact hy) born

/-- The id that a free slot has kept is no one's. -/
theorem Ledger.getCo_of_free (h : m.Ledger free used) (hx : (x : Int) ∉ used) (hrange : (x : Int) < m.pool.capacity)
    (born : 1 ≤ (m.pool.idx x).accumulate) : m.getCo (m.info x).iPoolID = none := by
  cases hget : m.getCo (m.info x).iPoolID with
  | none => rfl
  | some y =>
    obtain ⟨hy, hid⟩ := h.registry.getCo_iff.mp hget
    rw [h.ids x hrange born, h.registry.poolId y hy] at hid
    have hyrange := h.registry.repr.used_range hy
    have hmod := congrArg (fun id => id % m.pool.capacity) hid
    rw [handle_emod (by omega) hrange, handle_emod hyrange.1 hyrange.2.1] at hmod
    rw [hmod] at hx
    exact absurd hy hx

/-- A manager as `InitCoMgr` leaves it, with whatever `malloc` has left in the pool. -/
def Created (m : SCoMgr) : Prop := ∃ m₀ info, Initial m₀ ∧ m = { m₀ with info := info }

theorem Initial.created (h : m.Initial) : m.Created := ⟨m, m.info, h, rfl⟩

theorem Created.kept (start : m.Created) :
    m.Kept ∧ ∀ x : Nat, (x : Int) < m.pool.capacity → (m.pool.idx x).accumulate = 0 := by
  obtain ⟨m₀, info, initial, rfl⟩ := start
  obtain ⟨malloc, cap, unit, pool, iStackSize, iMode, firststack, secondstack, hpos, hle, hinit, rfl⟩ := initial
  obtain ⟨hrepr, hbounds, hcap, hacc⟩ := objpoolInit_spec hpos hle hinit
  have unborn : ∀ x : Nat, (x : Int) < pool.capacity → (pool.idx x).accumulate = 0 := by
    intro x hx
    exact hacc x (by omega) (by omega)
  refine ⟨⟨_, [], ⟨hrepr, hbounds, ?_, ?_⟩, ?_⟩, unborn⟩
  · rintro x ⟨⟩
  · rintro x ⟨⟩
  · intro x hx born
    have hzero := unborn x hx
    change 1 ≤ (pool.idx x).accumulate at born
    omega

end SCoMgr

namespace SweepState

variable {s s' : SweepState} {x : Nat}

/-- Every slot that has been given out has the deadline of its last `Yield`, 0 before the first. -/
structure Dated (s : SweepState) : Prop where
  kept : s.mgr.Kept
  date : ∀ x : Nat, (x : Int) < s.mgr.pool.capacity → 1 ≤ (s.mgr.pool.idx x).accumulate →
    (s.mgr.info x).tExpireTime = (s.deadline x).getD 0

theorem create_dated {m : SCoMgr} (start : m.Created) : (create m).Dated := by
  obtain ⟨kept, unborn⟩ := start.kept
  refine ⟨kept, ?_⟩
  intro x hx born
  have hzero := unborn x hx
  change 1 ≤ (m.pool.idx x).accumulate at born
  omega

theorem Dated.follow (h : s.Dated) (follows : s.mgr.Follows s'.mgr)
    (same : ∀ x, (s'.mgr.info x).tExpireTime = (s.mgr.info x).tExpireTime) (deadline : s'.deadline = s.deadline) :
    s'.Dated := by
  refine ⟨follows.kept, ?_⟩
  intro x hx born
  rw [follows.capacity] at hx
  rw [follows.accumulate] at born
  rw [same, deadline]
  exact h.date x hx born

theorem Dated.setSweep (h : s.Dated) (sweep : Option Sweep) : (s.setSweep sweep).Dated := ⟨h.kept, h.date⟩

theorem Dated.resume (h : s.Dated) (iPoolID : Int) (ssize : Nat) : (s.resume iPoolID ssize).Dated :=
  h.follow (h.kept.resume iPoolID ssize) (fun x => by rw [SweepState.resume, SCoMgr.resume_info]) rfl

theorem Dated.markTimeOut (h : s.Dated) (x : Nat) : Dated { s with mgr := s.mgr.markTimeOut x } := by
  refine h.follow (h.kept.markTimeOut x) (fun y => ?_) rfl
  by_cases hyx : y = x
  · subst hyx
    simp [SCoMgr.markTimeOut, SCoMgr.modifyInfo]
  · simp [SCoMgr.markTimeOut, SCoMgr.modifyInfo, Function.update_of_ne hyx]

theorem Dated.examine (h : s.Dated) (tNow : Int) (node : Option ObjPtr) (ssize : Nat) :
    (s.examine tNow node ssize).Dated := by
  unfold SweepState.examine
  split
  · exact h
  · dsimp only
    split
    · exact (h.markTimeOut _).resume _ _
    · exact h

theorem Dated.loop (h : s.Dated) (ssize : Nat) (sweep : Sweep) : (s.loop ssize sweep).Dated := by
  unfold SweepState.loop
  split
  · split
    · exact h.setSweep none
    · exact (h.setSweep _).examine _ _ _
  · exact h.setSweep _
  · split
    · exact (h.setSweep _).examine _ _ _
    · exact h.setSweep none
  · exact ⟨h.kept, h.date⟩

theorem Dated.alloc (h : s.Dated) (alive : s.mgr.sch.lost = false) : s.alloc.Dated := by
  have hstep : s.mgr.step .alloc = s.mgr.alloc.2.record (.allocated s.mgr.alloc.1) := SCoMgr.step_alive alive _
  obtain ⟨free, used, ledger⟩ := h.kept
  rcases ledger.alloc with full | ⟨x, pool', -, -, heq, hget, hcap, hacc, -, -, -, rest, ledger'⟩
  · have hnone : s.mgr.getCo (-1) = none := by
      cases hget : s.mgr.getCo (-1) with
      | none => rfl
      | some y =>
        obtain ⟨hy, hid⟩ := ledger.registry.getCo_iff.mp hget
        have hpos := ledger.registry.id_pos hy
        omega
    rw [full] at hstep
    simp only [SweepState.alloc, hstep, full, hnone]
    exact h.follow (h.kept.record _) (fun _ => rfl) rfl
  · simp only [SweepState.alloc, hstep, hget]
    refine ⟨(SCoMgr.Kept.record ⟨rest, _, ledger'⟩ _).kept, ?_⟩
    obtain ⟨-, -, -, hinfo, hpool⟩ := SCoMgr.initCo_fields { s.mgr with pool := pool' } s.mgr.alloc.1 x
    rw [← heq] at hinfo hpool
    intro y hy born
    change (y : Int) < s.mgr.alloc.2.pool.capacity at hy
    change 1 ≤ (s.mgr.alloc.2.pool.idx y).accumulate at born
    change (s.mgr.alloc.2.info y).tExpireTime = _
    by_cases hyx : y = x
    · subst hyx
      simp [hinfo]
    · have hne : (y : Int) ≠ x := fun h => hyx (Int.ofNat.inj h)
      rw [hpool] at hy born
      dsimp only at hy born
      rw [hcap] at hy
      rw [hacc _ hne] at born
      simp only [hinfo, Function.update_of_ne hyx]
      exact h.date y hy born

theorem Dated.yield (h : s.Dated) (alive : s.mgr.sch.lost = false) (expiretime : Int) (ssize : Nat) :
    (s.yield expiretime ssize).Dated := by
  have hstep : s.mgr.step (.yield expiretime ssize) = s.mgr.yield expiretime ssize := SCoMgr.step_alive alive _
  have follows := h.kept.yield expiretime ssize
  cases hget : s.mgr.getCo s.mgr.iRunningID with
  | none =>
    simp only [SweepState.yield, hstep, hget]
    refine h.follow follows (fun x => ?_) rfl
    rw [SCoMgr.yield_of_none hget]
    rfl
  | some x =>
    simp only [SweepState.yield, hstep, hget]
    refine ⟨follows.kept, ?_⟩
    intro y hy born
    rw [follows.capacity] at hy
    rw [follows.accumulate] at born
    simp only [SCoMgr.yield_info hget]
    by_cases hyx : y = x
    · subst hyx
      simp
    · simp only [Function.update_of_ne hyx]
      exact h.date y hy born

theorem Dated.step (h : s.Dated) (e : SweepEvent) : (s.step e).Dated := by
  unfold SweepState.step
  cases alive : s.mgr.sch.lost with
  | true => exact h
  | false =>
    simp only [Bool.false_eq_true, if_false]
    split
    · exact h.loop _ _
    · exact h
    · exact h.alloc alive
    · exact h.resume _ _
    · exact h.yield alive _ _
    · rw [SCoMgr.step_alive alive]
      exact h.follow h.kept.finish (fun x => by rw [SCoMgr.finish_info]) rfl
    next _ iPoolID _ =>
      rw [SCoMgr.step_alive alive]
      refine h.follow (h.kept.released _ _) (fun x => ?_) rfl
      change ((s.mgr.release iPoolID).2.info x).tExpireTime = _
      rw [SCoMgr.release_info]
    · exact h.setSweep _
    · exact ⟨h.kept, h.date⟩
    · exact h

end SweepState

/-- The manager in use after the first `k` events. -/
def sweepAt (m : SCoMgr) (events : List SweepEvent) (k : Nat) : SweepState :=
  stateAt SweepState.step (.create m) events k

theorem sweepAt_dated {m : SCoMgr} (start : m.Created) (events : List SweepEvent) (k : Nat) :
    (sweepAt m events k).Dated :=
  stateAt_induct (SweepState.create_dated start) (fun _ e _ h => h.step e) k

end Wddlib
