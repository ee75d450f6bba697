import Wddlib.LiteTimerRun

namespace Wddlib

/-- A pool whose used slots have all been through an allocation. -/
def BornPool (pool : TObjPool) : Prop :=
  ∃ free used, PoolRepr pool free used ∧ PoolBounds pool ∧ ∀ p ∈ used, 1 ≤ (pool.idx p).accumulate

theorem BornPool.call {pool : TObjPool} (h : BornPool pool) (c : PoolCall) : BornPool (c.apply pool).2 := by
  obtain ⟨free, used, hrepr, hbounds, born⟩ := h
  obtain ⟨x, rest, pool', -, rfl, hrepr', hbounds', -, heq, hacc⟩ |
    ⟨p, before, after, pool', -, rfl, hrepr', hbounds', -, heq, hacc⟩ | ⟨code, -, heq⟩ :=
    poolCall_cases hrepr hbounds c
  · rw [heq]
    refine ⟨rest, x :: used, hrepr', hbounds', ?_⟩
    obtain ⟨hx0, hxc⟩ := (hrepr.slots x).mp (by simp)
    have hgen := nextGeneration_bounds hbounds.capacity_pos hbounds.capacity_le hxc (hbounds.generation x hx0 hxc).1
    intro p hp
    rw [hacc]
    split
    · exact hgen.1
    next hne => exact born p ((List.mem_cons.mp hp).resolve_left hne)
  · rw [heq]
    refine ⟨free ++ [p], before ++ after, hrepr', hbounds', ?_⟩
    intro q hq
    rw [hacc]
    refine born q ?_
    rcases List.mem_append.mp hq with hq | hq
    · exact List.mem_append.mpr (.inl hq)
    · exact List.mem_append.mpr (.inr (List.mem_cons_of_mem _ hq))
  · rw [heq]
    exact ⟨free, used, hrepr, hbounds, born⟩

/-- Handles start at the capacity. -/
theorem BornPool.get_zero {pool : TObjPool} (h : BornPool pool) : objpoolGet pool 0 = none := by
  obtain ⟨free, used, hrepr, hbounds, born⟩ := h
  refine objpoolGet_of_not_handle hrepr hbounds ?_
  rintro ⟨hmem, hid⟩
  have hpos := hbounds.capacity_pos
  have hborn := born _ hmem
  obtain ⟨hp0, -⟩ := hrepr.used_range hmem
  nlinarith

section Pool

variable {β : Type} {mgr : LiteTimerMgr β} {pool : Option TObjPool}

theorem setTimerIdxById_pool (mgr : LiteTimerMgr β) (id idx : Int) :
    (mgr.setTimerIdxById id idx).2.timerArgPool = mgr.timerArgPool := by
  unfold LiteTimerMgr.setTimerIdxById
  split
  · rfl
  · split <;> rfl

theorem assign_pool (mgr : LiteTimerMgr β) (i : Nat) (elem : LiteTimer) (h : mgr.timerArgPool = pool) :
    (LiteTimerMgr.cells.assign mgr i elem).timerArgPool = pool :=
  (setTimerIdxById_pool _ _ _).trans h

theorem pushHeap_pool (h : mgr.timerArgPool = pool) (last : Nat) :
    (pushHeap LiteTimerMgr.cells LiteTimer.less mgr last).timerArgPool = pool :=
  pushHeap_keeps assign_pool h last

theorem popHeap_pool (h : mgr.timerArgPool = pool) (last : Nat) :
    (popHeap LiteTimerMgr.cells LiteTimer.less mgr last).timerArgPool = pool :=
  popHeap_keeps assign_pool h last

theorem startTimerById_pool (mgr : LiteTimerMgr β) (id t : Int) :
    (mgr.startTimerById id t).2.timerArgPool = mgr.timerArgPool :=
  pushHeap_pool (setTimerIdxById_pool _ _ _) _

theorem moveToBack_pool (mgr : LiteTimerMgr β) (idx : Int) :
    (mgr.moveToBack idx).timerArgPool = mgr.timerArgPool :=
  popHeap_pool (pushHeap_pool rfl _) _

theorem updateTimerById_pool (mgr : LiteTimerMgr β) (id t : Int) :
    (mgr.updateTimerById id t).2.timerArgPool = mgr.timerArgPool := by
  unfold LiteTimerMgr.updateTimerById
  dsimp only
  split
  · rfl
  · refine pushHeap_pool ?_ _
    exact moveToBack_pool mgr _

theorem stopTimerById_pool (mgr : LiteTimerMgr β) (id : Int) :
    (mgr.stopTimerById id).2.timerArgPool = mgr.timerArgPool := by
  unfold LiteTimerMgr.stopTimerById
  dsimp only
  split
  · rfl
  · exact moveToBack_pool _ _

theorem tickOneExpireTimerId_pool (mgr : LiteTimerMgr β) (now : Int) :
    (mgr.tickOneExpireTimerId now).2.timerArgPool = mgr.timerArgPool := by
  unfold LiteTimerMgr.tickOneExpireTimerId
  split
  · exact popHeap_pool rfl _
  · rfl

/-- What an operation does to the pool is one call or nothing. -/
theorem TimerOp.pool_eq {pool : TObjPool} (h : mgr.timerArgPool = some pool) (op : TimerOp β) :
    (op.apply mgr).2.2.timerArgPool = some pool ∨
      ∃ c : PoolCall, (op.apply mgr).2.2.timerArgPool = some (c.apply pool).2 := by
  cases op with
  | startTimer t buf =>
    simp only [TimerOp.apply, LiteTimerMgr.startTimer, h]
    split
    · exact .inl h
    · refine .inr ⟨.alloc, ?_⟩
      split
      · rfl
      · split
        · rfl
        · split <;> exact startTimerById_pool _ _ _
  | updateTimer id t =>
    refine .inl ?_
    simp only [TimerOp.apply, LiteTimerMgr.updateTimer]
    split
    · exact h
    · split <;> exact (updateTimerById_pool mgr id t).trans h
  | stopTimer id =>
    have hpool := (stopTimerById_pool mgr id).trans h
    simp only [TimerOp.apply, LiteTimerMgr.stopTimer, h]
    split
    · exact .inl hpool
    · refine .inr ⟨.free id, ?_⟩
      simp only [hpool, Option.map_some, PoolCall.apply]
  | tickOneExpireTimer now arg =>
    have hpool := (tickOneExpireTimerId_pool mgr now).trans h
    simp only [TimerOp.apply, LiteTimerMgr.tickOneExpireTimer, h]
    split
    · exact .inl hpool
    · split
      · exact .inl hpool
      · refine .inr ⟨.free (mgr.tickOneExpireTimerId now).1, ?_⟩
        simp only [hpool, Option.map_some, PoolCall.apply]

end Pool

section Handle

variable {β : Type} {mgr : LiteTimerMgr β}

def LiteTimerMgr.Pooled (mgr : LiteTimerMgr β) : Prop := ∃ pool, mgr.timerArgPool = some pool ∧ BornPool pool

theorem LiteTimerMgr.Pooled.step (h : mgr.Pooled) (op : TimerOp β) : (op.apply mgr).2.2.Pooled := by
  obtain ⟨pool, hpool, born⟩ := h
  rcases TimerOp.pool_eq hpool op with same | ⟨c, called⟩
  · exact ⟨pool, same, born⟩
  · exact ⟨_, called, born.call c⟩

theorem LiteTimerMgr.Pooled.run (h : mgr.Pooled) (ops : List (TimerOp β)) : (timerRun mgr ops).Pooled := by
  induction ops generalizing mgr with
  | nil => exact h
  | cons op ops ih => exact ih (h.step op)

theorem LiteTimerMgr.Pooled.stop_zero (h : mgr.Pooled) : mgr.stopTimer 0 = (-2, mgr) := by
  obtain ⟨pool, hpool, born⟩ := h
  have hidx : mgr.getTimerIdxByID 0 = -2 := by
    simp only [LiteTimerMgr.getTimerIdxByID, hpool, born.get_zero]
  simp [LiteTimerMgr.stopTimer, LiteTimerMgr.stopTimerById, hpool, hidx]

theorem LiteTimerMgr.Pooled.update_zero (h : mgr.Pooled) (t : Int) :
    (mgr.updateTimer 0 t).1 < 0 ∧ (mgr.updateTimer 0 t).2 = mgr := by
  obtain ⟨pool, hpool, born⟩ := h
  have hidx : mgr.getTimerIdxByID 0 = -2 := by
    simp only [LiteTimerMgr.getTimerIdxByID, hpool, born.get_zero]
  unfold LiteTimerMgr.updateTimer
  split
  · simp
  · simp [LiteTimerMgr.updateTimerById, hidx]

theorem startTimer_ret (mgr : LiteTimerMgr β) (t : Int) (buf : β) :
    (mgr.startTimer t buf).1 < 0 ∨ (mgr.startTimer t buf).1 = 0 := by
  unfold LiteTimerMgr.startTimer
  split
  · simp
  · dsimp only
    split
    · simp
    · split
      · simp
      · split
        · simp
        · split <;> simp

/-- Whatever `StartTimer` returns on success is 0, which names no timer, then or later: `StopTimer` and
`UpdateTimer` fail on it and change nothing. -/
theorem startTimer_result_unusable {malloc : Nat → Bool} {cap argSize : Nat} {args : Int → TTimerArg β}
    {mgr₀ : LiteTimerMgr β} (hpos : 1 ≤ cap) (hle : cap ≤ 1073741824)
    (hinit : (LiteTimerMgr.create args).initTimerMgr malloc cap argSize = (0, mgr₀)) (ops : List (TimerOp β))
    (t : Int) (buf : β) {r : Int} (started : ((timerRun mgr₀ ops).startTimer t buf).1 = r) (success : 0 ≤ r)
    (later : List (TimerOp β)) :
    let mgr := timerRun ((timerRun mgr₀ ops).startTimer t buf).2 later
    mgr.stopTimer r = (-2, mgr) ∧ ∀ t', (mgr.updateTimer r t').1 < 0 ∧ (mgr.updateTimer r t').2 = mgr := by
  have pooled₀ : mgr₀.Pooled := by
    obtain ⟨pool, free, -, inv⟩ := initTimerMgr_inv hpos hle hinit
    exact ⟨pool, inv.cells.argPool, free, [], inv.repr, inv.bounds, by simp⟩
  have pooled : (timerRun ((timerRun mgr₀ ops).startTimer t buf).2 later).Pooled :=
    ((pooled₀.run ops).step (.startTimer t buf)).run later
  have hzero : r = 0 := by
    rcases startTimer_ret (timerRun mgr₀ ops) t buf with failed | zero
    · omega
    · omega
  subst hzero
  exact ⟨pooled.stop_zero, pooled.update_zero⟩

end Handle

theorem startTimer_result_unusable_later :
    ∃ mgr₀, (LiteTimerMgr.create fun _ => ⟨0, 0⟩).initTimerMgr (fun _ => true) 3 8 = (0, mgr₀) ∧
      let mgr := timerRun ((timerRun mgr₀ ([.startTimer 9 1] : List (TimerOp Nat))).startTimer 5 2).2 [.stopTimer 3]
      mgr.getActiveCount = 1 ∧ mgr.stopTimer 0 = (-2, mgr) := by
  refine ⟨_, rfl, by decide +kernel, ?_⟩
  exact (@startTimer_result_unusable Nat (fun _ => true) 3 8 (fun _ => ⟨0, 0⟩) _ (by decide) (by decide) rfl
    [.startTimer 9 1] 5 2 0 (by decide +kernel) (by decide) [.stopTimer 3]).1

/-- A timer has been started and nothing else has happened; what was returned stops and moves nothing. -/
theorem startTimer_result_refused :
    ∃ mgr₀, (LiteTimerMgr.create fun _ => ⟨0, 0⟩).initTimerMgr (fun _ => true) 3 8 = (0, mgr₀) ∧
      (LiteTimerMgr.startTimer mgr₀ 5 (1 : Nat)).1 = 0 ∧
      (LiteTimerMgr.startTimer mgr₀ 5 (1 : Nat)).2.timerHeap.map LiteTimer.payload = [(3, 5)] ∧
      ((LiteTimerMgr.startTimer mgr₀ 5 (1 : Nat)).2.stopTimer 0).1 = -2 ∧
      ((LiteTimerMgr.startTimer mgr₀ 5 (1 : Nat)).2.updateTimer 0 7).1 = -2 := by
  exact ⟨_, rfl, by decide +kernel, by decide +kernel, by decide +kernel, by decide +kernel⟩

end Wddlib
