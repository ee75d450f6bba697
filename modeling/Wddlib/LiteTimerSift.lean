import Wddlib.LiteTimer
import Mathlib.Tactic.Common

namespace Wddlib

/-- What `LiteTimer::operator =` copies. -/
def LiteTimer.payload (t : LiteTimer) : Int × Int := (t.id, t.expireTime)

theorem LiteTimer.less_iff (x y : LiteTimer) : x.less y = true ↔ y.payload.2 < x.payload.2 := by
  simp [LiteTimer.less, LiteTimer.payload]

theorem objpoolGet_slot {pool : TObjPool} {id : Int} {p : ObjPtr} (h : objpoolGet pool id = some p) :
    p = pool.objAt (id.tmod pool.capacity) := by
  simp only [objpoolGet] at h
  split at h
  next => simp at h
  next =>
    split at h
    next => simp at h
    next =>
      split at h
      next => simp at h
      next => exact (Option.some.inj h).symm

/-- The heap and the argument objects agree with the array `a` of ids and expire times at the
positions that are `placed`. The ids of `a` are live and in pairwise different slots. -/
structure TimerCells {β : Type} (pool : TObjPool) (n : Nat) (bufs : Int → β) (placed : Nat → Prop)
    (mgr : LiteTimerMgr β) (a : Nat → Int × Int) : Prop where
  size : mgr.timerHeap.length = n
  argPool : mgr.timerArgPool = some pool
  buf : ∀ slot, (mgr.args slot).buf = bufs slot
  index : ∀ i, i < n → (mgr.timerAt i).timerIdx = i
  live : ∀ i, i < n → objpoolGet pool (a i).1 ≠ none
  apart : ∀ i j, i < n → j < n → i ≠ j → (a i).1.tmod pool.capacity ≠ (a j).1.tmod pool.capacity
  cell : ∀ i, i < n → placed i → (mgr.timerAt i).payload = a i
  back : ∀ i, i < n → placed i → (mgr.args ((a i).1.tmod pool.capacity)).timerIdx = i

section Assign

variable {β : Type} {pool : TObjPool} {mgr : LiteTimerMgr β}

theorem timerAt_set (mgr : LiteTimerMgr β) {i : Nat} (hi : i < mgr.timerHeap.length) (t : LiteTimer) (j : Nat) :
    ({ mgr with timerHeap := mgr.timerHeap.set i t } : LiteTimerMgr β).timerAt j =
      if j = i then t else mgr.timerAt j := by
  simp only [LiteTimerMgr.timerAt, List.getD_eq_getElem?_getD, List.getElem?_set]
  by_cases h : i = j
  · subst h
    simp [hi]
  · simp [h, Ne.symm h]

theorem setTimerIdxById_live (mgr : LiteTimerMgr β) (hpool : mgr.timerArgPool = some pool) {id : Int}
    (live : objpoolGet pool id ≠ none) (idx : Int) :
    mgr.setTimerIdxById id idx =
      (0, { mgr with
        args := Function.update mgr.args (id.tmod pool.capacity)
          ⟨idx, (mgr.args (id.tmod pool.capacity)).buf⟩ }) := by
  obtain ⟨p, hp⟩ := Option.ne_none_iff_exists'.mp live
  simp only [LiteTimerMgr.setTimerIdxById, hpool, hp]
  rw [objpoolGet_slot hp]
  rfl

/-- Everything an assignment to a heap cell changes. -/
theorem assignTimer_fields {i : Nat} (hpool : mgr.timerArgPool = some pool)
    (hi : i < mgr.timerHeap.length) {v : LiteTimer} (live : objpoolGet pool v.id ≠ none) :
    (mgr.assignTimer i v).timerHeap.length = mgr.timerHeap.length ∧
      (mgr.assignTimer i v).timerArgPool = some pool ∧
      (∀ j, (mgr.assignTimer i v).timerAt j =
        if j = i then { mgr.timerAt i with id := v.id, expireTime := v.expireTime } else mgr.timerAt j) ∧
      (∀ slot, ((mgr.assignTimer i v).args slot).buf = (mgr.args slot).buf) ∧
      ∀ slot, ((mgr.assignTimer i v).args slot).timerIdx =
        if slot = v.id.tmod pool.capacity then (mgr.timerAt i).timerIdx else (mgr.args slot).timerIdx := by
  simp only [LiteTimerMgr.assignTimer]
  rw [setTimerIdxById_live _ (by exact hpool) live]
  refine ⟨by simp, hpool, ?_, ?_, ?_⟩
  · exact timerAt_set mgr hi _
  · intro slot
    by_cases hs : slot = v.id.tmod pool.capacity
    · subst hs
      simp
    · simp [hs]
  · intro slot
    by_cases hs : slot = v.id.tmod pool.capacity
    · subst hs
      simp
    · simp [hs]

end Assign

section Rule

variable {β : Type} {pool : TObjPool} {n hole i : Nat} {bufs : Int → β} {mgr : LiteTimerMgr β}
  {a : Nat → Int × Int} {v : LiteTimer}

/-- Overwriting the hole with the element of position `i`, or with the element that belongs into
the hole (`i = hole`): afterwards the hole is at `i`, or filled. -/
theorem TimerCells.assign {placed : Nat → Prop} (h : TimerCells pool n bufs placed mgr a)
    (placed' : Nat → Prop) (hn : hole < n) (hi : i < n) (hv : v.payload = a i)
    (old : ∀ j, placed' j → j ≠ hole → placed j ∧ j ≠ i) :
    TimerCells pool n bufs placed' (mgr.assignTimer hole v) (a ∘ Equiv.swap hole i) := by
  have hid : v.id = (a i).1 := congrArg Prod.fst hv
  have hlive : objpoolGet pool v.id ≠ none := by
    rw [hid]
    exact h.live i hi
  obtain ⟨hsize, hpool, htimer, hbuf, hback⟩ :=
    assignTimer_fields h.argPool (by rw [h.size]; exact hn) hlive
  have swap_lt : ∀ j, j < n → Equiv.swap hole i j < n := by
    intro j hj
    rw [Equiv.swap_apply_def]
    split
    next => exact hi
    next =>
      split
      next => exact hn
      next => exact hj
  refine ⟨hsize.trans h.size, hpool, fun slot => (hbuf slot).trans (h.buf slot), ?_, ?_, ?_, ?_, ?_⟩
  · intro j hj
    rw [htimer]
    split
    next he => rw [he]; exact h.index hole hn
    next => exact h.index j hj
  · intro j hj
    exact h.live _ (swap_lt j hj)
  · intro j k hj hk hjk
    exact h.apart _ _ (swap_lt j hj) (swap_lt k hk) (fun e => hjk ((Equiv.swap hole i).injective e))
  · intro j hj hp
    rw [htimer]
    by_cases hjh : j = hole
    · subst hjh
      simp only [if_true, Function.comp_apply, Equiv.swap_apply_left]
      exact hv
    · obtain ⟨hpj, hji⟩ := old j hp hjh
      simp only [hjh, if_false, Function.comp_apply, Equiv.swap_apply_of_ne_of_ne hjh hji]
      exact h.cell j hj hpj
  · intro j hj hp
    rw [hback, hid]
    by_cases hjh : j = hole
    · subst hjh
      simp only [Function.comp_apply, Equiv.swap_apply_left, if_true]
      exact h.index j hj
    · obtain ⟨hpj, hji⟩ := old j hp hjh
      simp only [Function.comp_apply, Equiv.swap_apply_of_ne_of_ne hjh hji,
        if_neg (h.apart j i hj hi hji)]
      exact h.back j hj hpj

/-- The standard heap algorithms keep the back-pointers, because they move timers through
`operator =` only. -/
theorem timerCells_rule (pool : TObjPool) (n : Nat) (bufs : Int → β) :
    HoleRule LiteTimerMgr.cells LiteTimer.payload n
      (fun mgr hole a => TimerCells pool n bufs (· ≠ hole) mgr a)
      (fun mgr a => TimerCells pool n bufs (fun _ => True) mgr a) where
  view h hi hne := h.cell _ hi hne
  move h hn hi hne := h.assign _ hn hi (h.cell _ hi hne) (fun _ hj hjh => ⟨hjh, hj⟩)
  fill h hn hv := by
    have hfilled := h.assign (fun _ => True) hn hn hv (fun _ _ hjh => ⟨hjh, hjh⟩)
    rw [Equiv.swap_self] at hfilled
    exact hfilled
  lift h _ := { h with
    cell := fun i hi _ => h.cell i hi trivial
    back := fun i hi _ => h.back i hi trivial }
  see h hi := h.cell _ hi trivial

end Rule

end Wddlib
