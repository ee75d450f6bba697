import Wddlib.LiteTimerRun
import Wddlib.RunPrefix

namespace Wddlib

variable {β : Type}

/-- Timer `id` gets the expire time `key`, or goes if there is none, in the heap and in the pool; the
other timers keep theirs, and every timer keeps its data. -/
structure Rekeyed (mgr mgr' : LiteTimerMgr β) (id : Int) (key : Option Int) : Prop where
  heap : ∀ id' t, (id', t) ∈ mgr'.timerHeap.map LiteTimer.payload ↔
    if id' = id then key = some t else (id', t) ∈ mgr.timerHeap.map LiteTimer.payload
  once : (mgr'.timerHeap.map LiteTimer.id).Nodup
  pool : ∀ id', (mgr'.getTimerArg id').isSome =
    if id' = id then key.isSome else (mgr.getTimerArg id').isSome
  data : mgr'.timerMap =
    Function.update mgr.timerMap id (key.bind fun t => (mgr.timerMap id).map fun e => (t, e.2))

/-- A call on a live id acts on the timer with that id and on no other. -/
def TimerOp.Hits (mgr : LiteTimerMgr β) : TimerOp β → Prop
  | .startTimer _ _ => True
  | .updateTimer id t => (mgr.getTimerArg id).isSome → t ≠ 0 →
    (mgr.updateTimer id t).1 = 0 ∧ Rekeyed mgr (mgr.updateTimer id t).2 id (some t)
  | .stopTimer id => (mgr.getTimerArg id).isSome →
    (mgr.stopTimer id).1 = 0 ∧ Rekeyed mgr (mgr.stopTimer id).2 id none
  | .tickOneExpireTimer _ _ => True

/-- The timer is at the root of the heap, or the root expires at a positive time. -/
def LiteTimerMgr.Reaches (mgr : LiteTimerMgr β) (id : Int) : Prop :=
  mgr.getTimerIdxByID id = 0 ∨ 0 < (mgr.timerAt 0).expireTime

def TimerOp.Reaches (mgr : LiteTimerMgr β) : TimerOp β → Prop
  | .startTimer _ _ => True
  | .updateTimer id t => (mgr.getTimerArg id).isSome → t ≠ 0 → mgr.Reaches id
  | .stopTimer id => (mgr.getTimerArg id).isSome → mgr.Reaches id
  | .tickOneExpireTimer _ _ => True

instance decidableReaches (mgr : LiteTimerMgr β) (op : TimerOp β) : Decidable (op.Reaches mgr) :=
  match op with
  | .startTimer _ _ => .isTrue trivial
  | .updateTimer id t => inferInstanceAs (Decidable ((mgr.getTimerArg id).isSome → t ≠ 0 →
      mgr.getTimerIdxByID id = 0 ∨ 0 < (mgr.timerAt 0).expireTime))
  | .stopTimer id => inferInstanceAs (Decidable ((mgr.getTimerArg id).isSome →
      mgr.getTimerIdxByID id = 0 ∨ 0 < (mgr.timerAt 0).expireTime))
  | .tickOneExpireTimer _ _ => .isTrue trivial

/-- Heap and pool agree; nothing is said about the expire times. -/
def LiteTimerMgr.InSync (mgr : LiteTimerMgr β) : Prop :=
  ∃ (pool : TObjPool) (free used : List Int) (a : Nat → Int × Int), TimerSync mgr pool free used a

section Sync

variable {pool pool' : TObjPool} {free used free' used' : List Int} {mgr mgr' : LiteTimerMgr β}
  {a b : Nat → Int × Int} {i : Nat} {id t : Int}

theorem TimerSync.mem_heap (h : TimerSync mgr pool free used a) (id t : Int) :
    (id, t) ∈ mgr.timerHeap.map LiteTimer.payload ↔ ∃ buf, mgr.timerMap id = some (t, buf) := by
  rw [h.cells.mem_payloads]
  constructor
  · intro held
    exact ⟨_, (h.cells.timerMap_eq_some _).mpr ⟨held, rfl⟩⟩
  · rintro ⟨buf, entry⟩
    exact ((h.cells.timerMap_eq_some buf).mp entry).1

theorem TimerSync.getTimerArg_eq (h : TimerSync mgr pool free used a) (id : Int) :
    mgr.getTimerArg id = objpoolGet pool id := by
  simp [LiteTimerMgr.getTimerArg, h.cells.argPool]

theorem TimerSync.isSome_getTimerArg (h : TimerSync mgr pool free used a) (id : Int) :
    (mgr.getTimerArg id).isSome = (mgr.timerMap id).isSome := by
  rw [h.getTimerArg_eq, Bool.eq_iff_iff, Option.isSome_iff_ne_none, Option.isSome_iff_ne_none, ne_eq, ne_eq,
    h.timerMap_eq_none]

/-- What the map shows of a change is what happens in the heap and in the pool. -/
theorem TimerSync.rekeyed (h : TimerSync mgr pool free used a) (h' : TimerSync mgr' pool' free' used' b)
    {key : Option Int} {entry : Int × β} (active : mgr.timerMap id = some entry)
    (hmap : mgr'.timerMap = Function.update mgr.timerMap id (key.map fun t => (t, entry.2))) :
    Rekeyed mgr mgr' id key := by
  refine ⟨?_, h'.cells.ids_nodup, ?_, ?_⟩
  · intro id' t
    rw [h'.mem_heap, h.mem_heap, hmap]
    by_cases same : id' = id
    · subst same
      cases key <;> simp
    · simp [same]
  · intro id'
    rw [h'.isSome_getTimerArg, h.isSome_getTimerArg, hmap]
    by_cases same : id' = id
    · subst same
      simp
    · simp [same]
  · rw [hmap, active]
    cases key <;> rfl

theorem TimerSync.reaches_iff (h : TimerSync mgr pool free used a) (hi : i < used.length) :
    mgr.Reaches (a i).1 ↔ i = 0 ∨ 0 < (a 0).2 := by
  have root : (mgr.timerAt 0).expireTime = (a 0).2 :=
    congrArg Prod.snd (h.cells.cell 0 (by omega) trivial)
  rw [LiteTimerMgr.Reaches, h.cells.getTimerIdxByID hi, root]
  simp

/-- A timer that is not reached is still in the heap, keyed to 0, behind the move. -/
theorem TimerSync.moveToBack_keeps (h : TimerSync mgr pool free used a) (hi : i < used.length)
    (missed : ¬ (i = 0 ∨ 0 < (a 0).2)) :
    ∃ b, TimerCells pool used.length (fun slot => (mgr.args slot).buf) (fun _ => True) (mgr.moveToBack i) b ∧
      ∃ j, j < used.length - 1 ∧ b j = ((a i).1, 0) := by
  obtain ⟨b, cells, perm, last⟩ := moveToBack_misses h.cells hi (by omega) (by omega)
  obtain ⟨j, hj, hbj⟩ := (perm.mem_iff ((a i).1, 0)).mpr ⟨i, hi, Function.update_self _ _ _⟩
  refine ⟨b, cells, j, ?_, hbj⟩
  by_contra hlast
  obtain rfl : j = used.length - 1 := by omega
  rw [last] at hbj
  have same := h.cells.id_inj (show 0 < used.length by omega) hi (by rw [hbj])
  omega

theorem stopTimer_hits_iff (h : TimerSync mgr pool free used a) (hi : i < used.length) :
    ((mgr.stopTimer (a i).1).1 = 0 ∧ Rekeyed mgr (mgr.stopTimer (a i).1).2 (a i).1 none) ↔
      i = 0 ∨ 0 < (a 0).2 := by
  constructor
  · rintro ⟨-, only⟩
    by_contra missed
    obtain ⟨b, cells, j, hj, hbj⟩ := h.moveToBack_keeps hi missed
    rw [h.stopTimer_eq hi cells] at only
    have held : ((a i).1, 0) ∈ (mgr.moveToBack i).popBack.timerHeap.map LiteTimer.payload :=
      (cells.pop.mem_payloads _).mpr ⟨j, hj, hbj⟩
    have gone := (only.heap (a i).1 0).mp held
    simp at gone
  · intro hits
    obtain ⟨mgr', pool', free', used', b, heq, -, sync, hmap⟩ := stopTimer_live h hi hits
    have active := (h.cells.timerMap_eq_some _).mpr ⟨⟨i, hi, rfl⟩, rfl⟩
    rw [heq]
    exact ⟨rfl, h.rekeyed sync active hmap⟩

theorem updateTimer_hits_iff (h : TimerSync mgr pool free used a) (hi : i < used.length) (ht : t ≠ 0) :
    ((mgr.updateTimer (a i).1 t).1 = 0 ∧ Rekeyed mgr (mgr.updateTimer (a i).1 t).2 (a i).1 (some t)) ↔
      i = 0 ∨ 0 < (a 0).2 := by
  constructor
  · rintro ⟨-, only⟩
    by_contra missed
    obtain ⟨b, cells, j, hj, hbj⟩ := h.moveToBack_keeps hi missed
    rw [h.updateTimer_eq hi ht cells] at only
    have rekeyed := cells.setExpire (show used.length - 1 < used.length by omega) t
    obtain ⟨b', cells', perm, -⟩ := pushHeap_rule (timerCells_rule pool used.length _)
      LiteTimer.less_iff (Nat.le_refl _) (show 0 < used.length by omega) (Nat.le_refl _) rekeyed
    have kept : ∃ k, k < used.length ∧ b' k = ((a i).1, 0) := by
      rw [perm.mem_iff]
      exact ⟨j, by omega, by rw [Function.update_of_ne (by omega), hbj]⟩
    have keyed := (only.heap (a i).1 0).mp ((cells'.mem_payloads _).mpr kept)
    simp only [if_true, Option.some.injEq] at keyed
    exact ht keyed
  · intro hits
    obtain ⟨mgr', b, heq, sync, hmap⟩ := updateTimer_live h hi hits ht
    have active := (h.cells.timerMap_eq_some _).mpr ⟨⟨i, hi, rfl⟩, rfl⟩
    rw [heq]
    exact ⟨rfl, h.rekeyed sync active hmap⟩

/-- A live id is the id of a timer of the heap. -/
theorem TimerSync.exists_index (h : TimerSync mgr pool free used a) (live : (mgr.getTimerArg id).isSome) :
    ∃ i, i < used.length ∧ (a i).1 = id := by
  rw [h.getTimerArg_eq, Option.isSome_iff_ne_none] at live
  exact (h.mem_iff_live id).mpr live

end Sync

section Step

variable {mgr : LiteTimerMgr β} {op : TimerOp β}

theorem LiteTimerMgr.InSync.hits_iff (h : mgr.InSync) (op : TimerOp β) : op.Hits mgr ↔ op.Reaches mgr := by
  obtain ⟨pool, free, used, a, sync⟩ := h
  cases op with
  | startTimer t buf => exact Iff.rfl
  | tickOneExpireTimer now arg => exact Iff.rfl
  | stopTimer id =>
    refine forall_congr' fun live => ?_
    obtain ⟨i, hi, rfl⟩ := sync.exists_index live
    rw [sync.reaches_iff hi]
    exact stopTimer_hits_iff sync hi
  | updateTimer id t =>
    refine forall_congr' fun live => forall_congr' fun ht => ?_
    obtain ⟨i, hi, rfl⟩ := sync.exists_index live
    rw [sync.reaches_iff hi]
    exact updateTimer_hits_iff sync hi ht

theorem LiteTimerMgr.InSync.start (h : mgr.InSync) (t : Int) (buf : β) : (mgr.startTimer t buf).2.InSync := by
  obtain ⟨pool, free, used, a, sync⟩ := h
  by_cases ht : t = 0
  · have rejected : mgr.startTimer t buf = (-1, mgr) := by
      simp [LiteTimerMgr.startTimer, sync.cells.argPool, ht]
    rw [rejected]
    exact ⟨pool, free, used, a, sync⟩
  · cases free with
    | nil =>
      rw [startTimer_full sync ht buf]
      exact ⟨pool, [], used, a, sync⟩
    | cons x rest =>
      obtain ⟨id, mgr', pool', b, heq, -, -, -, sync', -⟩ := startTimer_room sync ht buf
      rw [heq]
      exact ⟨pool', rest, _, b, sync'⟩

theorem LiteTimerMgr.InSync.stop (h : mgr.InSync) {id : Int} (reaches : (TimerOp.stopTimer id).Reaches mgr) :
    (mgr.stopTimer id).2.InSync := by
  obtain ⟨pool, free, used, a, sync⟩ := h
  by_cases live : (mgr.getTimerArg id).isSome
  · have reached : mgr.Reaches id := reaches live
    obtain ⟨i, hi, rfl⟩ := sync.exists_index live
    obtain ⟨mgr', pool', free', used', b, heq, -, sync', -⟩ :=
      stopTimer_live sync hi ((sync.reaches_iff hi).mp reached)
    rw [heq]
    exact ⟨pool', free', used', b, sync'⟩
  · rw [sync.getTimerArg_eq, Option.not_isSome_iff_eq_none] at live
    rw [stopTimer_stale sync live]
    exact ⟨pool, free, used, a, sync⟩

theorem LiteTimerMgr.InSync.update (h : mgr.InSync) {id t : Int}
    (reaches : (TimerOp.updateTimer id t).Reaches mgr) : (mgr.updateTimer id t).2.InSync := by
  obtain ⟨pool, free, used, a, sync⟩ := h
  by_cases ht : t = 0
  · have rejected : mgr.updateTimer id t = (-1, mgr) := by simp [LiteTimerMgr.updateTimer, ht]
    rw [rejected]
    exact ⟨pool, free, used, a, sync⟩
  · by_cases live : (mgr.getTimerArg id).isSome
    · have reached : mgr.Reaches id := reaches live ht
      obtain ⟨i, hi, rfl⟩ := sync.exists_index live
      obtain ⟨mgr', b, heq, sync', -⟩ := updateTimer_live sync hi ((sync.reaches_iff hi).mp reached) ht
      rw [heq]
      exact ⟨pool, free, used, b, sync'⟩
    · rw [sync.getTimerArg_eq, Option.not_isSome_iff_eq_none] at live
      obtain ⟨code, -, heq⟩ := updateTimer_stale sync live t
      rw [heq]
      exact ⟨pool, free, used, a, sync⟩

theorem LiteTimerMgr.InSync.tick (h : mgr.InSync) (now : Int) (arg : β) :
    (mgr.tickOneExpireTimer now arg).2.1.InSync := by
  obtain ⟨pool, free, used, a, sync⟩ := h
  by_cases due : 0 < used.length ∧ (a 0).2 ≤ now
  · obtain ⟨mgr', pool', free', used', b, heq, -, -, sync', -⟩ := tickOneExpireTimer_due sync due.1 due.2 arg
    rw [heq]
    exact ⟨pool', free', used', b, sync'⟩
  · rw [tickOneExpireTimer_idle sync (sync.ordered.none_due due) arg]
    exact ⟨pool, free, used, a, sync⟩

theorem LiteTimerMgr.InSync.step (h : mgr.InSync) (reaches : op.Reaches mgr) : (op.apply mgr).2.2.InSync := by
  cases op with
  | startTimer t buf => exact h.start t buf
  | updateTimer id t => exact h.update reaches
  | stopTimer id => exact h.stop reaches
  | tickOneExpireTimer now arg => exact h.tick now arg

end Step

/-- Whatever expire times are accepted, every `StopTimer` and `UpdateTimer` of a run acts on the timer it
is called for if and only if that timer is at the root of the heap or the root expires at a positive
time, each time. -/
theorem timer_hits_iff {malloc : Nat → Bool} {cap argSize : Nat} {args : Int → TTimerArg β}
    {mgr₀ : LiteTimerMgr β} (hpos : 1 ≤ cap) (hle : cap ≤ 1073741824)
    (hinit : (LiteTimerMgr.create args).initTimerMgr malloc cap argSize = (0, mgr₀)) (ops : List (TimerOp β)) :
    (∀ k (op : TimerOp β), ops[k]? = some op → op.Hits (timerRun mgr₀ (ops.take k))) ↔
      ∀ k (op : TimerOp β), ops[k]? = some op → op.Reaches (timerRun mgr₀ (ops.take k)) := by
  obtain ⟨pool₀, free₀, -, inv₀⟩ := initTimerMgr_inv hpos hle hinit
  have start : mgr₀.InSync := ⟨pool₀, free₀, [], _, inv₀.sync⟩
  have run : ∀ k, timerRun mgr₀ (ops.take k) =
      stateAt (fun mgr (op : TimerOp β) => (op.apply mgr).2.2) mgr₀ ops k := fun k => rfl
  simp only [run]
  constructor
  · intro hits k op hop
    have sync := stateAt_induct start
      (fun j op' hop' h => h.step ((h.hits_iff op').mp (hits j op' hop'))) k
    exact (sync.hits_iff op).mp (hits k op hop)
  · intro reaches k op hop
    have sync := stateAt_induct start (fun j op' hop' h => h.step (reaches j op' hop')) k
    exact (sync.hits_iff op).mpr (reaches k op hop)

/-- A timer that expires before time 0 is stopped, then the other one is moved. -/
def rootFirst : List (TimerOp Nat) := [.startTimer (-5) 1, .startTimer 7 2, .stopTimer 3, .updateTimer 4 (-9)]

theorem timer_hits_iff_root_first :
    ∃ mgr₀, (LiteTimerMgr.create fun _ => ⟨0, 0⟩).initTimerMgr (fun _ => true) 3 8 = (0, mgr₀) ∧
      ∀ k (op : TimerOp Nat), rootFirst[k]? = some op → op.Hits (timerRun mgr₀ (rootFirst.take k)) := by
  refine ⟨_, rfl, ?_⟩
  exact (@timer_hits_iff Nat (fun _ => true) 3 8 (fun _ => ⟨0, 0⟩) _ (by decide) (by decide) rfl rootFirst).mpr
    (forall_event_iff.mpr (by decide +kernel))

/-- The later of two timers is stopped while the earlier one expires before time 0: the earlier one
leaves the heap, the later one the pool. -/
theorem stopTimer_misses :
    ∃ mgr₀, (LiteTimerMgr.create fun _ => ⟨0, 0⟩).initTimerMgr (fun _ => true) 3 8 = (0, mgr₀) ∧
      (timerRun mgr₀ [.startTimer (-5) 1, .startTimer 7 2]).timerHeap.map LiteTimer.payload = [(3, -5), (4, 7)] ∧
      (LiteTimerMgr.stopTimer (timerRun mgr₀ [.startTimer (-5) 1, .startTimer 7 2]) 4).2.timerHeap.map
        LiteTimer.payload = [(4, 0)] ∧
      ¬ TimerOp.Hits (timerRun mgr₀ [.startTimer (-5) 1, .startTimer 7 2]) (.stopTimer 4) := by
  refine ⟨_, rfl, by decide +kernel, by decide +kernel, ?_⟩
  intro hits
  obtain ⟨-, only⟩ := hits (by decide +kernel)
  have gone := (only.heap 4 0).mp (by decide +kernel)
  simp at gone

end Wddlib
