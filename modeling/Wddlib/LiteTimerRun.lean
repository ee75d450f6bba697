import Wddlib.LiteTimerOps
import Wddlib.ObjPoolRun
import Mathlib.Data.Set.Card

namespace Wddlib

inductive TimerOp (β : Type) where
  | startTimer (expireTime : Int) (buf : β)
  | updateTimer (id expireTime : Int)
  | stopTimer (id : Int)
  | tickOneExpireTimer (now : Int) (arg : β)

/-- The returned code, the value of `arg` afterwards (for a tick) and the manager afterwards. -/
def TimerOp.apply {β : Type} (mgr : LiteTimerMgr β) : TimerOp β → Int × Option β × LiteTimerMgr β
  | .startTimer expireTime buf =>
    let started := mgr.startTimer expireTime buf
    (started.1, none, started.2)
  | .updateTimer id expireTime =>
    let updated := mgr.updateTimer id expireTime
    (updated.1, none, updated.2)
  | .stopTimer id =>
    let stopped := mgr.stopTimer id
    (stopped.1, none, stopped.2)
  | .tickOneExpireTimer now arg =>
    let ticked := mgr.tickOneExpireTimer now arg
    (ticked.1, some ticked.2.2, ticked.2.1)

/-- Expire times are points in time from 0 on; 0 is passed on but rejected. -/
def TimerOp.Admissible {β : Type} : TimerOp β → Prop
  | .startTimer expireTime _ => 0 ≤ expireTime
  | .updateTimer _ expireTime => 0 ≤ expireTime
  | .stopTimer _ => True
  | .tickOneExpireTimer _ _ => True

def timerRun {β : Type} (mgr : LiteTimerMgr β) (ops : List (TimerOp β)) : LiteTimerMgr β :=
  ops.foldl (fun mgr op => (op.apply mgr).2.2) mgr

/-- What a call may do to a map of at most `cap` timers, given the code it returns and the value
it leaves in `arg`. -/
def TimerMapStep {β : Type} (cap : Nat) (map map' : Int → Option (Int × β)) (ret : Int) (out : Option β) :
    TimerOp β → Prop
  | .startTimer t buf =>
    (ret = 0 ↔ 0 < t ∧ {id | map id ≠ none}.ncard < cap) ∧
      (ret = 0 → ∃ id, 0 ≤ id ∧ map id = none ∧ map' = Function.update map id (some (t, buf))) ∧
      (ret ≠ 0 → ret < 0 ∧ map' = map)
  | .updateTimer id t =>
    (ret = 0 ↔ 0 < t ∧ map id ≠ none) ∧
      (ret = 0 → ∃ t₀ buf, map id = some (t₀, buf) ∧ map' = Function.update map id (some (t, buf))) ∧
      (ret ≠ 0 → ret < 0 ∧ map' = map)
  | .stopTimer id =>
    (ret = 0 ↔ map id ≠ none) ∧ (ret = 0 → map' = Function.update map id none) ∧
      (ret ≠ 0 → ret < 0 ∧ map' = map)
  | .tickOneExpireTimer now arg =>
    (0 ≤ ret ↔ ∃ id t buf, map id = some (t, buf) ∧ t ≤ now) ∧
      (0 ≤ ret → ∃ t buf, map ret = some (t, buf) ∧
        (∀ id t' buf', map id = some (t', buf') → t ≤ t') ∧ out = some buf ∧
        map' = Function.update map ret none) ∧
      (ret < 0 → out = some arg ∧ map' = map)

section Step

variable {β : Type} {cap : Nat} {pool : TObjPool} {free used : List Int} {mgr : LiteTimerMgr β}
  {a : Nat → Int × Int}

def LiteTimerMgr.InStep (mgr : LiteTimerMgr β) (cap : Nat) : Prop :=
  ∃ (pool : TObjPool) (free used : List Int) (a : Nat → Int × Int),
    pool.capacity = cap ∧ TimerInv mgr pool free used a

theorem TimerInv.active_eq (h : TimerInv mgr pool free used a) :
    {id | mgr.timerMap id ≠ none} = (fun i => (a i).1) '' (Finset.range used.length : Set Nat) := by
  ext id
  simp only [Set.mem_ofPred_eq, ne_eq, h.sync.timerMap_eq_none]
  rw [← ne_eq, ← h.sync.mem_iff_live]
  simp

theorem TimerInv.active_finite (h : TimerInv mgr pool free used a) : {id | mgr.timerMap id ≠ none}.Finite := by
  rw [h.active_eq]
  exact (Finset.finite_toSet _).image _

theorem TimerInv.active_ncard (h : TimerInv mgr pool free used a) :
    {id | mgr.timerMap id ≠ none}.ncard = used.length := by
  have inj : Set.InjOn (fun i => (a i).1) (Finset.range used.length : Set Nat) := by
    intro i hi j hj same
    exact h.cells.id_inj (by simpa using hi) (by simpa using hj) same
  rw [h.active_eq, inj.ncard_image, Set.ncard_coe_finset, Finset.card_range]

theorem TimerInv.getActiveCount (h : TimerInv mgr pool free used a) : mgr.getActiveCount = used.length := by
  have size := h.sync.size
  have count := h.repr.usedCount
  simp [LiteTimerMgr.getActiveCount, h.cells.argPool, objpoolGetUsedItems, count, size]

/-- Changing one entry of the map of a manager in step, to a positive expire time or to none. -/
theorem TimerInv.inStep_update (h : TimerInv mgr pool free used a) {mgr' : LiteTimerMgr β} {pool' : TObjPool}
    {free' used' : List Int} {b : Nat → Int × Int} (hcap : pool'.capacity = cap)
    (sync : TimerSync mgr' pool' free' used' b) {id : Int} {entry : Option (Int × β)}
    (hmap : mgr'.timerMap = Function.update mgr.timerMap id entry)
    (new : ∀ t buf, entry = some (t, buf) → 0 < t) : mgr'.InStep cap := by
  refine ⟨pool', free', used', b, hcap, sync.inv ?_⟩
  intro id' t buf present
  rw [hmap] at present
  by_cases same : id' = id
  · subst same
    rw [Function.update_self] at present
    exact new t buf present
  · rw [Function.update_of_ne same] at present
    exact h.map_positive present

/-- A call keeps the manager in step and acts on its timers as on a map. -/
def TimerOp.Served (cap : Nat) (mgr : LiteTimerMgr β) (op : TimerOp β) : Prop :=
  (op.apply mgr).2.2.InStep cap ∧
    TimerMapStep cap mgr.timerMap (op.apply mgr).2.2.timerMap (op.apply mgr).1 (op.apply mgr).2.1 op

section Served

variable (h : TimerInv mgr pool free used a) (hcap : pool.capacity = cap)
include h hcap

theorem startTimer_served {t : Int} (ht : 0 ≤ t) (buf : β) :
    (TimerOp.startTimer t buf).Served cap mgr := by
  have card := h.active_ncard
  have room := h.repr.length_eq
  rw [hcap, Int.toNat_natCast] at room
  rcases eq_or_lt_of_le ht with rfl | ht
  · have rejected : mgr.startTimer 0 buf = (-1, mgr) := by
      simp [LiteTimerMgr.startTimer, h.cells.argPool]
    simp only [TimerOp.Served, TimerOp.apply, rejected]
    exact ⟨⟨pool, free, used, a, hcap, h⟩, by simp [TimerMapStep]⟩
  · cases free with
    | nil =>
      simp only [TimerOp.Served, TimerOp.apply, startTimer_full h.sync (show t ≠ 0 by omega) buf]
      simp only [List.length_nil] at room
      exact ⟨⟨pool, [], used, a, hcap, h⟩, by simp [TimerMapStep, card]; omega⟩
    | cons x rest =>
      obtain ⟨id, mgr', pool', b, heq, nonneg, absent, hcap', hinv, hmap⟩ :=
        startTimer_room h.sync (show t ≠ 0 by omega) buf
      simp only [List.length_cons] at room
      simp only [TimerOp.Served, TimerOp.apply, heq]
      refine ⟨h.inStep_update (hcap'.trans hcap) hinv hmap (by simp [ht]), ?_, ?_, by simp⟩
      · simp only [card, true_iff]
        omega
      · exact fun _ => ⟨id, nonneg, absent, hmap⟩

theorem updateTimer_served {t : Int} (ht : 0 ≤ t) (id : Int) : (TimerOp.updateTimer id t).Served cap mgr := by
  by_cases live : objpoolGet pool id = none
  · obtain ⟨code, neg, heq⟩ := updateTimer_stale h.sync live t
    have absent := h.sync.timerMap_eq_none.mpr live
    simp only [TimerOp.Served, TimerOp.apply, heq]
    refine ⟨⟨pool, free, used, a, hcap, h⟩, ?_, ?_, fun _ => ⟨neg, rfl⟩⟩
    · simp only [absent]
      simp
      omega
    · omega
  · obtain ⟨i, hi, rfl⟩ := (h.sync.mem_iff_live id).mpr live
    rcases eq_or_lt_of_le ht with rfl | ht
    · have rejected : mgr.updateTimer (a i).1 0 = (-1, mgr) := by simp [LiteTimerMgr.updateTimer]
      simp only [TimerOp.Served, TimerOp.apply, rejected]
      exact ⟨⟨pool, free, used, a, hcap, h⟩, by simp [TimerMapStep]⟩
    · obtain ⟨mgr', b, heq, hinv, hmap⟩ :=
        updateTimer_live h.sync hi (Or.inr (h.positive 0 (by omega))) (show t ≠ 0 by omega)
      have entry := (h.cells.timerMap_eq_some _).mpr ⟨⟨i, hi, rfl⟩, rfl⟩
      simp only [TimerOp.Served, TimerOp.apply, heq]
      exact ⟨h.inStep_update hcap hinv hmap (by simp [ht]), by simp [ht, entry], fun _ => ⟨_, _, entry, hmap⟩, by simp⟩

theorem stopTimer_served (id : Int) : (TimerOp.stopTimer id).Served cap mgr := by
  by_cases live : objpoolGet pool id = none
  · have absent := h.sync.timerMap_eq_none.mpr live
    simp only [TimerOp.Served, TimerOp.apply, stopTimer_stale h.sync live]
    exact ⟨⟨pool, free, used, a, hcap, h⟩, by simp [TimerMapStep, absent]⟩
  · obtain ⟨i, hi, rfl⟩ := (h.sync.mem_iff_live id).mpr live
    obtain ⟨mgr', pool', free', used', b, heq, hcap', hinv, hmap⟩ :=
      stopTimer_live h.sync hi (Or.inr (h.positive 0 (by omega)))
    have present := mt h.sync.timerMap_eq_none.mp live
    simp only [TimerOp.Served, TimerOp.apply, heq]
    exact ⟨h.inStep_update (hcap'.trans hcap) hinv hmap (by simp), by simp [present], fun _ => hmap, by simp⟩

theorem tickOneExpireTimer_served (now : Int) (arg : β) :
    (TimerOp.tickOneExpireTimer now arg).Served cap mgr := by
  by_cases due : 0 < used.length ∧ (a 0).2 ≤ now
  · obtain ⟨mgr', pool', free', used', b, heq, nonneg, hcap', hinv, hmap⟩ :=
      tickOneExpireTimer_due h.sync due.1 due.2 arg
    have entry := (h.cells.timerMap_eq_some _).mpr ⟨⟨0, due.1, rfl⟩, rfl⟩
    simp only [TimerOp.Served, TimerOp.apply, heq]
    refine ⟨h.inStep_update (hcap'.trans hcap) hinv hmap (by simp), ?_, ?_, fun neg => absurd neg (by omega)⟩
    · simp only [nonneg, true_iff]
      exact ⟨_, _, _, entry, due.2⟩
    · refine fun _ => ⟨_, _, entry, ?_, rfl, hmap⟩
      intro id t' buf' he
      obtain ⟨⟨i, hi, hai⟩, -⟩ := (h.cells.timerMap_eq_some buf').mp he
      have hle := h.ordered.root_le hi
      rw [hai] at hle
      exact hle
  · have idle := h.ordered.none_due due
    simp only [TimerOp.Served, TimerOp.apply, tickOneExpireTimer_idle h.sync idle arg]
    refine ⟨⟨pool, free, used, a, hcap, h⟩, ?_, by omega, fun _ => ⟨rfl, rfl⟩⟩
    simp only [show ¬ (0 : Int) ≤ -1 by decide, false_iff]
    rintro ⟨id, t, buf, he, hle⟩
    obtain ⟨⟨i, hi, hai⟩, -⟩ := (h.cells.timerMap_eq_some buf).mp he
    have := idle i hi
    rw [hai] at this
    simp only at this
    omega

theorem timerOp_served (op : TimerOp β) (admissible : op.Admissible) : op.Served cap mgr := by
  cases op with
  | startTimer t buf => exact startTimer_served h hcap admissible buf
  | updateTimer id t => exact updateTimer_served h hcap admissible id
  | stopTimer id => exact stopTimer_served h hcap id
  | tickOneExpireTimer now arg => exact tickOneExpireTimer_served h hcap now arg

end Served

theorem timerRun_inStep (h : mgr.InStep cap) (ops : List (TimerOp β)) (admissible : ∀ op ∈ ops, op.Admissible) :
    (timerRun mgr ops).InStep cap := by
  induction ops generalizing mgr with
  | nil => exact h
  | cons op ops ih =>
    obtain ⟨pool, free, used, a, hcap, hinv⟩ := h
    exact ih (timerOp_served hinv hcap op (admissible op (by simp))).1
      (fun op' hop' => admissible op' (by simp [hop']))

theorem objpoolInit_cases (malloc : Nat → Bool) (cap unit : Nat) :
    (∃ pool, objpoolInit malloc cap unit = (0, some pool)) ∨
      objpoolInit malloc cap unit = (errObjpoolMemover, none) := by
  simp only [objpoolInit]
  split
  next => exact Or.inl ⟨_, rfl⟩
  next => exact Or.inr rfl

theorem initTimerMgr_inv {malloc : Nat → Bool} {argSize : Nat} {args : Int → TTimerArg β} (hpos : 1 ≤ cap)
    (hle : cap ≤ 1073741824) (hinit : (LiteTimerMgr.create args).initTimerMgr malloc cap argSize = (0, mgr)) :
    ∃ (pool : TObjPool) (free : List Int), pool.capacity = cap ∧ TimerInv mgr pool free [] (fun _ => (0, 0)) := by
  simp only [LiteTimerMgr.initTimerMgr, LiteTimerMgr.create, Option.isSome_none, Bool.false_eq_true,
    if_false] at hinit
  rcases objpoolInit_cases malloc cap argSize with ⟨pool, hpool⟩ | hfail
  · rw [hpool] at hinit
    simp only [lt_irrefl, if_false, Prod.mk.injEq, true_and] at hinit
    subst hinit
    obtain ⟨hrepr, hbounds, hcap, -⟩ := objpoolInit_spec hpos hle hpool
    refine ⟨pool, _, hcap, ⟨hrepr, hbounds, ?_, ?_⟩, ?_⟩
    · exact ⟨rfl, rfl, fun _ => rfl, by simp, by simp, by simp, by simp, by simp⟩
    · intro i _ hi
      simp at hi
    · simp
  · rw [hfail] at hinit
    simp [errObjpoolMemover] at hinit

/-- In every reachable manager the heap is ordered, every timer knows its position and is known at
it, and the timers are exactly the live handles of the pool. -/
theorem liteTimer_run_invariant {malloc : Nat → Bool} {argSize : Nat} {args : Int → TTimerArg β}
    {mgr₀ : LiteTimerMgr β} (hpos : 1 ≤ cap) (hle : cap ≤ 1073741824)
    (hinit : (LiteTimerMgr.create args).initTimerMgr malloc cap argSize = (0, mgr₀))
    (ops : List (TimerOp β)) (admissible : ∀ op ∈ ops, op.Admissible) :
    ∃ pool, (timerRun mgr₀ ops).timerArgPool = some pool ∧ pool.capacity = cap ∧
      (∀ i, 0 < i → i < (timerRun mgr₀ ops).timerHeap.length →
        ((timerRun mgr₀ ops).timerAt ((i - 1) / 2)).expireTime ≤ ((timerRun mgr₀ ops).timerAt i).expireTime) ∧
      (∀ i, i < (timerRun mgr₀ ops).timerHeap.length →
        ((timerRun mgr₀ ops).timerAt i).timerIdx = i ∧
          (timerRun mgr₀ ops).getTimerIdxByID ((timerRun mgr₀ ops).timerAt i).id = i) ∧
      ((timerRun mgr₀ ops).timerHeap.map LiteTimer.id).Nodup ∧
      (∀ id, id ∈ (timerRun mgr₀ ops).timerHeap.map LiteTimer.id ↔ objpoolGet pool id ≠ none) ∧
      (timerRun mgr₀ ops).getActiveCount = (timerRun mgr₀ ops).timerHeap.length := by
  obtain ⟨pool₀, free₀, hcap₀, h₀⟩ := initTimerMgr_inv hpos hle hinit
  obtain ⟨pool, free, used, a, hcap, h⟩ := timerRun_inStep ⟨pool₀, free₀, [], _, hcap₀, h₀⟩ ops admissible
  generalize timerRun mgr₀ ops = mgr at h
  have size := h.sync.size
  have cell : ∀ i, i < used.length → (mgr.timerAt i).id = (a i).1 ∧ (mgr.timerAt i).expireTime = (a i).2 :=
    fun i hi => Prod.mk.inj (h.cells.cell i hi trivial)
  refine ⟨pool, h.cells.argPool, hcap, ?_, ?_, h.cells.ids_nodup, ?_, ?_⟩
  · intro i hi hin
    rw [(cell i (by omega)).2, (cell _ (by omega)).2]
    exact h.ordered i hi (by omega)
  · intro i hi
    rw [(cell i (by omega)).1]
    exact ⟨h.cells.index i (by omega), h.cells.getTimerIdxByID (by omega)⟩
  · intro id
    rw [h.cells.mem_timerHeap, h.sync.mem_iff_live]
  · rw [h.getActiveCount, size]

theorem liteTimer_run_invariant_three :
    ∃ mgr₀, (LiteTimerMgr.create fun _ => ⟨0, 0⟩).initTimerMgr (fun _ => true) 3 8 = (0, mgr₀) ∧
      ∃ pool, (timerRun mgr₀ ([.startTimer 9 1, .startTimer 5 2, .startTimer 7 3, .updateTimer 4 8,
        .stopTimer 77] : List (TimerOp Nat))).timerArgPool = some pool ∧
        (objpoolGet pool 4 ≠ none ∧ objpoolGet pool 77 = none) ∧
        ∀ i, 0 < i → i < 3 →
          ((timerRun mgr₀ [.startTimer 9 1, .startTimer 5 2, .startTimer 7 3, .updateTimer 4 8,
              .stopTimer 77]).timerAt ((i - 1) / 2)).expireTime ≤
            ((timerRun mgr₀ [.startTimer 9 1, .startTimer 5 2, .startTimer 7 3, .updateTimer 4 8,
              .stopTimer 77]).timerAt i).expireTime := by
  refine ⟨_, rfl, ?_⟩
  obtain ⟨pool, hpool, -, ordered, -, -, live, -⟩ :=
    @liteTimer_run_invariant Nat 3 (fun _ => true) 8 (fun _ => ⟨0, 0⟩) _ (by decide) (by decide) rfl
      [.startTimer 9 1, .startTimer 5 2, .startTimer 7 3, .updateTimer 4 8, .stopTimer 77]
      (by simp [TimerOp.Admissible])
  refine ⟨pool, hpool, ⟨(live 4).mp (by decide +kernel), ?_⟩, fun i hpos hi => ordered i hpos ?_⟩
  · by_contra hsome
    exact absurd ((live 77).mpr hsome) (by decide +kernel)
  · exact hi.trans_eq (by decide +kernel)

/-- Every call on every reachable manager acts on its timers as on a finite map, which is empty
after `InitTimerMgr`. -/
theorem liteTimer_refines_map {malloc : Nat → Bool} {argSize : Nat} {args : Int → TTimerArg β}
    {mgr₀ : LiteTimerMgr β} (hpos : 1 ≤ cap) (hle : cap ≤ 1073741824)
    (hinit : (LiteTimerMgr.create args).initTimerMgr malloc cap argSize = (0, mgr₀)) :
    mgr₀.timerMap = (fun _ => none) ∧
      ∀ (ops : List (TimerOp β)) (op : TimerOp β), (∀ op' ∈ ops, op'.Admissible) → op.Admissible →
        {id | (timerRun mgr₀ ops).timerMap id ≠ none}.Finite ∧
        TimerMapStep cap (timerRun mgr₀ ops).timerMap (timerRun mgr₀ (ops ++ [op])).timerMap
          (op.apply (timerRun mgr₀ ops)).1 (op.apply (timerRun mgr₀ ops)).2.1 op := by
  obtain ⟨pool₀, free₀, hcap₀, h₀⟩ := initTimerMgr_inv hpos hle hinit
  refine ⟨h₀.cells.timerMap_ext (by simp), ?_⟩
  intro ops op hops hop
  obtain ⟨pool, free, used, a, hcap, h⟩ := timerRun_inStep ⟨pool₀, free₀, [], _, hcap₀, h₀⟩ ops hops
  refine ⟨h.active_finite, ?_⟩
  have step := (timerOp_served h hcap op hop).2
  simpa [timerRun, List.foldl_append] using step

theorem liteTimer_refines_map_two :
    ∃ mgr₀, (LiteTimerMgr.create fun _ => ⟨0, 0⟩).initTimerMgr (fun _ => true) 2 8 = (0, mgr₀) ∧
      (TimerOp.apply (timerRun mgr₀ [.startTimer 9 1, .startTimer 5 2]) (.tickOneExpireTimer 6 0)).1 = 3 ∧
      TimerMapStep 2 (timerRun mgr₀ ([.startTimer 9 1, .startTimer 5 2] : List (TimerOp Nat))).timerMap
        (timerRun mgr₀ [.startTimer 9 1, .startTimer 5 2, .tickOneExpireTimer 6 0]).timerMap
        (TimerOp.apply (timerRun mgr₀ [.startTimer 9 1, .startTimer 5 2]) (.tickOneExpireTimer 6 0)).1
        (TimerOp.apply (timerRun mgr₀ [.startTimer 9 1, .startTimer 5 2]) (.tickOneExpireTimer 6 0)).2.1
        (.tickOneExpireTimer 6 0) := by
  refine ⟨_, rfl, by decide +kernel, ?_⟩
  exact ((@liteTimer_refines_map Nat 2 (fun _ => true) 8 (fun _ => ⟨0, 0⟩) _ (by decide) (by decide) rfl).2
    [.startTimer 9 1, .startTimer 5 2] (.tickOneExpireTimer 6 0) (by simp [TimerOp.Admissible])
    (by simp [TimerOp.Admissible])).2

end Step

end Wddlib
