import Wddlib.LiteTimerRun
import Wddlib.RunPrefix

namespace Wddlib

variable {β : Type} {cap : Nat}

/-- `TickOneExpireTimer(now, arg)` until it returns a negative value: the ids it returned, each with
the value of `arg` then, and the manager afterwards. `none` means that the budget was too small. -/
def LiteTimerMgr.drain (now : Int) : Nat → LiteTimerMgr β → β → Option (List (Int × β) × LiteTimerMgr β)
  | 0, _, _ => none
  | fuel + 1, mgr, arg =>
    let ticked := mgr.tickOneExpireTimer now arg
    if ticked.1 < 0 then some ([], ticked.2.1)
    else (drain now fuel ticked.2.1 ticked.2.2).map fun r => ((ticked.1, ticked.2.2) :: r.1, r.2)

/-- What a drained manager has returned, and what it keeps of its timers. -/
structure Drained (now : Int) (map map' : Int → Option (Int × β)) (out : List (Int × β)) : Prop where
  nodup : (out.map Prod.fst).Nodup
  due : ∀ id buf, (id, buf) ∈ out ↔ ∃ t, map id = some (t, buf) ∧ t ≤ now
  ordered : out.Pairwise fun e e' =>
    ∀ t buf t' buf', map e.1 = some (t, buf) → map e'.1 = some (t', buf') → t ≤ t'
  left : ∀ id t buf, map' id = some (t, buf) ↔ map id = some (t, buf) ∧ now < t

section Drain

variable {now : Int} {map map' : Int → Option (Int × β)} {out : List (Int × β)}

theorem Drained.none_due (idle : ∀ id t buf, map id = some (t, buf) → now < t) : Drained now map map [] := by
  refine ⟨by simp, ?_, by simp, ?_⟩
  · intro id buf
    simp only [List.not_mem_nil, false_iff]
    rintro ⟨t, present, due⟩
    have := idle id t buf present
    omega
  · intro id t buf
    exact ⟨fun present => ⟨present, idle id t buf present⟩, fun h => h.1⟩

/-- A timer that is not in the map is not returned. -/
theorem Drained.id_ne {id id' : Int} {buf' : β} (h : Drained now (Function.update map id none) map' out)
    (mem : (id', buf') ∈ out) : id' ≠ id := by
  obtain ⟨t', hmap, -⟩ := (h.due id' buf').mp mem
  exact (update_none_eq_some.mp hmap).1

/-- The earliest timer is returned first. -/
theorem Drained.cons {id t : Int} {buf : β} (present : map id = some (t, buf)) (due : t ≤ now)
    (first : ∀ id' t' buf', map id' = some (t', buf') → t ≤ t')
    (h : Drained now (Function.update map id none) map' out) : Drained now map map' ((id, buf) :: out) := by
  refine ⟨?_, ?_, ?_, ?_⟩
  · rw [List.map_cons, List.nodup_cons]
    refine ⟨?_, h.nodup⟩
    intro mem
    obtain ⟨⟨id', buf'⟩, mem', same⟩ := List.mem_map.mp mem
    exact h.id_ne mem' same
  · intro id' buf'
    simp only [List.mem_cons, Prod.mk.injEq, h.due, update_none_eq_some]
    constructor
    · rintro (⟨rfl, rfl⟩ | ⟨t', ⟨-, hmap⟩, hle⟩)
      · exact ⟨t, present, due⟩
      · exact ⟨t', hmap, hle⟩
    · rintro ⟨t', hmap, hle⟩
      by_cases same : id' = id
      · subst same
        rw [present] at hmap
        obtain ⟨-, rfl⟩ := Prod.mk.inj (Option.some.inj hmap)
        exact .inl ⟨rfl, rfl⟩
      · exact .inr ⟨t', ⟨same, hmap⟩, hle⟩
  · rw [List.pairwise_cons]
    constructor
    · rintro ⟨id', buf'⟩ - t₁ buf₁ t₂ buf₂ h₁ h₂
      rw [present] at h₁
      obtain ⟨rfl, -⟩ := Prod.mk.inj (Option.some.inj h₁)
      exact first id' t₂ buf₂ h₂
    · refine h.ordered.imp_of_mem ?_
      intro e e' he he' hle t₁ buf₁ t₂ buf₂ h₁ h₂
      exact hle t₁ buf₁ t₂ buf₂ (update_none_eq_some.mpr ⟨h.id_ne he, h₁⟩)
        (update_none_eq_some.mpr ⟨h.id_ne he', h₂⟩)
  · intro id' t' buf'
    rw [h.left, update_none_eq_some]
    constructor
    · rintro ⟨⟨-, hmap⟩, later⟩
      exact ⟨hmap, later⟩
    · rintro ⟨hmap, later⟩
      refine ⟨⟨?_, hmap⟩, later⟩
      rintro rfl
      rw [present] at hmap
      obtain ⟨rfl, -⟩ := Prod.mk.inj (Option.some.inj hmap)
      omega

end Drain

section Run

variable {mgr : LiteTimerMgr β}

theorem LiteTimerMgr.InStep.active_finite (h : mgr.InStep cap) : {id | mgr.timerMap id ≠ none}.Finite := by
  obtain ⟨pool, free, used, a, -, inv⟩ := h
  exact inv.active_finite

theorem LiteTimerMgr.InStep.getActiveCount (h : mgr.InStep cap) :
    mgr.getActiveCount = {id | mgr.timerMap id ≠ none}.ncard := by
  obtain ⟨pool, free, used, a, -, inv⟩ := h
  rw [inv.active_ncard, inv.getActiveCount]

theorem LiteTimerMgr.InStep.tick (h : mgr.InStep cap) (now : Int) (arg : β) :
    (mgr.tickOneExpireTimer now arg).2.1.InStep cap ∧
      TimerMapStep cap mgr.timerMap (mgr.tickOneExpireTimer now arg).2.1.timerMap
        (mgr.tickOneExpireTimer now arg).1 (some (mgr.tickOneExpireTimer now arg).2.2)
        (.tickOneExpireTimer now arg) := by
  obtain ⟨pool, free, used, a, hcap, inv⟩ := h
  exact tickOneExpireTimer_served inv hcap now arg

/-- Ticking until nothing is due, by induction on the number of timers. -/
theorem drain_spec (h : mgr.InStep cap) (now : Int) (arg : β) :
    ∃ fuel out mgr', mgr.drain now fuel arg = some (out, mgr') ∧ mgr'.InStep cap ∧
      Drained now mgr.timerMap mgr'.timerMap out ∧
      {id | mgr.timerMap id ≠ none}.ncard = {id | mgr'.timerMap id ≠ none}.ncard + out.length := by
  generalize hn : {id | mgr.timerMap id ≠ none}.ncard = n
  induction n using Nat.strong_induction_on generalizing mgr arg with
  | _ n ih =>
    obtain ⟨hstep, dueIff, popped, idle⟩ := h.tick now arg
    by_cases neg : (mgr.tickOneExpireTimer now arg).1 < 0
    · obtain ⟨-, same⟩ := idle neg
      refine ⟨1, [], _, by simp only [LiteTimerMgr.drain, neg, if_true], hstep, ?_, by rw [same]; exact hn.symm⟩
      rw [same]
      refine .none_due ?_
      intro id t buf present
      by_contra late
      have := dueIff.mpr ⟨id, t, buf, present, by omega⟩
      omega
    · have nonneg : 0 ≤ (mgr.tickOneExpireTimer now arg).1 := by omega
      obtain ⟨t, buf, present, first, given, gone⟩ := popped nonneg
      obtain ⟨id', t', buf', present', due'⟩ := dueIff.mp nonneg
      have due : t ≤ now := (first id' t' buf' present').trans due'
      generalize hret : (mgr.tickOneExpireTimer now arg).1 = id at *
      have mem : id ∈ {id | mgr.timerMap id ≠ none} := by simp [present]
      have hset : {id' | (mgr.tickOneExpireTimer now arg).2.1.timerMap id' ≠ none} =
          {id' | mgr.timerMap id' ≠ none} \ {id} := by
        ext id'
        rw [gone]
        by_cases same : id' = id
        · simp [same]
        · simp [same]
      have fewer := Set.ncard_sdiff_singleton_add_one mem h.active_finite
      rw [← hset, hn] at fewer
      obtain ⟨fuel, out, mgr', run, hstep', drained, count⟩ :=
        ih _ (by omega) hstep (mgr.tickOneExpireTimer now arg).2.2 rfl
      rw [gone] at drained
      refine ⟨fuel + 1, (id, buf) :: out, mgr', ?_, hstep', .cons present due first drained, ?_⟩
      · simp only [LiteTimerMgr.drain, hret, neg, if_false, run, Option.map_some]
        rw [Option.some.inj given]
      · rw [List.length_cons]
        omega

end Run

section Started

/-- One of the calls started timer `id` with `buf`, and it has been active since. -/
def StartedWith (mgr₀ : LiteTimerMgr β) (ops : List (TimerOp β)) (id : Int) (buf : β) : Prop :=
  ∃ k t, ops[k]? = some (.startTimer t buf) ∧ (timerRun mgr₀ (ops.take k)).timerMap id = none ∧
    ∀ j, k < j → j ≤ ops.length → ∃ t', (timerRun mgr₀ (ops.take j)).timerMap id = some (t', buf)

/-- A call keeps the data of a timer; only `StartTimer` makes a timer, with the data it is given. -/
theorem TimerMapStep.buf {map map' : Int → Option (Int × β)} {ret : Int} {out : Option β} {op : TimerOp β}
    (h : TimerMapStep cap map map' ret out op) {id t : Int} {buf : β} (present : map' id = some (t, buf)) :
    (∃ t₀, map id = some (t₀, buf)) ∨ op = .startTimer t buf ∧ map id = none := by
  have kept : map' = map → ∃ t₀, map id = some (t₀, buf) := by
    rintro rfl
    exact ⟨t, present⟩
  have removed : ∀ id₀, map' = Function.update map id₀ none → ∃ t₀, map id = some (t₀, buf) := by
    rintro id₀ rfl
    exact ⟨t, (update_none_eq_some.mp present).2⟩
  cases op with
  | startTimer t₁ buf₁ =>
    obtain ⟨-, added, failed⟩ := h
    by_cases ok : ret = 0
    · obtain ⟨id₀, -, absent, rfl⟩ := added ok
      by_cases same : id = id₀
      · subst same
        rw [Function.update_self] at present
        obtain ⟨rfl, rfl⟩ := Prod.mk.inj (Option.some.inj present)
        exact .inr ⟨rfl, absent⟩
      · exact .inl ⟨t, by simpa [same] using present⟩
    · exact .inl (kept (failed ok).2)
  | updateTimer id₁ t₁ =>
    obtain ⟨-, updated, failed⟩ := h
    by_cases ok : ret = 0
    · obtain ⟨t₀, buf₀, before, rfl⟩ := updated ok
      by_cases same : id = id₁
      · subst same
        rw [Function.update_self] at present
        obtain ⟨-, rfl⟩ := Prod.mk.inj (Option.some.inj present)
        exact .inl ⟨t₀, before⟩
      · exact .inl ⟨t, by simpa [same] using present⟩
    · exact .inl (kept (failed ok).2)
  | stopTimer id₁ =>
    obtain ⟨-, stopped, failed⟩ := h
    by_cases ok : ret = 0
    · exact .inl (removed id₁ (stopped ok))
    · exact .inl (kept (failed ok).2)
  | tickOneExpireTimer now arg =>
    obtain ⟨-, ticked, idle⟩ := h
    by_cases ok : 0 ≤ ret
    · obtain ⟨-, -, -, -, -, gone⟩ := ticked ok
      exact .inl (removed ret gone)
    · exact .inl (kept (idle (by omega)).2)

theorem timerRun_startedWith {mgr₀ : LiteTimerMgr β} (start : mgr₀.InStep cap)
    (empty : mgr₀.timerMap = fun _ => none) (ops : List (TimerOp β)) (admissible : ∀ op ∈ ops, op.Admissible)
    {id t : Int} {buf : β} (present : (timerRun mgr₀ ops).timerMap id = some (t, buf)) :
    StartedWith mgr₀ ops id buf := by
  induction ops using List.reverseRecOn generalizing t with
  | nil =>
    have none := congrFun empty id
    rw [show timerRun mgr₀ [] = mgr₀ from rfl, none] at present
    cases present
  | append_singleton ops op ih =>
    have before : ∀ op' ∈ ops, op'.Admissible := fun op' mem => admissible op' (by simp [mem])
    obtain ⟨pool, free, used, a, hcap, inv⟩ := timerRun_inStep start ops before
    have served := (timerOp_served inv hcap op (admissible op (by simp))).2
    have last : timerRun mgr₀ (ops ++ [op]) = (op.apply (timerRun mgr₀ ops)).2.2 := by
      simp [timerRun, List.foldl_append]
    have early : ∀ j, j ≤ ops.length → (ops ++ [op]).take j = ops.take j :=
      fun j hj => List.take_append_of_le_length hj
    have after : ∀ j, ops.length < j → j ≤ (ops ++ [op]).length →
        ∃ t', (timerRun mgr₀ ((ops ++ [op]).take j)).timerMap id = some (t', buf) := by
      intro j hj hle
      rw [List.take_of_length_le (by simp; omega)]
      exact ⟨t, present⟩
    rw [last] at present
    rcases served.buf present with ⟨t₀, active⟩ | ⟨rfl, absent⟩
    · obtain ⟨k, t₁, hop, absent, since⟩ := ih before active
      have hk : k < ops.length := (List.getElem?_eq_some_iff.mp hop).1
      refine ⟨k, t₁, by rw [List.getElem?_append_left hk, hop], by rw [early k hk.le]; exact absent, ?_⟩
      intro j hkj hle
      by_cases hj : j ≤ ops.length
      · rw [early j hj]
        exact since j hkj hj
      · exact after j (by omega) hle
    · refine ⟨ops.length, t, by simp, by rw [early _ (Nat.le_refl _), List.take_length]; exact absent, ?_⟩
      intro j hkj hle
      exact after j hkj hle

/-- On every reachable manager, ticking until a negative value comes back ends. It returns the timers
that are due, each once, the earliest first and with the data they were started with, and leaves the
others. -/
theorem drain_complete_ordered {malloc : Nat → Bool} {argSize : Nat} {args : Int → TTimerArg β}
    {mgr₀ : LiteTimerMgr β} (hpos : 1 ≤ cap) (hle : cap ≤ 1073741824)
    (hinit : (LiteTimerMgr.create args).initTimerMgr malloc cap argSize = (0, mgr₀))
    (ops : List (TimerOp β)) (admissible : ∀ op ∈ ops, op.Admissible) (now : Int) (arg : β) :
    ∃ fuel out mgr', (timerRun mgr₀ ops).drain now fuel arg = some (out, mgr') ∧
      Drained now (timerRun mgr₀ ops).timerMap mgr'.timerMap out ∧
      (∀ id buf, (id, buf) ∈ out → StartedWith mgr₀ ops id buf) ∧
      0 ≤ mgr'.getActiveCount ∧ mgr'.getActiveCount + out.length = (timerRun mgr₀ ops).getActiveCount := by
  obtain ⟨pool₀, free₀, hcap₀, inv₀⟩ := initTimerMgr_inv hpos hle hinit
  have start : mgr₀.InStep cap := ⟨pool₀, free₀, [], _, hcap₀, inv₀⟩
  have empty : mgr₀.timerMap = fun _ => none := inv₀.cells.timerMap_ext (by simp)
  have reached := timerRun_inStep start ops admissible
  obtain ⟨fuel, out, mgr', run, hstep, drained, count⟩ := drain_spec reached now arg
  refine ⟨fuel, out, mgr', run, drained, ?_, ?_, ?_⟩
  · intro id buf mem
    obtain ⟨t, present, -⟩ := (drained.due id buf).mp mem
    exact timerRun_startedWith start empty ops admissible present
  · rw [hstep.getActiveCount]
    exact Int.natCast_nonneg _
  · rw [hstep.getActiveCount, reached.getActiveCount, count]
    push_cast
    rfl

def threeTimers : List (TimerOp Nat) := [.startTimer 9 1, .startTimer 5 2, .startTimer 7 3]

theorem drain_complete_ordered_three :
    ∃ mgr₀, (LiteTimerMgr.create fun _ => ⟨0, 0⟩).initTimerMgr (fun _ => true) 3 8 = (0, mgr₀) ∧
      ((timerRun mgr₀ threeTimers).drain 7 3 0).map Prod.fst = some [(4, 2), (5, 3)] ∧
      ∃ fuel out mgr', (timerRun mgr₀ threeTimers).drain 7 fuel 0 = some (out, mgr') ∧
        Drained 7 (timerRun mgr₀ threeTimers).timerMap mgr'.timerMap out := by
  refine ⟨_, rfl, by decide +kernel, ?_⟩
  obtain ⟨fuel, out, mgr', run, drained, -⟩ :=
    @drain_complete_ordered Nat 3 (fun _ => true) 8 (fun _ => ⟨0, 0⟩) _ (by decide) (by decide) rfl
      threeTimers (by simp [threeTimers, TimerOp.Admissible]) 7 0
  exact ⟨fuel, out, mgr', run, drained⟩

end Started

end Wddlib
