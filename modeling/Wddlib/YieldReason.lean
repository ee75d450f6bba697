import Wddlib.ExpireSafety
import Wddlib.CoMgrPunctual

namespace Wddlib

/-- The calls that lead to a `co_resume`. -/
def SweepEvent.resumes : SweepEvent → Bool
  | .resume _ _ => true
  | .processAllExpire _ => true
  | .processPartExpire _ _ => true
  | _ => false

/-- `Resume` and the sweeps are called by the code outside of all coroutines only. -/
def ResumesOutside (m : SCoMgr) (events : List SweepEvent) : Prop :=
  ∀ k e, events[k]? = some e → e.resumes = true → (sweepAt m events k).mgr.sch.owner = none

/-- No `Alloc` of the run counts a slot beyond the last generation whose id is an `int`. -/
def UnwrappedIds (m : SCoMgr) (events : List SweepEvent) : Prop :=
  ∀ k, events[k]? = some .alloc → (sweepAt m events k).mgr.sch.lost = false →
    (sweepAt m events k).sweep (sweepAt m events k).mgr.sch.owner = none → (sweepAt m events k).mgr.Fits

namespace SweepState

variable {s s' : SweepState} {e : SweepEvent} {x : Nat}

/-- A step hands control to the code of `caller`, which waits in a `Yield`. -/
def Wakes (s s' : SweepState) (caller : Option Nat) : Prop :=
  s'.mgr.sch.owner = caller ∧ s.mgr.sch.owner ≠ caller ∧ s'.mgr.sch.arrival = .yield

/-- The time of the sweep that issues the `Resume` of a step. -/
def sweeper (s : SweepState) : SweepEvent → Option Int
  | .loop _ => s.node.map Prod.fst
  | _ => none

/-- What the `Yield` of `caller` returns tells why it was woken. -/
structure TellsReason (s : SweepState) (e : SweepEvent) (caller : Option Nat) (ret : Int) : Prop where
  timeout : ret = yieldTimeout ↔ ∃ tNow, s.sweeper e = some tNow ∧ s.asked caller ≤ tNow
  resumed : ret = 0 ↔ ∃ iPoolID ssize, e = .resume iPoolID ssize
  due : ∀ tNow, s.sweeper e = some tNow → s.asked caller ≤ tNow

/-- Every `Yield` that is woken returns, with the reason; a `Yield` that returns was woken, or it was
refused at once. -/
structure Explains (s : SweepState) (e : SweepEvent) (s' : SweepState) : Prop where
  woken : ∀ caller, s.Wakes s' caller →
    ∃ ret, s'.mgr.log = .yielded caller ret :: s.mgr.log ∧ s.TellsReason e caller ret
  returned : ∀ new caller ret, s'.mgr.log = new ++ s.mgr.log → .yielded caller ret ∈ new →
    s.Wakes s' caller ∨ caller = s.mgr.sch.owner ∧ ret = -1

/-- Coroutines sweep nothing, and who waits does so as `Punctual` says. -/
structure Attentive (s : SweepState) : Prop where
  goes : s.mgr.Goes s.asked
  alone : ∀ x, s.sweep (some x) = none

theorem explains_of_silent (silent : s.mgr.Silent s'.mgr) : s.Explains e s' := by
  obtain ⟨⟨entries, hlog, hno⟩, place⟩ := silent
  refine ⟨?_, ?_⟩
  · rintro caller ⟨howner, hother, harrival⟩
    rcases place with hsame | hplace
    · exact absurd (hsame.symm.trans howner) hother
    · exact absurd harrival hplace
  · intro new caller ret hnew hmem
    obtain rfl := List.append_cancel_right (hlog.symm.trans hnew)
    exact absurd hmem (hno caller ret)

theorem explains_of_same (hlog : s'.mgr.log = s.mgr.log) (howner : s'.mgr.sch.owner = s.mgr.sch.owner) :
    s.Explains e s' :=
  explains_of_silent ⟨⟨[], hlog, by simp⟩, .inl howner⟩

theorem explains_of_entry {entry : MgrLog} (hlog : s'.mgr.log = entry :: s.mgr.log)
    (hno : ∀ caller ret, entry ≠ .yielded caller ret) (howner : s'.mgr.sch.owner = s.mgr.sch.owner) :
    s.Explains e s' := by
  refine explains_of_silent ⟨⟨[entry], hlog, ?_⟩, .inl howner⟩
  intro caller ret hmem
  exact hno caller ret (List.mem_singleton.mp hmem).symm

theorem explains_of_wake {ret : Int} (outside : s.mgr.sch.owner = none) (howner : s'.mgr.sch.owner = some x)
    (harrival : s'.mgr.sch.arrival = .yield) (hlog : s'.mgr.log = .yielded (some x) ret :: s.mgr.log)
    (reason : s.TellsReason e (some x) ret) : s.Explains e s' := by
  refine ⟨?_, ?_⟩
  · rintro caller ⟨hcaller, -, -⟩
    obtain rfl := howner.symm.trans hcaller
    exact ⟨ret, hlog, reason⟩
  · intro new caller ret' hnew hmem
    have hsingle : s'.mgr.log = [.yielded (some x) ret] ++ s.mgr.log := hlog
    obtain rfl := List.append_cancel_right (hsingle.symm.trans hnew)
    obtain ⟨rfl, -⟩ := MgrLog.yielded.inj (List.mem_singleton.mp hmem)
    exact .inl ⟨howner, by rw [outside]; simp, harrival⟩

/-- The code that is in a sweep is that outside of all coroutines. -/
theorem Attentive.sweeping (h : s.Attentive) {sweep : Sweep} (hsweep : s.sweep s.mgr.sch.owner = some sweep) :
    s.mgr.sch.owner = none := by
  cases howner : s.mgr.sch.owner with
  | none => rfl
  | some x =>
    rw [howner, h.alone x] at hsweep
    cases hsweep

theorem outside_of_owner {m : SCoMgr} (turn : m.InTurn) (howner : m.sch.owner = none) : m.sch.control.Outside := by
  rcases turn with ⟨outside, -⟩ | ⟨x, inside, -⟩
  · exact outside
  · have hinside : m.sch.owner = some x := inside.owner
    rw [howner] at hinside
    cases hinside

theorem resume_sweep (s : SweepState) (iPoolID : Int) (ssize : Nat) {y : Option Nat} (h : s.sweep y = none) :
    (s.resume iPoolID ssize).sweep y = none := by
  cases hstarts : s.mgr.starts iPoolID with
  | none =>
    simp only [SweepState.resume, hstarts]
    exact h
  | some pCo =>
    simp only [SweepState.resume, hstarts]
    by_cases hy : y = some pCo
    · rw [hy, Function.update_self]
    · rw [Function.update_of_ne hy]
      exact h

theorem setSweep_sweep (sweep : Option Sweep) (outside : s.mgr.sch.owner = none) (h : ∀ x, s.sweep (some x) = none) :
    ∀ x, (s.setSweep sweep).sweep (some x) = none := by
  intro x
  simp only [setSweep, outside, Function.update_of_ne (Option.some_ne_none x)]
  exact h x

theorem examine_rest (tNow : Int) (node : Option ObjPtr) (ssize : Nat) (h : ∀ x, s.sweep (some x) = none) :
    (s.examine tNow node ssize).asked = s.asked ∧ ∀ x, (s.examine tNow node ssize).sweep (some x) = none := by
  cases node with
  | none => exact ⟨rfl, h⟩
  | some p =>
    simp only [examine]
    split
    · exact ⟨rfl, fun x => resume_sweep _ _ _ (h x)⟩
    · exact ⟨rfl, h⟩

theorem loop_rest (sweep : Sweep) (ssize : Nat) (outside : s.mgr.sch.owner = none) (h : ∀ x, s.sweep (some x) = none) :
    (s.loop ssize sweep).asked = s.asked ∧ ∀ x, (s.loop ssize sweep).sweep (some x) = none := by
  unfold loop
  split
  · split
    · exact ⟨rfl, setSweep_sweep none outside h⟩
    · exact examine_rest _ _ _ (setSweep_sweep _ outside h)
  · exact ⟨rfl, setSweep_sweep _ outside h⟩
  · split
    · exact examine_rest _ _ _ (setSweep_sweep _ outside h)
    · exact ⟨rfl, setSweep_sweep none outside h⟩
  next tNow iEnd =>
    exact ⟨rfl, setSweep_sweep (s := { s with iLastPos := int32 (s.iLastPos + 1) }) _ outside h⟩

/-- A `Resume` that is called finds no mark: what it wakes returns 0. -/
theorem called_resume (punctual : s.mgr.Punctual s.asked none) (outside : s.mgr.sch.control.Outside)
    (turn : s.mgr.InTurn) (iPoolID : Int) (ssize : Nat) (hmgr : s'.mgr = s.mgr.resume iPoolID ssize) :
    s'.mgr.Goes s.asked ∧ s.Explains (.resume iPoolID ssize) s' := by
  cases hget : s.mgr.getCo iPoolID with
  | none =>
    rw [SCoMgr.resume_of_none hget] at hmgr
    refine ⟨?_, explains_of_entry (by rw [hmgr]; rfl) (by simp) (by rw [hmgr]; rfl)⟩
    rw [hmgr]
    exact .inr (punctual.record turn _)
  | some x =>
    obtain ⟨free, used, ledger⟩ := punctual.kept
    obtain ⟨hx, rfl⟩ := ledger.registry.getCo_iff.mp hget
    have hwaits := punctual.waits x (by simp) hget
    have hresume := punctual.spare.resume outside hget (fun hp => (hwaits hp).1) ssize
    rw [← hmgr] at hresume
    obtain ⟨goes, silent | ⟨parked, howner, harrival, hlog⟩⟩ := hresume
    · exact ⟨goes, explains_of_silent silent⟩
    · rw [(hwaits parked).2.1] at hlog
      refine ⟨goes, explains_of_wake outside.owner howner harrival hlog ⟨?_, ?_, ?_⟩⟩
      · simp [sweeper, yieldTimeout]
      · simp
      · simp [sweeper]

/-- A sweep marks whom it resumes: what it wakes returns `YIELD_TIMEOUT`. -/
theorem swept_resume (punctual : s.mgr.Punctual s.asked none) (outside : s.mgr.sch.control.Outside)
    (turn : s.mgr.InTurn) {tNow : Int} (hnode : s.node = some (tNow, x)) (due : (s.mgr.info x).tExpireTime ≤ tNow)
    (ssize : Nat) (hmgr : s'.mgr = (s.mgr.markTimeOut x).resume (s.mgr.info x).iPoolID ssize) :
    s'.mgr.Goes s.asked ∧ s.Explains (.loop ssize) s' := by
  by_cases live : s.mgr.Live x
  · have hwaits := punctual.waits x (by simp) live
    have live' : (s.mgr.markTimeOut x).Live x := by
      unfold SCoMgr.Live
      rw [SCoMgr.markTimeOut_id]
      exact live
    have hresume := (punctual.mark x).resume outside live' (fun hp => (hwaits hp).1) ssize
    rw [SCoMgr.markTimeOut_id, ← hmgr] at hresume
    obtain ⟨goes, silent | ⟨parked, howner, harrival, hlog⟩⟩ := hresume
    · exact ⟨goes, explains_of_silent ⟨silent.log, silent.place⟩⟩
    · have hmarked : ((s.mgr.markTimeOut x).info x).isTimeOut = true := by
        simp [SCoMgr.markTimeOut, SCoMgr.modifyInfo]
      rw [hmarked] at hlog
      rw [(hwaits parked).2.2] at due
      refine ⟨goes, explains_of_wake outside.owner howner harrival hlog ⟨?_, ?_, ?_⟩⟩
      · simp [sweeper, hnode, due]
      · simp [yieldTimeout]
      · simp [sweeper, hnode, due]
  · have hget : (s.mgr.markTimeOut x).getCo (s.mgr.info x).iPoolID = none :=
      punctual.getCo_dead (node_range hnode) live
    have turn' : (s.mgr.markTimeOut x).InTurn := turn
    rw [SCoMgr.resume_of_none hget] at hmgr
    refine ⟨?_, explains_of_entry (by rw [hmgr]; rfl) (by simp) (by rw [hmgr]; rfl)⟩
    rw [hmgr]
    exact .inr ((punctual.mark_dead live).record turn' _)

theorem Attentive.loop (h : s.Attentive) (punctual : s.mgr.Punctual s.asked none) (turn : s.mgr.InTurn) {sweep : Sweep}
    (hsweep : s.sweep s.mgr.sch.owner = some sweep) (ssize : Nat) :
    (s.loop ssize sweep).Attentive ∧ s.Explains (.loop ssize) (s.loop ssize sweep) := by
  have howner := h.sweeping hsweep
  have outside := outside_of_owner turn howner
  obtain ⟨hasked, alone⟩ := loop_rest sweep ssize howner h.alone
  have hmgr := loop_mgr hsweep ssize
  have same : (s.loop ssize sweep).mgr = s.mgr →
      (s.loop ssize sweep).Attentive ∧ s.Explains (.loop ssize) (s.loop ssize sweep) := by
    intro heq
    refine ⟨⟨?_, alone⟩, explains_of_same (by rw [heq]) (by rw [heq])⟩
    rw [heq, hasked]
    exact h.goes
  cases hnode : s.node with
  | none =>
    rw [hnode] at hmgr
    exact same hmgr
  | some node =>
    obtain ⟨tNow, x⟩ := node
    rw [hnode] at hmgr
    dsimp only at hmgr
    split at hmgr
    next due =>
      obtain ⟨goes, explains⟩ := swept_resume punctual outside turn hnode due ssize hmgr
      rw [← hasked] at goes
      exact ⟨⟨goes, alone⟩, explains⟩
    next => exact same hmgr

theorem Attentive.yield (h : s.Attentive) (punctual : s.mgr.Punctual s.asked none) (turn : s.mgr.InTurn)
    (expiretime : Int) (ssize : Nat) :
    (s.yield expiretime ssize).Attentive ∧ s.Explains (.yield expiretime ssize) (s.yield expiretime ssize) := by
  have hstep : (s.yield expiretime ssize).mgr = s.mgr.yield expiretime ssize :=
    SCoMgr.step_alive turn.alive (.yield expiretime ssize)
  have hasked : (s.yield expiretime ssize).asked = Function.update s.asked s.mgr.sch.owner expiretime := rfl
  have refused : s.mgr.getCo s.mgr.iRunningID = none → (s.yield expiretime ssize).Attentive ∧
      s.Explains (.yield expiretime ssize) (s.yield expiretime ssize) := by
    intro hget
    rw [SCoMgr.yield_of_none hget] at hstep
    refine ⟨⟨?_, h.alone⟩, ?_, ?_⟩
    · rw [hasked, hstep]
      exact .inr ((punctual.reask turn expiretime).record turn _)
    · rintro caller ⟨hcaller, hother, -⟩
      rw [hstep] at hcaller
      exact absurd hcaller hother
    · intro new caller ret hnew hmem
      rw [hstep] at hnew
      have hsingle : [.yielded s.mgr.sch.owner (-1)] ++ s.mgr.log = new ++ s.mgr.log := hnew
      obtain rfl := List.append_cancel_right hsingle
      obtain ⟨rfl, rfl⟩ := MgrLog.yielded.inj (List.mem_singleton.mp hmem)
      exact .inr ⟨rfl, rfl⟩
  rcases turn with ⟨outside, spent⟩ | ⟨x, inside, ⟨id, y, hwaits⟩, hslot⟩
  · exact refused (spent.getCo_none punctual.kept)
  · cases hget : s.mgr.getCo s.mgr.iRunningID with
    | none => exact refused hget
    | some z =>
      obtain ⟨free, used, ledger⟩ := punctual.kept
      obtain rfl : z = x := Int.ofNat.inj ((ledger.registry.getCo_slot hget).2.1.symm.trans hslot)
      obtain ⟨there, turn', silent⟩ := punctual.yield_inside inside hwaits hget expiretime ssize
      have howner : s.mgr.sch.owner = some z := inside.owner
      rw [← howner, ← hasked, ← hstep] at there
      rw [← hstep] at turn' silent
      exact ⟨⟨.inr ⟨there, turn'⟩, h.alone⟩, explains_of_silent silent⟩

theorem Attentive.alloc (h : s.Attentive) (punctual : s.mgr.Punctual s.asked none) (turn : s.mgr.InTurn)
    (fits : s.mgr.Fits) : s.alloc.Attentive ∧ s.Explains .alloc s.alloc := by
  obtain ⟨there, turn', hlog, howner⟩ := punctual.alloc turn fits
  have hstep : s.alloc.mgr = s.mgr.alloc.2.record (.allocated s.mgr.alloc.1) := SCoMgr.step_alive turn.alive .alloc
  have hlog' : s.alloc.mgr.log = .allocated s.mgr.alloc.1 :: s.mgr.log := by
    rw [hstep]
    simp only [SCoMgr.record, hlog]
  refine ⟨⟨?_, h.alone⟩, explains_of_entry hlog' (by simp) ?_⟩
  · rw [hstep]
    exact .inr (there.record turn' _)
  · rw [hstep]
    exact howner

theorem Attentive.ret (h : s.Attentive) (punctual : s.mgr.Punctual s.asked none) (turn : s.mgr.InTurn) :
    Attentive { s with mgr := s.mgr.finish } ∧ s.Explains .ret { s with mgr := s.mgr.finish } := by
  rcases turn with ⟨outside, -⟩ | ⟨x, inside, ⟨id, y, hwaits⟩, -⟩
  · have howner : s.mgr.sch.owner = none := outside.owner
    have hsame : s.mgr.finish = s.mgr := by simp only [SCoMgr.finish, howner]
    rw [hsame]
    exact ⟨h, explains_of_same rfl rfl⟩
  · obtain ⟨there, turn', silent⟩ := punctual.finish_inside inside hwaits
    exact ⟨⟨.inr ⟨there, turn'⟩, h.alone⟩, explains_of_silent silent⟩

theorem Attentive.release (h : s.Attentive) (punctual : s.mgr.Punctual s.asked none) (turn : s.mgr.InTurn)
    (iPoolID ret : Int) :
    Attentive { s with mgr := (s.mgr.release iPoolID).2.record (.released iPoolID ret) } ∧
      s.Explains (.release iPoolID) { s with mgr := (s.mgr.release iPoolID).2.record (.released iPoolID ret) } := by
  obtain ⟨there, turn'⟩ := punctual.release turn iPoolID
  have hlog : ((s.mgr.release iPoolID).2.record (.released iPoolID ret)).log = .released iPoolID ret :: s.mgr.log := by
    simp only [SCoMgr.record, (SCoMgr.release_rest s.mgr iPoolID).1]
  refine ⟨⟨.inr (there.record turn' _), h.alone⟩, explains_of_entry hlog (by simp) ?_⟩
  exact congrArg Control.owner (SCoMgr.release_control s.mgr iPoolID)

/-- One step: who waits goes on waiting as before, and who is woken is told the reason. -/
theorem Attentive.step (h : s.Attentive) (e : SweepEvent) (outside : e.resumes = true → s.mgr.sch.owner = none)
    (fits : e = .alloc → s.mgr.sch.lost = false → s.sweep s.mgr.sch.owner = none → s.mgr.Fits) :
    (s.step e).Attentive ∧ s.Explains e (s.step e) := by
  unfold SweepState.step
  cases alive : s.mgr.sch.lost with
  | true => exact ⟨h, explains_of_same rfl rfl⟩
  | false =>
    obtain ⟨punctual, turn⟩ := h.goes.resolve_left (by simp [alive])
    simp only [Bool.false_eq_true, if_false]
    split
    next sweep ssize hsweep => exact h.loop punctual turn hsweep ssize
    next => exact ⟨h, explains_of_same rfl rfl⟩
    next hsweep => exact h.alloc punctual turn (fits rfl alive hsweep)
    next iPoolID ssize _ =>
      have hout := outside_of_owner turn (outside rfl)
      obtain ⟨goes, explains⟩ := @called_resume s (s.resume iPoolID ssize) punctual hout turn iPoolID ssize rfl
      exact ⟨⟨goes, fun x => resume_sweep s iPoolID ssize (h.alone x)⟩, explains⟩
    next expiretime ssize _ => exact h.yield punctual turn expiretime ssize
    next =>
      rw [SCoMgr.step_alive alive]
      exact h.ret punctual turn
    next iPoolID _ =>
      rw [SCoMgr.step_alive alive]
      exact h.release punctual turn iPoolID _
    next => exact ⟨⟨h.goes, setSweep_sweep _ (outside rfl) h.alone⟩, explains_of_same rfl rfl⟩
    next tNow n _ =>
      refine ⟨⟨h.goes, ?_⟩, explains_of_same rfl rfl⟩
      exact setSweep_sweep (s := { s with iLastPos := partStart (objpoolGetSize s.mgr.pool) s.iLastPos }) _
        (outside rfl) h.alone
    next => exact ⟨h, explains_of_same rfl rfl⟩

end SweepState

theorem SCoMgr.Initial.attentive {m : SCoMgr} (start : m.Initial) : (SweepState.create m).Attentive := by
  refine ⟨.inr ⟨⟨start.created.kept.1, ?_, ?_⟩, .inl ⟨?_, .inl ?_⟩⟩, fun _ => rfl⟩
  all_goals
    obtain ⟨malloc, cap, unit, pool, iStackSize, iMode, firststack, secondstack, hpos, hle, hinit, rfl⟩ := start
  · intro x _ _
    rfl
  · rintro x _ _ ⟨-, ⟨⟩⟩
  · exact Control.create_outside _ _ _
  · rfl

/-- Where only the code outside of all coroutines resumes and sweeps and ids do not wrap, every `Yield`
that is woken returns with the reason. -/
theorem yield_tells_reason {m : SCoMgr} (start : m.Initial) {events : List SweepEvent}
    (outside : ResumesOutside m events) (unwrapped : UnwrappedIds m events) {k : Nat} {e : SweepEvent}
    (he : events[k]? = some e) : (sweepAt m events k).Explains e (sweepAt m events (k + 1)) := by
  have step : ∀ k e, events[k]? = some e → (sweepAt m events k).Attentive →
      ((sweepAt m events k).step e).Attentive ∧ (sweepAt m events k).Explains e ((sweepAt m events k).step e) := by
    intro k e he h
    refine h.step e (outside k e he) ?_
    rintro rfl
    exact unwrapped k he
  have attentive : (sweepAt m events k).Attentive :=
    stateAt_induct start.attentive (fun k e he h => (step k e he h).1) k
  have hnext : sweepAt m events (k + 1) = (sweepAt m events k).step e := stateAt_succ he
  rw [hnext]
  exact (step k e he attentive).2

/-- A coroutine waits until 5, is left alone by a sweep at 4 and resumed; it waits until 6 and is swept
at 6. -/
def reasonRun : List SweepEvent :=
  [.alloc, .resume 2 0, .yield 5 0, .processAllExpire 4, .loop 0, .loop 0, .loop 0, .resume 2 0, .yield 6 0,
    .processPartExpire 6 2, .loop 0]

theorem yield_tells_reason_twice :
    (sweepAt smallMgr reasonRun 7).Explains (.resume 2 0) (sweepAt smallMgr reasonRun 8) ∧
      (sweepAt smallMgr reasonRun 8).mgr.log = .yielded (some 0) 0 :: (sweepAt smallMgr reasonRun 7).mgr.log ∧
      (sweepAt smallMgr reasonRun 10).Explains (.loop 0) (sweepAt smallMgr reasonRun 11) ∧
      (sweepAt smallMgr reasonRun 11).mgr.log =
        .yielded (some 0) yieldTimeout :: (sweepAt smallMgr reasonRun 10).mgr.log := by
  have outside : ResumesOutside smallMgr reasonRun := forall_event_iff.mpr (by decide +kernel)
  have unwrapped : UnwrappedIds smallMgr reasonRun := by
    intro k he
    rcases k with _ | k
    · exact fun _ _ _ => by decide +kernel
    · have hlate : ∀ e ∈ reasonRun.tail, e ≠ .alloc := by decide
      exact absurd rfl (hlate .alloc (List.mem_of_getElem? he))
  exact ⟨yield_tells_reason smallMgr_initial outside unwrapped rfl, by decide +kernel,
    yield_tells_reason smallMgr_initial outside unwrapped rfl, by decide +kernel⟩

end Wddlib
