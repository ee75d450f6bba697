import Wddlib.CoMgrTrail
import Wddlib.MainControl

namespace Wddlib

namespace SCoMgr

variable {m m' : SCoMgr} {x y : Nat} {id : Int} {asked : Option Nat → Int}

/-- A coroutine that has yielded is in its `Yield`, whose argument is the deadline in its slot and which
no sweep has marked. A slot that was never given out has the id 0. `marked` is a slot that a sweep is
about to resume. -/
structure Punctual (m : SCoMgr) (asked : Option Nat → Int) (marked : Option Nat) : Prop where
  kept : m.Kept
  blank : ∀ x : Nat, (x : Int) < m.pool.capacity → (m.pool.idx x).accumulate = 0 → (m.info x).iPoolID = 0
  waits : ∀ x, marked ≠ some x → m.Live x → m.sch.control.Parked x →
    m.frame (some x) = some (.yield x) ∧ (m.info x).isTimeOut = false ∧ (m.info x).tExpireTime = asked (some x)

/-- Either the code outside executes, or a coroutine that it has resumed. -/
def InTurn (m : SCoMgr) : Prop :=
  m.sch.control.Outside ∧ m.Spent m.iRunningID ∨
    ∃ x, m.sch.control.Inside x ∧ (∃ id y, m.frame none = some (.resume id y)) ∧ m.iRunningID % m.pool.capacity = x

theorem Punctual.trails (h : m.Punctual asked none) (trails : m.Trails m') : m'.Punctual asked none := by
  refine ⟨trails.follows.kept, ?_, ?_⟩
  · intro x hx unborn
    rw [trails.follows.capacity] at hx
    rw [trails.follows.accumulate] at unborn
    rw [trails.info]
    exact h.blank x hx unborn
  · intro x hx live parked
    unfold Live at live
    rw [trails.info] at live
    rw [trails.control] at parked
    rw [trails.frames, trails.info]
    exact h.waits x hx (trails.getCo _ _ live) parked

/-- No `Yield` returns and none is woken. -/
structure Silent (m m' : SCoMgr) : Prop where
  log : ∃ entries, m'.log = entries ++ m.log ∧ ∀ caller ret, .yielded caller ret ∉ entries
  place : m'.sch.owner = m.sch.owner ∨ m'.sch.arrival ≠ .yield

/-- What a step leaves behind. -/
def Goes (m : SCoMgr) (asked : Option Nat → Int) : Prop :=
  m.sch.lost = true ∨ m.Punctual asked none ∧ m.InTurn

/-- Control is back with the code outside. -/
theorem Punctual.goOn (h : m.Punctual asked none) (outside : m.sch.control.Outside)
    (arrival : m.sch.arrival = .resume y) (frame : m.frame none = some (.resume id x)) :
    m.goOn.Punctual asked none ∧ m.goOn.InTurn ∧ m.Silent m.goOn := by
  obtain ⟨trails, hzero⟩ := h.kept.goOn_outside outside.owner arrival frame
  refine ⟨h.trails trails, .inl ⟨?_, .inl hzero⟩, goOn_log frame (.inl outside.owner), .inl ?_⟩
  · rw [trails.control]
    exact outside
  · exact congrArg Control.owner trails.control

/-- The coroutine that is about to be resumed gives up its place among those that wait. -/
theorem Punctual.resumes (h : m.Punctual asked (some x)) (hpool : m'.pool = m.pool) (hinfo : m'.info = m.info)
    (hframe : ∀ y, y ≠ x → m'.frame (some y) = m.frame (some y))
    (parked : ∀ y, m'.sch.control.Parked y → y ≠ x ∧ m.sch.control.Parked y) : m'.Punctual asked none := by
  have hget : ∀ id, m'.getCo id = m.getCo id := by
    intro id
    unfold getCo
    rw [hpool]
  refine ⟨(h.kept.same hpool fun y => by rw [hinfo]).kept, ?_, ?_⟩
  · rw [hpool, hinfo]
    exact h.blank
  · intro y _ live hy
    obtain ⟨hyx, hold⟩ := parked y hy
    unfold Live at live
    rw [hinfo, hget] at live
    rw [hframe y hyx, hinfo]
    exact h.waits y (fun heq => hyx (Option.some.inj heq).symm) live hold

theorem not_parked_of_outside (outside : m.sch.control.Outside) (running : m.sch.control.pRunCo = some x)
    (parked : m.sch.control.Parked y) : y ≠ x := by
  rintro rfl
  exact outside.idle y running parked.2

theorem Punctual.spare (h : m.Punctual asked none) : m.Punctual asked (some x) :=
  ⟨h.kept, h.blank, fun y _ => h.waits y (by simp)⟩

/-- `co_resume` has failed: the coroutine is released. -/
theorem Punctual.resume_refused (h : m.Punctual asked (some x)) (outside : m.sch.control.Outside)
    (hget : m.getCo id = some x) {sch : CoMachine} (hcontrol : sch.control = m.sch.control.resume x)
    (refused : ¬ ((m.sch.control.link x).status x = .ready ∨ (m.sch.control.link x).status x = .suspend))
    (entry : MgrLog) :
    ((release { m with iRunningID := id, sch := sch } id).2.record entry).Punctual asked none ∧
      ((release { m with iRunningID := id, sch := sch } id).2.record entry).InTurn ∧
      ((release { m with iRunningID := id, sch := sch } id).2.record entry).log = entry :: m.log ∧
      ((release { m with iRunningID := id, sch := sch } id).2.record entry).sch.owner = m.sch.owner := by
  obtain ⟨ready, suspend⟩ := not_or.mp refused
  obtain ⟨outside', parked⟩ := outside.resume_refused ready suspend
  have hrunning := Control.resume_pRunCo m.sch.control x
  rw [← hcontrol] at outside' parked hrunning
  have failed : Punctual { m with iRunningID := id, sch := sch } asked none :=
    h.resumes rfl rfl (fun _ _ => rfl) fun y hy =>
      ⟨@not_parked_of_outside { m with sch := sch } x y outside' hrunning hy, parked y hy⟩
  have released := failed.kept.trails_release id
  have recorded := released.follows.kept.trails_record entry
  obtain ⟨hlog, hid, -⟩ := release_rest { m with iRunningID := id, sch := sch } id
  have hsame := (released.trans recorded).control
  have spent := (@Kept.spent_release { m with iRunningID := id, sch := sch } x id failed.kept hget).trails recorded
  refine ⟨failed.trails (released.trans recorded), .inl ⟨?_, ?_⟩, ?_, ?_⟩
  · rw [hsame]
    exact outside'
  · change Spent _ (release { m with iRunningID := id, sch := sch } id).2.iRunningID
    rw [hid]
    exact spent
  · simp only [SCoMgr.record, hlog]
  · exact ((congrArg Control.owner hsame).trans outside'.owner).trans outside.owner.symm

theorem given_frames (outside : m.sch.control.Outside) (x ssize : Nat) :
    (m.given x ssize).frame none = some (.resume (m.info x).iPoolID x) ∧
      ∀ y, (m.given x ssize).frame (some y) = m.frame (some y) := by
  have howner : m.sch.owner = none := outside.owner
  simp only [SCoMgr.given, howner]
  exact ⟨Function.update_self _ _ _, fun y => Function.update_of_ne (Option.some_ne_none y) _ _⟩

/-- Where control does not arrive in a `Yield`, none returns. -/
theorem given_silent (outside : m.sch.control.Outside) {ssize : Nat}
    (place : (m.given x ssize).sch.owner = none ∨ (m.given x ssize).sch.arrival ≠ .yield) :
    m.Silent (m.given x ssize).goOn := by
  have howner : m.sch.owner = none := outside.owner
  have hback := (m.given x ssize).goOn_control
  have hback_owner : (m.given x ssize).goOn.sch.owner = (m.given x ssize).sch.owner := congrArg Control.owner hback
  have hback_arrival : (m.given x ssize).goOn.sch.arrival = (m.given x ssize).sch.arrival :=
    congrArg Control.arrival hback
  refine ⟨goOn_log (given_frames outside x ssize).1 place, ?_⟩
  rw [hback_owner, hback_arrival, howner]
  exact place

/-- The function of `x` starts. -/
theorem Punctual.given_started (h : m.Punctual asked (some x)) (outside : m.sch.control.Outside) (live : m.Live x)
    {ssize : Nat} (inside : (m.given x ssize).sch.control.Inside x) (arrival : (m.given x ssize).sch.arrival = .start)
    (parked : ∀ y, (m.given x ssize).sch.control.Parked y → m.sch.control.Parked y) :
    (m.given x ssize).goOn.Punctual asked none ∧ (m.given x ssize).goOn.InTurn := by
  obtain ⟨hcaller, hothers⟩ := given_frames outside x ssize
  have hsame : (m.given x ssize).goOn = m.given x ssize := by simp only [SCoMgr.goOn, arrival]
  rw [hsame]
  refine ⟨h.resumes rfl rfl (fun y _ => hothers y) fun y hy => ⟨inside.parked_ne hy, parked y hy⟩, ?_⟩
  exact .inr ⟨x, inside, ⟨_, x, hcaller⟩, h.kept.slot_of_live live⟩

/-- The `Yield` that `x` waits in returns. -/
theorem Punctual.given_woken (h : m.Punctual asked (some x)) (outside : m.sch.control.Outside) (live : m.Live x)
    (hframe : m.frame (some x) = some (.yield x)) {ssize : Nat} (inside : (m.given x ssize).sch.control.Inside x)
    (arrival : (m.given x ssize).sch.arrival = .yield)
    (parked : ∀ y, (m.given x ssize).sch.control.Parked y → m.sch.control.Parked y) :
    (m.given x ssize).goOn.Punctual asked none ∧ (m.given x ssize).goOn.InTurn ∧
      (m.given x ssize).goOn.log =
        .yielded (some x) (if (m.info x).isTimeOut then yieldTimeout else 0) :: m.log := by
  obtain ⟨hcaller, hothers⟩ := given_frames outside x ssize
  have hplace : (m.given x ssize).sch.owner = some x := inside.owner
  have hwaits : (m.given x ssize).frame (some x) = some (.yield x) := by rw [hothers, hframe]
  rw [goOn_yield hplace arrival hwaits]
  refine ⟨h.resumes rfl rfl ?_ fun y hy => ⟨inside.parked_ne hy, parked y hy⟩,
    .inr ⟨x, inside, ⟨(m.info x).iPoolID, x, ?_⟩, h.kept.slot_of_live live⟩, rfl⟩
  · intro y hyx
    have hne : some y ≠ some x := fun heq => hyx (Option.some.inj heq)
    simp only [Function.update_of_ne hne, hothers]
  · simp only [Function.update_of_ne (Option.some_ne_none x).symm]
    exact hcaller

/-- `co_resume` has given control away. -/
theorem Punctual.resume_given (h : m.Punctual asked (some x)) (outside : m.sch.control.Outside) (live : m.Live x)
    (hframe : m.sch.control.Parked x → m.frame (some x) = some (.yield x)) (ssize : Nat)
    (can : (m.sch.control.link x).status x = .ready ∨ (m.sch.control.link x).status x = .suspend) :
    (m.given x ssize).goOn.Goes asked ∧
      (m.Silent (m.given x ssize).goOn ∨
        m.sch.control.Parked x ∧ (m.given x ssize).goOn.sch.owner = some x ∧
          (m.given x ssize).goOn.sch.arrival = .yield ∧
          (m.given x ssize).goOn.log =
            .yielded (some x) (if (m.info x).isTimeOut then yieldTimeout else 0) :: m.log) := by
  have given : (m.given x ssize).sch.control = m.sch.control.resume x := CoMachine.control_coResume _ _ _
  obtain ⟨handed, parked⟩ := outside.resume_given can
  have hrunning := Control.resume_pRunCo m.sch.control x
  rw [← given] at handed parked hrunning
  obtain ⟨hcaller, hothers⟩ := given_frames outside x ssize
  have hback := (m.given x ssize).goOn_control
  cases handed with
  | lost lost place =>
    refine ⟨.inl ((congrArg Control.lost hback).trans lost), .inl (given_silent outside ?_)⟩
    rcases place with hplace | hplace
    · exact .inl hplace
    · have harrival : (m.given x ssize).sch.arrival = .finished := hplace
      exact .inr (by rw [harrival]; simp)
  | back outside' arrival =>
    have there : (m.given x ssize).Punctual asked none :=
      h.resumes rfl rfl (fun y _ => hothers y) fun y hy =>
        ⟨not_parked_of_outside outside' hrunning hy, parked outside'.alive y hy⟩
    obtain ⟨after, turn, -⟩ := there.goOn outside' arrival hcaller
    exact ⟨.inr ⟨after, turn⟩, .inl (given_silent outside (.inl outside'.owner))⟩
  | started inside arrival =>
    have harrival : (m.given x ssize).sch.arrival = .start := arrival
    refine ⟨.inr (h.given_started outside live inside arrival (parked inside.alive)), .inl (given_silent outside ?_)⟩
    exact .inr (by rw [harrival]; simp)
  | woken waits alone inside arrival =>
    obtain ⟨there, turn, hlog⟩ := h.given_woken outside live (hframe waits) inside arrival (parked inside.alive)
    exact ⟨.inr ⟨there, turn⟩, .inr ⟨waits, (congrArg Control.owner hback).trans inside.owner,
      (congrArg Control.arrival hback).trans arrival, hlog⟩⟩

/-- `Resume` from outside of all coroutines: no `Yield` returns but that of the coroutine it resumes. -/
theorem Punctual.resume (h : m.Punctual asked (some x)) (outside : m.sch.control.Outside) (live : m.Live x)
    (hframe : m.sch.control.Parked x → m.frame (some x) = some (.yield x)) (ssize : Nat) :
    (m.resume (m.info x).iPoolID ssize).Goes asked ∧
      (m.Silent (m.resume (m.info x).iPoolID ssize) ∨
        m.sch.control.Parked x ∧ (m.resume (m.info x).iPoolID ssize).sch.owner = some x ∧
          (m.resume (m.info x).iPoolID ssize).sch.arrival = .yield ∧
          (m.resume (m.info x).iPoolID ssize).log =
            .yielded (some x) (if (m.info x).isTimeOut then yieldTimeout else 0) :: m.log) := by
  have hcontrol := CoMachine.control_coResume m.sch x ssize
  have hwhen := CoMachine.coResume_eq_none_iff m.sch x ssize
  cases hret : (m.sch.coResume x ssize).1 with
  | none =>
    rw [resume_eq_given live hret]
    exact h.resume_given outside live hframe ssize (hwhen.mp hret)
  | some code =>
    have refused := mt hwhen.mpr (by simp [hret])
    have hget : m.getCo (m.info x).iPoolID = some x := live
    have hpair : m.sch.coResume x ssize = (some code, (m.sch.coResume x ssize).2) := Prod.ext hret rfl
    obtain ⟨there, turn, hlog, hplace⟩ :=
      h.resume_refused outside live hcontrol refused (.resumed m.sch.owner (m.info x).iPoolID (-2))
    simp only [SCoMgr.resume, hget]
    rw [hpair]
    exact ⟨.inr ⟨there, turn⟩, .inl ⟨⟨[_], hlog, by simp⟩, .inl hplace⟩⟩

theorem InTurn.trails (h : m.InTurn) (trails : m.Trails m') (hid : m'.iRunningID = m.iRunningID)
    (hframe : m'.frame none = m.frame none) : m'.InTurn := by
  rcases h with ⟨outside, spent⟩ | ⟨x, inside, hwaits, hslot⟩
  · refine .inl ⟨?_, ?_⟩
    · rw [trails.control]
      exact outside
    · rw [hid]
      exact spent.trails trails
  · refine .inr ⟨x, ?_, ?_, ?_⟩
    · rw [trails.control]
      exact inside
    · rw [hframe]
      exact hwaits
    · rw [hid, trails.follows.capacity]
      exact hslot

theorem InTurn.alive (h : m.InTurn) : m.sch.lost = false := by
  rcases h with ⟨outside, -⟩ | ⟨x, inside, -⟩
  · exact outside.alive
  · exact inside.alive

/-- No one who waits executes. -/
theorem InTurn.parked_ne (h : m.InTurn) (parked : m.sch.control.Parked x) : some x ≠ m.sch.owner := by
  rcases h with ⟨outside, -⟩ | ⟨y, inside, -⟩
  · have howner : m.sch.owner = none := outside.owner
    rw [howner]
    simp
  · have howner : m.sch.owner = some y := inside.owner
    rw [howner]
    exact fun heq => inside.parked_ne parked (Option.some.inj heq)

theorem Punctual.record (h : m.Punctual asked none) (turn : m.InTurn) (entry : MgrLog) :
    (m.record entry).Punctual asked none ∧ (m.record entry).InTurn :=
  ⟨h.trails (h.kept.trails_record entry), turn.trails (h.kept.trails_record entry) rfl rfl⟩

theorem Punctual.release (h : m.Punctual asked none) (turn : m.InTurn) (id : Int) :
    (m.release id).2.Punctual asked none ∧ (m.release id).2.InTurn := by
  have trails := h.kept.trails_release id
  obtain ⟨-, hid, hframe⟩ := release_rest m id
  exact ⟨h.trails trails, turn.trails trails hid (by rw [hframe])⟩

theorem Punctual.reask (h : m.Punctual asked none) (turn : m.InTurn) (expiretime : Int) :
    m.Punctual (Function.update asked m.sch.owner expiretime) none := by
  refine ⟨h.kept, h.blank, ?_⟩
  intro x hx live parked
  rw [Function.update_of_ne (turn.parked_ne parked)]
  exact h.waits x hx live parked

/-- The coroutine that executes gives control back in a `Yield`. -/
theorem Punctual.yield_inside (h : m.Punctual asked none) (inside : m.sch.control.Inside x)
    (hwaits : m.frame none = some (.resume id y)) (hget : m.getCo m.iRunningID = some x) (expiretime : Int)
    (ssize : Nat) :
    (m.yield expiretime ssize).Punctual (Function.update asked (some x) expiretime) none ∧
      (m.yield expiretime ssize).InTurn ∧ m.Silent (m.yield expiretime ssize) := by
  have howner : m.sch.owner = some x := inside.owner
  have hrun : m.sch.pRunCo = some x := inside.running
  have hrun' : m.sch.control.pRunCo = some x := inside.running
  have hcontrol := CoMachine.control_coYield m.sch ssize
  simp only [Control.yield, hrun'] at hcontrol
  obtain ⟨outside, arrival, parked⟩ := inside.switchBack (.inl ⟨rfl, rfl⟩)
  rw [← hcontrol] at outside arrival parked
  have hpair : m.sch.coYield ssize = (none, (m.sch.coYield ssize).2) := by
    simp only [CoMachine.coYield, hrun]
  generalize (m.sch.coYield ssize).2 = sch at *
  let info := Function.update m.info x { m.info x with tExpireTime := expiretime, isTimeOut := false }
  have heq : m.yield expiretime ssize = SCoMgr.goOn
      { m with sch := sch, info := info, frame := Function.update m.frame (some x) (some (.yield x)) } := by
    simp only [SCoMgr.yield, hget, SCoMgr.modifyInfo, hpair, howner]
    rfl
  have hids : ∀ y, (info y).iPoolID = (m.info y).iPoolID := fun y =>
    modifyInfo_id m x y (f := fun i => { i with tExpireTime := expiretime, isTimeOut := false }) rfl
  have there : Punctual
      { m with sch := sch, info := info, frame := Function.update m.frame (some x) (some (.yield x)) }
      (Function.update asked (some x) expiretime) none := by
    refine ⟨Follows.kept (h.kept.same rfl hids), ?_, ?_⟩
    · intro y hy unborn
      rw [hids]
      exact h.blank y hy unborn
    · intro y _ live hy
      rcases parked y hy with ⟨rfl, -⟩ | ⟨hyx, hold⟩
      · simp only [info, Function.update_self, and_self]
      · have hne : some y ≠ some x := fun heq => hyx (Option.some.inj heq)
        unfold Live at live
        rw [hids] at live
        simp only [info, Function.update_of_ne hne, Function.update_of_ne hyx]
        exact h.waits y (by simp) live hold
  have hnone : Function.update m.frame (some x) (some (.yield x)) none = some (.resume id y) := by
    rw [Function.update_of_ne (Option.some_ne_none x).symm, hwaits]
  obtain ⟨after, turn, silent⟩ := there.goOn outside arrival hnone
  rw [heq]
  exact ⟨after, turn, silent.log, .inr (goOn_arrival_ne arrival)⟩

/-- The function of the coroutine that executes returns. -/
theorem Punctual.finish_inside (h : m.Punctual asked none) (inside : m.sch.control.Inside x)
    (hwaits : m.frame none = some (.resume id y)) :
    m.finish.Punctual asked none ∧ m.finish.InTurn ∧ m.Silent m.finish := by
  have howner : m.sch.owner = some x := inside.owner
  obtain ⟨outside, arrival, parked⟩ := inside.switchBack (.inr ⟨rfl, rfl⟩)
  rw [← CoMachine.control_process] at outside arrival parked
  have there : Punctual { m with sch := m.sch.process x, log := .finished (m.info x).iPoolID :: m.log } asked none := by
    refine ⟨Follows.kept (h.kept.same rfl fun _ => rfl), h.blank, ?_⟩
    intro y _ live hy
    rcases parked y hy with ⟨-, hno⟩ | ⟨-, hold⟩
    · cases hno
    · exact h.waits y (by simp) live hold
  obtain ⟨after, turn, silent⟩ := there.goOn outside arrival hwaits
  have heq : m.finish =
      SCoMgr.goOn { m with sch := m.sch.process x, log := .finished (m.info x).iPoolID :: m.log } := by
    simp only [SCoMgr.finish, howner]
    rfl
  rw [heq]
  refine ⟨after, turn, ?_, .inr (goOn_arrival_ne arrival)⟩
  obtain ⟨entries, hlog, hno⟩ := silent.log
  refine ⟨entries ++ [.finished (m.info x).iPoolID], ?_, ?_⟩
  · rw [hlog]
    simp
  · intro caller ret hmem
    rcases List.mem_append.mp hmem with hmem | hmem
    · exact hno caller ret hmem
    · simp at hmem

theorem Punctual.alloc (h : m.Punctual asked none) (turn : m.InTurn) (fits : m.Fits) :
    m.alloc.2.Punctual asked none ∧ m.alloc.2.InTurn ∧ m.alloc.2.log = m.log ∧
      m.alloc.2.sch.owner = m.sch.owner := by
  have spent : ∀ id, m.Spent id → m.alloc.2.Spent id := fun id hspent => hspent.alloc h.kept fits
  obtain ⟨free, used, ledger⟩ := h.kept
  rcases ledger.alloc with full | ⟨x, pool', hx, hrange, heq, -, hcap, hacc, -, -, -, rest, ledger'⟩
  · rw [full]
    exact ⟨h, turn, rfl, rfl⟩
  · obtain ⟨hframe, hrunning, hlog, hinfo, hpool⟩ := initCo_fields { m with pool := pool' } m.alloc.1 x
    have hcontrol : m.alloc.2.sch.control = m.sch.control.init x := by
      rw [heq]
      exact initCo_control _ _ _
    rw [← heq] at hframe hrunning hlog hinfo hpool
    have howner : m.alloc.2.sch.owner = m.sch.owner := congrArg Control.owner hcontrol
    refine ⟨⟨⟨rest, _, ledger'⟩, ?_, ?_⟩, ?_, hlog, howner⟩
    · intro y hy unborn
      by_cases hyx : y = x
      · subst hyx
        have born := ledger'.registry.born y (by simp)
        omega
      · have hne : (y : Int) ≠ x := fun heq => hyx (Int.ofNat.inj heq)
        rw [hpool] at hy unborn
        dsimp only at hy unborn
        rw [hcap] at hy
        rw [hacc _ hne] at unborn
        rw [hinfo, Function.update_of_ne hyx]
        exact h.blank y hy unborn
    · intro y hy live parked
      rw [hcontrol] at parked
      obtain ⟨hyx, parked⟩ := Control.parked_of_init parked
      obtain ⟨hmem, -⟩ := ledger'.registry.getCo_iff.mp live
      have hused := (List.mem_cons.mp hmem).resolve_left fun heq => hyx (Int.ofNat.inj heq)
      rw [hframe, hinfo, Function.update_of_ne hyx]
      exact h.waits y hy (ledger.registry.getCo_iff.mpr ⟨hused, rfl⟩) parked
    · rcases turn with ⟨outside, hspent⟩ | ⟨y, inside, hwaits, hslot⟩
      · refine .inl ⟨?_, ?_⟩
        · rw [hcontrol]
          exact outside.init x
        · rw [hrunning]
          exact spent _ hspent
      · refine .inr ⟨y, ?_, ?_, ?_⟩
        · rw [hcontrol]
          exact inside.init x
        · rw [hframe]
          exact hwaits
        · rw [hrunning, hpool]
          dsimp only
          rw [hcap]
          exact hslot

/-- A sweep marks a coroutine before it resumes it. -/
theorem Punctual.mark (h : m.Punctual asked none) (x : Nat) : (m.markTimeOut x).Punctual asked (some x) := by
  have hids := markTimeOut_id m x
  refine ⟨Follows.kept (h.kept.markTimeOut x), ?_, ?_⟩
  · intro y hy unborn
    rw [hids]
    exact h.blank y hy unborn
  · intro y hy live parked
    have hyx : y ≠ x := fun heq => hy (congrArg some heq.symm)
    unfold Live at live
    rw [hids] at live
    simp only [SCoMgr.markTimeOut, SCoMgr.modifyInfo, Function.update_of_ne hyx]
    exact h.waits y (by simp) live parked

/-- The mark on a slot that no coroutine is in is of no account. -/
theorem Punctual.mark_dead (h : m.Punctual asked none) (dead : ¬ m.Live x) : (m.markTimeOut x).Punctual asked none := by
  have marked := h.mark x
  refine ⟨marked.kept, marked.blank, ?_⟩
  intro y _ live parked
  by_cases hyx : y = x
  · subst hyx
    unfold Live at live
    rw [markTimeOut_id] at live
    exact absurd live dead
  · exact marked.waits y (fun heq => hyx (Option.some.inj heq).symm) live parked

/-- What the slot of a dead coroutine has for an id is no one's. -/
theorem Punctual.getCo_dead (h : m.Punctual asked none) (range : (x : Int) < m.pool.capacity) (dead : ¬ m.Live x) :
    m.getCo (m.info x).iPoolID = none := by
  obtain ⟨free, used, ledger⟩ := h.kept
  by_cases born : (m.pool.idx x).accumulate = 0
  · rw [h.blank x range born]
    exact ledger.registry.getCo_zero
  · have hgen := (ledger.registry.bounds.generation x (by omega) range).1
    refine ledger.getCo_of_free ?_ range (by omega)
    exact fun hmem => dead (ledger.registry.getCo_iff.mpr ⟨hmem, rfl⟩)

end SCoMgr

end Wddlib
