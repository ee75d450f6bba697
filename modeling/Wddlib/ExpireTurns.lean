import Wddlib.ExpireLedger

namespace Wddlib

namespace SweepState

variable {s s' : SweepState}

theorem step_alloc_capacity (h : s.Dated) (alive : s.mgr.sch.lost = false) :
    s.alloc.mgr.pool.capacity = s.mgr.pool.capacity := by
  have hstep : s.mgr.step .alloc = s.mgr.alloc.2.record (.allocated s.mgr.alloc.1) := SCoMgr.step_alive alive _
  obtain ⟨free, used, ledger⟩ := h.kept
  change (s.mgr.step .alloc).pool.capacity = _
  rw [hstep]
  rcases ledger.alloc with full | ⟨x, pool', -, -, heq, -, hcap, -⟩
  · rw [full]
    rfl
  · obtain ⟨-, -, -, -, hpool⟩ := SCoMgr.initCo_fields { s.mgr with pool := pool' } s.mgr.alloc.1 x
    rw [← heq] at hpool
    change s.mgr.alloc.2.pool.capacity = _
    rw [hpool]
    exact hcap

theorem step_capacity (h : s.Dated) (e : SweepEvent) : (s.step e).mgr.pool.capacity = s.mgr.pool.capacity := by
  unfold SweepState.step
  cases alive : s.mgr.sch.lost with
  | true => rfl
  | false =>
    simp only [Bool.false_eq_true, if_false]
    split
    next sweep ssize hsweep =>
      rw [loop_mgr hsweep]
      split
      · rfl
      next tNow x _ =>
        split
        · exact ((h.kept.markTimeOut x).trans ((h.kept.markTimeOut x).kept.resume _ _)).capacity
        · rfl
    · rfl
    · exact step_alloc_capacity h alive
    · exact (h.kept.resume _ _).capacity
    · change (s.mgr.step _).pool.capacity = _
      rw [SCoMgr.step_alive alive]
      exact (h.kept.yield _ _).capacity
    · change (s.mgr.step _).pool.capacity = _
      rw [SCoMgr.step_alive alive]
      exact h.kept.finish.capacity
    · change (s.mgr.step _).pool.capacity = _
      rw [SCoMgr.step_alive alive]
      exact (h.kept.released _ _).capacity
    · rfl
    · rfl
    · rfl

/-- The sweeps by position that code is in after a step were there before. -/
def Sub (s' s : SweepState) : Prop :=
  ∀ y tNow iEnd looked, s'.sweep y = some (.part tNow iEnd looked) → s.sweep y = some (.part tNow iEnd looked)

/-- As `Sub`, but for the executing code, which now is in the sweep `now`. -/
def SubBut (s' s : SweepState) (now : Option Sweep) : Prop :=
  ∀ y tNow iEnd looked, s'.sweep y = some (.part tNow iEnd looked) →
    (y = s.mgr.sch.owner ∧ now = some (.part tNow iEnd looked)) ∨
      (y ≠ s.mgr.sch.owner ∧ s.sweep y = some (.part tNow iEnd looked))

theorem resume_sub (s : SweepState) (iPoolID : Int) (ssize : Nat) : (s.resume iPoolID ssize).Sub s := by
  intro y tNow iEnd looked hy
  unfold SweepState.resume at hy
  cases hstarts : s.mgr.starts iPoolID with
  | none =>
    simp only [hstarts] at hy
    exact hy
  | some pCo =>
    simp only [hstarts] at hy
    by_cases hyp : y = some pCo
    · rw [hyp, Function.update_self] at hy
      cases hy
    · rwa [Function.update_of_ne hyp] at hy

theorem examine_sub (s : SweepState) (tNow : Int) (node : Option ObjPtr) (ssize : Nat) :
    (s.examine tNow node ssize).iLastPos = s.iLastPos ∧ (s.examine tNow node ssize).Sub s := by
  unfold SweepState.examine
  split
  · exact ⟨rfl, fun _ _ _ _ h => h⟩
  · dsimp only
    split
    · exact ⟨rfl, resume_sub { s with mgr := s.mgr.markTimeOut _ } _ _⟩
    · exact ⟨rfl, fun _ _ _ _ h => h⟩

theorem setSweep_subBut (s : SweepState) (now : Option Sweep) : (s.setSweep now).SubBut s now := by
  intro y tNow iEnd looked hy
  simp only [setSweep] at hy
  by_cases howner : y = s.mgr.sch.owner
  · rw [howner, Function.update_self] at hy
    exact .inl ⟨howner, hy⟩
  · rw [Function.update_of_ne howner] at hy
    exact .inr ⟨howner, hy⟩

theorem setSweep_sub {now : Option Sweep} (other : ∀ tNow iEnd looked, now ≠ some (.part tNow iEnd looked)) :
    (s.setSweep now).Sub s := by
  intro y tNow iEnd looked hy
  rcases setSweep_subBut s now y tNow iEnd looked hy with ⟨-, hnow⟩ | ⟨-, hold⟩
  · exact absurd hnow (other _ _ _)
  · exact hold

/-- What a step does to the static variable and to the sweeps by position: nothing, or a call of `ProcessPartExpire`, or
half a turn of the loop of such a call. -/
inductive Turns (s s' : SweepState) : SweepEvent → Prop where
  | quiet {e : SweepEvent} (cursor : s'.iLastPos = s.iLastPos) (sub : s'.Sub s) : s.Turns s' e
  | call {tNow n : Int}
      (cursor : s'.iLastPos = partStart s.mgr.pool.capacity s.iLastPos)
      (sub : s'.SubBut s (some (.part tNow (partEnd s.mgr.pool.capacity n s'.iLastPos) false))) :
      s.Turns s' (.processPartExpire tNow n)
  | look {tNow iEnd : Int} {ssize : Nat} (sweep : s.sweep s.mgr.sch.owner = some (.part tNow iEnd false))
      (inside : s.iLastPos < iEnd) (cursor : s'.iLastPos = s.iLastPos)
      (sub : s'.SubBut s (some (.part tNow iEnd true))) : s.Turns s' (.loop ssize)
  | stop {tNow iEnd : Int} {ssize : Nat} (sweep : s.sweep s.mgr.sch.owner = some (.part tNow iEnd false))
      (behind : ¬ s.iLastPos < iEnd) (cursor : s'.iLastPos = s.iLastPos) (sub : s'.SubBut s none) :
      s.Turns s' (.loop ssize)
  | next {tNow iEnd : Int} {ssize : Nat} (sweep : s.sweep s.mgr.sch.owner = some (.part tNow iEnd true))
      (cursor : s'.iLastPos = int32 (s.iLastPos + 1)) (sub : s'.SubBut s (some (.part tNow iEnd false))) :
      s.Turns s' (.loop ssize)

theorem loop_turns {sweep : Sweep} (hsweep : s.sweep s.mgr.sch.owner = some sweep) (ssize : Nat) :
    s.Turns (s.loop ssize sweep) (.loop ssize) := by
  cases sweep with
  | all tNow i looked =>
    cases looked with
    | true => exact .quiet rfl (setSweep_sub (by simp))
    | false =>
      simp only [loop]
      split
      · exact .quiet rfl (setSweep_sub (by simp))
      · obtain ⟨cursor, rest⟩ := examine_sub (s.setSweep (some (.all tNow i true))) tNow
          (objpoolGetBypos s.mgr.pool i) ssize
        have sub : (s.setSweep (some (.all tNow i true))).Sub s := setSweep_sub (by simp)
        exact .quiet cursor fun y _ _ _ hy => sub y _ _ _ (rest y _ _ _ hy)
  | part tNow iEnd looked =>
    cases looked with
    | true => exact .next hsweep rfl (setSweep_subBut { s with iLastPos := int32 (s.iLastPos + 1) } _)
    | false =>
      by_cases inside : s.iLastPos < iEnd
      · simp only [loop, inside, if_true]
        obtain ⟨cursor, rest⟩ := examine_sub (s.setSweep (some (.part tNow iEnd true))) tNow
          (objpoolGetBypos s.mgr.pool s.iLastPos) ssize
        exact .look hsweep inside cursor fun y _ _ _ hy => setSweep_subBut s _ y _ _ _ (rest y _ _ _ hy)
      · simp only [loop, inside, if_false]
        exact .stop hsweep inside rfl (setSweep_subBut s none)

theorem step_turns (s : SweepState) (e : SweepEvent) : s.Turns (s.step e) e := by
  unfold SweepState.step
  split
  · exact .quiet rfl fun _ _ _ _ h => h
  · split
    next sweep ssize hsweep => exact loop_turns hsweep ssize
    · exact .quiet rfl fun _ _ _ _ h => h
    · exact .quiet rfl fun _ _ _ _ h => h
    next iPoolID ssize _ => exact .quiet rfl (resume_sub s iPoolID ssize)
    · exact .quiet rfl fun _ _ _ _ h => h
    · exact .quiet rfl fun _ _ _ _ h => h
    · exact .quiet rfl fun _ _ _ _ h => h
    · exact .quiet rfl (setSweep_sub (by simp))
    next tNow n _ =>
      exact .call rfl (setSweep_subBut { s with iLastPos := partStart s.mgr.pool.capacity s.iLastPos } _)
    · exact .quiet rfl fun _ _ _ _ h => h

end SweepState

/-- Several managers in use; there is one static variable for all of them. -/
structure SweepSystem (ι : Type) where
  iLastPos : Int
  mgr : ι → SweepState

namespace SweepSystem

variable {ι : Type} [DecidableEq ι]

/-- The code of one manager goes on. -/
def step (x : SweepSystem ι) (e : ι × SweepEvent) : SweepSystem ι :=
  let s := SweepState.step { x.mgr e.1 with iLastPos := x.iLastPos } e.2
  ⟨s.iLastPos, Function.update x.mgr e.1 s⟩

/-- The managers `m` in use after the first `k` events. -/
def systemAt (m : ι → SCoMgr) (events : List (ι × SweepEvent)) (k : Nat) : SweepSystem ι :=
  stateAt step ⟨0, fun i => .create (m i)⟩ events k

/-- The sweeps by position that code is in are calls of the cursor, named by `name`. -/
structure Shows (x : SweepSystem ι) (t : PartState ι) (name : ι → Option Nat → Nat) : Prop where
  cursor : x.iLastPos = t.iLastPos
  sweeping : ∀ i y tNow iEnd looked, (x.mgr i).sweep y = some (.part tNow iEnd looked) →
    ∃ call, t.calls[name i y]? = some call ∧ call.mgr = i ∧ call.iEnd = iEnd ∧
      call.phase = if looked then .body else .test
  apart : ∀ i y z tNow iEnd looked tNow' iEnd' looked', (x.mgr i).sweep y = some (.part tNow iEnd looked) →
    (x.mgr i).sweep z = some (.part tNow' iEnd' looked') → name i y = name i z → y = z

variable {x : SweepSystem ι} {t : PartState ι} {name : ι → Option Nat → Nat} {i : ι} {s' : SweepState} {pos : Int}

/-- Of a manager that goes on, the sweeps by position are those from before. -/
theorem Shows.quiet (h : Shows x t name) (sub : s'.Sub (x.mgr i)) (cursor : s'.iLastPos = t.iLastPos) :
    Shows ⟨s'.iLastPos, Function.update x.mgr i s'⟩ t name := by
  have before : ∀ j y tNow iEnd looked, (Function.update x.mgr i s' j).sweep y = some (.part tNow iEnd looked) →
      (x.mgr j).sweep y = some (.part tNow iEnd looked) := by
    intro j y tNow iEnd looked hy
    by_cases hj : j = i
    · subst hj
      rw [Function.update_self] at hy
      exact sub y _ _ _ hy
    · rwa [Function.update_of_ne hj] at hy
  exact ⟨cursor, fun j y _ _ _ hy => h.sweeping j y _ _ _ (before j y _ _ _ hy), fun j y z _ _ _ _ _ _ hy hz =>
    h.apart j y z _ _ _ _ _ _ (before j y _ _ _ hy) (before j z _ _ _ hz)⟩

/-- A call is made. -/
theorem Shows.called (h : Shows x t name) {tNow iEnd : Int} (left : Int)
    (sub : s'.SubBut (x.mgr i) (some (.part tNow iEnd false))) :
    Shows ⟨s'.iLastPos, Function.update x.mgr i s'⟩
      ⟨s'.iLastPos, t.calls ++ [⟨i, iEnd, .test, left, []⟩]⟩
      (fun j y => if j = i ∧ y = (x.mgr i).mgr.sch.owner then t.calls.length else name j y) := by
  have cases : ∀ j y tNow' iEnd' looked, (Function.update x.mgr i s' j).sweep y = some (.part tNow' iEnd' looked) →
      ((j = i ∧ y = (x.mgr i).mgr.sch.owner) ∧ iEnd' = iEnd ∧ looked = false) ∨
        (¬ (j = i ∧ y = (x.mgr i).mgr.sch.owner) ∧ (x.mgr j).sweep y = some (.part tNow' iEnd' looked)) := by
    intro j y tNow' iEnd' looked hy
    by_cases hj : j = i
    · subst hj
      rw [Function.update_self] at hy
      rcases sub y _ _ _ hy with ⟨howner, hnow⟩ | ⟨howner, hold⟩
      · cases hnow
        exact .inl ⟨⟨rfl, howner⟩, rfl, rfl⟩
      · exact .inr ⟨fun hboth => howner hboth.2, hold⟩
    · rw [Function.update_of_ne hj] at hy
      exact .inr ⟨fun hboth => hj hboth.1, hy⟩
  have old : ∀ j y tNow' iEnd' looked, (x.mgr j).sweep y = some (.part tNow' iEnd' looked) →
      name j y < t.calls.length := by
    intro j y _ _ _ hy
    obtain ⟨call, hcall, -⟩ := h.sweeping j y _ _ _ hy
    exact (List.getElem?_eq_some_iff.mp hcall).1
  refine ⟨rfl, fun j y tNow' iEnd' looked hy => ?_, fun j y z _ _ _ _ _ _ hy hz heq => ?_⟩
  · rcases cases j y _ _ _ hy with ⟨⟨rfl, rfl⟩, rfl, rfl⟩ | ⟨hne, hold⟩
    · simp only [and_self, if_true]
      exact ⟨_, List.getElem?_concat_length, rfl, rfl, rfl⟩
    · simp only [if_neg hne]
      rw [List.getElem?_append_left (old j y _ _ _ hold)]
      exact h.sweeping j y _ _ _ hold
  · rcases cases j y _ _ _ hy with ⟨hthis, -⟩ | ⟨hne, hold⟩
    · rcases cases j z _ _ _ hz with ⟨hthis', -⟩ | ⟨hne', hold'⟩
      · exact hthis.2.trans hthis'.2.symm
      · simp only [if_pos hthis, if_neg hne'] at heq
        exact absurd heq (Nat.ne_of_gt (old j z _ _ _ hold'))
    · rcases cases j z _ _ _ hz with ⟨hthis', -⟩ | ⟨hne', hold'⟩
      · simp only [if_neg hne, if_pos hthis'] at heq
        exact absurd heq (Nat.ne_of_lt (old j y _ _ _ hold))
      · simp only [if_neg hne, if_neg hne'] at heq
        exact h.apart j y z _ _ _ _ _ _ hold hold' heq

/-- The call that the executing code of a manager is in takes half a turn of its loop. -/
theorem Shows.turned (h : Shows x t name) {tNow iEnd : Int} {looked : Bool}
    (active : (x.mgr i).sweep (x.mgr i).mgr.sch.owner = some (.part tNow iEnd looked)) {now : Option Sweep}
    (sub : s'.SubBut (x.mgr i) now) {call : PartCall ι} (hmgr : call.mgr = i)
    (hnow : ∀ tNow' iEnd' looked', now = some (.part tNow' iEnd' looked') →
      call.iEnd = iEnd' ∧ call.phase = if looked' then .body else .test) :
    Shows ⟨s'.iLastPos, Function.update x.mgr i s'⟩
      ⟨s'.iLastPos, t.calls.set (name i (x.mgr i).mgr.sch.owner) call⟩ name := by
  have cases : ∀ j y tNow' iEnd' looked', (Function.update x.mgr i s' j).sweep y = some (.part tNow' iEnd' looked') →
      (j = i ∧ y = (x.mgr i).mgr.sch.owner ∧ now = some (.part tNow' iEnd' looked')) ∨
        (name j y ≠ name i (x.mgr i).mgr.sch.owner ∧ (x.mgr j).sweep y = some (.part tNow' iEnd' looked')) := by
    intro j y _ _ _ hy
    by_cases hj : j = i
    · subst hj
      rw [Function.update_self] at hy
      rcases sub y _ _ _ hy with ⟨howner, hnow'⟩ | ⟨howner, hold⟩
      · exact .inl ⟨rfl, howner, hnow'⟩
      · exact .inr ⟨fun heq => howner (h.apart j y _ _ _ _ _ _ _ hold active heq), hold⟩
    · rw [Function.update_of_ne hj] at hy
      refine .inr ⟨fun heq => ?_, hy⟩
      -- a call is of one manager only
      obtain ⟨call₁, hcall₁, hmgr₁, -⟩ := h.sweeping j y _ _ _ hy
      obtain ⟨call₂, hcall₂, hmgr₂, -⟩ := h.sweeping i _ _ _ _ active
      rw [heq, hcall₂] at hcall₁
      rw [Option.some.inj hcall₁] at hmgr₂
      exact hj (hmgr₁.symm.trans hmgr₂)
  have place : name i (x.mgr i).mgr.sch.owner < t.calls.length := by
    obtain ⟨call₂, hcall₂, -⟩ := h.sweeping i _ _ _ _ active
    exact (List.getElem?_eq_some_iff.mp hcall₂).1
  refine ⟨rfl, fun j y tNow' iEnd' looked' hy => ?_, fun j y z _ _ _ _ _ _ hy hz heq => ?_⟩
  · rcases cases j y _ _ _ hy with ⟨rfl, rfl, hnow'⟩ | ⟨hne, hold⟩
    · exact ⟨call, List.getElem?_set_self place, hmgr, hnow _ _ _ hnow'⟩
    · rw [List.getElem?_set_ne hne.symm]
      exact h.sweeping j y _ _ _ hold
  · rcases cases j y _ _ _ hy with ⟨rfl, rfl, -⟩ | ⟨hne, hold⟩
    · rcases cases j z _ _ _ hz with ⟨-, rfl, -⟩ | ⟨hne', -⟩
      · rfl
      · exact absurd heq.symm hne'
    · rcases cases j z _ _ _ hz with ⟨rfl, rfl, -⟩ | ⟨hne', hold'⟩
      · exact absurd heq hne
      · exact h.apart j y z _ _ _ _ _ _ hold hold' heq

/-- A step of a manager is at most one event of the cursor. -/
theorem Shows.step {pools : ι → Nat} {n : Nat} (h : Shows x t name) (e : ι × SweepEvent)
    (hcap : (x.mgr e.1).mgr.pool.capacity = pools e.1)
    (hn : ∀ tNow m, e.2 = .processPartExpire tNow m → m = n) :
    ∃ (turns : List (PartEvent ι)) (name' : ι → Option Nat → Nat),
      Shows (x.step e) (turns.foldl (PartState.step pools n) t) name' := by
  obtain ⟨i, e⟩ := e
  have turns := SweepState.step_turns { x.mgr i with iLastPos := x.iLastPos } e
  unfold SweepSystem.step
  generalize SweepState.step { x.mgr i with iLastPos := x.iLastPos } e = s' at turns
  dsimp only at hcap ⊢
  cases turns with
  | quiet cursor sub => exact ⟨[], name, h.quiet sub (cursor.trans h.cursor)⟩
  | @call tNow m cursor sub =>
    obtain rfl := hn tNow m rfl
    have called := h.called s'.iLastPos sub
    have hstart : partStart (pools i) t.iLastPos = s'.iLastPos := by
      rw [cursor, ← h.cursor]
      exact congrArg (partStart · x.iLastPos) hcap.symm
    refine ⟨[.call i], fun j y => if j = i ∧ y = (x.mgr i).mgr.sch.owner then t.calls.length else name j y, ?_⟩
    simp only [List.foldl_cons, List.foldl_nil, PartState.step, hstart]
    dsimp only at called
    rwa [hcap] at called
  | @look tNow iEnd ssize sweep inside cursor sub =>
    obtain ⟨call, hcall, hmgr, rfl, hphase⟩ := h.sweeping i _ _ _ _ sweep
    refine ⟨[.turn (name i (x.mgr i).mgr.sch.owner)], name, ?_⟩
    have hturn : call.turn t.iLastPos =
        ({ call with phase := .body, left := t.iLastPos, looked := call.looked ++ [t.iLastPos] }, s'.iLastPos) := by
      rw [cursor, h.cursor]
      exact PartCall.turn_look hphase (h.cursor ▸ inside)
    rw [List.foldl_cons, List.foldl_nil, PartState.step_turn hcall, hturn]
    refine h.turned sweep sub hmgr fun _ _ _ hnow => ?_
    cases hnow
    exact ⟨rfl, rfl⟩
  | @stop tNow iEnd ssize sweep behind cursor sub =>
    obtain ⟨call, hcall, hmgr, rfl, hphase⟩ := h.sweeping i _ _ _ _ sweep
    refine ⟨[.turn (name i (x.mgr i).mgr.sch.owner)], name, ?_⟩
    have hturn : call.turn t.iLastPos = ({ call with phase := .done, left := t.iLastPos }, s'.iLastPos) := by
      rw [cursor, h.cursor]
      exact PartCall.turn_stop hphase (h.cursor ▸ behind)
    rw [List.foldl_cons, List.foldl_nil, PartState.step_turn hcall, hturn]
    exact h.turned sweep sub hmgr fun _ _ _ hnow => absurd hnow (by simp)
  | @next tNow iEnd ssize sweep cursor sub =>
    obtain ⟨call, hcall, hmgr, rfl, hphase⟩ := h.sweeping i _ _ _ _ sweep
    refine ⟨[.turn (name i (x.mgr i).mgr.sch.owner)], name, ?_⟩
    have hturn : call.turn t.iLastPos = ({ call with phase := .test, left := s'.iLastPos }, s'.iLastPos) := by
      rw [cursor, h.cursor]
      exact PartCall.turn_next hphase t.iLastPos
    rw [List.foldl_cons, List.foldl_nil, PartState.step_turn hcall, hturn]
    refine h.turned sweep sub hmgr fun _ _ _ hnow => ?_
    cases hnow
    exact ⟨rfl, rfl⟩

variable {m : ι → SCoMgr} {events : List (ι × SweepEvent)} {pools : ι → Nat} {n : Nat}

theorem systemAt_dated (start : ∀ i, (m i).Created) (hcap : ∀ i, (m i).pool.capacity = pools i)
    (events : List (ι × SweepEvent)) (k : Nat) (i : ι) :
    ((systemAt m events k).mgr i).Dated ∧ ((systemAt m events k).mgr i).mgr.pool.capacity = pools i := by
  induction k with
  | zero =>
    rw [systemAt, stateAt_zero]
    exact ⟨SweepState.create_dated (start i), hcap i⟩
  | succ k ih =>
    cases he : events[k]? with
    | none =>
      rw [systemAt, stateAt_end he]
      exact ih
    | some e =>
      rw [systemAt, stateAt_succ he, ← systemAt, step]
      by_cases hi : i = e.1
      · subst hi
        have dated :
            SweepState.Dated { (systemAt m events k).mgr e.1 with iLastPos := (systemAt m events k).iLastPos } :=
          ⟨ih.1.kept, ih.1.date⟩
        simp only [Function.update_self]
        exact ⟨dated.step e.2, (SweepState.step_capacity dated e.2).trans ih.2⟩
      · simp only [Function.update_of_ne hi]
        exact ih

/-- Whatever the code of the managers does, the sweeps by position are a run of the cursor that they share: each is a
call on its manager. -/
theorem systemAt_shows (start : ∀ i, (m i).Created) (hcap : ∀ i, (m i).pool.capacity = pools i)
    (hn : ∀ e ∈ events, ∀ tNow n', e.2 = .processPartExpire tNow n' → n' = n) (k : Nat) :
    ∃ turns name, Shows (systemAt m events k) (partAt pools n turns turns.length) name := by
  induction k with
  | zero =>
    rw [systemAt, stateAt_zero]
    exact ⟨[], fun _ _ => 0, rfl, fun _ _ _ _ _ h => absurd h (by simp [SweepState.create]),
      fun _ _ _ _ _ _ _ _ _ h => absurd h (by simp [SweepState.create])⟩
  | succ k ih =>
    obtain ⟨turns, name, shows⟩ := ih
    cases he : events[k]? with
    | none =>
      rw [systemAt, stateAt_end he]
      exact ⟨turns, name, shows⟩
    | some e =>
      obtain ⟨more, name', shows'⟩ := shows.step e (systemAt_dated start hcap events k e.1).2
        (hn e (List.mem_of_getElem? he))
      refine ⟨turns ++ more, name', ?_⟩
      rw [systemAt, stateAt_succ he, partAt, stateAt_of_length_le le_rfl, List.foldl_append]
      rwa [partAt, stateAt_of_length_le le_rfl] at shows'

end SweepSystem

end Wddlib
