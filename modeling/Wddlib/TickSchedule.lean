import Wddlib.MainLoop

namespace Wddlib

variable {Conf : Type}

def TimeVal.micros (t : TimeVal) : Int := t.sec * 1000000 + t.usec

/-- The readings of the clock for which `OnTick` was called. -/
def tickTimes (turns : List LoopTurn) : List TimeVal := (turns.filter (·.onTick)).map (·.round.curtime)

/-- When `OnTick` was last called, or else the time at which the loop started. -/
def lastTick (start : TimeVal) (turns : List LoopTurn) : TimeVal := (tickTimes turns).getLastD start

/-- A pass of a loop that has nothing to do and does not sleep. -/
def LoopTurn.idle (turn : LoopTurn) : Bool := turn.round.procRet = .sleep ∧ turn.usleep = none

/-- How many passes have been idle one after the other. -/
def idleRun (turns : List LoopTurn) : Nat := (turns.reverse.takeWhile LoopTurn.idle).length

/-- Each reading of the clock comes less than `slack` microseconds after the one before and the sleep in between. -/
def Steady (slack : Int) : Int → List LoopTurn → Prop
  | _, [] => True
  | due, turn :: turns =>
    turn.round.curtime.micros < due + slack ∧
      Steady slack (turn.round.curtime.micros + turn.usleep.getD 0) turns

instance Steady.decidable (slack : Int) : ∀ due turns, Decidable (Steady slack due turns)
  | _, [] => isTrue trivial
  | _, turn :: turns =>
    have := Steady.decidable slack (turn.round.curtime.micros + turn.usleep.getD 0) turns
    inferInstanceAs (Decidable (_ ∧ _))

section Cost

variable {t t' curtime : TimeVal}

/-- The whole milliseconds in `u` microseconds and the rest, which has the sign of `u`. -/
theorem tdiv_split (u : Int) :
    ∃ r, u = 1000 * u.tdiv 1000 + r ∧ -1000 < r ∧ r < 1000 ∧ (0 ≤ u → 0 ≤ r) ∧ (u ≤ 0 → r ≤ 0) := by
  refine ⟨u.tmod 1000, (Int.mul_tdiv_add_tmod u 1000).symm, Int.lt_tmod_of_pos u (by decide),
    Int.tmod_lt_of_pos u (by decide), Int.tmod_nonneg 1000, fun h => ?_⟩
  have opposite := Int.tmod_nonneg 1000 (show 0 ≤ -u by omega)
  rw [Int.neg_tmod] at opposite
  omega

/-- `elapsedMs` is the time that has passed, to the millisecond. -/
theorem elapsedMs_bounds (curtime t : TimeVal) :
    elapsedMs curtime t * 1000 - 1000 < curtime.micros - t.micros ∧
      curtime.micros - t.micros < elapsedMs curtime t * 1000 + 1000 := by
  obtain ⟨r, hr, hgt, hlt, -⟩ := tdiv_split ((curtime.usec : Int) - t.usec)
  unfold elapsedMs TimeVal.micros
  omega

theorem fcost_due_iff (curtime t : TimeVal) : 100 ≤ fcost curtime t ↔ 100 ≤ elapsedMs curtime t :=
  le_toFloat_iff (by decide) (by decide)

/-- What is left of 100 has room in an `int` from this `cost` on. -/
theorem left_fits_iff {cost : Int} (early : cost < 100) :
    toFloat (100 - toFloat cost) < 2147483648 ↔ -2147483456 ≤ cost := by
  by_cases exact_ : -16777216 < cost
  · rw [toFloat_exact exact_ (by omega)]
    obtain ⟨n, hn⟩ := Int.eq_ofNat_of_zero_le (show 0 ≤ 100 - cost by omega)
    have := roundMantissa_le (n := n) (show 24 ≤ 25 by decide) (by omega)
    rw [hn, toFloat_natCast]
    omega
  · obtain ⟨a, ha⟩ := Int.eq_ofNat_of_zero_le (show 0 ≤ -cost by omega)
    obtain rfl : cost = -a := by omega
    have left : 100 - toFloat (-a) = (100 + roundMantissa a : Nat) := by
      rw [toFloat_neg_natCast]
      omega
    rw [left, toFloat_natCast]
    by_cases below : a < 1073741824
    · have ra := roundMantissa_le (show 24 ≤ 30 by decide) (show a < 2 ^ 30 by omega)
      by_cases inside : 100 + roundMantissa a < 1073741824
      · have := roundMantissa_le (show 24 ≤ 30 by decide) (show 100 + roundMantissa a < 2 ^ 30 by omega)
        omega
      · rw [roundMantissa_wide (by omega) (by omega)]
        split <;> omega
    · by_cases wide : a < 2147483648
      · have ra := roundMantissa_wide (by omega) wide
        by_cases inside : 100 + roundMantissa a < 2147483648
        · have lo := le_roundMantissa (show 23 ≤ 30 by decide) (show 2 ^ 30 ≤ a by omega)
          rw [roundMantissa_wide (by omega) inside]
          split at ra <;> split <;> omega
        · have := le_roundMantissa (show 23 ≤ 31 by decide) (show 2 ^ 31 ≤ 100 + roundMantissa a by omega)
          split at ra <;> omega
      · have := le_roundMantissa (show 23 ≤ 31 by decide) (show 2 ^ 31 ≤ a by omega)
        have := le_roundMantissa (show 23 ≤ 31 by decide) (show 2 ^ 31 ≤ 100 + roundMantissa a by omega)
        omega

/-- `alignms` is positive unless a tick is due or the clock was set back by more than 24 days. -/
theorem alignms_pos_iff (ms : Int) : 0 < alignms (toFloat ms) ↔ -2147483456 ≤ ms ∧ ms < 100 := by
  have due : 100 ≤ toFloat ms ↔ 100 ≤ ms := le_toFloat_iff (by decide) (by decide)
  have left : 1 ≤ toFloat (100 - toFloat ms) ↔ 1 ≤ 100 - toFloat ms := le_toFloat_iff (by decide) (by decide)
  by_cases early : ms < 100
  · rw [← left_fits_iff early]
    unfold alignms floatToInt
    split <;> omega
  · unfold alignms floatToInt
    split <;> omega

/-- The floats are exact up to four hours behind the last tick. -/
theorem alignms_exact {ms : Int} (lo : -16777000 ≤ ms) (hi : ms < 100) : alignms (toFloat ms) = 100 - ms := by
  rw [alignms, toFloat_exact (x := ms) (by omega) (by omega), toFloat_exact (by omega) (by omega)]
  exact if_pos (by omega)

/-- `usleep` sleeps no longer than the milliseconds say, and for just as long where they fit. -/
theorem usleepArg_bounds {ms : Int} (pos : 0 < ms) :
    usleepArg ms ≤ ms * 1000 ∧ (ms ≤ 100 → usleepArg ms = ms * 1000) := by
  unfold usleepArg int32
  omega

theorem usleepArg_alignms_le {ms : Int} (lo : -2147483456 ≤ ms) (hi : ms < 100) :
    usleepArg (alignms (toFloat ms)) ≤ (100 - ms) * 1000 := by
  have pos := (alignms_pos_iff ms).mpr ⟨lo, hi⟩
  by_cases exact_ : -16777000 ≤ ms
  · have short := (usleepArg_bounds pos).1
    rwa [alignms_exact exact_ hi] at short ⊢
  · -- more than `useconds_t` can say
    have := Int.emod_lt_of_pos (int32 (alignms (toFloat ms) * 1000)) (show (0 : Int) < 4294967296 by decide)
    unfold usleepArg
    omega

end Cost

section Turns

variable {start : TimeVal} {turn : LoopTurn}

theorem tickTimes_cons (turn : LoopTurn) (turns : List LoopTurn) :
    tickTimes (turn :: turns) = if turn.onTick then turn.round.curtime :: tickTimes turns else tickTimes turns := by
  simp only [tickTimes, List.filter_cons]
  split <;> rfl

theorem lastTick_snoc (start : TimeVal) (turns : List LoopTurn) (turn : LoopTurn) :
    lastTick start (turns ++ [turn]) = if turn.onTick then turn.round.curtime else lastTick start turns := by
  simp only [lastTick, tickTimes, List.filter_append, List.map_append, List.filter_cons, List.filter_nil]
  split
  · simp
  · simp

theorem idleRun_snoc (turns : List LoopTurn) (turn : LoopTurn) :
    idleRun (turns ++ [turn]) = if turn.idle then idleRun turns + 1 else 0 := by
  simp only [idleRun, List.reverse_append, List.reverse_singleton, List.singleton_append, List.takeWhile_cons]
  split <;> rfl

end Turns

namespace MainLoop

variable {parse : TextFormat Conf} {onCtrlCmd : List UInt8 → List UInt8 → Int × List UInt8} {loop last : MainLoop Conf}
  {start : TimeVal} {prev turns before after : List LoopTurn} {turn : LoopTurn} {rounds : List Round}

/-- The counters of the loop tell when it last ticked and how long it has been idle. -/
structure Paced (start : TimeVal) (prev : List LoopTurn) (loop : MainLoop Conf) : Prop where
  tick : loop.ticktime = lastTick start prev
  count : loop.idlesleepcount = idleRun prev

theorem pass_onTick (parse : TextFormat Conf) (onCtrlCmd : List UInt8 → List UInt8 → Int × List UInt8)
    (loop : MainLoop Conf) (round : Round) :
    (loop.pass parse onCtrlCmd round).2.onTick = decide (100 ≤ elapsedMs round.curtime loop.ticktime) :=
  decide_eq_decide.mpr (fcost_due_iff round.curtime loop.ticktime)

theorem pass_ticktime (loop : MainLoop Conf) (round : Round) :
    (loop.pass parse onCtrlCmd round).1.ticktime =
      if (loop.pass parse onCtrlCmd round).2.onTick then round.curtime else loop.ticktime := by
  simp only [pass_onTick, decide_eq_true_eq]
  exact if_congr (fcost_due_iff round.curtime loop.ticktime) rfl rfl

/-- A pass sleeps if it is idle, does not tick, and ten idle passes without a sleep stand before it, unless the clock
is 24 days behind the last tick. -/
theorem pass_usleep (parse : TextFormat Conf) (onCtrlCmd : List UInt8 → List UInt8 → Int × List UInt8)
    (loop : MainLoop Conf) (round : Round) :
    (loop.pass parse onCtrlCmd round).2.usleep =
      if round.procRet = .sleep ∧ 10 ≤ loop.idlesleepcount ∧
          -2147483456 ≤ elapsedMs round.curtime loop.ticktime ∧ elapsedMs round.curtime loop.ticktime < 100 then
        some (usleepArg (alignms (fcost round.curtime loop.ticktime)))
      else none := by
  simp only [pass, gt_iff_lt, fcost, alignms_pos_iff]
  refine if_congr ?_ rfl rfl
  by_cases idle : round.procRet = .sleep
  · simp only [idle, if_true, true_and]
    omega
  · simp only [idle, if_false, false_and, iff_false]
    omega

theorem pass_idlesleepcount (loop : MainLoop Conf) (round : Round) :
    (loop.pass parse onCtrlCmd round).1.idlesleepcount =
      if (loop.pass parse onCtrlCmd round).2.idle then loop.idlesleepcount + 1 else 0 := by
  simp only [pass, LoopTurn.idle]
  by_cases idle : round.procRet = .sleep
  · simp only [idle, if_true, true_and]
    split <;> simp
  · simp [idle]

theorem create_paced (conf : Conf) (start : TimeVal) : Paced start [] (MainLoop.create conf start) := ⟨rfl, rfl⟩

theorem Paced.pass (paced : Paced start prev loop) (round : Round) :
    Paced start (prev ++ [(loop.pass parse onCtrlCmd round).2]) (loop.pass parse onCtrlCmd round).1 := by
  constructor
  · rw [pass_ticktime, lastTick_snoc, paced.tick]
    rfl
  · rw [pass_idlesleepcount, idleRun_snoc, paced.count]

/-- Every turn of a run is the pass of a loop whose counters tell what came before. -/
theorem run_split (paced : Paced start prev loop)
    (h : loop.run parse onCtrlCmd rounds = (last, before ++ turn :: after)) :
    ∃ mid rest, Paced start (prev ++ before) mid ∧ (mid.pass parse onCtrlCmd turn.round).2 = turn ∧
      (mid.pass parse onCtrlCmd turn.round).1.run parse onCtrlCmd rest = (last, after) := by
  induction rounds generalizing loop prev before with
  | nil => simp [run] at h
  | cons round rounds ih =>
    simp only [run] at h
    split at h
    next => simp at h
    next =>
      obtain ⟨rfl, hturns⟩ := Prod.mk.inj h
      cases before with
      | nil =>
        obtain ⟨rfl, rfl⟩ := List.cons.inj hturns
        exact ⟨loop, rounds, by simpa using paced, rfl, rfl⟩
      | cons first before =>
        obtain ⟨rfl, hrest⟩ := List.cons.inj hturns
        obtain ⟨mid, rest, hpaced, hturn, hafter⟩ := ih (paced.pass round) (Prod.ext rfl hrest)
        exact ⟨mid, rest, by simpa using hpaced, hturn, hafter⟩

/-- Ticks are more than 99 ms apart. -/
theorem ticks_apart (h : loop.run parse onCtrlCmd rounds = (last, turns)) :
    (loop.ticktime :: tickTimes turns).IsChain fun t t' => t.micros + 99000 < t'.micros := by
  induction rounds generalizing loop turns with
  | nil =>
    obtain ⟨rfl, rfl⟩ := Prod.mk.inj h
    exact .singleton _
  | cons round rounds ih =>
    simp only [run] at h
    split at h
    next =>
      obtain ⟨rfl, rfl⟩ := Prod.mk.inj h
      exact .singleton _
    next =>
      obtain ⟨rfl, rfl⟩ := Prod.mk.inj h
      have rest := @ih (loop.pass parse onCtrlCmd round).1 _ rfl
      rw [pass_ticktime] at rest
      rw [tickTimes_cons]
      split
      next ticked =>
        have := elapsedMs_bounds round.curtime loop.ticktime
        rw [pass_onTick, decide_eq_true_eq] at ticked
        simp only [pass_onTick, ticked, decide_true, if_true] at rest
        refine .cons_cons ?_ rest
        change loop.ticktime.micros + 99000 < round.curtime.micros
        omega
      next quiet =>
        rw [if_neg quiet] at rest
        exact rest

/-- After a pass and its sleep less than 101 ms are over since the last tick. -/
theorem pass_soon (loop : MainLoop Conf) (round : Round) :
    round.curtime.micros + (loop.pass parse onCtrlCmd round).2.usleep.getD 0 <
      (loop.pass parse onCtrlCmd round).1.ticktime.micros + 101000 := by
  have passed := elapsedMs_bounds round.curtime loop.ticktime
  rw [pass_ticktime, pass_usleep, pass_onTick]
  by_cases due : 100 ≤ elapsedMs round.curtime loop.ticktime
  · simp [due, show ¬ elapsedMs round.curtime loop.ticktime < 100 by omega]
  · simp only [due, decide_false, Bool.false_eq_true, if_false]
    split
    next sleeps =>
      have short := usleepArg_alignms_le sleeps.2.2.1 sleeps.2.2.2
      simp only [Option.getD_some, fcost]
      omega
    next =>
      simp only [Option.getD_none]
      omega

/-- A loop that is not held up for `slack` ticks again in time. -/
theorem ticks_soon {slack due : Int} (h : loop.run parse onCtrlCmd rounds = (last, turns))
    (soon : due < loop.ticktime.micros + 101000) (steady : Steady slack due turns) :
    (loop.ticktime :: tickTimes turns).IsChain fun t t' => t'.micros < t.micros + 101000 + slack := by
  induction rounds generalizing loop turns due with
  | nil =>
    obtain ⟨rfl, rfl⟩ := Prod.mk.inj h
    exact .singleton _
  | cons round rounds ih =>
    simp only [run] at h
    split at h
    next =>
      obtain ⟨rfl, rfl⟩ := Prod.mk.inj h
      exact .singleton _
    next =>
      obtain ⟨rfl, rfl⟩ := Prod.mk.inj h
      obtain ⟨hread, steady⟩ := steady
      change round.curtime.micros < due + slack at hread
      have rest := @ih (loop.pass parse onCtrlCmd round).1 _ _ rfl (pass_soon loop round) steady
      rw [pass_ticktime] at rest
      rw [tickTimes_cons]
      split
      next ticked =>
        rw [if_pos ticked] at rest
        refine .cons_cons ?_ rest
        change round.curtime.micros < loop.ticktime.micros + 101000 + slack
        omega
      next quiet =>
        rw [if_neg quiet] at rest
        exact rest

end MainLoop

/-- Whatever the clock does, ticks are more than 99 ms apart and no reading finds the last tick 100 ms ago; if the
loop is held up for less than `slack` between its readings, each tick comes less than 101 ms and `slack` after the
one before. -/
theorem ticks_on_time (parse : TextFormat Conf) (onCtrlCmd : List UInt8 → List UInt8 → Int × List UInt8)
    (conf : Conf) (start : TimeVal) (rounds : List Round) {last : MainLoop Conf} {turns : List LoopTurn}
    (h : (MainLoop.create conf start).run parse onCtrlCmd rounds = (last, turns)) :
    (start :: tickTimes turns).IsChain (fun t t' => t.micros + 99000 < t'.micros) ∧
    (∀ before turn after, turns = before ++ turn :: after →
      turn.round.curtime.micros < (lastTick start (before ++ [turn])).micros + 100000) ∧
    ∀ slack, Steady slack start.micros turns →
      (start :: tickTimes turns).IsChain fun t t' => t'.micros < t.micros + 101000 + slack := by
  refine ⟨MainLoop.ticks_apart h, ?_, fun slack => MainLoop.ticks_soon h (show start.micros < _ by
    change start.micros < start.micros + 101000
    omega)⟩
  rintro before turn after rfl
  obtain ⟨mid, rest, paced, hturn, -⟩ := MainLoop.run_split (MainLoop.create_paced conf start) h
  rw [List.nil_append] at paced
  have ticked := MainLoop.pass_onTick parse onCtrlCmd mid turn.round
  have passed := elapsedMs_bounds turn.round.curtime mid.ticktime
  rw [hturn] at ticked
  rw [lastTick_snoc, ← paced.tick, ticked]
  by_cases due : 100 ≤ elapsedMs turn.round.curtime mid.ticktime
  · simp [due]
  · simp only [due, decide_false, Bool.false_eq_true, if_false]
    omega

/-- Eleven passes of an idle loop, the last of which sleeps, and one after the sleep. -/
def idleRounds : List Round :=
  (List.finRange 11).map (fun k => ⟨[], .sleep, { sec := 7, usec := 1000 * k + 1000, lt := by omega }⟩) ++
    [⟨[], .sleep, { sec := 7, usec := 100050 }⟩]

def idleTurns : List LoopTurn :=
  ((MainLoop.create none { TimeVal.epoch with sec := 7 }).run ServerApp.portFormat defaultOnCtrlCmd idleRounds).2

theorem ticks_on_time_idle :
    tickTimes idleTurns = [{ sec := 7, usec := 100050 }] ∧ Steady 1001 7000000 idleTurns ∧
      ([{ sec := 7, usec := 0 }, { sec := 7, usec := 100050 }] : List TimeVal).IsChain
        fun t t' => t'.micros < t.micros + 101000 + 1001 := by
  have times : tickTimes idleTurns = [{ sec := 7, usec := 100050 }] := by decide +kernel
  have steady : Steady 1001 7000000 idleTurns := by decide +kernel
  obtain ⟨-, -, soon⟩ := ticks_on_time ServerApp.portFormat defaultOnCtrlCmd none
    { sec := 7, usec := 0 } idleRounds (Prod.mk.eta ..).symm
  exact ⟨times, steady, times ▸ soon 1001 steady⟩

end Wddlib
