import Wddlib.MachineInt
import Wddlib.RunPrefix
import Mathlib.Data.List.Nodup
import Mathlib.Logic.Function.Iterate

namespace Wddlib

/-- `iLastPos` once it has been sent back to the front. -/
def partStart (iMaxCount iLastPos : Int) : Int := if iLastPos ≥ iMaxCount then 0 else iLastPos

/-- `iEnd` of `ProcessPartExpire`, for an `iLastPos` that is inside. -/
def partEnd (iMaxCount iOnceProcessCount iLastPos : Int) : Int :=
  let iEnd := int32 (iLastPos + iOnceProcessCount)
  if iEnd > iMaxCount then iMaxCount else iEnd

/-- The loop over positions when nothing that its body resumes sweeps: the positions it looks at and the `iLastPos` it
leaves. -/
def partLoop (iEnd : Int) : Nat → Int → List Int × Int
  | 0, iLastPos => ([], iLastPos)
  | fuel + 1, iLastPos =>
    if iLastPos < iEnd then
      let later := partLoop iEnd fuel (int32 (iLastPos + 1))
      (iLastPos :: later.1, later.2)
    else ([], iLastPos)

/-- A call of `ProcessPartExpire` on a pool of `iMaxCount` slots that no other call comes between; it finds `iLastPos`
in the static variable. -/
def partCall (iMaxCount iOnceProcessCount iLastPos : Int) : List Int × Int :=
  let iLastPos := partStart iMaxCount iLastPos
  let iEnd := partEnd iMaxCount iOnceProcessCount iLastPos
  partLoop iEnd (iEnd - iLastPos).toNat iLastPos

section Loop

theorem partLoop_eq {iEnd : Int} (hend : iEnd < 2147483648) (fuel : Nat) {pos : Int} (hpos : 0 ≤ pos)
    (hfuel : pos + fuel = iEnd) :
    partLoop iEnd fuel pos = ((List.range fuel).map fun d => pos + (d : Nat), iEnd) := by
  induction fuel generalizing pos with
  | zero =>
    simp only [partLoop, List.range_zero, List.map_nil]
    rw [show pos = iEnd by omega]
  | succ fuel ih =>
    have hnext : int32 (pos + 1) = pos + 1 := int32_eq_self (by omega) (by omega)
    simp only [partLoop, show pos < iEnd by omega, if_true, hnext]
    rw [ih (by omega) (by push_cast at hfuel; omega), List.range_succ_eq_map, List.map_cons, List.map_map]
    simp only [Nat.cast_zero, add_zero, Prod.mk.injEq, List.cons.injEq, true_and, and_true]
    refine List.map_congr_left fun d _ => ?_
    simp only [Function.comp_apply, Nat.succ_eq_add_one, Nat.cast_add, Nat.cast_one]
    omega

theorem partEnd_eq {C n start : Nat} (hmax : n + C < 2147483648) (hstart : start < C) :
    partEnd C n start = ((min (start + n) C : Nat) : Int) := by
  unfold partEnd
  rw [int32_eq_self (by omega) (by omega)]
  dsimp only
  split <;> omega

/-- Between `start` and the end of the pool a call looks at the next `n` positions. -/
theorem partCall_eq {C n start : Nat} (hn : 1 ≤ n) (hmax : n + C < 2147483648) (hstart : start < C) {iLastPos : Int}
    (h : partStart C iLastPos = start) :
    partCall C n iLastPos =
      ((List.range (min n (C - start))).map fun d => (start : Int) + (d : Nat), ((min (start + n) C : Nat) : Int)) := by
  have hend := partEnd_eq hmax hstart
  have hcount : (((min (start + n) C : Nat) : Int) - start).toNat = min n (C - start) := by omega
  simp only [partCall, h, hend, hcount]
  exact partLoop_eq (by omega) _ (by omega) (by omega)

end Loop

/-- The number of calls that get through a pool of `C` slots. -/
def callsPerRound (C n : Nat) : Nat := (C + n - 1) / n

section Own

variable {C n : Nat}

/-- The cursor after `r` calls on one pool with nothing in between. -/
def ownCursor (C n r : Nat) : Int := (fun pos => (partCall C n pos).2)^[r] 0

theorem callsPerRound_pos (hC : 1 ≤ C) (hn : 1 ≤ n) : 0 < callsPerRound C n :=
  Nat.div_pos (by omega) (by omega)

theorem callsPerRound_bounds (hn : 1 ≤ n) : C ≤ callsPerRound C n * n ∧ callsPerRound C n * n ≤ C + n - 1 := by
  have hdiv := Nat.div_add_mod (C + n - 1) n
  have hmod := Nat.mod_lt (C + n - 1) (by omega : n > 0)
  rw [Nat.mul_comm] at hdiv
  unfold callsPerRound
  omega

theorem front_lt (hn : 1 ≤ n) {q : Nat} (hq : q < callsPerRound C n) : q * n < C := by
  have hround := (callsPerRound_bounds (C := C) hn).2
  have hle : (q + 1) * n ≤ callsPerRound C n * n := Nat.mul_le_mul_right n hq
  rw [Nat.succ_mul] at hle
  omega

theorem succ_mod_cases (r : Nat) {k : Nat} (hk : 0 < k) :
    (r % k + 1 = k ∧ (r + 1) % k = 0) ∨ (r % k + 1 < k ∧ (r + 1) % k = r % k + 1) := by
  have hmod := Nat.mod_lt r hk
  have hdiv := Nat.div_add_mod r k
  by_cases hlast : r % k + 1 = k
  · refine .inl ⟨hlast, ?_⟩
    rw [show r + 1 = k * (r / k + 1) by rw [Nat.mul_succ]; omega, Nat.mul_mod_right]
  · refine .inr ⟨by omega, ?_⟩
    rw [show r + 1 = k * (r / k) + (r % k + 1) by omega, Nat.mul_add_mod, Nat.mod_eq_of_lt (by omega)]

/-- One of `k` numbers in a row has a given residue. -/
theorem exists_residue (a : Nat) {q k : Nat} (hq : q < k) : ∃ r, a ≤ r ∧ r < a + k ∧ r % k = q := by
  have hk : 0 < k := by omega
  have hlt := Nat.mod_lt (q + (k - a % k)) hk
  refine ⟨a + (q + (k - a % k)) % k, by omega, by omega, ?_⟩
  have hdiv := Nat.div_add_mod a k
  have hmod := Nat.mod_lt a hk
  have hsum : a + (q + (k - a % k)) = k * (a / k + 1) + q := by
    rw [Nat.mul_succ]
    omega
  rw [Nat.add_mod_mod, hsum, Nat.mul_add_mod, Nat.mod_eq_of_lt hq]

theorem residue_unique {a r r' k : Nat} (hr : a ≤ r) (hr' : r < a + k) (hs : a ≤ r') (hs' : r' < a + k)
    (heq : r % k = r' % k) : r = r' := by
  have hle : ∀ {m m' : Nat}, a ≤ m → m < a + k → a ≤ m' → m % k = m' % k → m ≤ m' := by
    intro m m' hm hm' hm'' hmod
    have hzero := Nat.sub_mod_eq_zero_of_mod_eq hmod
    rw [Nat.mod_eq_of_lt (by omega)] at hzero
    omega
  exact Nat.le_antisymm (hle hr hr' hs heq) (hle hs hs' hr heq.symm)

theorem ownCursor_succ (C n r : Nat) : ownCursor C n (r + 1) = (partCall C n (ownCursor C n r)).2 :=
  Function.iterate_succ_apply' _ _ _

/-- Left alone, the calls take the windows of the pool in turn. -/
theorem partStart_ownCursor (hC : 1 ≤ C) (hn : 1 ≤ n) (hmax : n + C < 2147483648) (r : Nat) :
    partStart C (ownCursor C n r) = ((r % callsPerRound C n * n : Nat) : Int) := by
  have hpos := callsPerRound_pos hC hn
  induction r with
  | zero =>
    have hzero : ownCursor C n 0 = 0 := rfl
    rw [hzero, partStart, if_neg (by omega), Nat.zero_mod, Nat.zero_mul]
    rfl
  | succ r ih =>
    have hstart := front_lt hn (Nat.mod_lt r hpos)
    have hnext : ownCursor C n (r + 1) = ((min (r % callsPerRound C n * n + n) C : Nat) : Int) := by
      rw [ownCursor_succ, partCall_eq hn hmax hstart ih]
    rw [hnext, partStart]
    rcases succ_mod_cases r hpos with ⟨hlast, hmod⟩ | ⟨hmore, hmod⟩
    · -- the clipped window: the next call finds the cursor at the end
      have hround := (callsPerRound_bounds (C := C) hn).1
      rw [← hlast, Nat.succ_mul] at hround
      rw [hmod, if_pos (by omega), Nat.zero_mul]
      rfl
    · have hinside := front_lt hn hmore
      rw [Nat.succ_mul] at hinside
      rw [hmod, Nat.succ_mul, if_neg (by omega)]
      omega

theorem mem_window_iff {start p : Nat} (hp : p < C) :
    (p : Int) ∈ ((List.range (min n (C - start))).map fun d => (start : Int) + (d : Nat)) ↔
      start ≤ p ∧ p < start + n := by
  simp only [List.mem_map, List.mem_range]
  constructor
  · rintro ⟨d, hd, heq⟩
    omega
  · rintro ⟨hlow, hhigh⟩
    exact ⟨p - start, by omega, by omega⟩

theorem window_nodup (start count : Nat) : ((List.range count).map fun d => (start : Int) + (d : Nat)).Nodup := by
  refine List.Nodup.map ?_ List.nodup_range
  intro d d' heq
  dsimp only at heq
  omega

end Own

/-- Where the loop of a call stands: at its test, in its body, or behind it. -/
inductive PartPhase where
  | test
  | body
  | done
  deriving DecidableEq, Repr

/-- A call of `ProcessPartExpire` on the manager `mgr`: the positions that it has looked at, and the static variable as
its last turn left it. -/
structure PartCall (ι : Type) where
  mgr : ι
  iEnd : Int
  phase : PartPhase
  left : Int
  looked : List Int
  deriving DecidableEq

/-- Half a turn of the loop: the test, with the look at the position behind it, or `++iLastPos`. The static variable
is read afresh every time. -/
def PartCall.turn {ι : Type} (call : PartCall ι) (iLastPos : Int) : PartCall ι × Int :=
  match call.phase with
  | .test =>
    if iLastPos < call.iEnd then
      ({ call with phase := .body, left := iLastPos, looked := call.looked ++ [iLastPos] }, iLastPos)
    else ({ call with phase := .done, left := iLastPos }, iLastPos)
  | .body => ({ call with phase := .test, left := int32 (iLastPos + 1) }, int32 (iLastPos + 1))
  | .done => (call, iLastPos)

/-- The static variable and the calls on all managers, in the order in which they were made. -/
structure PartState (ι : Type) where
  iLastPos : Int
  calls : List (PartCall ι)

/-- A call is made on a manager, or one that was made goes on. What a body resumes may make calls of its own, on any
manager, and let others go on. -/
inductive PartEvent (ι : Type) where
  | call (mgr : ι)
  | turn (c : Nat)
  deriving DecidableEq, Repr

/-- `pools` are the sizes of the pools of the managers. -/
def PartState.step {ι : Type} (pools : ι → Nat) (n : Nat) (s : PartState ι) : PartEvent ι → PartState ι
  | .call i =>
    let iLastPos := partStart (pools i) s.iLastPos
    ⟨iLastPos, s.calls ++ [⟨i, partEnd (pools i) n iLastPos, .test, iLastPos, []⟩]⟩
  | .turn c =>
    match s.calls[c]? with
    | none => s
    | some call =>
      let r := call.turn s.iLastPos
      ⟨r.2, s.calls.set c r.1⟩

section Calls

variable {ι : Type} {pools : ι → Nat} {n : Nat} {events : List (PartEvent ι)} {calls : List ι} {i : ι}

/-- The static variable and the calls after the first `k` events. -/
def partAt (pools : ι → Nat) (n : Nat) (events : List (PartEvent ι)) (k : Nat) : PartState ι :=
  stateAt (PartState.step pools n) ⟨0, []⟩ events k

theorem partAt_take {j k : Nat} (h : j ≤ k) : partAt pools n (events.take k) j = partAt pools n events j :=
  stateAt_take h

/-- The managers of the calls that have been made. -/
def PartState.made (s : PartState ι) : List ι := s.calls.map PartCall.mgr

/-- A call that has looked at the first `m` positions of the window that begins at `start`. -/
structure PartCall.InWindow (C n start m : Nat) (call : PartCall ι) : Prop where
  iEnd : call.iEnd = (min (start + n) C : Nat)
  looked : call.looked = (List.range m).map fun d => (start : Int) + (d : Nat)
  inside : start + m ≤ min (start + n) C
  phase : match call.phase with
    | .test => call.left = start + m
    | .body => call.left + 1 = start + m
    | .done => call.left = start + m ∧ start + m = min (start + n) C

theorem PartCall.InWindow.turn {C start m : Nat} {call : PartCall ι} (h : call.InWindow C n start m)
    (hC : C < 2147483648) : ∃ m', (call.turn call.left).1.InWindow C n start m' := by
  obtain ⟨hend, hlooked, hinside, hphase⟩ := h
  unfold PartCall.turn
  cases hp : call.phase with
  | test =>
    rw [hp] at hphase
    by_cases hlt : call.left < call.iEnd
    · refine ⟨m + 1, ?_⟩
      simp only [if_pos hlt]
      refine ⟨hend, ?_, by omega, ?_⟩
      · rw [hlooked, hphase, List.range_succ, List.map_append]
        rfl
      · push_cast
        omega
    · refine ⟨m, ?_⟩
      simp only [if_neg hlt]
      exact ⟨hend, hlooked, hinside, hphase, by omega⟩
  | body =>
    rw [hp] at hphase
    have hnext : int32 (call.left + 1) = call.left + 1 := int32_eq_self (by omega) (by omega)
    exact ⟨m, hend, hlooked, hinside, hnext.trans hphase⟩
  | done =>
    refine ⟨m, hend, hlooked, hinside, ?_⟩
    rw [hp] at hphase ⊢
    exact hphase

theorem PartCall.turn_mgr (call : PartCall ι) (pos : Int) : (call.turn pos).1.mgr = call.mgr := by
  unfold PartCall.turn
  split
  · split <;> rfl
  · rfl
  · rfl

theorem PartCall.turn_left {call : PartCall ι} (going : call.phase ≠ .done) (pos : Int) :
    (call.turn pos).2 = (call.turn pos).1.left := by
  unfold PartCall.turn
  cases hphase : call.phase with
  | test =>
    dsimp only
    split <;> rfl
  | body => rfl
  | done => exact absurd hphase going

theorem PartCall.turn_done {call : PartCall ι} (ended : call.phase = .done) (pos : Int) :
    call.turn pos = (call, pos) := by
  simp only [PartCall.turn, ended]

theorem PartCall.turn_look {call : PartCall ι} {pos : Int} (hphase : call.phase = .test) (inside : pos < call.iEnd) :
    call.turn pos = ({ call with phase := .body, left := pos, looked := call.looked ++ [pos] }, pos) := by
  simp only [PartCall.turn, hphase, if_pos inside]

theorem PartCall.turn_stop {call : PartCall ι} {pos : Int} (hphase : call.phase = .test) (behind : ¬ pos < call.iEnd) :
    call.turn pos = ({ call with phase := .done, left := pos }, pos) := by
  simp only [PartCall.turn, hphase, if_neg behind]

theorem PartCall.turn_next {call : PartCall ι} (hphase : call.phase = .body) (pos : Int) :
    call.turn pos = ({ call with phase := .test, left := int32 (pos + 1) }, int32 (pos + 1)) := by
  simp only [PartCall.turn, hphase]

theorem PartState.step_turn {s : PartState ι} {c : Nat} {call : PartCall ι} (hcall : s.calls[c]? = some call) :
    s.step pools n (.turn c) = ⟨(call.turn s.iLastPos).2, s.calls.set c (call.turn s.iLastPos).1⟩ := by
  simp only [PartState.step, hcall]

theorem PartState.made_turn (s : PartState ι) (c : Nat) : (s.step pools n (.turn c)).made = s.made := by
  cases hc : s.calls[c]? with
  | none => simp only [PartState.step, hc]
  | some call =>
    obtain ⟨hlt, rfl⟩ := List.getElem?_eq_some_iff.mp hc
    simp only [PartState.step, hc, PartState.made, List.map_set, PartCall.turn_mgr]
    rw [← List.getElem_map PartCall.mgr (h := by rwa [List.length_map])]
    exact List.set_getElem_self _

/-- All calls are on `i`, those before the last one have ended, and the cursor is where the last one left it. -/
structure PartState.Single (i : ι) (s : PartState ι) : Prop where
  mgr : ∀ call ∈ s.calls, call.mgr = i
  ended : ∀ c call, s.calls[c]? = some call → c + 1 < s.calls.length → call.phase = .done
  start : s.calls = [] → s.iLastPos = 0
  cursor : ∀ c call, s.calls[c]? = some call → c + 1 = s.calls.length → s.iLastPos = call.left

theorem PartState.Single.call {s : PartState ι} (h : s.Single i) (ended : ∀ call ∈ s.calls, call.phase = .done) :
    (s.step pools n (.call i)).Single i := by
  simp only [PartState.step]
  refine ⟨?_, ?_, by simp, ?_⟩
  · intro call hcall
    rcases List.mem_append.mp hcall with hold | hnew
    · exact h.mgr call hold
    · rw [List.mem_singleton.mp hnew]
  · intro c call hcall hlt
    rw [List.length_append, List.length_singleton] at hlt
    rw [List.getElem?_append_left (by omega)] at hcall
    exact ended call (List.mem_of_getElem? hcall)
  · intro c call hcall hlast
    rw [List.length_append, List.length_singleton] at hlast
    obtain rfl : c = s.calls.length := by omega
    rw [List.getElem?_concat_length] at hcall
    rw [← Option.some.inj hcall]

theorem PartState.Single.turn {s : PartState ι} (h : s.Single i) (c : Nat) : (s.step pools n (.turn c)).Single i := by
  cases hc : s.calls[c]? with
  | none =>
    simp only [PartState.step, hc]
    exact h
  | some call =>
    obtain ⟨hlt, hget⟩ := List.getElem?_eq_some_iff.mp hc
    rw [PartState.step_turn hc]
    by_cases done : call.phase = .done
    · have same : s.calls.set c call = s.calls := hget ▸ List.set_getElem_self hlt
      rw [PartCall.turn_done done, same]
      exact h
    · have last : c + 1 = s.calls.length := by
        by_contra hne
        exact done (h.ended c call hc (by omega))
      refine ⟨?_, ?_, ?_, ?_⟩
      · intro call' hcall'
        rcases List.mem_or_eq_of_mem_set hcall' with hold | rfl
        · exact h.mgr call' hold
        · rw [PartCall.turn_mgr]
          exact h.mgr call (List.mem_of_getElem? hc)
      · intro c' call' hcall' hlt'
        rw [List.length_set] at hlt'
        rw [List.getElem?_set_ne (by omega)] at hcall'
        exact h.ended c' call' hcall' hlt'
      · intro hnil
        rw [List.set_eq_nil_iff] at hnil
        simp [hnil] at hlt
      · intro c' call' hcall' hlast'
        rw [List.length_set] at hlast'
        obtain rfl : c' = c := by omega
        rw [List.getElem?_set_self hlt] at hcall'
        rw [← Option.some.inj hcall', PartCall.turn_left done]

/-- A call is made on `i` only, and when the one before it has come to its end. -/
def PartState.StartsAlone (i : ι) (s : PartState ι) : PartEvent ι → Prop
  | .call j => j = i ∧ ∀ call ∈ s.calls, call.phase = .done
  | .turn _ => True

instance [DecidableEq ι] (i : ι) (s : PartState ι) (e : PartEvent ι) : Decidable (s.StartsAlone i e) :=
  match e with
  | .call j => inferInstanceAs (Decidable (j = i ∧ _))
  | .turn _ => isTrue trivial

/-- There are only calls on `i`, one after the other. -/
def OneByOne (pools : ι → Nat) (n : Nat) (events : List (PartEvent ι)) (i : ι) : Prop :=
  ∀ k e, events[k]? = some e → (partAt pools n events k).StartsAlone i e

theorem OneByOne.single (one : OneByOne pools n events i) (k : Nat) : (partAt pools n events k).Single i := by
  have start : PartState.Single i ⟨0, []⟩ := ⟨by simp, by simp, fun _ => rfl, by simp⟩
  refine stateAt_induct start ?_ k
  intro k e he inv
  cases e with
  | call j =>
    obtain ⟨rfl, ended⟩ := one k _ he
    exact inv.call ended
  | turn c => exact inv.turn c

variable [DecidableEq ι]

/-- A call on `i` starts where the earlier calls on `i` alone would have left the cursor, and finds it at each turn
where its own last turn left it. -/
def PartState.FindsOwn (pools : ι → Nat) (n : Nat) (i : ι) (s : PartState ι) : PartEvent ι → Prop
  | .call j =>
    j = i → partStart (pools i) s.iLastPos = partStart (pools i) (ownCursor (pools i) n (s.made.count i))
  | .turn c => ∀ call ∈ s.calls[c]?, call.mgr = i → call.phase ≠ .done → s.iLastPos = call.left

instance (s : PartState ι) (e : PartEvent ι) : Decidable (s.FindsOwn pools n i e) :=
  match e with
  | .call j => inferInstanceAs (Decidable (j = i → _))
  | .turn c => inferInstanceAs (Decidable (∀ call ∈ s.calls[c]?, _))

/-- Nothing else moves the cursor of the calls on `i`. -/
def Undisturbed (pools : ι → Nat) (n : Nat) (events : List (PartEvent ι)) (i : ι) : Prop :=
  ∀ k e, events[k]? = some e → (partAt pools n events k).FindsOwn pools n i e

theorem count_take_mono (calls : List ι) (i : ι) {j k : Nat} (hle : j ≤ k) :
    (calls.take j).count i ≤ (calls.take k).count i :=
  (List.take_sublist_take_left hle).count_le i

theorem count_take_lt {j k : Nat} (h : calls[j]? = some i) (hlt : j < k) :
    (calls.take j).count i < (calls.take k).count i := by
  have hmono := count_take_mono calls i (show j + 1 ≤ k from hlt)
  rw [List.take_add_one, h, List.count_append] at hmono
  simp only [Option.toList_some, List.count_singleton_self] at hmono
  omega

/-- The call on `i` that `r` calls on `i` precede. -/
theorem exists_call_of_count {k r : Nat} (h : r < (calls.take k).count i) :
    ∃ j, j < k ∧ calls[j]? = some i ∧ (calls.take j).count i = r := by
  induction k with
  | zero => simp at h
  | succ k ih =>
    by_cases hr : r < (calls.take k).count i
    · obtain ⟨j, hj, hcall, hcount⟩ := ih hr
      exact ⟨j, by omega, hcall, hcount⟩
    · cases hk : calls[k]? with
      | none =>
        rw [List.take_add_one, hk] at h
        simp at h
        omega
      | some e =>
        rw [List.take_add_one, hk, List.count_append] at h
        by_cases hei : e = i
        · subst hei
          simp at h
          exact ⟨k, by omega, hk, by omega⟩
        · simp [hei] at h
          omega

/-- The calls on `i` look at the windows of its pool in turn. -/
theorem Undisturbed.inWindow (undisturbed : Undisturbed pools n events i) (hC : 1 ≤ pools i) (hn : 1 ≤ n)
    (hmax : n + pools i < 2147483648) (k : Nat) {c : Nat} {call : PartCall ι}
    (hcall : (partAt pools n events k).calls[c]? = some call) (hmgr : call.mgr = i) :
    ∃ m, call.InWindow (pools i) n
      (((partAt pools n events k).made.take c).count i % callsPerRound (pools i) n * n) m := by
  induction k generalizing c call with
  | zero => simp [partAt, stateAt_zero] at hcall
  | succ k ih =>
    cases he : events[k]? with
    | none =>
      rw [partAt, stateAt_end he] at hcall ⊢
      exact ih hcall hmgr
    | some e =>
      have hstep : partAt pools n events (k + 1) = (partAt pools n events k).step pools n e := stateAt_succ he
      rw [hstep] at hcall ⊢
      cases e with
      | call j =>
        have hmade : ((partAt pools n events k).step pools n (.call j)).made = (partAt pools n events k).made ++ [j] :=
          List.map_append
        have hlen : (partAt pools n events k).made.length = (partAt pools n events k).calls.length := List.length_map _
        rcases Nat.lt_or_ge c (partAt pools n events k).calls.length with hold | hnew
        · have hcall' : (partAt pools n events k).calls[c]? = some call :=
            (List.getElem?_append_left hold).symm.trans hcall
          rw [hmade, List.take_append_of_le_length (by omega)]
          exact ih hcall' hmgr
        · have hlt : c < (partAt pools n events k).calls.length + 1 := by
            have := (List.getElem?_eq_some_iff.mp hcall).1
            simpa [PartState.step] using this
          obtain rfl : c = (partAt pools n events k).calls.length := by omega
          have hcall' := (List.getElem?_concat_length).symm.trans hcall
          obtain rfl := Option.some.inj hcall'
          obtain rfl : j = i := hmgr
          have hstart := (undisturbed k _ he rfl).trans (partStart_ownCursor hC hn hmax _)
          have hfront := front_lt hn (Nat.mod_lt ((partAt pools n events k).made.count j) (callsPerRound_pos hC hn))
          refine ⟨0, ?_⟩
          rw [hmade, ← hlen, List.take_left']
          · rw [hstart]
            refine ⟨partEnd_eq hmax hfront, rfl, by omega, ?_⟩
            simp
          · rfl
      | turn c' =>
        rw [PartState.made_turn]
        cases hc' : (partAt pools n events k).calls[c']? with
        | none =>
          simp only [PartState.step, hc'] at hcall
          exact ih hcall hmgr
        | some call' =>
          simp only [PartState.step, hc'] at hcall
          by_cases hcc : c' = c
          · subst hcc
            obtain ⟨hlt, -⟩ := List.getElem?_eq_some_iff.mp hc'
            rw [List.getElem?_set_self hlt] at hcall
            obtain rfl := Option.some.inj hcall
            rw [PartCall.turn_mgr] at hmgr
            obtain ⟨m, window⟩ := ih hc' hmgr
            by_cases hdone : call'.phase = .done
            · rw [PartCall.turn_done hdone]
              exact ⟨m, window⟩
            · rw [undisturbed k _ he call' hc' hmgr hdone]
              exact window.turn (by omega)
          · rw [List.getElem?_set_ne hcc] at hcall
            exact ih hcall hmgr

/-- A call that has ended has looked where it would have looked alone. -/
theorem Undisturbed.looked_eq (undisturbed : Undisturbed pools n events i) (hC : 1 ≤ pools i) (hn : 1 ≤ n)
    (hmax : n + pools i < 2147483648) {k c : Nat} {call : PartCall ι}
    (hcall : (partAt pools n events k).calls[c]? = some call) (hmgr : call.mgr = i) (hdone : call.phase = .done) :
    (call.looked, call.left) =
      partCall (pools i) n (ownCursor (pools i) n (((partAt pools n events k).made.take c).count i)) := by
  obtain ⟨m, window⟩ := undisturbed.inWindow hC hn hmax k hcall hmgr
  have hlt := front_lt hn (Nat.mod_lt (((partAt pools n events k).made.take c).count i) (callsPerRound_pos hC hn))
  have hphase := window.phase
  rw [hdone] at hphase
  rw [partCall_eq hn hmax hlt (partStart_ownCursor hC hn hmax _), window.looked, hphase.1, ← hphase.2]
  rw [show m = min n (pools i - ((partAt pools n events k).made.take c).count i % callsPerRound (pools i) n * n) by
    have := hphase.2
    omega]
  rfl

theorem PartState.Single.findsOwn_turn {s : PartState ι} (h : s.Single i) (c : Nat) :
    s.FindsOwn pools n i (.turn c) := by
  intro call hcall _ going
  obtain ⟨hlt, -⟩ := List.getElem?_eq_some_iff.mp hcall
  by_cases last : c + 1 = s.calls.length
  · exact h.cursor c call hcall last
  · exact absurd (h.ended c call hcall (by omega)) going

/-- Calls on one manager, one after the other, do not disturb each other. -/
theorem OneByOne.undisturbed (one : OneByOne pools n events i) (hC : 1 ≤ pools i) (hn : 1 ≤ n)
    (hmax : n + pools i < 2147483648) : Undisturbed pools n events i := by
  -- the events before an event that finds the cursor have left it there
  suffices before : ∀ k, Undisturbed pools n (events.take k) i by
    intro k e he
    have hk : (events.take (k + 1))[k]? = some e := by rwa [List.getElem?_take_of_lt (by omega)]
    have found := before (k + 1) k e hk
    rwa [partAt_take (by omega)] at found
  intro k
  induction k with
  | zero => simp [Undisturbed]
  | succ k ih =>
    intro j e he
    have hj : j ≤ k := by
      have := (List.getElem?_eq_some_iff.mp he).1
      rw [List.length_take] at this
      omega
    rw [List.getElem?_take_of_lt (by omega)] at he
    rw [partAt_take (by omega)]
    rcases Nat.lt_or_eq_of_le hj with hlt | rfl
    · have found := ih j e (by rwa [List.getElem?_take_of_lt hlt])
      rwa [partAt_take (by omega)] at found
    · have single := one.single j
      cases e with
      | turn c => exact single.findsOwn_turn c
      | call j' =>
        obtain ⟨rfl, ended⟩ := one j _ he
        intro _
        congr 1
        rcases List.eq_nil_or_concat (partAt pools n events j).calls with hnil | ⟨calls, call, hcalls⟩
        · rw [single.start hnil, PartState.made, hnil]
          rfl
        · rw [List.concat_eq_append] at hcalls
          have hlast : (partAt pools n events j).calls[calls.length]? = some call := by simp [hcalls]
          have hmade : (partAt pools n events j).made = (partAt pools n events j).made.take calls.length ++ [j'] := by
            have := single.mgr call (by simp [hcalls])
            simp [PartState.made, hcalls, this]
          have hmem : call ∈ (partAt pools n events j).calls := List.mem_of_getElem? hlast
          have looked := ih.looked_eq hC hn hmax ((partAt_take le_rfl).symm ▸ hlast) (single.mgr call hmem)
            (ended call hmem)
          rw [partAt_take le_rfl] at looked
          have hleft := congrArg Prod.snd looked
          rw [single.cursor _ call hlast (by simp [hcalls]), hmade, List.count_append, List.count_singleton_self]
          exact hleft.trans (ownCursor_succ _ _ _).symm

theorem Undisturbed.mem_looked_iff (undisturbed : Undisturbed pools n events i) (hn : 1 ≤ n)
    (hmax : n + pools i < 2147483648) {k c p : Nat} {call : PartCall ι}
    (hcall : (partAt pools n events k).calls[c]? = some call) (hmgr : call.mgr = i) (hdone : call.phase = .done)
    (hp : p < pools i) :
    ((p : Int) ∈ call.looked ↔
      p / n = ((partAt pools n events k).made.take c).count i % callsPerRound (pools i) n) ∧ call.looked.Nodup := by
  have hC : 1 ≤ pools i := by omega
  have hlt := front_lt hn (Nat.mod_lt (((partAt pools n events k).made.take c).count i) (callsPerRound_pos hC hn))
  have hlooked := undisturbed.looked_eq hC hn hmax hcall hmgr hdone
  rw [partCall_eq hn hmax hlt (partStart_ownCursor hC hn hmax _)] at hlooked
  rw [(Prod.mk.inj hlooked).1]
  refine ⟨(mem_window_iff hp).trans ?_, window_nodup _ _⟩
  rw [Nat.div_eq_iff (by omega)]
  omega

/-- While nothing else moves the cursor of `i`, every position of `i` is looked at exactly once in every stretch of
calls with as many calls on `i` as its pool takes. -/
theorem part_expire_covers (hn : 1 ≤ n) (hmax : n + pools i < 2147483648) (undisturbed : Undisturbed pools n events i)
    {k lo hi : Nat}
    (stretch : ((partAt pools n events k).made.take hi).count i =
      ((partAt pools n events k).made.take lo).count i + (pools i + n - 1) / n)
    (ended : ∀ c call, lo ≤ c → c < hi → (partAt pools n events k).calls[c]? = some call → call.mgr = i →
      call.phase = .done) {p : Nat} (hp : p < pools i) :
    ∃ c call, lo ≤ c ∧ c < hi ∧ (partAt pools n events k).calls[c]? = some call ∧ call.mgr = i ∧
      call.looked.count (p : Int) = 1 ∧
      ∀ c' call', lo ≤ c' → c' < hi → (partAt pools n events k).calls[c']? = some call' → call'.mgr = i →
        (p : Int) ∈ call'.looked → c' = c := by
  have looked := fun {c : Nat} {call : PartCall ι} (hcall : (partAt pools n events k).calls[c]? = some call)
      (hmgr : call.mgr = i) (hdone : call.phase = .done) => undisturbed.mem_looked_iff hn hmax hcall hmgr hdone hp
  have made : ∀ {c : Nat} {call : PartCall ι}, (partAt pools n events k).calls[c]? = some call → call.mgr = i →
      (partAt pools n events k).made[c]? = some i := by
    intro c call hcall hmgr
    rw [PartState.made, List.getElem?_map, hcall, Option.map_some, hmgr]
  have hround : p / n < callsPerRound (pools i) n := by
    rw [Nat.div_lt_iff_lt_mul (by omega)]
    exact Nat.lt_of_lt_of_le hp (callsPerRound_bounds hn).1
  change _ = _ + callsPerRound (pools i) n at stretch
  obtain ⟨r, hlow, hhigh, hres⟩ :=
    exists_residue (((partAt pools n events k).made.take lo).count i) hround
  obtain ⟨c, hc, hat, hcount⟩ :=
    exists_call_of_count (show r < ((partAt pools n events k).made.take hi).count i by omega)
  have hlo : lo ≤ c := by
    by_contra hlt
    have hbefore := count_take_lt hat (show c < lo by omega)
    omega
  obtain ⟨call, hcall, hmgr⟩ := Option.map_eq_some_iff.mp (List.getElem?_map.symm.trans hat)
  obtain ⟨hmem, hnodup⟩ := looked hcall hmgr (ended c call hlo hc hcall hmgr)
  refine ⟨c, call, hlo, hc, hcall, hmgr, ?_, ?_⟩
  · refine List.count_eq_one_of_mem hnodup (hmem.mpr ?_)
    rw [hcount, hres]
  · intro c' call' hlo' hc' hcall' hmgr' hmem'
    have hat' := made hcall' hmgr'
    have hres' := (looked hcall' hmgr' (ended c' call' hlo' hc' hcall' hmgr')).1.mp hmem'
    have hge := count_take_mono (partAt pools n events k).made i hlo'
    have hlt := count_take_lt hat' hc'
    have hsame : ((partAt pools n events k).made.take c').count i = r :=
      residue_unique hge (by omega) hlow hhigh (hres'.symm.trans hres.symm)
    rcases Nat.lt_trichotomy c' c with hbefore | heq | hafter
    · have hcounts := count_take_lt hat' hbefore
      omega
    · exact heq
    · have hcounts := count_take_lt hat hafter
      omega

end Calls

/-- Two managers with room for four coroutines and for two. -/
def twoPools (i : Bool) : Nat := if i then 2 else 4

/-- A call that comes to its end after `m` positions, with nothing in between. -/
def wholeCall (i : Bool) (c m : Nat) : List (PartEvent Bool) := .call i :: List.replicate (2 * m + 1) (.turn c)

def fourCalls : List (PartEvent Bool) :=
  wholeCall false 0 2 ++ wholeCall false 1 2 ++ wholeCall false 2 2 ++ wholeCall false 3 2

theorem part_expire_covers_alone :
    ∃ c call, 2 ≤ c ∧ c < 4 ∧ (partAt twoPools 2 fourCalls 24).calls[c]? = some call ∧ call.mgr = false ∧
      call.looked.count 3 = 1 ∧
      ∀ c' call', 2 ≤ c' → c' < 4 → (partAt twoPools 2 fourCalls 24).calls[c']? = some call' → call'.mgr = false →
        3 ∈ call'.looked → c' = c := by
  have one : OneByOne twoPools 2 fourCalls false := forall_event_iff.mpr (by decide +kernel)
  have undisturbed := one.undisturbed (by decide) (by decide) (by decide)
  have ended : ∀ call ∈ (partAt twoPools 2 fourCalls 24).calls, call.phase = .done := by decide +kernel
  exact part_expire_covers (by decide) (by decide) undisturbed (by decide +kernel)
    (fun _ call _ _ hcall _ => ended call (List.mem_of_getElem? hcall)) (by decide)

/-- The two managers are swept in turns, a position at a time. -/
def takingTurns : List (PartEvent Bool) :=
  wholeCall false 0 1 ++ wholeCall true 1 1 ++ wholeCall false 2 1 ++ wholeCall true 3 1 ++ wholeCall false 4 1 ++
    wholeCall true 5 1 ++ wholeCall false 6 1 ++ wholeCall true 7 1

/-- The calls on the second manager move the cursor of the first: in four calls on it position 1 is
looked at twice and position 3 never. -/
theorem part_expire_skips :
    (partAt twoPools 1 takingTurns 32).made.count false = (twoPools false + 1 - 1) / 1 ∧
      (∀ call ∈ (partAt twoPools 1 takingTurns 32).calls, call.phase = .done) ∧
      (∀ call ∈ (partAt twoPools 1 takingTurns 32).calls, call.mgr = false → 3 ∉ call.looked) ∧
      (partAt twoPools 1 takingTurns 32).calls.map (fun call => (call.mgr, call.looked)) =
        [(false, [0]), (true, [1]), (false, [2]), (true, [0]), (false, [1]), (true, [0]), (false, [1]),
          (true, [0])] := by
  decide +kernel

/-- The coroutine in the first slot of the first manager sweeps the second one. -/
def sweepInside : List (PartEvent Bool) :=
  [.call false, .turn 0] ++ wholeCall true 1 2 ++ [.turn 0, .turn 0, .turn 0, .turn 0]

/-- A call finds the cursor of the call that its own body has made: positions 1 and 2 of the first manager are skipped,
although both calls find the cursor at the front when they start. -/
theorem part_expire_skips_inside :
    (partAt twoPools 4 sweepInside 12).calls.map (fun call => (call.mgr, call.phase, call.looked)) =
      [(false, .done, [0, 3]), (true, .done, [0, 1])] := by
  decide +kernel

end Wddlib
