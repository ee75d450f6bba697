import Wddlib.LogDay

namespace Wddlib

/-- Every file but `lost` still begins with what was in it. -/
def FileSystem.KeepsBut (lost : Option (List UInt8)) (old new : FileSystem) : Prop :=
  ∀ path, some path ≠ lost → old.content path <+: new.content path

theorem FileSystem.KeepsBut.refl (lost : Option (List UInt8)) (disk : FileSystem) : disk.KeepsBut lost disk :=
  fun _ _ => List.prefix_refl _

theorem FileSystem.KeepsBut.trans {lost : Option (List UInt8)} {disk disk' disk'' : FileSystem}
    (h : disk.KeepsBut lost disk') (h' : disk'.KeepsBut lost disk'') : disk.KeepsBut lost disk'' :=
  fun path hne => (h path hne).trans (h' path hne)

theorem FileSystem.keepsBut_append (lost : Option (List UInt8)) (disk : FileSystem) (path : List UInt8)
    (chunk : FileChunk) : disk.KeepsBut lost (disk.append path chunk) := by
  intro other _
  by_cases heq : other = path
  · subst heq
    rw [FileSystem.content, FileSystem.content, FileSystem.append_same, Option.getD_some]
    exact List.prefix_append _ _
  · have hsame : (disk.append path chunk).content other = disk.content other :=
      congrArg (Option.getD · []) (FileSystem.append_other disk chunk heq)
    exact hsame.symm ▸ List.prefix_refl _

theorem FileSystem.keepsBut_update (disk : FileSystem) (path : List UInt8) (content : Option (List FileChunk)) :
    disk.KeepsBut (some path) (Function.update disk path content) := by
  intro other hne
  have hsame : FileSystem.content (Function.update disk path content) other = disk.content other :=
    congrArg (Option.getD · []) (Function.update_of_ne (fun heq => hne (congrArg some heq)) _ _)
  exact hsame.symm ▸ List.prefix_refl _

namespace LogFile

variable {strTime : Int → List UInt8} {f : LogFile} {w : LogWrite} {env : LogEnv} {path : List UInt8}
  {lost : Option (List UInt8)}

theorem close_keeps : f.disk.KeepsBut lost f.close.disk := by
  cases h : f.pFile with
  | none =>
    rw [close_none h]
    exact .refl lost _
  | some path =>
    rw [close_some h]
    exact FileSystem.keepsBut_append lost _ _ _

theorem put_keeps : f.disk.KeepsBut lost (f.put w).disk := by
  cases h : f.pFile with
  | none =>
    rw [put_none h]
    exact .refl lost _
  | some path =>
    rw [put_some h]
    exact FileSystem.keepsBut_append lost _ _ _

theorem openFile_keeps {isClear : Bool} : f.disk.KeepsBut (some path) (f.openFile path isClear env).disk := by
  cases opens : env.opens with
  | false =>
    rw [openFile_failed opens]
    exact close_keeps
  | true =>
    rw [openFile_opened opens]
    exact close_keeps.trans (FileSystem.keepsBut_update _ _ _)

theorem close_curRollIdx : f.close.curRollIdx = f.curRollIdx := by
  cases h : f.pFile with
  | none => rw [close_none h]
  | some path => rw [close_some h]

theorem close_rollCount : f.close.rollCount = f.rollCount := by
  cases h : f.pFile with
  | none => rw [close_none h]
  | some path =>
    rw [close_some h]
    rfl

theorem openFile_curRollIdx {isClear : Bool} : (f.openFile path isClear env).curRollIdx = f.curRollIdx := by
  cases opens : env.opens with
  | false => rw [openFile_failed opens, close_curRollIdx]
  | true =>
    rw [openFile_opened opens]
    exact close_curRollIdx

theorem openFile_rollCount {isClear : Bool} : (f.openFile path isClear env).rollCount = f.rollCount := by
  cases opens : env.opens with
  | false => rw [openFile_failed opens, close_rollCount]
  | true =>
    rw [openFile_opened opens]
    exact close_rollCount

theorem put_curRollIdx : (f.put w).curRollIdx = f.curRollIdx := by
  cases h : f.pFile with
  | none => rw [put_none h]
  | some path => rw [put_some h]

theorem put_rollCount : (f.put w).rollCount = f.rollCount := by
  cases h : f.pFile with
  | none => rw [put_none h]
  | some path =>
    rw [put_some h]
    rfl

theorem rollCount_pos (f : LogFile) : 0 < f.rollCount := by
  unfold rollCount
  split <;> omega

theorem advance_rollCount (f : LogFile) : f.advance.rollCount = f.rollCount :=
  if_neg (Nat.ne_of_gt f.rollCount_pos)

/-- The write goes on with file `idx` of its date: it opens no other file and leaves what is in the others, also in the
files of the date with other numbers. -/
structure Takes (strTime : Int → List UInt8) (w : LogWrite) (f : LogFile) (idx : Nat) : Prop where
  idx_eq : (f.write strTime w).curRollIdx = idx
  keeps : f.disk.KeepsBut (some (f.names.getFileName idx (strTime w.env.now))) (f.write strTime w).disk
  others : ∀ j < f.rollCount, j ≠ idx → f.disk.content (f.names.getFileName j (strTime w.env.now)) <+:
    (f.write strTime w).disk.content (f.names.getFileName j (strTime w.env.now))
  opened : ∀ path, (f.write strTime w).pFile = some path → path = f.names.getFileName idx (strTime w.env.now)

/-- The roll order: a write that finds a file open stays with it or goes on to the next one, and a write that finds
none open, because the last open failed, takes the file that was to be opened. -/
def InOrder (strTime : Int → List UInt8) (w : LogWrite) (f : LogFile) : Prop :=
  match f.pFile with
  | some _ =>
    ((f.write strTime w).curRollIdx = f.curRollIdx ∧ f.disk.KeepsBut none (f.write strTime w).disk) ∨
      f.Takes strTime w ((f.curRollIdx + 1) % f.rollCount)
  | none => f.Takes strTime w f.curRollIdx

/-- What must hold of a state in which no file is open for the next write to take the right one. `Close` has set the
time of the file to 0 and its size to 0. -/
def CanResume (f : LogFile) (now : Int) : Prop :=
  if SameDay now 0 then 0 < f.rollSize ∨ (f.curRollIdx + 1) % f.rollCount = f.curRollIdx else f.curRollIdx = 0

instance (f : LogFile) (now : Int) : Decidable (f.CanResume now) := inferInstanceAs (Decidable (ite _ _ _))

/-- What holds of a log file in every state after an `InitLogFile` that has opened its file. -/
structure RollState (f : LogFile) : Prop where
  idx_lt : f.curRollIdx < f.rollCount
  count_lt : f.rollCount < 4294967296
  closed : f.pFile = none → f.curFileTime = 0 ∧ f.curSize = 0

theorem advance_idx (idx_lt : f.curRollIdx < f.rollCount) (count_lt : f.rollCount < 4294967296) :
    f.advance.curRollIdx = (f.curRollIdx + 1) % f.rollCount := by
  have hlt : f.curRollIdx + 1 < 4294967296 := Nat.lt_of_le_of_lt idx_lt count_lt
  change (f.curRollIdx + 1) % 4294967296 % f.rollCount = _
  rw [Nat.mod_eq_of_lt hlt]

theorem RollState.advance_idx (h : f.RollState) : f.advance.curRollIdx = (f.curRollIdx + 1) % f.rollCount :=
  LogFile.advance_idx h.idx_lt h.count_lt

/-- A write that opens a file takes it. -/
theorem takes_of_openFile {g : LogFile} {idx : Nat} (apart : f.names.Apart f.rollCount (strTime w.env.now))
    (idx_lt : idx < f.rollCount)
    (heq : f.write strTime w = (g.openFile (f.names.getFileName idx (strTime w.env.now)) true w.env).put w)
    (disk_eq : g.disk = f.disk) (idx_eq : g.curRollIdx = idx) : f.Takes strTime w idx := by
  have keeps : f.disk.KeepsBut (some (f.names.getFileName idx (strTime w.env.now))) (f.write strTime w).disk := by
    rw [heq, ← disk_eq]
    exact openFile_keeps.trans put_keeps
  refine ⟨?_, keeps, ?_, ?_⟩
  · rw [heq, put_curRollIdx, openFile_curRollIdx]
    exact idx_eq
  · exact fun j hj hne => keeps _ fun same => hne (apart j hj idx idx_lt (Option.some.inj same))
  · intro path hpath
    rw [heq] at hpath
    exact (openFile_put_open hpath).1

theorem inOrder_of_open (h : f.RollState) (apart : f.names.Apart f.rollCount (strTime w.env.now))
    (hpath : f.pFile = some path) (same : ¬ f.dayChanged w.env.now) : f.InOrder strTime w := by
  simp only [InOrder, hpath]
  rcases write_cases strTime f w with ⟨changed, -⟩ | ⟨-, -, heq⟩ | ⟨-, -, heq⟩
  · exact absurd changed same
  · rw [h.advance_idx] at heq
    exact .inr (takes_of_openFile apart (Nat.mod_lt _ f.rollCount_pos) heq rfl h.advance_idx)
  · rw [heq]
    exact .inl ⟨put_curRollIdx, put_keeps⟩

/-- The write after a failed open takes the file that was to be opened exactly when the day test against time 0, and
the size test against size 0, happen to leave the index where it is. -/
theorem inOrder_iff_of_closed (h : f.RollState) (apart : f.names.Apart f.rollCount (strTime w.env.now))
    (closed : f.pFile = none) : f.InOrder strTime w ↔ f.CanResume w.env.now := by
  obtain ⟨htime, hsize⟩ := h.closed closed
  have hday : f.dayChanged w.env.now ↔ ¬ SameDay w.env.now 0 := by
    rw [dayChanged, htime]
    rfl
  simp only [InOrder, closed, CanResume]
  rcases write_cases strTime f w with ⟨changed, heq⟩ | ⟨same, full, heq⟩ | ⟨same, room, heq⟩
  · rw [if_neg (hday.mp changed)]
    constructor
    · intro takes
      rw [← takes.idx_eq, heq, put_curRollIdx, openFile_curRollIdx]
    · intro hzero
      rw [hzero]
      exact takes_of_openFile apart f.rollCount_pos heq rfl rfl
  · rw [if_pos (Decidable.not_not.mp (hday.not.mp same))]
    rw [hsize] at full
    constructor
    · intro takes
      have hidx := takes.idx_eq
      rw [heq, put_curRollIdx, openFile_curRollIdx, h.advance_idx] at hidx
      exact .inr hidx
    · rintro (room | hidx)
      · omega
      · rw [h.advance_idx, hidx] at heq
        exact takes_of_openFile apart h.idx_lt heq rfl (h.advance_idx.trans hidx)
  · rw [if_pos (Decidable.not_not.mp (hday.not.mp same))]
    rw [hsize] at room
    refine ⟨fun _ => .inl room, fun _ => ?_⟩
    rw [put_none closed] at heq
    refine ⟨?_, ?_, ?_, ?_⟩
    · rw [heq]
    · rw [heq]
      exact .refl _ _
    · intro j _ _
      exact List.prefix_iff_eq_append.mpr (by rw [heq, List.drop_length, List.append_nil])
    · intro path hpath
      rw [heq, closed] at hpath
      cases hpath

/-- The state with which `OpenFile` is called matters only for a file that cannot be opened. -/
theorem rollState_openFile {isClear : Bool} (idx_lt : f.curRollIdx < f.rollCount) (count_lt : f.rollCount < 4294967296)
    (closed : env.opens = false → f.pFile = none → f.curFileTime = 0 ∧ f.curSize = 0) :
    (f.openFile path isClear env).RollState := by
  refine ⟨?_, ?_, ?_⟩
  · rw [openFile_curRollIdx, openFile_rollCount]
    exact idx_lt
  · rw [openFile_rollCount]
    exact count_lt
  · cases opens : env.opens with
    | false =>
      rw [openFile_failed opens]
      cases h : f.pFile with
      | none =>
        rw [close_none h]
        exact closed opens
      | some path =>
        rw [close_some h]
        exact fun _ => ⟨rfl, rfl⟩
    | true =>
      rw [openFile_opened opens]
      exact fun h => by cases h

theorem RollState.put (h : f.RollState) : (f.put w).RollState := by
  refine ⟨?_, ?_, ?_⟩
  · rw [put_curRollIdx, put_rollCount]
    exact h.idx_lt
  · rw [put_rollCount]
    exact h.count_lt
  · intro closed
    rw [put_pFile] at closed
    rw [put_none closed]
    exact h.closed closed

theorem RollState.write (h : f.RollState) : (f.write strTime w).RollState := by
  rcases write_cases strTime f w with ⟨-, heq⟩ | ⟨-, -, heq⟩ | ⟨-, -, heq⟩
  · rw [heq]
    refine (rollState_openFile ?_ ?_ ?_).put
    · exact f.rollCount_pos
    · exact h.count_lt
    · exact fun _ => h.closed
  · rw [heq]
    refine (rollState_openFile ?_ ?_ ?_).put
    · rw [advance_rollCount]
      exact Nat.mod_lt _ f.rollCount_pos
    · rw [advance_rollCount]
      exact h.count_lt
    · exact fun _ => h.closed
  · rw [heq]
    exact h.put

theorem write_rollCount : (f.write strTime w).rollCount = f.rollCount := by
  rcases write_cases strTime f w with ⟨-, heq⟩ | ⟨-, -, heq⟩ | ⟨-, -, heq⟩
  · rw [heq, put_rollCount, openFile_rollCount]
    rfl
  · rw [heq, put_rollCount, openFile_rollCount, advance_rollCount]
  · rw [heq, put_rollCount]

theorem lastRoll_lt {c : CLogFile} {disk : FileSystem} {mtime : List UInt8 → Int} {date : List UInt8} {last : Nat × Int}
    (h : c.lastRoll disk mtime date = some last) : last.1 < c.rollCountMax := by
  rcases c.lastRoll_firstMax disk mtime date with ⟨heq, -⟩ | ⟨i, t, heq, hmax⟩
  · rw [heq] at h
    cases h
  · rw [← Option.some.inj (heq.symm.trans h)]
    exact hmax.lt

end LogFile

namespace LogRun

variable {r : LogRun} {k : Nat} {w : LogWrite}

/-- The number of files that the rolls of a run go round. -/
def rollCount (r : LogRun) : Nat := if r.rollCountMax = 0 then 1 else r.rollCountMax

theorem initial_idx (r : LogRun) : r.initial.curRollIdx = r.firstIdx := by
  rw [r.initial_eq, LogFile.openFile_curRollIdx]
  rfl

theorem initial_rollCount (r : LogRun) : r.initial.rollCount = r.rollCount := by
  rw [r.initial_eq, LogFile.openFile_rollCount]
  rfl

theorem fileAt_rollCount (r : LogRun) (k : Nat) : (r.fileAt k).rollCount = r.rollCount := by
  induction k with
  | zero => rw [fileAt_zero, initial_rollCount]
  | succ k ih =>
    cases hw : r.writes[k]? with
    | none =>
      rw [fileAt, stateAt_end hw]
      exact ih
    | some w => rw [fileAt_succ hw, LogFile.write_rollCount, ih]

theorem initial_idx_lt (r : LogRun) : r.initial.curRollIdx < r.initial.rollCount := by
  rw [r.initial_idx, r.initial_rollCount, firstIdx, rollCount]
  cases h : (r.chosen 0).toCLogFile.lastRoll r.disk r.mtime (r.strTime r.start.now) with
  | none =>
    rw [Option.map_none, Option.getD_none]
    split <;> omega
  | some last =>
    have hlt : last.1 < r.rollCountMax := LogFile.lastRoll_lt h
    rw [Option.map_some, Option.getD_some, if_neg (by omega)]
    exact hlt

theorem rollState_initial (hK : r.rollCountMax < 4294967296) (opens : r.start.opens = true) : r.initial.RollState := by
  refine ⟨r.initial_idx_lt, ?_, ?_⟩
  · rw [r.initial_rollCount, rollCount]
    split <;> omega
  · intro closed
    rw [(initial_opened opens).1] at closed
    cases closed

theorem rollState (hK : r.rollCountMax < 4294967296) (opens : r.start.opens = true) (k : Nat) :
    (r.fileAt k).RollState :=
  stateAt_induct (rollState_initial hK opens) (fun _ _ _ h => h.write) k

/-- Neither the day of `GetDiffDays` nor the date in the file names changes from the call before, and in it, to write
`k`. -/
structure WithinDay (r : LogRun) (k : Nat) (w : LogWrite) : Prop where
  reading : OneReading (r.lastCall k)
  day : getDiffDays w.env.now (r.lastCall k).now = 0
  date_eq : r.strTime w.env.now = r.strTime (r.lastCall k).now

/-- Where no two files of a date have the same name, files that cannot be opened leave the roll order of a whole run as
it is exactly when every write of the same day that comes after a failed open finds an index that `CheckFileRoll` does
not move. -/
theorem roll_order_iff (hK : r.rollCountMax < 4294967296) (opens : r.start.opens = true)
    (apart : ∀ w ∈ r.writes, r.names.Apart r.rollCount (r.strTime w.env.now)) :
    (∀ k w, r.writes[k]? = some w → r.WithinDay k w → (r.fileAt k).InOrder r.strTime w) ↔
      ∀ k w, r.writes[k]? = some w → r.WithinDay k w → (r.fileAt k).pFile = none →
        (r.fileAt k).CanResume w.env.now := by
  have apartAt : ∀ k w, r.writes[k]? = some w →
      (r.fileAt k).names.Apart (r.fileAt k).rollCount (r.strTime w.env.now) := by
    intro k w hw
    rw [r.fileAt_names, r.fileAt_rollCount]
    exact apart w (List.mem_of_getElem? hw)
  constructor
  · intro order k w hw within closed
    exact (LogFile.inOrder_iff_of_closed (rollState hK opens k) (apartAt k w hw) closed).mp (order k w hw within)
  · intro resume k w hw within
    have hk := Nat.le_of_lt (List.getElem?_eq_some_iff.mp hw).1
    cases hp : (r.fileAt k).pFile with
    | none =>
      exact (LogFile.inOrder_iff_of_closed (rollState hK opens k) (apartAt k w hw) hp).mpr (resume k w hw within hp)
    | some path =>
      refine LogFile.inOrder_of_open (rollState hK opens k) (apartAt k w hw) hp ?_
      rw [dayChanged_iff hk within.reading hp, Decidable.not_not, SameDay, within.day]
      decide

end LogRun

/-- Two files of three bytes each; the roll back to the first one fails once. -/
def failsAtFirst : LogRun where
  names := svrLog
  strTime t := twoDates (zoneDate 28800 t)
  mtime _ := 0
  disk _ := none
  curFileTime := 7
  rollSize := 3
  rollCountMax := 2
  start := ⟨100000, 100000, true⟩
  writes := [⟨⟨100001, 100001, true⟩, [1, 2, 3], 3⟩, ⟨⟨100002, 100002, true⟩, [4, 5, 6], 3⟩,
    ⟨⟨100003, 100003, false⟩, [7, 8, 9], 3⟩, ⟨⟨100004, 100004, true⟩, [10, 11, 12], 3⟩]

theorem LogRun.roll_order_iff_failsAtFirst :
    (∀ k w, failsAtFirst.writes[k]? = some w → failsAtFirst.WithinDay k w →
        (failsAtFirst.fileAt k).InOrder failsAtFirst.strTime w) ∧
      (failsAtFirst.fileAt 3).pFile = none ∧
      (failsAtFirst.fileAt 4).pFile = some (text "svr_19700102.log") := by
  refine ⟨(LogRun.roll_order_iff (by decide) rfl (by decide +kernel)).mpr ?_, by decide +kernel, by decide +kernel⟩
  have resume : ∀ k w, failsAtFirst.writes[k]? = some w → (failsAtFirst.fileAt k).pFile = none →
      (failsAtFirst.fileAt k).CanResume w.env.now := forall_event_iff.mpr (by decide +kernel)
  exact fun k w hw _ => resume k w hw

/-- Three files of three bytes each; the roll to the second one fails once. -/
def failsAtSecond : LogRun where
  names := svrLog
  strTime t := twoDates (zoneDate 28800 t)
  mtime _ := 0
  disk _ := none
  curFileTime := 7
  rollSize := 3
  rollCountMax := 3
  start := ⟨100000, 100000, true⟩
  writes := [⟨⟨100001, 100001, true⟩, [1, 2, 3], 3⟩, ⟨⟨100002, 100002, false⟩, [4, 5, 6], 3⟩,
    ⟨⟨100003, 100003, true⟩, [7, 8, 9], 3⟩]

theorem LogRun.failed_roll_loses_newest :
    failsAtSecond.rollCountMax < 4294967296 ∧ failsAtSecond.start.opens = true ∧
      (∀ w ∈ failsAtSecond.writes,
        failsAtSecond.names.Apart failsAtSecond.rollCount (failsAtSecond.strTime w.env.now)) ∧
      (∀ k w, failsAtSecond.writes[k]? = some w → failsAtSecond.WithinDay k w) ∧
      (failsAtSecond.fileAt 2).curRollIdx = 1 ∧ (failsAtSecond.fileAt 3).curRollIdx = 0 ∧
      (failsAtSecond.fileAt 2).disk (text "svr_19700102.log") = some [.record 100001 [1, 2, 3], .closeMark] ∧
      (failsAtSecond.fileAt 3).disk (text "svr_19700102.log") = some [.record 100003 [7, 8, 9]] ∧
      ¬ ∀ k w, failsAtSecond.writes[k]? = some w → failsAtSecond.WithinDay k w →
        (failsAtSecond.fileAt k).InOrder failsAtSecond.strTime w := by
  have within : ∀ k w, failsAtSecond.writes[k]? = some w → failsAtSecond.WithinDay k w := by
    have day : ∀ k w, failsAtSecond.writes[k]? = some w →
        OneReading (failsAtSecond.lastCall k) ∧ getDiffDays w.env.now (failsAtSecond.lastCall k).now = 0 ∧
          failsAtSecond.strTime w.env.now = failsAtSecond.strTime (failsAtSecond.lastCall k).now :=
      forall_event_iff.mpr (by decide +kernel)
    exact fun k w hw => ⟨(day k w hw).1, (day k w hw).2.1, (day k w hw).2.2⟩
  have moves : (failsAtSecond.fileAt 3).curRollIdx ≠ (failsAtSecond.fileAt 2).curRollIdx := by decide +kernel
  refine ⟨by decide, rfl, by decide +kernel, within, by decide +kernel, by decide +kernel, by decide +kernel,
    by decide +kernel, ?_⟩
  intro order
  have closed : (failsAtSecond.fileAt 2).pFile = none := by decide +kernel
  have takes := order 2 _ rfl (within 2 _ rfl)
  simp only [LogFile.InOrder, closed] at takes
  exact moves takes.idx_eq

end Wddlib
