import Wddlib.MachineInt
import Wddlib.CMemory
import Wddlib.RunPrefix
import Wddlib.FirstMax
import Wddlib.LogMgr
import Mathlib.Logic.Function.Basic

namespace Wddlib

/-- `k_iMaxFileName`. -/
def maxFileName : Nat := 255

/-- `m_FileNamePrefix` and `m_FileNamePostfix`: `strncpy` ends what is shorter than its limit with a zero. -/
structure LogNames where
  namePrefix : List UInt8
  namePostfix : List UInt8
  prefix_lt : namePrefix.length < maxFileName - 1
  postfix_lt : namePostfix.length < maxFileName - 1
  deriving DecidableEq

/-- What a server calls its log files. -/
def svrLog : LogNames := ⟨text "svr", text "log", by decide, by decide⟩

/-- What `GetFileName` formats; `strTime` is the date of the time that it is given. -/
def LogNames.format (names : LogNames) (uRollID : Nat) (strTime : List UInt8) : List UInt8 :=
  if uRollID = 0 then names.namePrefix ++ text "_" ++ strTime ++ text "." ++ names.namePostfix
  else names.namePrefix ++ text "_" ++ strTime ++ text "." ++ names.namePostfix ++ text "." ++ decimal uRollID

/-- `GetFileName`: the path, without the zero that `snprintf` puts behind what has room. -/
def LogNames.getFileName (names : LogNames) (uRollID : Nat) (strTime : List UInt8) : List UInt8 :=
  (names.format uRollID strTime).take (maxFileName - 1)

/-- What one `fwrite` has put into a file: a record, with the time at which it was written, or the text that
`Close` leaves at the end. -/
inductive FileChunk where
  | record (time : Int) (bytes : List UInt8)
  | closeMark
  deriving DecidableEq, Repr

def FileChunk.size : FileChunk → Nat
  | record _ bytes => bytes.length
  | closeMark => (text "close file\n").length

def fileSize (content : List FileChunk) : Nat := (content.map FileChunk.size).sum

/-- The files by their paths. -/
abbrev FileSystem := List UInt8 → Option (List FileChunk)

def FileSystem.content (fs : FileSystem) (path : List UInt8) : List FileChunk := (fs path).getD []

/-- What is written to a file that is open goes to its end. -/
def FileSystem.append (fs : FileSystem) (path : List UInt8) (chunk : FileChunk) : FileSystem :=
  Function.update fs path (some (fs.content path ++ [chunk]))

/-- The modification time that `stat` gives for a file that is there. -/
def FileSystem.stat (fs : FileSystem) (mtime : List UInt8 → Int) (path : List UInt8) : Option Int :=
  (fs path).map fun _ => mtime path

def getDiffDays (secOfTime1 secOfTime2 : Int) : Int :=
  (secOfTime1 + 28800).tdiv 86400 - (secOfTime2 + 28800).tdiv 86400

/-- What the system calls of a call of `InitLogFile` or `Write` return: the two readings of the clock, in
`CheckFileRoll` and in `OpenFile`, and whether the file could be opened. -/
structure LogEnv where
  now : Int
  openTime : Int
  opens : Bool
  deriving DecidableEq, Repr

/-- A call of `Write`; `fwrite` takes the first `count` bytes. -/
structure LogWrite where
  env : LogEnv
  buff : List UInt8
  count : Nat
  deriving DecidableEq, Repr

/-- A `CLogFile`; `pFile` is the path of the open file. -/
structure CLogFile where
  names : LogNames
  curFileTime : Int
  curSize : Nat
  curRollIdx : Nat
  pFile : Option (List UInt8)
  rollSize : Nat
  rollCountMax : Nat

namespace CLogFile

/-- The constructor and the names that `InitLogFile` copies. -/
def create (names : LogNames) (curFileTime : Int) : CLogFile := ⟨names, curFileTime, 0, 0, none, 0, 0⟩

def close (f : CLogFile) (fs : FileSystem) : CLogFile × FileSystem :=
  match f.pFile with
  | none => (f, fs)
  | some path => ({ f with pFile := none, curFileTime := 0, curSize := 0 }, fs.append path .closeMark)

def openFile (f : CLogFile) (fs : FileSystem) (path : List UInt8) (isClear : Bool) (env : LogEnv) :
    Int × CLogFile × FileSystem :=
  let (f, fs) := f.close fs
  if env.opens then
    let content := if isClear then [] else fs.content path
    (0, { f with pFile := some path, curSize := fileSize content % 4294967296, curFileTime := env.openTime },
      Function.update fs path (some content))
  else (-1, f, fs)

/-- The loop of `InitFileRoll`; `mtime` are the modification times that `stat` gives. -/
def lastRoll (f : CLogFile) (fs : FileSystem) (mtime : List UInt8 → Int) (strTime : List UInt8) : Option (Nat × Int) :=
  (List.range f.rollCountMax).foldl (fun last i =>
    let path := f.names.getFileName i strTime
    if (fs path).isNone then last
    else
      match last with
      | none => some (i, mtime path)
      | some (id, tLastModify) => if tLastModify < mtime path then some (i, mtime path) else some (id, tLastModify))
    none

/-- `strTime` is what `localtime_r` and `strftime` make of a time. -/
def initFileRoll (strTime : Int → List UInt8) (mtime : List UInt8 → Int) (f : CLogFile) (fs : FileSystem)
    (env : LogEnv) : Int × CLogFile × FileSystem :=
  let f := { f with curRollIdx := ((f.lastRoll fs mtime (strTime env.now)).map Prod.fst).getD 0 }
  f.openFile fs (f.names.getFileName f.curRollIdx (strTime env.now)) false env

def initLogFile (strTime : Int → List UInt8) (mtime : List UInt8 → Int) (f : CLogFile) (fs : FileSystem)
    (rollSize rollCountMax : Nat) (env : LogEnv) : Int × CLogFile × FileSystem :=
  initFileRoll strTime mtime { f with rollSize := rollSize, rollCountMax := rollCountMax } fs env

def checkFileRoll (strTime : Int → List UInt8) (f : CLogFile) (fs : FileSystem) (env : LogEnv) :
    Int × CLogFile × FileSystem :=
  let iDiff := int32 (getDiffDays env.now f.curFileTime)
  if iDiff ≠ 0 then
    let f := { f with curRollIdx := 0 }
    f.openFile fs (f.names.getFileName f.curRollIdx (strTime env.now)) true env
  else if f.curSize ≥ f.rollSize then
    let f := if f.rollCountMax = 0 then { f with rollCountMax := 1 } else f
    let f := { f with curRollIdx := (f.curRollIdx + 1) % 4294967296 % f.rollCountMax }
    f.openFile fs (f.names.getFileName f.curRollIdx (strTime env.now)) true env
  else (0, f, fs)

/-- The end of `Write`. -/
def put (f : CLogFile) (fs : FileSystem) (w : LogWrite) : CLogFile × FileSystem :=
  match f.pFile with
  | none => (f, fs)
  | some path =>
    ({ f with curSize := (f.curSize + w.count) % 4294967296 },
      fs.append path (.record w.env.now (w.buff.take w.count)))

def write (strTime : Int → List UInt8) (f : CLogFile) (fs : FileSystem) (w : LogWrite) : CLogFile × FileSystem :=
  let r := checkFileRoll strTime f fs w.env
  r.2.1.put r.2.2 w

end CLogFile

section Names

variable {names : LogNames} {i j : Nat} {strTime : List UInt8}

theorem digit_byte {c : Char} (h : c.isDigit = true) : Char.ofNat (UInt8.ofNat c.toNat).toNat = c := by
  have hlt : c.toNat < 256 := by
    simp only [Char.isDigit, Bool.and_eq_true, decide_eq_true_eq] at h
    have hle := UInt32.le_iff_toNat_le.mp h.2
    change c.toNat ≤ 57 at hle
    omega
  rw [UInt8.toNat_ofNat', Nat.mod_eq_of_lt hlt, Char.ofNat_toNat]

theorem decimal_inj (h : decimal i = decimal j) : i = j := by
  have digits : ∀ n : Nat, (decimal n).map (fun byte => Char.ofNat byte.toNat) = Nat.toDigits 10 n := by
    intro n
    have hneg : ¬ (n : Int) < 0 := by omega
    simp only [decimal, hneg, if_false, List.nil_append, Int.natAbs_natCast, List.map_map]
    refine (List.map_congr_left fun c hc => ?_).trans (List.map_id _)
    exact digit_byte (Nat.isDigit_of_mem_toDigits (by decide) (by decide) hc)
  have same := congrArg (fun cs => Nat.ofDigitChars 10 cs 0) ((digits i).symm.trans ((congrArg _ h).trans (digits j)))
  simpa only [Nat.ofDigitChars_ten_toDigits] using same

theorem format_inj (h : names.format i strTime = names.format j strTime) : i = j := by
  have suffix : text "." ≠ [] := by decide
  unfold LogNames.format at h
  split at h
  next hi =>
    split at h
    next hj => rw [hi, hj]
    next =>
      have hnil := List.self_eq_append_right.mp (h.trans (List.append_assoc _ _ _))
      exact absurd (List.append_eq_nil_iff.mp hnil).1 suffix
  next =>
    split at h
    next =>
      have hnil := List.self_eq_append_right.mp (h.symm.trans (List.append_assoc _ _ _))
      exact absurd (List.append_eq_nil_iff.mp hnil).1 suffix
    next => exact decimal_inj (List.append_cancel_left h)

/-- No name of the first `K` files of a date is cut. -/
def LogNames.Whole (names : LogNames) (K : Nat) (strTime : List UInt8) : Prop :=
  ∀ i < K, (names.format i strTime).length < maxFileName

instance (names : LogNames) (K : Nat) (strTime : List UInt8) : Decidable (names.Whole K strTime) :=
  inferInstanceAs (Decidable (∀ i < K, _))

/-- The first `K` files of a date have names of their own. -/
def LogNames.Apart (names : LogNames) (K : Nat) (strTime : List UInt8) : Prop :=
  ∀ i < K, ∀ j < K, names.getFileName i strTime = names.getFileName j strTime → i = j

instance (names : LogNames) (K : Nat) (strTime : List UInt8) : Decidable (names.Apart K strTime) :=
  inferInstanceAs (Decidable (∀ i < K, ∀ j < K, _))

/-- Names that are not cut are different. -/
theorem LogNames.Whole.apart {K : Nat} (whole : names.Whole K strTime) : names.Apart K strTime := by
  intro i hi j hj h
  have hi' := whole i hi
  have hj' := whole j hj
  unfold maxFileName at hi' hj'
  unfold LogNames.getFileName maxFileName at h
  rw [List.take_of_length_le (by omega), List.take_of_length_le (by omega)] at h
  exact format_inj h

end Names

/-- The loop of `InitFileRoll` finds the first of the files that were modified last. -/
theorem CLogFile.lastRoll_firstMax (c : CLogFile) (fs : FileSystem) (mtime : List UInt8 → Int) (date : List UInt8) :
    (c.lastRoll fs mtime date = none ∧ ∀ j < c.rollCountMax, fs.stat mtime (c.names.getFileName j date) = none) ∨
      ∃ i t, c.lastRoll fs mtime date = some (i, t) ∧
        FirstMax (fun j => fs.stat mtime (c.names.getFileName j date)) c.rollCountMax i t := by
  unfold lastRoll
  induction c.rollCountMax with
  | zero => exact .inl ⟨rfl, fun j hj => absurd hj (Nat.not_lt_zero j)⟩
  | succ K ih =>
    rw [List.range_succ, List.foldl_append]
    simp only [List.foldl_cons, List.foldl_nil]
    cases there : fs (c.names.getFileName K date) with
    | none =>
      have hstat : fs.stat mtime (c.names.getFileName K date) = none := by
        rw [FileSystem.stat, there, Option.map_none]
      rw [Option.isNone_none, if_pos rfl]
      rcases ih with ⟨heq, hnone⟩ | ⟨i, t, heq, hmax⟩
      · refine .inl ⟨heq, fun j hj => ?_⟩
        rcases Nat.lt_succ_iff_lt_or_eq.mp hj with hlt | rfl
        · exact hnone j hlt
        · exact hstat
      · exact .inr ⟨i, t, heq, hmax.skip hstat⟩
    | some content =>
      have hstat : fs.stat mtime (c.names.getFileName K date) = some (mtime (c.names.getFileName K date)) := by
        rw [FileSystem.stat, there, Option.map_some]
      rw [Option.isNone_some, if_neg Bool.false_ne_true]
      refine .inr ?_
      rcases ih with ⟨heq, hnone⟩ | ⟨i, t, heq, hmax⟩
      · rw [heq]
        exact ⟨K, _, rfl, .single hnone hstat⟩
      · rw [heq]
        simp only
        by_cases hlt : t < mtime (c.names.getFileName K date)
        · rw [if_pos hlt]
          exact ⟨K, _, rfl, hmax.newer hstat hlt⟩
        · rw [if_neg hlt]
          exact ⟨i, t, rfl, hmax.older hstat hlt⟩

theorem CLogFile.openFile_ret (c : CLogFile) (fs : FileSystem) (path : List UInt8) (isClear : Bool) (env : LogEnv) :
    (c.openFile fs path isClear env).1 = if env.opens then 0 else -1 := by
  unfold openFile
  split
  split <;> rfl

theorem FileSystem.append_same (disk : FileSystem) (path : List UInt8) (chunk : FileChunk) :
    disk.append path chunk path = some (disk.content path ++ [chunk]) :=
  Function.update_self path _ disk

theorem FileSystem.append_other (disk : FileSystem) {path other : List UInt8} (chunk : FileChunk) (hne : other ≠ path) :
    disk.append path chunk other = disk other :=
  Function.update_of_ne hne _ disk

theorem fileSize_append (front back : List FileChunk) : fileSize (front ++ back) = fileSize front + fileSize back := by
  rw [fileSize, List.map_append, List.sum_append]
  rfl

/-- A log file and the files on disk. -/
structure LogFile extends CLogFile where
  disk : FileSystem

namespace LogFile

def create (names : LogNames) (curFileTime : Int) (disk : FileSystem) : LogFile := ⟨.create names curFileTime, disk⟩

def close (f : LogFile) : LogFile :=
  let r := f.toCLogFile.close f.disk
  ⟨r.1, r.2⟩

def openFile (f : LogFile) (path : List UInt8) (isClear : Bool) (env : LogEnv) : LogFile :=
  let r := f.toCLogFile.openFile f.disk path isClear env
  ⟨r.2.1, r.2.2⟩

def initLogFile (strTime : Int → List UInt8) (mtime : List UInt8 → Int) (f : LogFile) (rollSize rollCountMax : Nat)
    (env : LogEnv) : LogFile :=
  let r := f.toCLogFile.initLogFile strTime mtime f.disk rollSize rollCountMax env
  ⟨r.2.1, r.2.2⟩

def checkFileRoll (strTime : Int → List UInt8) (f : LogFile) (env : LogEnv) : LogFile :=
  let r := f.toCLogFile.checkFileRoll strTime f.disk env
  ⟨r.2.1, r.2.2⟩

def put (f : LogFile) (w : LogWrite) : LogFile :=
  let r := f.toCLogFile.put f.disk w
  ⟨r.1, r.2⟩

def write (strTime : Int → List UInt8) (f : LogFile) (w : LogWrite) : LogFile :=
  let r := f.toCLogFile.write strTime f.disk w
  ⟨r.1, r.2⟩

/-- The number of files that a roll goes round. -/
def rollCount (f : LogFile) : Nat := if f.rollCountMax = 0 then 1 else f.rollCountMax

/-- The state in which `CheckFileRoll` opens the next file. -/
def advance (f : LogFile) : LogFile :=
  { f with rollCountMax := f.rollCount, curRollIdx := (f.curRollIdx + 1) % 4294967296 % f.rollCount }

/-- The day test of `CheckFileRoll`. -/
def dayChanged (f : LogFile) (now : Int) : Prop := int32 (getDiffDays now f.curFileTime) ≠ 0

instance (f : LogFile) (now : Int) : Decidable (f.dayChanged now) := inferInstanceAs (Decidable (_ ≠ _))

variable {strTime : Int → List UInt8} {f : LogFile} {w : LogWrite} {env : LogEnv} {path : List UInt8}

/-- All that a call of `Write` can do before it writes. -/
theorem write_cases (strTime : Int → List UInt8) (f : LogFile) (w : LogWrite) :
    (f.dayChanged w.env.now ∧ f.write strTime w =
        (openFile { f with curRollIdx := 0 } (f.names.getFileName 0 (strTime w.env.now)) true w.env).put w) ∨
      (¬ f.dayChanged w.env.now ∧ f.rollSize ≤ f.curSize ∧ f.write strTime w =
        (f.advance.openFile (f.names.getFileName f.advance.curRollIdx (strTime w.env.now)) true w.env).put w) ∨
      (¬ f.dayChanged w.env.now ∧ f.curSize < f.rollSize ∧ f.write strTime w = f.put w) := by
  unfold write CLogFile.write CLogFile.checkFileRoll dayChanged
  by_cases hday : int32 (getDiffDays w.env.now f.curFileTime) ≠ 0
  · exact .inl ⟨hday, by simp only [if_pos hday]; rfl⟩
  · refine .inr ?_
    by_cases hsize : f.curSize ≥ f.rollSize
    · refine .inl ⟨hday, hsize, ?_⟩
      simp only [if_neg hday, if_pos hsize, advance, rollCount]
      by_cases hcount : f.rollCountMax = 0
      · simp only [if_pos hcount]
        rfl
      · simp only [if_neg hcount]
        rfl
    · refine .inr ⟨hday, Nat.lt_of_not_le hsize, ?_⟩
      simp only [if_neg hday, if_neg hsize]
      rfl

/-- What holds of the files in both cases, whether `Write` opens one or not. -/
theorem write_rule {P : LogFile → Prop}
    (opened : ∀ (g : LogFile) (idx : Nat), g.disk = f.disk →
      P ((g.openFile (f.names.getFileName idx (strTime w.env.now)) true w.env).put w))
    (stays : P (f.put w)) : P (f.write strTime w) := by
  rcases write_cases strTime f w with ⟨-, heq⟩ | ⟨-, -, heq⟩ | ⟨-, -, heq⟩
  · rw [heq]
    exact opened _ _ rfl
  · rw [heq]
    exact opened _ _ rfl
  · rw [heq]
    exact stays

theorem close_none (h : f.pFile = none) : f.close = f := by
  simp only [close, CLogFile.close, h]

theorem close_some (h : f.pFile = some path) :
    f.close =
      { f with disk := f.disk.append path .closeMark, pFile := none, curFileTime := 0, curSize := 0 } := by
  simp only [close, CLogFile.close, h]

theorem openFile_opened {isClear : Bool} (opens : env.opens = true) :
    f.openFile path isClear env =
      { f.close with
        pFile := some path
        disk := Function.update f.close.disk path (some (if isClear then [] else f.close.disk.content path))
        curSize := fileSize (if isClear then [] else f.close.disk.content path) % 4294967296
        curFileTime := env.openTime } := by
  simp only [openFile, CLogFile.openFile, opens, if_true, close]

theorem openFile_failed {isClear : Bool} (fails : env.opens = false) : f.openFile path isClear env = f.close := by
  simp only [openFile, CLogFile.openFile, fails, Bool.false_eq_true, if_false, close]

/-- The file that `InitLogFile` opens. -/
theorem initLogFile_eq (strTime : Int → List UInt8) (mtime : List UInt8 → Int) (f : LogFile) (R K : Nat)
    (env : LogEnv) :
    initLogFile strTime mtime f R K env =
      openFile { f with
          rollSize := R
          rollCountMax := K
          curRollIdx := ((CLogFile.lastRoll { f.toCLogFile with rollSize := R, rollCountMax := K } f.disk mtime
            (strTime env.now)).map Prod.fst).getD 0 }
        (f.names.getFileName (((CLogFile.lastRoll { f.toCLogFile with rollSize := R, rollCountMax := K } f.disk mtime
          (strTime env.now)).map Prod.fst).getD 0) (strTime env.now)) false env :=
  rfl

theorem put_none (h : f.pFile = none) : f.put w = f := by
  simp only [put, CLogFile.put, h]

theorem put_some (h : f.pFile = some path) :
    f.put w = { f with
      disk := f.disk.append path (.record w.env.now (w.buff.take w.count))
      curSize := (f.curSize + w.count) % 4294967296 } := by
  simp only [put, CLogFile.put, h]

/-- A file that is neither open nor opened is left alone. -/
theorem close_others {other : List UInt8} (hne : ∀ path, f.pFile = some path → other ≠ path) :
    f.close.disk other = f.disk other := by
  cases h : f.pFile with
  | none => rw [close_none h]
  | some path =>
    rw [close_some h]
    exact FileSystem.append_other _ _ (hne path h)

theorem openFile_others {other : List UInt8} {isClear : Bool} (hne : ∀ path, f.pFile = some path → other ≠ path)
    (hpath : other ≠ path) : (f.openFile path isClear env).disk other = f.disk other := by
  cases opens : env.opens with
  | false =>
    rw [openFile_failed opens]
    exact close_others hne
  | true =>
    rw [openFile_opened opens]
    exact (Function.update_of_ne hpath _ _).trans (close_others hne)

theorem put_others {other : List UInt8} (hne : ∀ path, f.pFile = some path → other ≠ path) :
    (f.put w).disk other = f.disk other := by
  cases h : f.pFile with
  | none => rw [put_none h]
  | some path =>
    rw [put_some h]
    exact FileSystem.append_other _ _ (hne path h)

/-- No call changes the names. -/
theorem close_names : f.close.names = f.names := by
  cases h : f.pFile with
  | none => rw [close_none h]
  | some path => rw [close_some h]

theorem openFile_names {isClear : Bool} : (f.openFile path isClear env).names = f.names := by
  cases opens : env.opens with
  | false => rw [openFile_failed opens, close_names]
  | true =>
    rw [openFile_opened opens]
    exact close_names

theorem put_names : (f.put w).names = f.names := by
  cases h : f.pFile with
  | none => rw [put_none h]
  | some path => rw [put_some h]

theorem write_names : (f.write strTime w).names = f.names := by
  rcases write_cases strTime f w with ⟨-, heq⟩ | ⟨-, -, heq⟩ | ⟨-, -, heq⟩
  · rw [heq, put_names, openFile_names]
  · rw [heq, put_names, openFile_names]
    rfl
  · rw [heq, put_names]

end LogFile

/-- A log file that is constructed and initialised, with what it finds on disk, and the calls of `Write` that
follow. -/
structure LogRun where
  names : LogNames
  strTime : Int → List UInt8
  mtime : List UInt8 → Int
  disk : FileSystem
  curFileTime : Int
  rollSize : Nat
  rollCountMax : Nat
  start : LogEnv
  writes : List LogWrite

namespace LogRun

def initial (r : LogRun) : LogFile :=
  LogFile.initLogFile r.strTime r.mtime (.create r.names r.curFileTime r.disk) r.rollSize r.rollCountMax r.start

/-- The log file when `InitFileRoll` has chosen `idx`. -/
def chosen (r : LogRun) (idx : Nat) : LogFile :=
  { LogFile.create r.names r.curFileTime r.disk with
    rollSize := r.rollSize
    rollCountMax := r.rollCountMax
    curRollIdx := idx }

def firstIdx (r : LogRun) : Nat :=
  (((r.chosen 0).toCLogFile.lastRoll r.disk r.mtime (r.strTime r.start.now)).map Prod.fst).getD 0

theorem initial_eq (r : LogRun) :
    r.initial = (r.chosen r.firstIdx).openFile (r.names.getFileName r.firstIdx (r.strTime r.start.now)) false r.start :=
  rfl

/-- The log file after the first `k` writes. -/
def fileAt (r : LogRun) (k : Nat) : LogFile := stateAt (LogFile.write r.strTime) r.initial r.writes k

theorem fileAt_zero (r : LogRun) : r.fileAt 0 = r.initial := stateAt_zero _ _ _

theorem fileAt_succ {r : LogRun} {k : Nat} {w : LogWrite} (h : r.writes[k]? = some w) :
    r.fileAt (k + 1) = (r.fileAt k).write r.strTime w :=
  stateAt_succ h

theorem fileAt_names (r : LogRun) (k : Nat) : (r.fileAt k).names = r.names := by
  induction k with
  | zero =>
    rw [fileAt_zero, initial_eq, LogFile.openFile_names]
    rfl
  | succ k ih =>
    cases hw : r.writes[k]? with
    | none =>
      rw [fileAt, stateAt_end hw]
      exact ih
    | some w => rw [fileAt_succ hw, LogFile.write_names, ih]

/-- A run of finitely many writes can be looked at state by state. -/
theorem forall_fileAt {r : LogRun} {P : LogFile → Prop} (h : ∀ k : Fin (r.writes.length + 1), P (r.fileAt k))
    (k : Nat) : P (r.fileAt k) := by
  by_cases hk : k < r.writes.length + 1
  · exact h ⟨k, hk⟩
  · have last := h (Fin.last r.writes.length)
    rw [fileAt, stateAt_of_length_le (by omega)]
    rw [fileAt, stateAt_of_length_le (by simp)] at last
    exact last

end LogRun

end Wddlib
