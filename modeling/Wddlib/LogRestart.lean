import Wddlib.LogFailure

namespace Wddlib

/-- When a call of `Write` touches its files: the end of the old one, the truncation of the new one, the record. -/
structure LogTouch where
  closed : Int
  cleared : Int
  written : Int
  deriving DecidableEq, Repr

namespace LogFile

/-- The modification times after `Close`, which writes to the file that is open. -/
def closeTimes (f : LogFile) (time : Int) (mtime : List UInt8 → Int) : List UInt8 → Int :=
  match f.pFile with
  | none => mtime
  | some path => Function.update mtime path time

/-- After `OpenFile`, which truncates the file when it can be opened. -/
def openTimes (f : LogFile) (path : List UInt8) (env : LogEnv) (touch : LogTouch) (mtime : List UInt8 → Int) :
    List UInt8 → Int :=
  if env.opens then Function.update (f.closeTimes touch.closed mtime) path touch.cleared
  else f.closeTimes touch.closed mtime

def checkTimes (strTime : Int → List UInt8) (f : LogFile) (env : LogEnv) (touch : LogTouch) (mtime : List UInt8 → Int) :
    List UInt8 → Int :=
  if f.dayChanged env.now then f.openTimes (f.names.getFileName 0 (strTime env.now)) env touch mtime
  else if f.rollSize ≤ f.curSize then
    f.openTimes (f.names.getFileName f.advance.curRollIdx (strTime env.now)) env touch mtime
  else mtime

/-- After the end of `Write`; an `fwrite` of no bytes leaves the file alone. -/
def putTimes (f : LogFile) (w : LogWrite) (touch : LogTouch) (mtime : List UInt8 → Int) : List UInt8 → Int :=
  match f.pFile with
  | none => mtime
  | some path => if w.buff.take w.count = [] then mtime else Function.update mtime path touch.written

def writeTimes (strTime : Int → List UInt8) (f : LogFile) (w : LogWrite) (touch : LogTouch) (mtime : List UInt8 → Int) :
    List UInt8 → Int :=
  (checkFileRoll strTime f w.env).putTimes w touch (f.checkTimes strTime w.env touch mtime)

/-- A logger that goes on where `f` was: in the same file, and the next roll takes the file that the next roll of `f`
would have taken. -/
structure Continues (f g : LogFile) : Prop where
  idx_eq : g.curRollIdx = f.curRollIdx
  opened : ∀ path, g.pFile = some path → f.pFile = some path
  next_eq : g.advance.curRollIdx = f.advance.curRollIdx

end LogFile

/-- A run with the times at which its files are touched. -/
structure LogHistory extends LogRun where
  created : Int
  touch : Nat → LogTouch

namespace LogHistory

/-- The modification times after the first `k` writes; `InitLogFile` makes its file if it is not there. -/
def timesAt (h : LogHistory) : Nat → List UInt8 → Int
  | 0 =>
    let path := h.names.getFileName h.initial.curRollIdx (h.strTime h.start.now)
    if h.start.opens ∧ (h.disk path).isNone then Function.update h.mtime path h.created
    else h.mtime
  | k + 1 =>
    match h.writes[k]? with
    | some w => (h.fileAt k).writeTimes h.strTime w (h.touch k) (h.timesAt k)
    | none => h.timesAt k

/-- The time up to which files have been touched before write `k`. -/
def clock (h : LogHistory) : Nat → Int
  | 0 => h.created
  | k + 1 => (h.touch k).written

/-- The clock does not go back, neither between the calls nor within one. -/
structure Ordered (h : LogHistory) : Prop where
  before : ∀ path t, h.disk.stat h.mtime path = some t → t ≤ h.created
  closed : ∀ k < h.writes.length, h.clock k ≤ (h.touch k).closed
  cleared : ∀ k < h.writes.length, (h.touch k).closed ≤ (h.touch k).cleared
  written : ∀ k < h.writes.length, (h.touch k).cleared ≤ (h.touch k).written

/-- All calls are made on one date. -/
structure OnDate (h : LogHistory) (date : List UInt8) : Prop where
  start : h.strTime h.start.now = date
  writes : ∀ w ∈ h.writes, h.strTime w.env.now = date

/-- The names of the files of a date. -/
abbrev file (h : LogHistory) (date : List UInt8) (idx : Nat) : List UInt8 := h.names.getFileName idx date

/-- What the process leaves when it stops, with a `Close` or without one. -/
def stopDisk (h : LogHistory) (k : Nat) (stop : Option Int) : FileSystem :=
  match stop with
  | some _ => (h.fileAt k).close.disk
  | none => (h.fileAt k).disk

def stopTimes (h : LogHistory) (k : Nat) (stop : Option Int) : List UInt8 → Int :=
  match stop with
  | some time => (h.fileAt k).closeTimes time (h.timesAt k)
  | none => h.timesAt k

/-- The modification times that a new log file finds. -/
def stopStat (h : LogHistory) (k : Nat) (stop : Option Int) : List UInt8 → Option Int :=
  (h.stopDisk k stop).stat (h.stopTimes k stop)

/-- A new log file with the same settings. -/
def restart (h : LogHistory) (k : Nat) (stop : Option Int) (curFileTime : Int) (env : LogEnv) : LogFile :=
  LogFile.initLogFile h.strTime (h.stopTimes k stop) (.create h.names curFileTime (h.stopDisk k stop)) h.rollSize
    h.rollCountMax env

/-- When the file before the current one was closed, if the log has rolled since `InitLogFile`. -/
def rolledAt (h : LogHistory) : Nat → Option Int
  | 0 => none
  | k + 1 =>
    match h.writes[k]? with
    | some w => if (h.fileAt k).rolls w.env.now then some (h.touch k).closed else h.rolledAt k
    | none => h.rolledAt k

end LogHistory

theorem FileSystem.stat_update (disk : FileSystem) (mtime : List UInt8 → Int) (path : List UInt8)
    (content : List FileChunk) (time : Int) :
    FileSystem.stat (Function.update disk path (some content)) (Function.update mtime path time) =
      Function.update (disk.stat mtime) path (some time) := by
  funext other
  by_cases heq : other = path
  · subst heq
    simp only [FileSystem.stat, Function.update_self, Option.map_some]
  · simp only [FileSystem.stat, Function.update_of_ne heq]

/-- A file that is there keeps its time when only what is in it changes. -/
theorem FileSystem.stat_content {disk : FileSystem} {mtime : List UInt8 → Int} {path : List UInt8} {t : Int}
    (there : disk.stat mtime path = some t) (content : List FileChunk) :
    FileSystem.stat (Function.update disk path (some content)) mtime = disk.stat mtime := by
  have htime : mtime path = t := (Option.map_eq_some_iff.mp there).choose_spec.2
  have hsame : Function.update mtime path t = mtime := by rw [← htime, Function.update_eq_self]
  have hupdate := FileSystem.stat_update disk mtime path content t
  rw [hsame, ← there, Function.update_eq_self] at hupdate
  exact hupdate

namespace LogFile

variable {strTime : Int → List UInt8} {f : LogFile} {w : LogWrite} {env : LogEnv} {path : List UInt8} {touch : LogTouch}
  {mtime : List UInt8 → Int}

theorem close_stat (f : LogFile) (time : Int) (mtime : List UInt8 → Int) :
    f.close.disk.stat (f.closeTimes time mtime) =
      match f.pFile with
      | none => f.disk.stat mtime
      | some path => Function.update (f.disk.stat mtime) path (some time) := by
  unfold closeTimes
  cases h : f.pFile with
  | none =>
    rw [close_none h]
  | some path =>
    rw [close_some h]
    exact FileSystem.stat_update _ _ _ _ _

theorem open_stat (opens : env.opens = true) :
    (f.openFile path true env).disk.stat (f.openTimes path env touch mtime) =
      Function.update (f.close.disk.stat (f.closeTimes touch.closed mtime)) path (some touch.cleared) := by
  rw [openFile_opened opens, openTimes, if_pos opens]
  exact FileSystem.stat_update _ _ _ _ _

theorem open_failed_stat (fails : env.opens = false) :
    (f.openFile path true env).disk.stat (f.openTimes path env touch mtime) =
      f.close.disk.stat (f.closeTimes touch.closed mtime) := by
  rw [openFile_failed fails, openTimes, if_neg (by simp [fails])]

/-- No file has been touched after `c`. -/
def TouchedBy (c : Int) (stat : List UInt8 → Option Int) : Prop := ∀ path t, stat path = some t → t ≤ c

theorem TouchedBy.update {c t : Int} {stat : List UInt8 → Option Int} (h : TouchedBy c stat) (hle : c ≤ t)
    (path : List UInt8) : TouchedBy t (Function.update stat path (some t)) := by
  intro other u hu
  by_cases heq : other = path
  · subst heq
    rw [Function.update_self] at hu
    exact (Option.some.inj hu).ge
  · rw [Function.update_of_ne heq] at hu
    exact (h other u hu).trans hle

theorem TouchedBy.mono {c c' : Int} {stat : List UInt8 → Option Int} (h : TouchedBy c stat) (hle : c ≤ c') :
    TouchedBy c' stat :=
  fun path t ht => (h path t ht).trans hle

/-- File `idx` is there, and none of the first `K` files of the date is newer. -/
def Newest (K : Nat) (file : Nat → List UInt8) (stat : List UInt8 → Option Int) (idx : Nat) : Prop :=
  ∃ t, stat (file idx) = some t ∧ ∀ j < K, ∀ s, stat (file j) = some s → s ≤ t

/-- A file that is touched last of all is the newest. -/
theorem TouchedBy.newest {t : Int} {stat : List UInt8 → Option Int} (h : TouchedBy t stat) {file : Nat → List UInt8}
    {idx : Nat} (ht : stat (file idx) = some t) (K : Nat) : Newest K file stat idx :=
  ⟨t, ht, fun _ _ s hs => h _ s hs⟩

/-- The times of the files of a log file that is used on one date, where they are called `file`: none is after `c`, and
the file that is open is the newest. -/
structure Timed (K : Nat) (file : Nat → List UInt8) (c : Int) (mtime : List UInt8 → Int) (f : LogFile) : Prop where
  idx_lt : f.curRollIdx < f.rollCount
  count_eq : f.rollCount = if K = 0 then 1 else K
  touchedBy : TouchedBy c (f.disk.stat mtime)
  current : ∀ path, f.pFile = some path → path = file f.curRollIdx ∧ Newest K file (f.disk.stat mtime) f.curRollIdx

variable {K : Nat} {file : Nat → List UInt8} {c : Int}

theorem close_touchedBy (h : TouchedBy c (f.disk.stat mtime)) {time : Int} (hle : c ≤ time) :
    TouchedBy time (f.close.disk.stat (f.closeTimes time mtime)) := by
  rw [close_stat]
  cases f.pFile with
  | none => exact h.mono hle
  | some path => exact h.update hle path

theorem Timed.open (idx_lt : f.curRollIdx < f.rollCount) (count_eq : f.rollCount = if K = 0 then 1 else K)
    (touchedBy : TouchedBy c (f.disk.stat mtime)) (closed : c ≤ touch.closed) (cleared : touch.closed ≤ touch.cleared) :
    Timed K file touch.cleared (f.openTimes (file f.curRollIdx) env touch mtime)
      (f.openFile (file f.curRollIdx) true env) := by
  have hclose := close_touchedBy touchedBy closed
  have hidx : (f.openFile (file f.curRollIdx) true env).curRollIdx = f.curRollIdx := openFile_curRollIdx
  refine ⟨?_, openFile_rollCount.trans count_eq, ?_, ?_⟩
  · rw [hidx, openFile_rollCount]
    exact idx_lt
  · cases opens : env.opens with
    | false =>
      rw [open_failed_stat opens]
      exact hclose.mono cleared
    | true =>
      rw [open_stat opens]
      exact hclose.update cleared _
  · intro path hpath
    cases opens : env.opens with
    | false =>
      rw [openFile_pFile_failed opens] at hpath
      cases hpath
    | true =>
      have heq : (f.openFile (file f.curRollIdx) true env).pFile = some (file f.curRollIdx) := by
        rw [openFile_opened opens]
      rw [hidx, open_stat opens]
      refine ⟨Option.some.inj (hpath.symm.trans heq), ?_⟩
      exact (hclose.update cleared _).newest (Function.update_self _ _ _) K

/-- `CheckFileRoll` starts the first file again. -/
theorem Timed.reset (h : Timed K file c mtime f) (closed : c ≤ touch.closed) (cleared : touch.closed ≤ touch.cleared) :
    Timed K file touch.cleared (openTimes { f with curRollIdx := 0 } (file 0) env touch mtime)
      (openFile { f with curRollIdx := 0 } (file 0) true env) :=
  .open f.rollCount_pos h.count_eq h.touchedBy closed cleared

/-- `CheckFileRoll` goes on to the next file. -/
theorem Timed.roll (h : Timed K file c mtime f) (closed : c ≤ touch.closed) (cleared : touch.closed ≤ touch.cleared) :
    Timed K file touch.cleared (f.advance.openTimes (file f.advance.curRollIdx) env touch mtime)
      (f.advance.openFile (file f.advance.curRollIdx) true env) := by
  refine .open ?_ (f.advance_rollCount.trans h.count_eq) h.touchedBy closed cleared
  rw [advance_rollCount]
  exact Nat.mod_lt _ f.rollCount_pos

theorem put_stat (h : Timed K file c mtime f) :
    (f.put w).disk.stat (f.putTimes w touch mtime) = f.disk.stat mtime ∨
      f.pFile = some (file f.curRollIdx) ∧
        (f.put w).disk.stat (f.putTimes w touch mtime) =
          Function.update (f.disk.stat mtime) (file f.curRollIdx) (some touch.written) := by
  unfold putTimes
  cases hp : f.pFile with
  | none =>
    rw [put_none hp]
    exact .inl rfl
  | some path =>
    obtain ⟨rfl, t, ht, -⟩ := h.current path hp
    rw [put_some hp]
    by_cases hempty : w.buff.take w.count = []
    · refine .inl ?_
      simp only [if_pos hempty]
      exact FileSystem.stat_content ht _
    · refine .inr ⟨rfl, ?_⟩
      simp only [if_neg hempty]
      exact FileSystem.stat_update _ _ _ _ _

theorem Timed.put (h : Timed K file c mtime f) (written : c ≤ touch.written) :
    Timed K file touch.written (f.putTimes w touch mtime) (f.put w) := by
  have hidx : (f.put w).curRollIdx = f.curRollIdx := put_curRollIdx
  have hcount : (f.put w).rollCount = f.rollCount := put_rollCount
  refine ⟨?_, hcount.trans h.count_eq, ?_, ?_⟩
  · rw [hidx, hcount]
    exact h.idx_lt
  · rcases @put_stat f w touch mtime K file c h with same | ⟨-, touched⟩
    · rw [same]
      exact h.touchedBy.mono written
    · rw [touched]
      exact h.touchedBy.update written _
  · intro path hpath
    rw [put_pFile] at hpath
    rw [hidx]
    obtain ⟨heq, newest⟩ := h.current path hpath
    refine ⟨heq, ?_⟩
    rcases @put_stat f w touch mtime K file c h with same | ⟨-, touched⟩
    · rw [same]
      exact newest
    · rw [touched]
      exact (h.touchedBy.update written _).newest (Function.update_self _ _ _) K

theorem writeTimes_eq {g : LogFile} (heq : f.write strTime w = g.put w) :
    f.writeTimes strTime w touch mtime = g.putTimes w touch (f.checkTimes strTime w.env touch mtime) := by
  have hp : (checkFileRoll strTime f w.env).pFile = g.pFile := by
    rw [← put_pFile (w := w), ← put_pFile (f := g) (w := w), ← heq]
    rfl
  rw [writeTimes, putTimes, hp]
  rfl

/-- A call of `Write` on the date. -/
theorem Timed.write (h : Timed K file c mtime f) (hfile : ∀ i, f.names.getFileName i (strTime w.env.now) = file i)
    (closed : c ≤ touch.closed) (cleared : touch.closed ≤ touch.cleared) (written : touch.cleared ≤ touch.written) :
    Timed K file touch.written (f.writeTimes strTime w touch mtime) (f.write strTime w) := by
  rcases write_cases strTime f w with ⟨changed, heq⟩ | ⟨same, full, heq⟩ | ⟨same, room, heq⟩
  · rw [writeTimes_eq heq, heq, checkTimes, if_pos changed, hfile]
    exact (h.reset closed cleared).put written
  · rw [writeTimes_eq heq, heq, checkTimes, if_neg same, if_pos full, hfile]
    exact (h.roll closed cleared).put written
  · rw [writeTimes_eq heq, heq, checkTimes, if_neg same, if_neg (Nat.not_le.mpr room)]
    exact h.put ((closed.trans cleared).trans written)

end LogFile

namespace LogHistory

variable {h : LogHistory} {date : List UInt8} {k : Nat} {w : LogWrite}

/-- What the loop of `InitFileRoll` finds of the files of a date. -/
theorem lastRoll_firstMax (h : LogHistory) (disk : FileSystem) (mtime : List UInt8 → Int) (date : List UInt8) :
    ((h.chosen 0).lastRoll disk mtime date = none ∧ ∀ j < h.rollCountMax, disk.stat mtime (h.file date j) = none) ∨
      ∃ i t, (h.chosen 0).lastRoll disk mtime date = some (i, t) ∧
        FirstMax (fun j => disk.stat mtime (h.file date j)) h.rollCountMax i t :=
  (h.chosen 0).toCLogFile.lastRoll_firstMax disk mtime date

theorem timesAt_succ (hw : h.writes[k]? = some w) :
    h.timesAt (k + 1) = (h.fileAt k).writeTimes h.strTime w (h.touch k) (h.timesAt k) := by
  simp only [timesAt, hw]

theorem initial_failed (fails : h.start.opens = false) : h.initial.pFile = none ∧ h.initial.disk = h.disk := by
  rw [h.initial_eq, LogFile.openFile_failed fails, LogFile.close_none rfl]
  exact ⟨rfl, rfl⟩

theorem initial_made (opens : h.start.opens = true) :
    h.initial.pFile = some (h.file (h.strTime h.start.now) h.initial.curRollIdx) ∧
      ∃ content, h.initial.disk =
        Function.update h.disk (h.file (h.strTime h.start.now) h.initial.curRollIdx) (some content) := by
  rw [h.initial_idx, h.initial_eq, LogFile.openFile_opened opens, LogFile.close_none rfl]
  exact ⟨rfl, _, rfl⟩

/-- What `InitFileRoll` finds is the newest file of the date. -/
theorem initial_newest (hdate : h.strTime h.start.now = date) {t : Int}
    (there : h.disk.stat h.mtime (h.file date h.initial.curRollIdx) = some t) :
    LogFile.Newest h.rollCountMax (h.file date) (h.disk.stat h.mtime) h.initial.curRollIdx := by
  have hidx := h.initial_idx
  rw [LogRun.firstIdx, hdate] at hidx
  refine ⟨t, there, fun j hj s hs => ?_⟩
  rcases h.lastRoll_firstMax h.disk h.mtime date with ⟨-, hnone⟩ | ⟨i, t', heq, hmax⟩
  · rw [hnone j hj] at hs
    cases hs
  · rw [heq, Option.map_some, Option.getD_some] at hidx
    have hsame : t' = t := by
      rw [hidx] at there
      exact Option.some.inj (hmax.key_eq.symm.trans there)
    rw [← hsame]
    exact hmax.greatest j hj s hs

/-- The times are those that `InitLogFile` has found, but for a file that it makes. -/
theorem initial_stat (opens : h.start.opens = true) (hdate : h.strTime h.start.now = date) :
    (∃ t, h.disk.stat h.mtime (h.file date h.initial.curRollIdx) = some t ∧
        h.initial.disk.stat (h.timesAt 0) = h.disk.stat h.mtime) ∨
      h.disk.stat h.mtime (h.file date h.initial.curRollIdx) = none ∧ h.initial.disk.stat (h.timesAt 0) =
        Function.update (h.disk.stat h.mtime) (h.file date h.initial.curRollIdx) (some h.created) := by
  obtain ⟨-, content, hdisk⟩ := initial_made opens
  rw [hdisk, hdate]
  cases there : h.disk (h.file date h.initial.curRollIdx) with
  | none =>
    have htimes : h.timesAt 0 = Function.update h.mtime (h.file date h.initial.curRollIdx) h.created := by
      simp only [timesAt, hdate, opens, there, Option.isNone_none, and_self, if_true]
    rw [htimes]
    refine .inr ⟨?_, FileSystem.stat_update _ _ _ _ _⟩
    rw [FileSystem.stat, there, Option.map_none]
  | some old =>
    have htimes : h.timesAt 0 = h.mtime := by
      simp only [timesAt, hdate, there, Option.isNone_some, Bool.false_eq_true, and_false, if_false]
    have hstat : h.disk.stat h.mtime (h.file date h.initial.curRollIdx) =
        some (h.mtime (h.file date h.initial.curRollIdx)) := by
      rw [FileSystem.stat, there, Option.map_some]
    rw [htimes]
    exact .inl ⟨_, hstat, FileSystem.stat_content hstat _⟩

/-- The file that `InitLogFile` opens is the newest, whether it was there or is made. -/
theorem timed_initial (ordered : h.Ordered) (hdate : h.strTime h.start.now = date) :
    LogFile.Timed h.rollCountMax (h.file date) h.created (h.timesAt 0) h.initial := by
  have before : LogFile.TouchedBy h.created (h.disk.stat h.mtime) := ordered.before
  cases opens : h.start.opens with
  | false =>
    obtain ⟨hp, hdisk⟩ := initial_failed opens
    have htimes : h.timesAt 0 = h.mtime := if_neg (by simp [opens])
    refine ⟨h.initial_idx_lt, h.initial_rollCount, ?_, ?_⟩
    · rw [htimes, hdisk]
      exact before
    · intro path hpath
      rw [hp] at hpath
      cases hpath
  | true =>
    have hp := (initial_made opens).1
    rw [hdate] at hp
    have hstat := initial_stat opens hdate
    refine ⟨h.initial_idx_lt, h.initial_rollCount, ?_, ?_⟩
    · rcases hstat with ⟨t, -, hsame⟩ | ⟨-, hmade⟩
      · rw [hsame]
        exact before
      · rw [hmade]
        exact before.update le_rfl _
    · intro path hpath
      refine ⟨Option.some.inj (hpath.symm.trans hp), ?_⟩
      rcases hstat with ⟨t, there, hsame⟩ | ⟨-, hmade⟩
      · rw [hsame]
        exact initial_newest hdate there
      · rw [hmade]
        exact (before.update le_rfl _).newest (Function.update_self _ _ _) _

theorem OnDate.names_eq (onDate : h.OnDate date) (hw : w ∈ h.writes) (i : Nat) :
    (h.fileAt k).names.getFileName i (h.strTime w.env.now) = h.file date i := by
  rw [h.fileAt_names, onDate.writes w hw]

theorem timed (ordered : h.Ordered) (onDate : h.OnDate date) (hk : k ≤ h.writes.length) :
    LogFile.Timed h.rollCountMax (h.file date) (h.clock k) (h.timesAt k) (h.fileAt k) := by
  induction k with
  | zero =>
    rw [h.fileAt_zero]
    exact timed_initial ordered onDate.start
  | succ k ih =>
    have hw : h.writes[k]? = some h.writes[k] := List.getElem?_eq_getElem hk
    rw [LogRun.fileAt_succ hw, timesAt_succ hw]
    exact (ih (by omega)).write (onDate.names_eq (List.getElem_mem hk)) (ordered.closed k hk) (ordered.cleared k hk)
      (ordered.written k hk)

variable {stop : Option Int} {path : List UInt8} {env : LogEnv} {curFileTime : Int}

/-- A `Close` at the stop touches the current file once more. -/
theorem stop_stat (current : (h.fileAt k).pFile = some path) :
    h.stopStat k stop =
      match stop with
      | some time => Function.update ((h.fileAt k).disk.stat (h.timesAt k)) path (some time)
      | none => (h.fileAt k).disk.stat (h.timesAt k) := by
  cases stop with
  | none => rfl
  | some time =>
    have hclose := (h.fileAt k).close_stat time (h.timesAt k)
    rw [current] at hclose
    exact hclose

/-- At the stop the current file is the newest. -/
theorem stop_newest {K : Nat} (timed : LogFile.Timed K (h.file date) (h.clock k) (h.timesAt k) (h.fileAt k))
    (current : (h.fileAt k).pFile = some path) (hstop : ∀ time, stop = some time → h.clock k ≤ time) :
    LogFile.Newest K (h.file date) (h.stopStat k stop) (h.fileAt k).curRollIdx := by
  obtain ⟨heq, newest⟩ := timed.current path current
  rw [stop_stat current]
  cases stop with
  | none => exact newest
  | some time =>
    rw [heq]
    exact (timed.touchedBy.update (hstop time rfl) _).newest (Function.update_self _ _ _) K

/-- The number that `InitFileRoll` finds. -/
def restartIdx (h : LogHistory) (k : Nat) (stop : Option Int) (date : List UInt8) : Nat :=
  (((h.chosen 0).toCLogFile.lastRoll (h.stopDisk k stop) (h.stopTimes k stop) date).map Prod.fst).getD 0

theorem restart_eq (h : LogHistory) (k : Nat) (stop : Option Int) (curFileTime : Int) (env : LogEnv) :
    h.restart k stop curFileTime env =
      LogFile.openFile
        { LogFile.create h.names curFileTime (h.stopDisk k stop) with
          rollSize := h.rollSize
          rollCountMax := h.rollCountMax
          curRollIdx := h.restartIdx k stop (h.strTime env.now) }
        (h.file (h.strTime env.now) (h.restartIdx k stop (h.strTime env.now))) false env :=
  rfl

theorem restart_idx (hdate : h.strTime env.now = date) :
    (h.restart k stop curFileTime env).curRollIdx = h.restartIdx k stop date := by
  rw [restart_eq, LogFile.openFile_curRollIdx, hdate]

/-- `InitFileRoll` takes the first of the newest files, so it finds the current one unless a file with a smaller number
is as new. -/
theorem restart_idx_iff (timed : LogFile.Timed h.rollCountMax (h.file date) (h.clock k) (h.timesAt k) (h.fileAt k))
    (current : (h.fileAt k).pFile = some path) (hstop : ∀ time, stop = some time → h.clock k ≤ time)
    (hdate : h.strTime env.now = date) :
    (h.restart k stop curFileTime env).curRollIdx = (h.fileAt k).curRollIdx ↔
      ∀ j < (h.fileAt k).curRollIdx,
        h.stopStat k stop (h.file date j) ≠ h.stopStat k stop (h.file date (h.fileAt k).curRollIdx) := by
  obtain ⟨t, ht, greatest⟩ := stop_newest timed current hstop
  have hlt := timed.idx_lt
  rw [timed.count_eq] at hlt
  rw [restart_idx hdate, ht, restartIdx]
  rcases h.lastRoll_firstMax (h.stopDisk k stop) (h.stopTimes k stop) date with ⟨heq, hnone⟩ | ⟨i, t', heq, hmax⟩
  · rw [heq, Option.map_none, Option.getD_none]
    by_cases hK : h.rollCountMax = 0
    · rw [if_pos hK] at hlt
      have hzero : (h.fileAt k).curRollIdx = 0 := by omega
      exact iff_of_true hzero.symm fun j hj => by omega
    · rw [if_neg hK] at hlt
      exact absurd ((hnone _ hlt).symm.trans ht) (by simp)
  · have hpos := hmax.lt
    rw [if_neg (by omega)] at hlt
    rw [heq, Option.map_some, Option.getD_some]
    exact hmax.eq_iff hlt ht greatest

theorem continues_iff (timed : LogFile.Timed h.rollCountMax (h.file date) (h.clock k) (h.timesAt k) (h.fileAt k))
    (current : (h.fileAt k).pFile = some path) (hdate : h.strTime env.now = date) :
    (h.fileAt k).Continues (h.restart k stop curFileTime env) ↔
      (h.restart k stop curFileTime env).curRollIdx = (h.fileAt k).curRollIdx := by
  refine ⟨fun continues => continues.idx_eq, fun hidx => ⟨hidx, ?_, ?_⟩⟩
  · intro other hother
    rw [restart_eq, hdate] at hother
    rw [current, (LogFile.openFile_open hother).1, (timed.current path current).1, ← hidx, restart_idx hdate]
  · have hcount : (h.restart k stop curFileTime env).rollCount = (h.fileAt k).rollCount := by
      rw [timed.count_eq, restart_eq, LogFile.openFile_rollCount]
      rfl
    simp only [LogFile.advance, hidx, hcount]

end LogHistory

/-- How the times of the other files stand to that of file `idx`: before any roll the files with smaller numbers are
older; after a roll the others have not been touched since, and the one before was touched last. -/
structure Ranked (file : Nat → List UInt8) (rolled : Option Int) (stat : List UInt8 → Option Int) (idx : Nat) :
    Prop where
  unrolled : rolled = none → ∀ j < idx, ∀ u t, stat (file j) = some u → stat (file idx) = some t → u < t
  others : ∀ time, rolled = some time → ∀ path u, path ≠ file idx → stat path = some u → u ≤ time
  previous : ∀ time, rolled = some time → idx ≠ 0 → stat (file (idx - 1)) = some time

namespace Ranked

variable {file : Nat → List UInt8} {rolled : Option Int} {stat : List UInt8 → Option Int} {idx : Nat}

/-- The current file is touched again. -/
theorem touch (h : Ranked file rolled stat idx) (apart : ∀ j < idx, file j ≠ file idx) {t t' : Int}
    (ht : stat (file idx) = some t) (hle : t ≤ t') :
    Ranked file rolled (Function.update stat (file idx) (some t')) idx := by
  have other : ∀ j < idx, Function.update stat (file idx) (some t') (file j) = stat (file j) :=
    fun j hj => Function.update_of_ne (apart j hj) _ _
  refine ⟨?_, ?_, ?_⟩
  · intro hnone j hj u v hu hv
    rw [other j hj] at hu
    rw [Function.update_self] at hv
    rw [← Option.some.inj hv]
    exact (h.unrolled hnone j hj u t hu ht).trans_le hle
  · intro time hsome path u hne hu
    rw [Function.update_of_ne hne] at hu
    exact h.others time hsome path u hne hu
  · intro time hsome hne
    rw [other _ (by omega)]
    exact h.previous time hsome hne

/-- The current file is closed and the next one, or the first one, is truncated. -/
theorem roll {c closed cleared : Int} {i : Nat} (touchedBy : LogFile.TouchedBy c stat) (hle : c ≤ closed)
    (apart : i ≠ 0 → file idx ≠ file i) (next : i ≠ 0 → i = idx + 1) :
    Ranked file (some closed)
      (Function.update (Function.update stat (file idx) (some closed)) (file i) (some cleared)) i := by
  refine ⟨fun hnone => absurd hnone (by simp), ?_, ?_⟩
  · intro time hsome path u hne hu
    rw [← Option.some.inj hsome]
    rw [Function.update_of_ne hne] at hu
    exact touchedBy.update hle _ path u hu
  · intro time hsome hne
    have hi := next hne
    have hidx : i - 1 = idx := by omega
    rw [hidx, Function.update_of_ne (apart hne), Function.update_self]
    exact hsome

/-- No file with a smaller number is as new as the current one exactly when it is the first one, or none was rolled to,
or it was touched after the one before it was closed. -/
theorem alone_iff (h : Ranked file rolled stat idx) (apart : ∀ j < idx, file j ≠ file idx) {K : Nat}
    (newest : LogFile.Newest K file stat idx) (hidx : idx ≤ K) :
    (∀ j < idx, stat (file j) ≠ stat (file idx)) ↔
      idx = 0 ∨ ∀ time, rolled = some time → ∀ t, stat (file idx) = some t → time < t := by
  obtain ⟨t, ht, greatest⟩ := newest
  constructor
  · intro alone
    by_cases hzero : idx = 0
    · exact .inl hzero
    · refine .inr fun time hsome t' ht' => ?_
      have hprev := h.previous time hsome hzero
      have hle := greatest (idx - 1) (by omega) time hprev
      have hne := alone (idx - 1) (by omega)
      rw [hprev, ht'] at hne
      have hsame : t' = t := Option.some.inj (ht'.symm.trans ht)
      have hne' : time ≠ t' := fun heq => hne (congrArg some heq)
      omega
  · intro hcases j hj hsame
    rw [ht] at hsame
    cases hrolled : rolled with
    | none => exact absurd (h.unrolled hrolled j hj t t hsame ht) (lt_irrefl t)
    | some time =>
      rcases hcases with hzero | hlate
      · omega
      · have hle := h.others time hrolled _ t (apart j hj) hsame
        have hlt := hlate time hrolled t ht
        omega

end Ranked

namespace LogFile

variable {strTime : Int → List UInt8} {f : LogFile} {w : LogWrite} {env : LogEnv} {touch : LogTouch}
  {mtime : List UInt8 → Int} {K old : Nat} {file : Nat → List UInt8} {c : Int} {rolled : Option Int}

theorem ranked_open (touchedBy : TouchedBy c (f.disk.stat mtime)) (current : f.pFile = some (file old))
    (opens : env.opens = true) (closed : c ≤ touch.closed) (apart : f.curRollIdx ≠ 0 → file old ≠ file f.curRollIdx)
    (next : f.curRollIdx ≠ 0 → f.curRollIdx = old + 1) :
    Ranked file (some touch.closed)
      ((f.openFile (file f.curRollIdx) true env).disk.stat (f.openTimes (file f.curRollIdx) env touch mtime))
      f.curRollIdx := by
  have hclose := f.close_stat touch.closed mtime
  rw [current] at hclose
  rw [open_stat opens, hclose]
  exact .roll touchedBy closed apart next

theorem ranked_put (timed : Timed K file c mtime f) (apart : ∀ i < f.rollCount, ∀ j < i, file j ≠ file i)
    (ranked : Ranked file rolled (f.disk.stat mtime) f.curRollIdx)
    (written : c ≤ touch.written) :
    Ranked file rolled ((f.put w).disk.stat (f.putTimes w touch mtime)) (f.put w).curRollIdx := by
  rw [put_curRollIdx]
  rcases @put_stat f w touch mtime K file c timed with same | ⟨hp, touched⟩
  · rw [same]
    exact ranked
  · obtain ⟨-, t, ht, -⟩ := timed.current _ hp
    rw [touched]
    exact ranked.touch (apart _ timed.idx_lt) ht ((timed.touchedBy _ t ht).trans written)

/-- A roll goes to the next file or back to the first one. -/
theorem Timed.next_idx (h : Timed K file c mtime f) (hK : K < 4294967296) (hne : f.advance.curRollIdx ≠ 0) :
    f.advance.curRollIdx = f.curRollIdx + 1 := by
  have hlt := h.idx_lt
  have hsmall : f.rollCount < 4294967296 := by
    rw [h.count_eq]
    split <;> omega
  rw [advance_idx hlt hsmall] at hne ⊢
  by_cases hlast : f.curRollIdx + 1 = f.rollCount
  · rw [hlast, Nat.mod_self] at hne
    exact absurd rfl hne
  · exact Nat.mod_eq_of_lt (by omega)

/-- A call of `Write` that can open its file. -/
theorem Timed.ranked_write (h : Timed K file c mtime f) (hK : K < 4294967296)
    (apart : ∀ i < f.rollCount, ∀ j < i, file j ≠ file i) (current : f.pFile = some (file f.curRollIdx))
    (ranked : Ranked file rolled (f.disk.stat mtime) f.curRollIdx)
    (hfile : ∀ i, f.names.getFileName i (strTime w.env.now) = file i) (opens : w.env.opens = true)
    (closed : c ≤ touch.closed) (cleared : touch.closed ≤ touch.cleared) (written : touch.cleared ≤ touch.written) :
    Ranked file (if f.rolls w.env.now then some touch.closed else rolled)
      ((f.write strTime w).disk.stat (f.writeTimes strTime w touch mtime)) (f.write strTime w).curRollIdx := by
  rcases write_cases strTime f w with ⟨changed, heq⟩ | ⟨same, full, heq⟩ | ⟨same, room, heq⟩
  · rw [writeTimes_eq heq, heq, checkTimes, if_pos changed, hfile, if_pos (show f.rolls w.env.now from .inl changed)]
    refine ranked_put (h.reset closed cleared) ?_ ?_ written
    · rw [openFile_rollCount]
      exact apart
    · rw [openFile_curRollIdx]
      exact ranked_open (f := { f with curRollIdx := 0 }) h.touchedBy current opens closed (fun hne => absurd rfl hne)
        fun hne => absurd rfl hne
  · rw [writeTimes_eq heq, heq, checkTimes, if_neg same, if_pos full, hfile,
      if_pos (show f.rolls w.env.now from .inr full)]
    refine ranked_put (h.roll closed cleared) ?_ ?_ written
    · rw [openFile_rollCount, advance_rollCount]
      exact apart
    · rw [openFile_curRollIdx]
      refine ranked_open (f := f.advance) h.touchedBy current opens closed (fun hne => ?_) (h.next_idx hK)
      have hlt : f.curRollIdx < f.advance.curRollIdx := by
        rw [h.next_idx hK hne]
        exact Nat.lt_succ_self _
      exact apart _ (Nat.mod_lt _ f.rollCount_pos) _ hlt
  · have stays : ¬ f.rolls w.env.now := not_or.mpr ⟨same, Nat.not_le.mpr room⟩
    rw [writeTimes_eq heq, heq, checkTimes, if_neg same, if_neg (Nat.not_le.mpr room), if_neg stays]
    exact ranked_put h apart ranked ((closed.trans cleared).trans written)

end LogFile

namespace LogHistory

variable {h : LogHistory} {date : List UInt8} {k : Nat} {w : LogWrite} {stop : Option Int} {path : List UInt8}
  {env : LogEnv} {curFileTime : Int}

theorem rolledAt_succ (hw : h.writes[k]? = some w) :
    h.rolledAt (k + 1) =
      if (h.fileAt k).rolls w.env.now then some (h.touch k).closed else h.rolledAt k := by
  simp only [rolledAt, hw]

/-- Before any roll the files with smaller numbers are older, since `InitFileRoll` has taken the first of the newest. -/
theorem ranked_initial (opens : h.start.opens = true) (hdate : h.strTime h.start.now = date) :
    Ranked (h.file date) none (h.initial.disk.stat (h.timesAt 0)) h.initial.curRollIdx := by
  have hidx := h.initial_idx
  rw [LogRun.firstIdx, hdate] at hidx
  refine ⟨?_, fun time hsome => absurd hsome (by simp), fun time hsome => absurd hsome (by simp)⟩
  intro _ j hj u t hu ht
  rcases h.lastRoll_firstMax h.disk h.mtime date with ⟨heq, -⟩ | ⟨i, t', heq, hmax⟩
  · rw [heq, Option.map_none, Option.getD_none] at hidx
    omega
  · rw [heq, Option.map_some, Option.getD_some] at hidx
    rcases initial_stat opens hdate with ⟨-, -, hsame⟩ | ⟨hnone, -⟩
    · rw [hsame] at hu ht
      rw [hidx] at hj ht
      rw [← Option.some.inj (hmax.key_eq.symm.trans ht)]
      exact hmax.first j hj u hu
    · rw [hidx] at hnone
      exact absurd (hnone.symm.trans hmax.key_eq) (by simp)

/-- Of two files of a date with different numbers the names are different. -/
theorem file_ne (apart : h.names.Apart h.rollCount date) (k i : Nat) (hi : i < (h.fileAt k).rollCount) (j : Nat)
    (hj : j < i) : h.file date j ≠ h.file date i := by
  rw [h.fileAt_rollCount] at hi
  exact fun same => Nat.ne_of_lt hj (apart j (hj.trans hi) i hi same)

theorem ranked (ordered : h.Ordered) (onDate : h.OnDate date) (hK : h.rollCountMax < 4294967296)
    (apart : h.names.Apart h.rollCount date) (opens : h.AllOpen) (hk : k ≤ h.writes.length) :
    Ranked (h.file date) (h.rolledAt k) ((h.fileAt k).disk.stat (h.timesAt k)) (h.fileAt k).curRollIdx := by
  induction k with
  | zero =>
    rw [h.fileAt_zero]
    exact ranked_initial opens.1 onDate.start
  | succ k ih =>
    have hw : h.writes[k]? = some h.writes[k] := List.getElem?_eq_getElem hk
    have hmem : h.writes[k] ∈ h.writes := List.getElem_mem hk
    have htimed := timed ordered onDate (Nat.le_of_succ_le hk)
    obtain ⟨path, hpath⟩ := LogRun.isOpen opens (Nat.le_of_succ_le hk)
    rw [(htimed.current path hpath).1] at hpath
    rw [LogRun.fileAt_succ hw, timesAt_succ hw, rolledAt_succ hw]
    exact htimed.ranked_write hK (file_ne apart k) hpath (ih (by omega)) (onDate.names_eq hmem) (opens.2 _ hmem)
      (ordered.closed k hk) (ordered.cleared k hk) (ordered.written k hk)

theorem ranked_stop (timed : LogFile.Timed h.rollCountMax (h.file date) (h.clock k) (h.timesAt k) (h.fileAt k))
    (apart : h.names.Apart h.rollCount date) (current : (h.fileAt k).pFile = some path)
    (hstop : ∀ time, stop = some time → h.clock k ≤ time)
    (ranked : Ranked (h.file date) (h.rolledAt k) ((h.fileAt k).disk.stat (h.timesAt k)) (h.fileAt k).curRollIdx) :
    Ranked (h.file date) (h.rolledAt k) (h.stopStat k stop) (h.fileAt k).curRollIdx := by
  obtain ⟨heq, t, ht, -⟩ := timed.current path current
  rw [stop_stat current]
  cases stop with
  | none => exact ranked
  | some time =>
    rw [heq]
    exact ranked.touch (file_ne apart k _ timed.idx_lt) ht ((timed.touchedBy _ t ht).trans (hstop time rfl))

/-- A restarted logger goes on in the file that was current exactly when no file with a smaller number was last touched
in the same second. Where every file could be opened and no two files have the same name, this is: the current file is
the first one, or the log has not rolled, or the current file was touched after the second in which the file before it
was closed. -/
theorem restart_continues_iff (ordered : h.Ordered) (onDate : h.OnDate date) (hk : k ≤ h.writes.length)
    (hstop : ∀ time, stop = some time → h.clock k ≤ time) (hdate : h.strTime env.now = date)
    (current : (h.fileAt k).pFile = some path) :
    ((h.fileAt k).Continues (h.restart k stop curFileTime env) ↔
        ∀ j < (h.fileAt k).curRollIdx,
          h.stopStat k stop (h.file date j) ≠ h.stopStat k stop (h.file date (h.fileAt k).curRollIdx)) ∧
      (h.rollCountMax < 4294967296 → h.AllOpen → h.names.Apart h.rollCount date →
        ((h.fileAt k).Continues (h.restart k stop curFileTime env) ↔
          (h.fileAt k).curRollIdx = 0 ∨ ∀ time, h.rolledAt k = some time →
            ∀ t, h.stopStat k stop (h.file date (h.fileAt k).curRollIdx) = some t → time < t)) := by
  have htimed := timed ordered onDate hk
  have hcontinues : (h.fileAt k).Continues (h.restart k stop curFileTime env) ↔
      ∀ j < (h.fileAt k).curRollIdx,
        h.stopStat k stop (h.file date j) ≠ h.stopStat k stop (h.file date (h.fileAt k).curRollIdx) :=
    (continues_iff htimed current hdate).trans (restart_idx_iff htimed current hstop hdate)
  refine ⟨hcontinues, fun hK opens apart => hcontinues.trans ?_⟩
  have hlt := htimed.idx_lt
  have hne := file_ne apart k _ hlt
  rw [htimed.count_eq] at hlt
  have hranked := ranked_stop htimed apart current hstop (ranked ordered onDate hK apart opens hk)
  refine hranked.alone_iff hne (stop_newest htimed current hstop) ?_
  split at hlt <;> omega

/-- The first file is filled, the second one is begun in the second in which the first is closed and goes on a second
later. -/
def rolledOnce : LogHistory where
  names := svrLog
  strTime t := twoDates (zoneDate 28800 t)
  mtime _ := 0
  disk _ := none
  curFileTime := 7
  rollSize := 3
  rollCountMax := 3
  start := ⟨100000, 100000, true⟩
  writes := [⟨⟨100001, 100001, true⟩, [1, 2, 3], 3⟩, ⟨⟨100002, 100002, true⟩, [4, 5], 2⟩,
    ⟨⟨100003, 100003, true⟩, [6], 1⟩]
  created := 100000
  touch k := ⟨100001 + k, 100001 + k, 100001 + k⟩

theorem rolledOnce_ordered : rolledOnce.Ordered := by
  refine ⟨?_, by decide +kernel, by decide +kernel, by decide +kernel⟩
  intro path t ht
  simp [rolledOnce, FileSystem.stat] at ht

theorem rolledOnce_onDate : rolledOnce.OnDate (text "19700102") := ⟨by decide, by decide⟩

theorem restart_continues_iff_later :
    (rolledOnce.fileAt 3).Continues (rolledOnce.restart 3 none 0 ⟨100007, 100007, true⟩) ∧
      (rolledOnce.fileAt 3).Continues (rolledOnce.restart 3 (some 100005) 0 ⟨100007, 100007, true⟩) ∧
      (rolledOnce.fileAt 3).curRollIdx = 1 := by
  have current : (rolledOnce.fileAt 3).pFile = some (text "svr_19700102.log.1") := by decide +kernel
  refine ⟨?_, ?_, by decide +kernel⟩
  · refine (restart_continues_iff rolledOnce_ordered rolledOnce_onDate (by decide) (by simp) (by decide)
      current).1.mpr ?_
    decide +kernel
  · refine (restart_continues_iff rolledOnce_ordered rolledOnce_onDate (by decide) ?_ (by decide) current).1.mpr ?_
    · intro time htime
      rw [← Option.some.inj htime]
      decide +kernel
    · decide +kernel

/-- A stop in the second of the roll: the two files are equally new, and the new logger takes the one that was full. -/
theorem restart_takes_old_file :
    rolledOnce.Ordered ∧ rolledOnce.OnDate (text "19700102") ∧
      (rolledOnce.fileAt 2).pFile = some (text "svr_19700102.log.1") ∧
      (rolledOnce.fileAt 2).curRollIdx = 1 ∧
      (rolledOnce.restart 2 none 0 ⟨100007, 100007, true⟩).curRollIdx = 0 ∧
      (rolledOnce.restart 2 none 0 ⟨100007, 100007, true⟩).pFile = some (text "svr_19700102.log") ∧
      ¬ (rolledOnce.fileAt 2).Continues (rolledOnce.restart 2 none 0 ⟨100007, 100007, true⟩) := by
  refine ⟨rolledOnce_ordered, rolledOnce_onDate, by decide +kernel, by decide +kernel, by decide +kernel,
    by decide +kernel, fun continues => ?_⟩
  have hidx := continues.idx_eq
  revert hidx
  decide +kernel

end LogHistory

end Wddlib
