import Wddlib.LogFile
import Wddlib.CyclicSlots

namespace Wddlib

/-- The records in a file, without what `Close` left there. -/
def recordsOf (content : List FileChunk) : List (List UInt8) :=
  content.filterMap fun
    | .record _ bytes => some bytes
    | .closeMark => none

/-- The call has its readings of the clock on day `D` of `GetDiffDays` and makes up file names with this date. -/
structure LogEnv.OnDay (strTime : Int → List UInt8) (D : Int) (date : List UInt8) (env : LogEnv) : Prop where
  now : (env.now + 28800).tdiv 86400 = D
  openTime : (env.openTime + 28800).tdiv 86400 = D
  date_eq : strTime env.now = date

/-- The file can be opened and takes the whole record. -/
structure LogWrite.Complete (w : LogWrite) : Prop where
  opens : w.env.opens = true
  count : w.count = w.buff.length

/-- The records in the files of a date, from the file on that is filled next. -/
def CLogFile.kept (c : CLogFile) (K : Nat) (date : List UInt8) (fs : FileSystem) : List (List UInt8) :=
  (List.range K).flatMap fun j => recordsOf (fs.content (c.names.getFileName ((c.curRollIdx + 1 + j) % K) date))

/-- The files of a date hold the newest of the records that were written: all of them, or at least as many bytes as
all files but one have room for. -/
structure CLogFile.KeepsNewest (R K : Nat) (date : List UInt8) (written : List (List UInt8)) (c : CLogFile)
    (fs : FileSystem) : Prop where
  current : c.curRollIdx < K ∧ c.pFile = some (c.names.getFileName c.curRollIdx date)
  size_eq : c.curSize = fileSize (fs.content (c.names.getFileName c.curRollIdx date))
  suffix : c.kept K date fs <:+ written
  enough : c.kept K date fs = written ∨ (K - 1) * R ≤ ((c.kept K date fs).map List.length).sum
  rolled : ∀ i < K, i ≠ c.curRollIdx → ∀ content, fs (c.names.getFileName i date) = some content →
    ∃ records, content = records ++ [.closeMark] ∧ .closeMark ∉ records ∧ R ≤ fileSize records
  below : .closeMark ∉ fs.content (c.names.getFileName c.curRollIdx date) ∧
    fileSize (fs.content (c.names.getFileName c.curRollIdx date)).dropLast < R

/-- The records of one file, each with its time, as they stand there. -/
def chunksOf (recs : List (Int × List UInt8)) : List FileChunk := recs.map fun r => .record r.1 r.2

theorem closeMark_not_mem_chunksOf (recs : List (Int × List UInt8)) : .closeMark ∉ chunksOf recs := by
  simp [chunksOf]

theorem recordsOf_chunksOf (recs : List (Int × List UInt8)) : recordsOf (chunksOf recs) = recs.map Prod.snd := by
  rw [recordsOf, chunksOf, List.filterMap_map]
  change (recs.filterMap fun r => some r.2) = _
  rw [List.filterMap_eq_map']

theorem recordsOf_closed (recs : List (Int × List UInt8)) :
    recordsOf (chunksOf recs ++ [.closeMark]) = recs.map Prod.snd := by
  rw [recordsOf, List.filterMap_append, ← recordsOf, recordsOf_chunksOf]
  exact List.append_nil _

namespace LogFile

variable {strTime : Int → List UInt8} {R K : Nat} {D : Int} {date : List UInt8} {f : LogFile} {w : LogWrite}
  {closed : List (List (Int × List UInt8))} {cur : List (Int × List UInt8)}

/-- `closed` are the records of the files that were filled, in the order of filling, and `cur` those of the
current file; only the last `K` files are still there. -/
structure Rolling (R K : Nat) (D : Int) (date : List UInt8) (closed : List (List (Int × List UInt8)))
    (cur : List (Int × List UInt8)) (f : LogFile) : Prop where
  apart : f.names.Apart K date
  rollSize_eq : f.rollSize = R
  rollCountMax_eq : f.rollCountMax = K
  idx_eq : f.curRollIdx = closed.length % K
  current : f.pFile = some (f.names.getFileName f.curRollIdx date)
  day : (f.curFileTime + 28800).tdiv 86400 = D
  slots : CyclicSlots K (fun i => f.disk (f.names.getFileName i date))
    (closed.map (fun recs => chunksOf recs ++ [.closeMark]) ++ [chunksOf cur])
  size_eq : f.curSize = fileSize (chunksOf cur)
  full : ∀ recs ∈ closed, R ≤ fileSize (chunksOf recs)
  below : fileSize (chunksOf cur).dropLast < R

theorem Rolling.content_eq (h : Rolling R K D date closed cur f) (hK : 0 < K) :
    f.disk (f.names.getFileName f.curRollIdx date) = some (chunksOf cur) := by
  have last := h.slots.last_slot hK
  rw [List.length_map, ← h.idx_eq] at last
  exact last

theorem Rolling.sameDay (h : Rolling R K D date closed cur f) (day : w.env.OnDay strTime D date) :
    ¬ f.dayChanged w.env.now := by
  rw [dayChanged, getDiffDays, day.now, h.day, Int.sub_self]
  decide

/-- The files of the date are not the current one. -/
theorem Rolling.name_ne (h : Rolling R K D date closed cur f) (hK : 0 < K) {i : Nat} (hi : i < K)
    (hne : i ≠ f.curRollIdx) : f.names.getFileName i date ≠ f.names.getFileName f.curRollIdx date :=
  fun heq => hne (h.apart i hi _ (h.idx_eq ▸ Nat.mod_lt _ hK) heq)

theorem chunksOf_concat (recs : List (Int × List UInt8)) (r : Int × List UInt8) :
    chunksOf (recs ++ [r]) = chunksOf recs ++ [.record r.1 r.2] := by
  rw [chunksOf, List.map_append]
  rfl

/-- A record that goes to the current file. -/
theorem Rolling.put (h : Rolling R K D date closed cur f) (hK : 0 < K) (complete : w.Complete)
    (below : fileSize (chunksOf cur) < R)
    (fits : fileSize ((f.put w).disk.content (f.names.getFileName (f.put w).curRollIdx date)) < 4294967296) :
    Rolling R K D date closed (cur ++ [(w.env.now, w.buff)]) (f.put w) := by
  have hcontent : f.disk.content (f.names.getFileName f.curRollIdx date) = chunksOf cur := by
    rw [FileSystem.content, h.content_eq hK, Option.getD_some]
  have hbuff : w.buff.take w.count = w.buff := by rw [complete.count, List.take_length]
  rw [put_some h.current] at fits ⊢
  simp only [FileSystem.content, FileSystem.append_same, Option.getD_some] at fits
  rw [← FileSystem.content, hcontent, fileSize_append, hbuff] at fits
  refine ⟨h.apart, h.rollSize_eq, h.rollCountMax_eq, h.idx_eq, h.current, h.day, ?_, ?_, h.full, ?_⟩
  · refine h.slots.setLast ?_ ?_
    · simp only [List.length_map, ← h.idx_eq]
      rw [FileSystem.append_same, hcontent, hbuff, chunksOf_concat]
    · intro i hi hne
      rw [List.length_map, ← h.idx_eq] at hne
      exact FileSystem.append_other _ _ (h.name_ne hK hi hne)
  · simp only
    rw [h.size_eq, chunksOf_concat, fileSize_append, complete.count, Nat.mod_eq_of_lt]
    · rfl
    · exact fits
  · rw [chunksOf_concat, List.dropLast_concat]
    exact below

/-- The current file is closed and the next one, which may be the oldest, is started. -/
theorem Rolling.roll (h : Rolling R K D date closed cur f) (hK : 0 < K) (hK' : K < 4294967296) (hR : 0 < R)
    (full : R ≤ fileSize (chunksOf cur)) (day : w.env.OnDay strTime D date) (opens : w.env.opens = true) :
    Rolling R K D date (closed ++ [cur]) []
      (f.advance.openFile (f.names.getFileName f.advance.curRollIdx (strTime w.env.now)) true w.env) := by
  have hcount : f.rollCount = K := by
    rw [rollCount, h.rollCountMax_eq, if_neg (by omega)]
  have hlt : f.curRollIdx < K := by
    rw [h.idx_eq]
    exact Nat.mod_lt _ hK
  have hidx : f.advance.curRollIdx = (closed.length + 1) % K := by
    simp only [advance, hcount]
    rw [show (f.curRollIdx + 1) % 4294967296 = f.curRollIdx + 1 by omega, h.idx_eq, Nat.mod_add_mod]
  have hopen : f.advance.pFile = some (f.names.getFileName f.curRollIdx date) := h.current
  rw [openFile_opened opens, close_some hopen, day.date_eq]
  refine ⟨h.apart, h.rollSize_eq, hcount, ?_, rfl, day.openTime, ?_, rfl, ?_, ?_⟩
  · simp only [List.length_append, List.length_singleton]
    exact hidx
  · have closing : CyclicSlots K
        (fun i => f.disk.append (f.names.getFileName f.curRollIdx date) .closeMark (f.names.getFileName i date))
        (closed.map (fun recs => chunksOf recs ++ [.closeMark]) ++ [chunksOf cur ++ [.closeMark]]) := by
      refine h.slots.setLast ?_ ?_
      · simp only [List.length_map, ← h.idx_eq]
        rw [FileSystem.append_same, FileSystem.content, h.content_eq hK, Option.getD_some]
      · intro i hi hne
        rw [List.length_map, ← h.idx_eq] at hne
        exact FileSystem.append_other _ _ (h.name_ne hK hi hne)
    rw [List.map_append, List.map_singleton]
    refine closing.push ?_ ?_
    · simp only [List.length_append, List.length_map, List.length_singleton, ← hidx]
      exact Function.update_self _ _ _
    · intro i hi hne
      simp only [List.length_append, List.length_map, List.length_singleton, ← hidx] at hne
      have other : f.names.getFileName i date ≠ f.names.getFileName f.advance.curRollIdx date :=
        fun heq => hne (h.apart i hi _ (hidx ▸ Nat.mod_lt _ hK) heq)
      exact Function.update_of_ne other _ _
  · intro recs hrecs
    rcases List.mem_append.mp hrecs with old | new
    · exact h.full recs old
    · rw [List.mem_singleton.mp new]
      exact full
  · exact hR

/-- One call of `Write` adds its record to what the files are made of. -/
theorem Rolling.write (h : Rolling R K D date closed cur f) (hK : 0 < K) (hK' : K < 4294967296) (hR : 0 < R)
    (day : w.env.OnDay strTime D date) (complete : w.Complete)
    (fits : fileSize ((f.write strTime w).disk.content (f.names.getFileName (f.write strTime w).curRollIdx date)) <
      4294967296) :
    ∃ closed' cur', Rolling R K D date closed' cur' (f.write strTime w) ∧
      closed'.flatten ++ cur' = closed.flatten ++ cur ++ [(w.env.now, w.buff)] := by
  rcases write_cases strTime f w with ⟨changed, -⟩ | ⟨-, hsize, heq⟩ | ⟨-, hsize, heq⟩
  · exact absurd changed (h.sameDay day)
  · rw [h.rollSize_eq, h.size_eq] at hsize
    have rolled := h.roll hK hK' hR hsize day complete.opens
    rw [heq] at fits ⊢
    refine ⟨_, _, rolled.put hK complete hR (by rwa [openFile_names]), ?_⟩
    rw [List.flatten_append, List.flatten_singleton, List.nil_append]
  · rw [h.rollSize_eq, h.size_eq] at hsize
    rw [heq] at fits ⊢
    refine ⟨_, _, h.put hK complete hsize fits, ?_⟩
    rw [List.append_assoc]

theorem lastRoll_none {c : CLogFile} {fs : FileSystem} (mtime : List UInt8 → Int)
    (none_eq : ∀ i < c.rollCountMax, fs (c.names.getFileName i date) = none) : c.lastRoll fs mtime date = none := by
  rcases c.lastRoll_firstMax fs mtime date with ⟨heq, -⟩ | ⟨i, t, -, hmax⟩
  · exact heq
  · have hstat := hmax.key_eq
    simp only [FileSystem.stat, none_eq i hmax.lt, Option.map_none] at hstat
    cases hstat

/-- `InitFileRoll` takes the first file when there is none. -/
theorem initLogFile_first {names : LogNames} {disk : FileSystem} {env : LogEnv} (curFileTime : Int)
    (mtime : List UInt8 → Int) (none_eq : ∀ i < K, disk (names.getFileName i date) = none)
    (day : env.OnDay strTime D date) :
    initLogFile strTime mtime (create names curFileTime disk) R K env =
      openFile { create names curFileTime disk with rollSize := R, rollCountMax := K } (names.getFileName 0 date) false
        env := by
  have hnone := lastRoll_none (c := { CLogFile.create names curFileTime with rollSize := R, rollCountMax := K }) mtime
    none_eq
  rw [initLogFile_eq, day.date_eq]
  simp only [create, hnone, Option.map_none, Option.getD_none]
  rfl

theorem Rolling.init {names : LogNames} {disk : FileSystem} {env : LogEnv} (apart : names.Apart K date)
    (curFileTime : Int) (mtime : List UInt8 → Int) (hR : 0 < R)
    (none_eq : ∀ i < K, disk (names.getFileName i date) = none) (hK : 0 < K) (day : env.OnDay strTime D date)
    (opens : env.opens = true) :
    Rolling R K D date [] [] (initLogFile strTime mtime (create names curFileTime disk) R K env) := by
  rw [initLogFile_first curFileTime mtime none_eq day, openFile_opened opens, close_none rfl]
  have hnone : disk.content (names.getFileName 0 date) = [] := by
    rw [FileSystem.content, none_eq 0 hK, Option.getD_none]
  simp only [Bool.false_eq_true, if_false, create, hnone]
  refine ⟨apart, rfl, rfl, (Nat.zero_mod K).symm, rfl, day.openTime, ?_, rfl, by simp, hR⟩
  refine (CyclicSlots.empty K none_eq).push ?_ ?_
  · rw [List.length_nil, Nat.zero_mod]
    exact Function.update_self _ _ _
  · intro i hi hne
    rw [List.length_nil, Nat.zero_mod] at hne
    exact Function.update_of_ne (fun heq => hne (apart i hi 0 hK heq)) _ _

theorem flatMap_getD {β γ : Type} (g : β → List γ) (empty : β) (hempty : g empty = []) (slot : Nat → Option β)
    (l : List Nat) : (l.flatMap fun j => g ((slot j).getD empty)) = (l.filterMap slot).flatMap g := by
  induction l with
  | nil => rfl
  | cons j l ih =>
    rw [List.flatMap_cons, ih]
    cases h : slot j with
    | none => rw [List.filterMap_cons_none h, Option.getD_none, hempty, List.nil_append]
    | some b => rw [List.filterMap_cons_some h, Option.getD_some, List.flatMap_cons]

theorem flatMap_recordsOf (closed : List (List (Int × List UInt8))) (cur : List (Int × List UInt8)) :
    (closed.map (fun recs => chunksOf recs ++ [FileChunk.closeMark]) ++ [chunksOf cur]).flatMap recordsOf =
      (closed.flatten ++ cur).map Prod.snd := by
  rw [List.flatMap_append, List.flatMap_singleton, recordsOf_chunksOf, List.map_append, List.flatMap_map,
    List.map_flatten]
  refine congrArg (· ++ _) ?_
  rw [← List.flatMap_def]
  exact List.flatMap_congr fun recs _ => recordsOf_closed recs

/-- The records in the files are those of the last `K` that were filled. -/
theorem Rolling.kept_eq (h : Rolling R K D date closed cur f) (hK : 0 < K) :
    f.toCLogFile.kept K date f.disk = ((closed.drop (closed.length + 1 - K)).flatten ++ cur).map Prod.snd := by
  have hread := h.slots.read
  rw [List.length_append, List.length_map, List.length_singleton,
    List.drop_append_of_le_length (by rw [List.length_map]; omega), ← List.map_drop] at hread
  rw [CLogFile.kept, ← flatMap_recordsOf, ← hread, ← flatMap_getD recordsOf [] rfl]
  refine List.flatMap_congr fun j _ => ?_
  rw [h.idx_eq, Nat.add_assoc, Nat.mod_add_mod, ← Nat.add_assoc]
  rfl

theorem fileSize_chunksOf (recs : List (Int × List UInt8)) :
    fileSize (chunksOf recs) = ((recs.map Prod.snd).map List.length).sum := by
  simp only [fileSize, chunksOf, List.map_map]
  rfl

theorem sum_flatten_ge (files : List (List (Int × List UInt8))) (full : ∀ recs ∈ files, R ≤ fileSize (chunksOf recs)) :
    files.length * R ≤ ((files.flatten.map Prod.snd).map List.length).sum := by
  induction files with
  | nil => simp
  | cons recs files ih =>
    obtain ⟨hrecs, hfiles⟩ := List.forall_mem_cons.mp full
    have rest := ih hfiles
    rw [fileSize_chunksOf] at hrecs
    simp only [List.length_cons, List.flatten_cons, List.map_append, List.sum_append, Nat.succ_mul]
    omega

/-- Either nothing was thrown away, or all files but the current one are full. -/
theorem Rolling.enough (h : Rolling R K D date closed cur f) :
    ((closed.drop (closed.length + 1 - K)).flatten ++ cur).map Prod.snd = (closed.flatten ++ cur).map Prod.snd ∨
      (K - 1) * R ≤ ((((closed.drop (closed.length + 1 - K)).flatten ++ cur).map Prod.snd).map List.length).sum := by
  by_cases few : closed.length + 1 ≤ K
  · left
    rw [show closed.length + 1 - K = 0 by omega, List.drop_zero]
  · right
    have full := sum_flatten_ge (closed.drop (closed.length + 1 - K))
      fun recs hrecs => h.full recs (List.mem_of_mem_drop hrecs)
    rw [List.length_drop, show closed.length - (closed.length + 1 - K) = K - 1 by omega] at full
    simp only [List.map_append, List.sum_append] at full ⊢
    omega

theorem Rolling.keepsNewest (h : Rolling R K D date closed cur f) (hK : 0 < K) :
    f.toCLogFile.KeepsNewest R K date ((closed.flatten ++ cur).map Prod.snd) f.disk := by
  have hcontent : f.disk.content (f.names.getFileName f.curRollIdx date) = chunksOf cur := by
    rw [FileSystem.content, h.content_eq hK, Option.getD_some]
  refine ⟨⟨h.idx_eq ▸ Nat.mod_lt _ hK, h.current⟩, ?_, ?_, ?_, ?_, ?_⟩
  · rw [hcontent]
    exact h.size_eq
  · rw [h.kept_eq hK]
    obtain ⟨front, hfront⟩ := List.drop_suffix (closed.length + 1 - K) closed
    refine ⟨front.flatten.map Prod.snd, ?_⟩
    rw [← List.map_append, ← List.append_assoc, ← List.flatten_append, hfront]
  · rw [h.kept_eq hK]
    exact h.enough
  · intro i hi hne content hsome
    rw [h.idx_eq, ← List.length_map (fun recs => chunksOf recs ++ [FileChunk.closeMark])] at hne
    obtain ⟨recs, hrecs, rfl⟩ := List.mem_map.mp (h.slots.mem_of_slot hi hne hsome)
    exact ⟨chunksOf recs, rfl, closeMark_not_mem_chunksOf recs, h.full recs hrecs⟩
  · rw [hcontent]
    exact ⟨closeMark_not_mem_chunksOf cur, h.below⟩

end LogFile

/-- The calls are made within a day that finds no files of its date, every file can be opened and takes the whole
record, and no file reaches the size at which its counter wraps around. -/
structure LogRun.WithinDate (r : LogRun) (D : Int) (date : List UInt8) : Prop where
  none_eq : ∀ i < r.rollCountMax, r.disk (r.names.getFileName i date) = none
  start : r.start.OnDay r.strTime D date
  opens : r.start.opens = true
  day : ∀ w ∈ r.writes, w.env.OnDay r.strTime D date
  complete : ∀ w ∈ r.writes, w.Complete
  fits : ∀ k, fileSize ((r.fileAt k).disk.content (r.names.getFileName (r.fileAt k).curRollIdx date)) < 4294967296

theorem LogRun.WithinDate.rolling {r : LogRun} {D : Int} {date : List UInt8} (within : r.WithinDate D date)
    (apart : r.names.Apart r.rollCountMax date) (hR : 1 ≤ r.rollSize) (hK : 1 ≤ r.rollCountMax)
    (hK' : r.rollCountMax < 4294967296) (k : Nat) :
    ∃ closed cur, LogFile.Rolling r.rollSize r.rollCountMax D date closed cur (r.fileAt k) ∧
      closed.flatten ++ cur = (r.writes.take k).map fun w => (w.env.now, w.buff) := by
  induction k with
  | zero =>
    rw [r.fileAt_zero]
    exact ⟨[], [], .init apart r.curFileTime r.mtime hR within.none_eq hK within.start within.opens, rfl⟩
  | succ k ih =>
    obtain ⟨closed, cur, rolling, hrecs⟩ := ih
    cases hw : r.writes[k]? with
    | none =>
      rw [LogRun.fileAt, stateAt_end hw, List.take_add_one, hw]
      exact ⟨closed, cur, rolling, by simpa using hrecs⟩
    | some w =>
      have hmem := List.mem_of_getElem? hw
      have hfits := within.fits (k + 1)
      rw [LogRun.fileAt_succ hw, ← r.fileAt_names k] at hfits
      rw [LogRun.fileAt_succ hw]
      obtain ⟨closed', cur', rolling', hrecs'⟩ :=
        rolling.write hK hK' hR (within.day w hmem) (within.complete w hmem) hfits
      refine ⟨closed', cur', rolling', ?_⟩
      rw [hrecs', hrecs, List.take_add_one, hw, List.map_append]
      rfl

/-- A record of `R` bytes for each of the first `n` files of a date. -/
def fillingRun (names : LogNames) (R K n : Nat) (date : List UInt8) : LogRun where
  names := names
  strTime _ := date
  mtime _ := 0
  disk _ := none
  curFileTime := 0
  rollSize := R
  rollCountMax := K
  start := ⟨0, 0, true⟩
  writes := List.replicate n ⟨⟨0, 0, true⟩, List.replicate R 0, R⟩

/-- The record that fills a file of `R` bytes. -/
def fullRecord (R : Nat) : FileChunk := .record 0 (List.replicate R 0)

namespace LogFile

/-- The file with number `idx` is open and holds `content`, whatever the names of the other files. -/
structure Holds (R K : Nat) (date : List UInt8) (idx : Nat) (content : List FileChunk) (f : LogFile) : Prop where
  rollSize_eq : f.rollSize = R
  rollCountMax_eq : f.rollCountMax = K
  curFileTime_eq : f.curFileTime = 0
  curSize_eq : f.curSize = fileSize content
  idx_eq : f.curRollIdx = idx
  current : f.pFile = some (f.names.getFileName idx date)
  content_eq : f.disk (f.names.getFileName idx date) = some content

variable {R K idx : Nat} {date : List UInt8} {f : LogFile} {content : List FileChunk}

theorem fileSize_fullRecord (R : Nat) : fileSize [fullRecord R] = R := by
  simp [fileSize, fullRecord, FileChunk.size]

theorem Holds.put (h : Holds R K date idx [] f) (hR : R < 4294967296) :
    Holds R K date idx [fullRecord R] (f.put ⟨⟨0, 0, true⟩, List.replicate R 0, R⟩) := by
  have hcontent : f.disk.content (f.names.getFileName idx date) = [] := by
    rw [FileSystem.content, h.content_eq, Option.getD_some]
  have hsize : f.curSize = 0 := h.curSize_eq
  rw [put_some h.current]
  refine ⟨h.rollSize_eq, h.rollCountMax_eq, h.curFileTime_eq, ?_, h.idx_eq, h.current, ?_⟩
  · rw [fileSize_fullRecord]
    simp only [hsize, Nat.zero_add]
    exact Nat.mod_eq_of_lt hR
  · refine (FileSystem.append_same _ _ _).trans ?_
    rw [hcontent]
    simp [fullRecord]

theorem Holds.opened (hsize : f.rollSize = R) (hcount : f.rollCountMax = K) (hidx : f.curRollIdx = idx)
    {isClear : Bool} (fresh : isClear = false → f.close.disk.content (f.names.getFileName idx date) = []) :
    Holds R K date idx [] (f.openFile (f.names.getFileName idx date) isClear ⟨0, 0, true⟩) := by
  have hnone : (if isClear then [] else f.close.disk.content (f.names.getFileName idx date)) = [] := by
    cases isClear with
    | true => rfl
    | false => exact fresh rfl
  rw [openFile_opened rfl, hnone]
  have hclose : f.close.rollSize = f.rollSize ∧ f.close.rollCountMax = f.rollCountMax ∧
      f.close.curRollIdx = f.curRollIdx := by
    cases hp : f.pFile with
    | none => rw [close_none hp]; exact ⟨rfl, rfl, rfl⟩
    | some path => rw [close_some hp]; exact ⟨rfl, rfl, rfl⟩
  refine ⟨hclose.1.trans hsize, hclose.2.1.trans hcount, rfl, rfl, hclose.2.2.trans hidx, ?_, ?_⟩
  · simp only [close_names]
  · simp only [close_names, Function.update_self]

theorem Holds.current_content {names : LogNames} (h : Holds R K date idx content f) (hnames : f.names = names) :
    f.disk.content (names.getFileName f.curRollIdx date) = content := by
  rw [← hnames, h.idx_eq, FileSystem.content, h.content_eq, Option.getD_some]

/-- A record that finds the file empty. -/
theorem Holds.write_empty (h : Holds R K date idx [] f) (hR : 0 < R) (hR' : R < 4294967296) :
    Holds R K date idx [fullRecord R] (f.write (fun _ => date) ⟨⟨0, 0, true⟩, List.replicate R 0, R⟩) := by
  have hsize : f.curSize = 0 := h.curSize_eq
  rcases write_cases (fun _ => date) f ⟨⟨0, 0, true⟩, List.replicate R 0, R⟩ with
    ⟨changed, -⟩ | ⟨-, full, -⟩ | ⟨-, -, heq⟩
  · rw [dayChanged, h.curFileTime_eq] at changed
    exact absurd rfl changed
  · rw [h.rollSize_eq, hsize] at full
    omega
  · rw [heq]
    exact h.put hR'

/-- A record that finds the file full goes to the next one, which is truncated. -/
theorem Holds.write_full (h : Holds R K date idx [fullRecord R] f) (hR : R < 4294967296) (hidx : idx + 1 < K)
    (hK : K < 4294967296) :
    Holds R K date (idx + 1) [fullRecord R] (f.write (fun _ => date) ⟨⟨0, 0, true⟩, List.replicate R 0, R⟩) := by
  rcases write_cases (fun _ => date) f ⟨⟨0, 0, true⟩, List.replicate R 0, R⟩ with
    ⟨changed, -⟩ | ⟨-, -, heq⟩ | ⟨-, room, -⟩
  · rw [dayChanged, h.curFileTime_eq] at changed
    exact absurd rfl changed
  · have hcount : f.rollCount = K := by
      rw [rollCount, h.rollCountMax_eq, if_neg (by omega)]
    have hnext : f.advance.curRollIdx = idx + 1 := by
      simp only [advance, hcount, h.idx_eq]
      rw [Nat.mod_eq_of_lt (show idx + 1 < 4294967296 by omega), Nat.mod_eq_of_lt hidx]
    rw [heq, hnext]
    have opened : Holds R K date (idx + 1) []
        (f.advance.openFile (f.names.getFileName (idx + 1) date) true ⟨0, 0, true⟩) :=
      .opened (f := f.advance) h.rollSize_eq hcount hnext fun h => by cases h
    exact opened.put hR
  · rw [h.rollSize_eq, h.curSize_eq, fileSize_fullRecord] at room
    omega

end LogFile

section FillingRun

variable {names : LogNames} {R K n k : Nat} {date : List UInt8}

theorem fillingRun_initial : (fillingRun names R K n date).initial.Holds R K date 0 [] := by
  have hnone : CLogFile.lastRoll { CLogFile.create names 0 with rollSize := R, rollCountMax := K } (fun _ => none)
      (fun _ => 0) date = none := LogFile.lastRoll_none _ fun _ _ => rfl
  rw [LogRun.initial, LogFile.initLogFile_eq]
  simp only [fillingRun, LogFile.create, hnone, Option.map_none, Option.getD_none]
  refine LogFile.Holds.opened ?_ ?_ ?_ ?_
  · rfl
  · rfl
  · rfl
  · exact fun _ => rfl

/-- Each of the first `n` records fills the file with its own number. -/
theorem fillingRun_fileAt (hR : 0 < R) (hR' : R < 4294967296) (hK : K < 4294967296) (hn : n ≤ K) (hk : k < n) :
    ((fillingRun names R K n date).fileAt (k + 1)).Holds R K date k [fullRecord R] := by
  have hw : ∀ i < n, (fillingRun names R K n date).writes[i]? = some ⟨⟨0, 0, true⟩, List.replicate R 0, R⟩ :=
    fun i hi => List.getElem?_replicate_of_lt hi
  induction k with
  | zero =>
    rw [LogRun.fileAt_succ (hw 0 hk), LogRun.fileAt_zero]
    exact fillingRun_initial.write_empty hR hR'
  | succ k ih =>
    rw [LogRun.fileAt_succ (hw (k + 1) hk)]
    exact (ih (by omega)).write_full hR' (by omega) hK

theorem fillingRun_withinDate (hR : 0 < R) (hR' : R < 4294967296) (hK : K < 4294967296) (hn : n ≤ K) :
    (fillingRun names R K n date).WithinDate 0 date := by
  refine ⟨fun _ _ => rfl, ⟨rfl, rfl, rfl⟩, rfl, ?_, ?_, ?_⟩
  · intro w hw
    rw [List.eq_of_mem_replicate hw]
    exact ⟨rfl, rfl, rfl⟩
  · intro w hw
    rw [List.eq_of_mem_replicate hw]
    exact ⟨rfl, List.length_replicate.symm⟩
  · refine LogRun.forall_fileAt
      (P := fun f => fileSize (f.disk.content (names.getFileName f.curRollIdx date)) < 4294967296) fun k => ?_
    have hnames : ((fillingRun names R K n date).fileAt k).names = names := LogRun.fileAt_names _ k
    obtain ⟨k, hk⟩ := k
    cases k with
    | zero =>
      rw [LogRun.fileAt_zero] at hnames ⊢
      rw [fillingRun_initial.current_content hnames]
      decide
    | succ k =>
      have hlt : k < n := by
        simp only [fillingRun, List.length_replicate] at hk
        omega
      rw [(fillingRun_fileAt hR hR' hK hn hlt).current_content hnames, LogFile.fileSize_fullRecord]
      exact hR'

end FillingRun

/-- Log rolling keeps the newest records of a date, whatever is written within the day, exactly when no two of its files
have the same name. -/
theorem log_roll_keeps_newest_iff {names : LogNames} {R K : Nat} {date : List UInt8} (hR : 1 ≤ R)
    (hR' : R < 4294967296) (hK : 1 ≤ K) (hK' : K < 4294967296) :
    (∀ (r : LogRun) (D : Int), r.names = names → r.rollSize = R → r.rollCountMax = K → r.WithinDate D date →
        ∀ k, (r.fileAt k).KeepsNewest R K date ((r.writes.take k).map LogWrite.buff) (r.fileAt k).disk) ↔
      names.Apart K date := by
  constructor
  · intro keeps
    -- of two files with one name the later one has been truncated, so that the earlier one has no end
    have lower : ∀ i j, i < j → j < K → names.getFileName i date ≠ names.getFileName j date := by
      intro i j hij hj same
      have holds : ((fillingRun names R K (j + 1) date).fileAt (j + 1)).Holds R K date j [fullRecord R] :=
        fillingRun_fileAt hR hR' hK' hj (Nat.lt_succ_self j)
      have newest := keeps (fillingRun names R K (j + 1) date) 0 rfl rfl rfl (fillingRun_withinDate hR hR' hK' hj)
        (j + 1)
      have hnames : ((fillingRun names R K (j + 1) date).fileAt (j + 1)).names = names := LogRun.fileAt_names _ _
      generalize (fillingRun names R K (j + 1) date).fileAt (j + 1) = f at holds newest hnames
      have content := holds.content_eq
      rw [hnames, ← same, ← hnames] at content
      obtain ⟨records, heq, -⟩ := newest.rolled i (hij.trans hj) (by rw [holds.idx_eq]; omega) _ content
      have last := congrArg List.getLast? heq
      simp [fullRecord] at last
    intro i hi j hj same
    rcases Nat.lt_trichotomy i j with hlt | heq | hgt
    · exact absurd same (lower i j hlt hj)
    · exact heq
    · exact absurd same.symm (lower j i hgt hi)
  · rintro apart r D rfl rfl rfl within k
    obtain ⟨closed, cur, rolling, hrecs⟩ := within.rolling apart hR hK hK' k
    have keeps := rolling.keepsNewest hK
    rw [hrecs, List.map_map] at keeps
    exact keeps

/-- Three records of the size that fills a file, with two files to hold them. -/
def threeRecords : LogRun where
  names := svrLog
  strTime _ := text "19700102"
  mtime _ := 0
  disk _ := none
  curFileTime := 7
  rollSize := 3
  rollCountMax := 2
  start := ⟨100000, 100001, true⟩
  writes := [⟨⟨100001, 100001, true⟩, [1, 2, 3], 3⟩, ⟨⟨100002, 100003, true⟩, [4, 5, 6], 3⟩,
    ⟨⟨100003, 100003, true⟩, [7, 8, 9], 3⟩]

theorem threeRecords_withinDate : threeRecords.WithinDate 1 (text "19700102") := by
  refine ⟨fun _ _ => rfl, ⟨rfl, rfl, rfl⟩, rfl, ?_, ?_, ?_⟩
  · simp only [threeRecords, List.forall_mem_cons]
    exact ⟨⟨rfl, rfl, rfl⟩, ⟨rfl, rfl, rfl⟩, ⟨rfl, rfl, rfl⟩, by simp⟩
  · simp only [threeRecords, List.forall_mem_cons]
    exact ⟨⟨rfl, rfl⟩, ⟨rfl, rfl⟩, ⟨rfl, rfl⟩, by simp⟩
  · exact LogRun.forall_fileAt
      (P := fun f => fileSize (f.disk.content (threeRecords.names.getFileName f.curRollIdx (text "19700102"))) <
        4294967296) (by decide +kernel)

theorem log_roll_keeps_newest_three :
    (threeRecords.fileAt 3).KeepsNewest 3 2 (text "19700102") [[1, 2, 3], [4, 5, 6], [7, 8, 9]]
        (threeRecords.fileAt 3).disk ∧
      recordsOf ((threeRecords.fileAt 3).disk.content (text "svr_19700102.log.1")) = [[4, 5, 6]] ∧
      recordsOf ((threeRecords.fileAt 3).disk.content (text "svr_19700102.log")) = [[7, 8, 9]] := by
  refine ⟨?_, by decide +kernel, by decide +kernel⟩
  exact (log_roll_keeps_newest_iff (by decide) (by decide) (by decide) (by decide)).mpr (by decide +kernel) threeRecords
    1 rfl rfl rfl threeRecords_withinDate 3

/-- Two records for two files whose prefix leaves no room for the number of the second one. -/
def cutNames : LogRun :=
  { threeRecords with
    names := ⟨List.replicate 241 97, text "log", by decide +kernel, svrLog.postfix_lt⟩
    writes := [⟨⟨100001, 100001, true⟩, [1, 2, 3], 3⟩, ⟨⟨100002, 100003, true⟩, [4, 5, 6], 3⟩] }

theorem cut_names_lose_newest :
    cutNames.WithinDate 1 (text "19700102") ∧
      cutNames.names.getFileName 0 (text "19700102") = cutNames.names.getFileName 1 (text "19700102") ∧
      recordsOf ((cutNames.fileAt 1).disk.content (cutNames.names.getFileName 0 (text "19700102"))) = [[1, 2, 3]] ∧
      recordsOf ((cutNames.fileAt 2).disk.content (cutNames.names.getFileName 0 (text "19700102"))) = [[4, 5, 6]] ∧
      ¬ ∀ k, (cutNames.fileAt k).KeepsNewest 3 2 (text "19700102") ((cutNames.writes.take k).map LogWrite.buff)
        (cutNames.fileAt k).disk := by
  have within : cutNames.WithinDate 1 (text "19700102") := by
    refine ⟨fun _ _ => rfl, ⟨rfl, rfl, rfl⟩, rfl, ?_, ?_, ?_⟩
    · simp only [cutNames, List.forall_mem_cons]
      exact ⟨⟨rfl, rfl, rfl⟩, ⟨rfl, rfl, rfl⟩, by simp⟩
    · simp only [cutNames, List.forall_mem_cons]
      exact ⟨⟨rfl, rfl⟩, ⟨rfl, rfl⟩, by simp⟩
    · exact LogRun.forall_fileAt
        (P := fun f => fileSize (f.disk.content (cutNames.names.getFileName f.curRollIdx (text "19700102"))) <
          4294967296) (by decide +kernel)
  have kept : (cutNames.fileAt 2).kept 2 (text "19700102") (cutNames.fileAt 2).disk = [[4, 5, 6], [4, 5, 6]] := by
    decide +kernel
  refine ⟨within, by decide +kernel, by decide +kernel, by decide +kernel, fun keeps => ?_⟩
  have suffix := (keeps 2).suffix
  rw [kept] at suffix
  revert suffix
  decide

end Wddlib
