import Wddlib.LogFile

namespace Wddlib

/-- The local date in a zone that is `tz` seconds ahead. -/
def zoneDate (tz t : Int) : Int := (t + tz) / 86400

theorem zoneDate_mono (tz : Int) {t t' : Int} (h : t ≤ t') : zoneDate tz t ≤ zoneDate tz t' :=
  Int.ediv_le_ediv (by decide) (Int.add_le_add_right h tz)

/-- The two times are on one day for the test of `CheckFileRoll`. -/
def SameDay (t t' : Int) : Prop := int32 (getDiffDays t t') = 0

instance (t t' : Int) : Decidable (SameDay t t') := inferInstanceAs (Decidable (_ = _))

theorem sameDay_iff_dvd {t t' : Int} : SameDay t t' ↔ 4294967296 ∣ getDiffDays t t' := by
  unfold SameDay int32
  split <;> omega

theorem SameDay.refl (t : Int) : SameDay t t := by
  rw [sameDay_iff_dvd, getDiffDays, Int.sub_self]
  exact Int.dvd_zero _

theorem SameDay.symm {t t' : Int} (h : SameDay t t') : SameDay t' t := by
  rw [sameDay_iff_dvd, getDiffDays] at h ⊢
  omega

/-- Times on one day are told apart from a third one alike. -/
theorem SameDay.congr {t t' s : Int} (h : SameDay t t') : SameDay s t' ↔ SameDay s t := by
  rw [sameDay_iff_dvd, getDiffDays] at h
  rw [sameDay_iff_dvd, sameDay_iff_dvd, getDiffDays, getDiffDays]
  omega

/-- The day of `GetDiffDays` is the date eight hours ahead of Greenwich, as long as an `int` can hold the difference. -/
theorem sameDay_iff_zoneDate {t t' : Int} (ht : 0 ≤ t ∧ t < 185542587158400) (ht' : 0 ≤ t' ∧ t' < 185542587158400) :
    SameDay t t' ↔ zoneDate 28800 t = zoneDate 28800 t' := by
  rw [sameDay_iff_dvd, getDiffDays, zoneDate, zoneDate, Int.tdiv_eq_ediv_of_nonneg (by omega),
    Int.tdiv_eq_ediv_of_nonneg (by omega)]
  omega

/-- The part of a file name in front of the dot, which carries the date. -/
def LogNames.dated (names : LogNames) (strTime : List UInt8) : List UInt8 := names.namePrefix ++ text "_" ++ strTime

/-- A name carries its date when the cut leaves that part whole. -/
theorem LogNames.dated_prefix_iff (names : LogNames) (idx : Nat) (strTime : List UInt8) :
    names.dated strTime <+: names.getFileName idx strTime ↔ (names.dated strTime).length < maxFileName := by
  have whole : names.dated strTime <+: names.format idx strTime := by
    unfold LogNames.format dated
    split
    · exact ⟨text "." ++ names.namePostfix, by simp only [List.append_assoc]⟩
    · exact ⟨text "." ++ names.namePostfix ++ text "." ++ decimal idx, by simp only [List.append_assoc]⟩
  rw [getFileName, List.prefix_take_iff, and_iff_right whole]
  unfold maxFileName
  omega

/-- No record on disk is from after `t`. -/
def FileSystem.UpTo (t : Int) (disk : FileSystem) : Prop :=
  ∀ path time bytes, .record time bytes ∈ disk.content path → time ≤ t

theorem FileSystem.mem_append {disk : FileSystem} {path other : List UInt8} {chunk x : FileChunk}
    (h : x ∈ (disk.append path chunk).content other) : x ∈ disk.content other ∨ x = chunk := by
  by_cases heq : other = path
  · subst heq
    rw [FileSystem.content, FileSystem.append_same, Option.getD_some] at h
    exact (List.mem_append.mp h).imp_right List.mem_singleton.mp
  · rw [FileSystem.content, FileSystem.append_other disk chunk heq] at h
    exact .inl h

theorem FileSystem.mem_append_self (disk : FileSystem) (path : List UInt8) (chunk : FileChunk) :
    chunk ∈ (disk.append path chunk).content path := by
  rw [FileSystem.content, FileSystem.append_same, Option.getD_some]
  exact List.mem_append_right _ List.mem_cons_self

theorem FileSystem.mem_update {disk : FileSystem} {path other : List UInt8} {content : List FileChunk} {x : FileChunk}
    (h : x ∈ FileSystem.content (Function.update disk path (some content)) other)
    (sub : ∀ y ∈ content, y ∈ disk.content path) : x ∈ disk.content other := by
  by_cases heq : other = path
  · subst heq
    rw [FileSystem.content, Function.update_self, Option.getD_some] at h
    exact sub x h
  · rw [FileSystem.content, Function.update_of_ne heq] at h
    exact h

theorem FileSystem.UpTo.append {t : Int} {disk : FileSystem} (h : disk.UpTo t) (path : List UInt8) {chunk : FileChunk}
    (before : ∀ time bytes, chunk = .record time bytes → time ≤ t) : (disk.append path chunk).UpTo t := by
  intro other time bytes hmem
  rcases FileSystem.mem_append hmem with old | new
  · exact h other time bytes old
  · exact before time bytes new.symm

theorem FileSystem.UpTo.update {t : Int} {disk : FileSystem} {path : List UInt8} {content : List FileChunk}
    (h : disk.UpTo t) (sub : ∀ y ∈ content, y ∈ disk.content path) :
    FileSystem.UpTo t (Function.update disk path (some content)) :=
  fun other time bytes hmem => h other time bytes (FileSystem.mem_update hmem sub)

theorem FileSystem.UpTo.mono {t t' : Int} {disk : FileSystem} (h : disk.UpTo t) (hle : t ≤ t') : disk.UpTo t' :=
  fun path time bytes hmem => (h path time bytes hmem).trans hle

namespace LogFile

variable {strTime : Int → List UInt8} {f : LogFile} {w : LogWrite} {env : LogEnv} {path : List UInt8} {t : Int}

/-- The daily roll follows the date in the file name: a new day's file is started exactly when the date changes from
the call before, the record goes to a file whose name carries its date, and the file that is truncated for the new day
holds no record of that day. -/
structure FollowsDate (strTime : Int → List UInt8) (tz last : Int) (w : LogWrite) (f : LogFile) : Prop where
  starts : f.dayChanged w.env.now ↔ zoneDate tz w.env.now ≠ zoneDate tz last
  lands : ∃ path, (f.write strTime w).pFile = some path ∧ f.names.dated (strTime w.env.now) <+: path ∧
    .record w.env.now (w.buff.take w.count) ∈ (f.write strTime w).disk.content path
  spares : f.dayChanged w.env.now → ∀ time bytes,
    .record time bytes ∈ f.disk.content (f.names.getFileName 0 (strTime w.env.now)) →
      zoneDate tz time ≠ zoneDate tz w.env.now

/-- `Write` opens a file when the day changes and when the current one is full. -/
def rolls (f : LogFile) (now : Int) : Prop := f.dayChanged now ∨ f.rollSize ≤ f.curSize

instance (f : LogFile) (now : Int) : Decidable (f.rolls now) := inferInstanceAs (Decidable (_ ∨ _))

theorem close_upTo (h : f.disk.UpTo t) : f.close.disk.UpTo t := by
  cases hp : f.pFile with
  | none =>
    rw [close_none hp]
    exact h
  | some path =>
    rw [close_some hp]
    exact h.append path fun _ _ heq => absurd heq (by simp)

theorem openFile_upTo {isClear : Bool} (opens : env.opens = true) (h : f.disk.UpTo t) :
    (f.openFile path isClear env).disk.UpTo t := by
  rw [openFile_opened opens]
  refine (close_upTo h).update ?_
  cases isClear with
  | false => exact fun _ hy => hy
  | true => exact fun _ hy => absurd hy (by simp)

theorem put_upTo (h : f.disk.UpTo t) (hle : w.env.now ≤ t) : (f.put w).disk.UpTo t := by
  cases hp : f.pFile with
  | none =>
    rw [put_none hp]
    exact h
  | some path =>
    rw [put_some hp]
    refine h.append path fun _ _ heq => ?_
    rw [← (FileChunk.record.inj heq).1]
    exact hle

theorem write_upTo (opens : w.env.opens = true) (h : f.disk.UpTo t) (hle : t ≤ w.env.now) :
    (f.write strTime w).disk.UpTo w.env.now := by
  refine write_rule (P := fun f' => f'.disk.UpTo w.env.now) ?_ (put_upTo (h.mono hle) le_rfl)
  intro g idx hdisk
  rw [← hdisk] at h
  exact put_upTo (openFile_upTo opens (h.mono hle)) le_rfl

theorem put_pFile : (f.put w).pFile = f.pFile := by
  cases h : f.pFile with
  | none => rw [put_none h, h]
  | some path =>
    rw [put_some h]
    exact h

theorem put_curFileTime : (f.put w).curFileTime = f.curFileTime := by
  cases h : f.pFile with
  | none => rw [put_none h]
  | some path => rw [put_some h]

theorem openFile_pFile_failed {isClear : Bool} (fails : env.opens = false) :
    (f.openFile path isClear env).pFile = none := by
  rw [openFile_failed fails]
  cases h : f.pFile with
  | none =>
    rw [close_none h]
    exact h
  | some path => rw [close_some h]

/-- A file that is open after a call of `OpenFile` has been opened by it. -/
theorem openFile_open {isClear : Bool} {other : List UInt8} (h : (f.openFile path isClear env).pFile = some other) :
    other = path ∧ env.opens = true ∧ (f.openFile path isClear env).curFileTime = env.openTime := by
  cases opens : env.opens with
  | false =>
    rw [openFile_pFile_failed opens] at h
    cases h
  | true =>
    rw [openFile_opened opens] at h ⊢
    exact ⟨(Option.some.inj h).symm, rfl, rfl⟩

theorem openFile_put_open {isClear : Bool} {other : List UInt8}
    (h : ((f.openFile path isClear w.env).put w).pFile = some other) :
    other = path ∧ w.env.opens = true ∧ ((f.openFile path isClear w.env).put w).curFileTime = w.env.openTime := by
  rw [put_pFile] at h
  rw [put_curFileTime]
  exact openFile_open h

/-- The file that is open after a write: one that the write has opened, with the date of the write, or the file
that was open before. -/
theorem write_open (h : (f.write strTime w).pFile = some path) :
    (f.rolls w.env.now ∧ w.env.opens = true ∧ (∃ idx, path = f.names.getFileName idx (strTime w.env.now)) ∧
        (f.write strTime w).curFileTime = w.env.openTime) ∨
      (¬ f.rolls w.env.now ∧ f.pFile = some path ∧ (f.write strTime w).curFileTime = f.curFileTime) := by
  rcases write_cases strTime f w with ⟨changed, heq⟩ | ⟨-, full, heq⟩ | ⟨same, room, heq⟩
  · rw [heq] at h ⊢
    obtain ⟨rfl, opens, htime⟩ := openFile_put_open h
    exact .inl ⟨.inl changed, opens, ⟨_, rfl⟩, htime⟩
  · rw [heq] at h ⊢
    obtain ⟨rfl, opens, htime⟩ := openFile_put_open h
    exact .inl ⟨.inr full, opens, ⟨_, rfl⟩, htime⟩
  · refine .inr ⟨not_or.mpr ⟨same, Nat.not_le.mpr room⟩, ?_⟩
    rw [heq] at h ⊢
    rw [put_pFile] at h
    exact ⟨h, put_curFileTime⟩

/-- The record goes to the file that is open when `CheckFileRoll` is done. -/
theorem put_lands (h : f.pFile = some path) :
    .record w.env.now (w.buff.take w.count) ∈ (f.put w).disk.content path := by
  rw [put_some h]
  exact FileSystem.mem_append_self _ _ _

/-- A write whose file can be opened leaves its record in the file that is then open. -/
theorem write_lands (strTime : Int → List UInt8) (opens : w.env.opens = true) (h : f.pFile = some path) :
    ∃ path', (f.write strTime w).pFile = some path' ∧
      .record w.env.now (w.buff.take w.count) ∈ (f.write strTime w).disk.content path' := by
  refine write_rule (P := fun f' => ∃ path', f'.pFile = some path' ∧
    .record w.env.now (w.buff.take w.count) ∈ f'.disk.content path') ?_ ?_
  · intro g idx _
    have opened : (g.openFile (f.names.getFileName idx (strTime w.env.now)) true w.env).pFile =
        some (f.names.getFileName idx (strTime w.env.now)) := by
      rw [openFile_opened opens]
    exact ⟨_, put_pFile.trans opened, put_lands opened⟩
  · exact ⟨path, put_pFile.trans h, put_lands h⟩

end LogFile

namespace LogRun

variable {r : LogRun} {k : Nat} {w : LogWrite} {tz : Int}

/-- The call before write `k`. -/
def lastCall (r : LogRun) : Nat → LogEnv
  | 0 => r.start
  | k + 1 =>
    match r.writes[k]? with
    | some w => w.env
    | none => r.lastCall k

/-- The clock never goes back from one call to the next. -/
def Ordered (r : LogRun) : Prop := ∀ k w, r.writes[k]? = some w → (r.lastCall k).now ≤ w.env.now

/-- Every file can be opened. -/
def AllOpen (r : LogRun) : Prop := r.start.opens = true ∧ ∀ w ∈ r.writes, w.env.opens = true

theorem lastCall_succ (h : r.writes[k]? = some w) : r.lastCall (k + 1) = w.env := by
  simp only [lastCall, h]

theorem initial_opened (opens : r.start.opens = true) :
    r.initial.pFile = some (r.names.getFileName r.firstIdx (r.strTime r.start.now)) ∧
      r.initial.curFileTime = r.start.openTime := by
  rw [r.initial_eq, LogFile.openFile_opened opens]
  exact ⟨rfl, rfl⟩

/-- The two readings of the clock in a call are on one day. -/
def OneReading (env : LogEnv) : Prop := SameDay env.openTime env.now

instance (env : LogEnv) : Decidable (OneReading env) := inferInstanceAs (Decidable (SameDay _ _))

/-- A file that is open is of the day of the call before, whether or not every file could be opened. -/
theorem fileDay (r : LogRun) (hk : k ≤ r.writes.length) (reading : OneReading (r.lastCall k)) {path : List UInt8}
    (h : (r.fileAt k).pFile = some path) : SameDay (r.lastCall k).now (r.fileAt k).curFileTime := by
  cases k with
  | zero =>
    rw [r.fileAt_zero] at h ⊢
    by_cases opens : r.start.opens
    · rw [(initial_opened opens).2]
      exact SameDay.symm reading
    · rw [r.initial_eq, LogFile.openFile_pFile_failed (Bool.eq_false_of_not_eq_true opens)] at h
      cases h
  | succ k =>
    have hw : r.writes[k]? = some r.writes[k] := List.getElem?_eq_getElem hk
    rw [fileAt_succ hw] at h ⊢
    rw [lastCall_succ hw] at reading ⊢
    rcases LogFile.write_open h with ⟨-, -, -, htime⟩ | ⟨stays, -, htime⟩
    · rw [htime]
      exact SameDay.symm reading
    · rw [htime]
      exact Decidable.not_not.mp fun changed => stays (.inl changed)

/-- A run in which every file can be opened has one open all the time. -/
theorem isOpen (opens : r.AllOpen) (hk : k ≤ r.writes.length) : ∃ path, (r.fileAt k).pFile = some path := by
  induction k with
  | zero =>
    rw [r.fileAt_zero]
    exact ⟨_, (initial_opened opens.1).1⟩
  | succ k ih =>
    have hw : r.writes[k]? = some r.writes[k] := List.getElem?_eq_getElem hk
    obtain ⟨path, hpath⟩ := ih (by omega)
    obtain ⟨path', hpath', -⟩ := LogFile.write_lands r.strTime (opens.2 _ (List.getElem_mem hk)) hpath
    rw [fileAt_succ hw]
    exact ⟨path', hpath'⟩

/-- The records on disk before write `k` are not from after the call before. -/
theorem upTo_lastCall (opens : r.AllOpen) (ordered : r.Ordered) (earlier : r.disk.UpTo r.start.now)
    (hk : k ≤ r.writes.length) : (r.fileAt k).disk.UpTo (r.lastCall k).now := by
  induction k with
  | zero =>
    rw [r.fileAt_zero, r.initial_eq]
    exact LogFile.openFile_upTo opens.1 earlier
  | succ k ih =>
    have hw : r.writes[k]? = some r.writes[k] := List.getElem?_eq_getElem hk
    rw [fileAt_succ hw, lastCall_succ hw]
    exact LogFile.write_upTo (opens.2 _ (List.getElem_mem hk)) (ih (by omega)) (ordered k _ hw)

/-- The open file has a name with the date of the call before. -/
def Named (r : LogRun) (k : Nat) : Prop :=
  ∃ idx, (r.fileAt k).pFile = some (r.names.getFileName idx (r.strTime (r.lastCall k).now))

/-- With a file open, the test of `CheckFileRoll` sees the day of the call before. -/
theorem dayChanged_iff (hk : k ≤ r.writes.length) (reading : OneReading (r.lastCall k)) {path : List UInt8}
    (h : (r.fileAt k).pFile = some path) (now : Int) :
    (r.fileAt k).dayChanged now ↔ ¬ SameDay now (r.lastCall k).now :=
  not_congr (r.fileDay hk reading h).congr

/-- What the roll needs of the clock and of the names to follow the date from call to call. -/
structure Agrees (r : LogRun) (tz : Int) (k : Nat) (w : LogWrite) : Prop where
  day : ¬ SameDay w.env.now (r.lastCall k).now ↔ zoneDate tz w.env.now ≠ zoneDate tz (r.lastCall k).now
  room : (r.names.dated (r.strTime w.env.now)).length < maxFileName

/-- What is promised of a run: its time zone, files that can be opened, a clock that does not go back and is read on one
day within a call, and no record on disk from after the start. -/
structure InZone (r : LogRun) (tz : Int) (dateText : Int → List UInt8) : Prop where
  zone : ∀ t, r.strTime t = dateText (zoneDate tz t)
  opens : r.AllOpen
  ordered : r.Ordered
  startReading : OneReading r.start
  readings : ∀ w ∈ r.writes, OneReading w.env
  earlier : r.disk.UpTo r.start.now

variable {dateText : Int → List UInt8}

theorem InZone.reading (h : r.InZone tz dateText) (k : Nat) : OneReading (r.lastCall k) := by
  induction k with
  | zero => exact h.startReading
  | succ k ih =>
    cases hw : r.writes[k]? with
    | none =>
      simp only [lastCall, hw]
      exact ih
    | some w =>
      rw [lastCall_succ hw]
      exact h.readings w (List.mem_of_getElem? hw)

theorem InZone.named_zero (h : r.InZone tz dateText) : r.Named 0 := by
  rw [Named, r.fileAt_zero]
  exact ⟨_, (initial_opened h.opens.1).1⟩

/-- A write that agrees with the date leaves a file open with the date. -/
theorem InZone.named_succ (h : r.InZone tz dateText) (hw : r.writes[k]? = some w) (named : r.Named k)
    (agrees : r.Agrees tz k w) : r.Named (k + 1) := by
  have hk := Nat.le_of_lt (List.getElem?_eq_some_iff.mp hw).1
  obtain ⟨idx, hpath⟩ := named
  obtain ⟨path, hpath', -⟩ := LogFile.write_lands r.strTime (h.opens.2 w (List.mem_of_getElem? hw)) hpath
  rw [Named, fileAt_succ hw, lastCall_succ hw]
  rcases LogFile.write_open hpath' with ⟨-, -, ⟨idx', heq⟩, -⟩ | ⟨stays, hsame, -⟩
  · rw [r.fileAt_names] at heq
    exact ⟨idx', heq ▸ hpath'⟩
  · have same : zoneDate tz w.env.now = zoneDate tz (r.lastCall k).now := by
      refine Decidable.not_not.mp fun hne => stays (.inl ?_)
      exact (dayChanged_iff hk (h.reading k) hpath _).mpr (agrees.day.mpr hne)
    refine ⟨idx, ?_⟩
    rw [hpath', ← hsame, hpath, h.zone, h.zone, same]

theorem InZone.named (h : r.InZone tz dateText) (agrees : ∀ k w, r.writes[k]? = some w → r.Agrees tz k w)
    (hk : k ≤ r.writes.length) : r.Named k := by
  induction k with
  | zero => exact h.named_zero
  | succ k ih =>
    have hw : r.writes[k]? = some r.writes[k] := List.getElem?_eq_getElem hk
    exact h.named_succ hw (ih (Nat.le_of_succ_le hk)) (agrees k _ hw)

theorem InZone.followsDate (h : r.InZone tz dateText) (agrees : ∀ k w, r.writes[k]? = some w → r.Agrees tz k w)
    (hw : r.writes[k]? = some w) : (r.fileAt k).FollowsDate r.strTime tz (r.lastCall k).now w := by
  have hk := (List.getElem?_eq_some_iff.mp hw).1
  obtain ⟨idx, hpath⟩ := h.named agrees (Nat.le_of_lt hk)
  obtain ⟨idx', hpath'⟩ := h.named agrees hk
  have hchanged := dayChanged_iff (Nat.le_of_lt hk) (h.reading k) hpath w.env.now
  rw [fileAt_succ hw, lastCall_succ hw] at hpath'
  obtain ⟨path', hopen, hmem⟩ := LogFile.write_lands r.strTime (h.opens.2 w (List.mem_of_getElem? hw)) hpath
  obtain rfl := Option.some.inj (hopen.symm.trans hpath')
  refine ⟨hchanged.trans (agrees k w hw).day, ⟨_, hpath', ?_, hmem⟩, ?_⟩
  · rw [r.fileAt_names]
    exact (LogNames.dated_prefix_iff _ _ _).mpr (agrees k w hw).room
  · intro changed time bytes hrecord
    have hne := (agrees k w hw).day.mp (hchanged.mp changed)
    have hold := upTo_lastCall h.opens h.ordered h.earlier (Nat.le_of_lt hk) _ time bytes hrecord
    have h₁ := zoneDate_mono tz hold
    have h₂ := zoneDate_mono tz (h.ordered k w hw)
    omega

/-- Eight hours ahead of Greenwich the roll always follows the date, as long as an `int` can hold the number of days
and the date is not cut off. -/
theorem follows_date_utc8 (h : r.InZone 28800 dateText)
    (start : 0 ≤ r.start.now ∧ r.start.now < 185542587158400)
    (writes : ∀ w ∈ r.writes, 0 ≤ w.env.now ∧ w.env.now < 185542587158400)
    (room : ∀ w ∈ r.writes, (r.names.dated (r.strTime w.env.now)).length < maxFileName)
    (hw : r.writes[k]? = some w) : (r.fileAt k).FollowsDate r.strTime 28800 (r.lastCall k).now w := by
  have bound : ∀ k, 0 ≤ (r.lastCall k).now ∧ (r.lastCall k).now < 185542587158400 := by
    intro k
    induction k with
    | zero => exact start
    | succ k ih =>
      cases hw : r.writes[k]? with
      | none =>
        simp only [lastCall, hw]
        exact ih
      | some w =>
        rw [lastCall_succ hw]
        exact writes w (List.mem_of_getElem? hw)
  refine h.followsDate (fun k w hw => ?_) hw
  have hmem := List.mem_of_getElem? hw
  exact ⟨not_congr (sameDay_iff_zoneDate (writes w hmem) (bound k)), room w hmem⟩

end LogRun

/-- `strftime` on the first two dates. -/
def twoDates (date : Int) : List UInt8 := if date = 0 then text "19700101" else text "19700102"

end Wddlib
