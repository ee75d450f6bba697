import Wddlib.CMemory

namespace Wddlib

inductive LogLevel where
  | trace
  | debug
  | info
  | error
  | fatal
  deriving DecidableEq, Repr

/-- The value of the enumerator. -/
def LogLevel.value : LogLevel → Int
  | trace => 0
  | debug => 1
  | info => 2
  | error => 3
  | fatal => 4

/-- `g_LogLevelDes`. -/
def LogLevel.des : LogLevel → List UInt8
  | trace => text "TRACE"
  | debug => text "DEBUG"
  | info => text "INFO"
  | error => text "ERROR"
  | fatal => text "FATAL"

/-- The levels that a file of the log takes. -/
structure LogFileCatConf where
  minLevel : Int
  maxLevel : Int
  deriving DecidableEq, Repr

def LogFileCatConf.takes (cat : LogFileCatConf) (lv : LogLevel) : Bool :=
  decide (lv.value ≥ cat.minLevel ∧ lv.value ≤ cat.maxLevel)

/-- `%d`. -/
def decimal (n : Int) : List UInt8 :=
  (if n < 0 then text "-" else []) ++ (Nat.toDigits 10 n.natAbs).map fun c => UInt8.ofNat c.toNat

/-- `%06d`. -/
def sixDigits (n : Nat) : List UInt8 := List.replicate (6 - (decimal n).length) 48 ++ decimal n

/-- `%-5s`. -/
def leftFive (s : List UInt8) : List UInt8 := s ++ List.replicate (5 - s.length) 32

/-- The arguments of `Log`, the local time it reads, as `strftime` gives it, and `msg`, the text that the format
and its arguments stand for. -/
structure LogCall where
  fname : List UInt8
  ffunc : List UInt8
  fline : Int
  lv : LogLevel
  strTime : List UInt8
  usec : Nat
  msg : List UInt8

namespace LogCall

/-- The first part of the prefix. -/
def stamp (a : LogCall) : List UInt8 :=
  text "[" ++ a.strTime ++ text "." ++ sixDigits a.usec ++ text "] [" ++ leftFive a.lv.des ++ text "] "

/-- The second part of the prefix. -/
def place (a : LogCall) : List UInt8 :=
  text "[" ++ a.fname ++ text ":" ++ decimal a.fline ++ text " (" ++ a.ffunc ++ text ")] "

end LogCall

/-- The static buffers and the local variables of `Log`, the stores that it has made and what it has passed to
the files: the number of the category, the size and the bytes there. -/
structure LogState where
  prefixbuf : Nat → UInt8
  buf : Nat → UInt8
  prefixoffset : Nat
  isInited : Bool
  prefixStores : List Store
  bufStores : List Store
  writes : List (Nat × Nat × List UInt8)

namespace LogState

def prefixLen : Nat := 1024
def bufLen : Nat := 1024 * 1024

def start (prefixbuf buf : Nat → UInt8) : LogState := ⟨prefixbuf, buf, 0, false, [], [], []⟩

def storePrefix (s : LogState) (st : Store) : LogState :=
  { s with prefixbuf := st.apply s.prefixbuf, prefixStores := s.prefixStores ++ [st] }

def storeBuf (s : LogState) (st : Store) : LogState :=
  { s with buf := st.apply s.buf, bufStores := s.bufStores ++ [st] }

/-- `snprintf` behind what the prefix has so far, which grows when the output fits. -/
def printPrefix (s : LogState) (out : List UInt8) : LogState :=
  let sublen := out.length
  let room := prefixLen - s.prefixoffset
  let s := s.storePrefix ⟨s.prefixoffset, snprintf room out⟩
  if sublen > 0 ∧ sublen ≤ room then { s with prefixoffset := s.prefixoffset + sublen } else s

/-- What is done for the first category that takes the level. -/
def init (a : LogCall) (s : LogState) : LogState :=
  let s := { s with isInited := true }
  let s := s.printPrefix a.stamp
  let s := if a.fline ≠ -1 then s.printPrefix a.place else s
  s.storeBuf ⟨0, bytesAt s.prefixbuf s.prefixoffset⟩

/-- `vsnprintf` into `buf` behind the prefix, the newline, and `Write`. -/
def emit (a : LogCall) (s : LogState) (i : Nat) : LogState :=
  let count := a.msg.length
  let s := s.storeBuf ⟨s.prefixoffset, snprintf (bufLen - s.prefixoffset) a.msg⟩
  let s := s.storeBuf ⟨s.prefixoffset + count, text "\n"⟩
  let size := s.prefixoffset + count + 1
  { s with writes := s.writes ++ [(i, size, bytesAt s.buf size)] }

/-- One turn of the loop over the categories. -/
def turn (a : LogCall) (s : LogState) (cat : LogFileCatConf × Nat) : LogState :=
  if cat.1.takes a.lv then
    let s := if s.isInited = false then s.init a else s
    s.emit a cat.2
  else s

/-- `CLogMgr::Log`. -/
def log (a : LogCall) (cats : List LogFileCatConf) (s : LogState) : LogState := cats.zipIdx.foldl (turn a) s

end LogState

/-- The length of the prefix: a part that does not fit is left out. -/
def LogCall.prefixLength (a : LogCall) : Nat :=
  let first := if a.stamp.length ≤ LogState.prefixLen then a.stamp.length else 0
  if a.fline ≠ -1 ∧ a.place.length ≤ LogState.prefixLen - first then first + a.place.length else first

/-- Every store of the call is within its buffer, no size beyond that of `buf` is passed on, and every category
that takes the level gets the same record: the prefix, the message or the beginning of it, a newline. -/
def LogState.Sound (a : LogCall) (cats : List LogFileCatConf) (s : LogState) : Prop :=
  (∀ st ∈ s.prefixStores, st.Within prefixLen) ∧ (∀ st ∈ s.bufStores, st.Within bufLen) ∧
    (∀ w ∈ s.writes, w.2.1 ≤ bufLen) ∧
    ∃ message, message <+: a.msg ∧
      s.writes = ((cats.zipIdx.filter fun cat => cat.1.takes a.lv).map fun cat =>
        (cat.2, s.prefixoffset + message.length + 1, bytesAt s.prefixbuf s.prefixoffset ++ message ++ text "\n"))

namespace LogState

variable {a : LogCall} {s : LogState} {out : List UInt8}

/-- What holds from the first matching category on: the prefix is in both buffers. -/
structure Prepared (a : LogCall) (s : LogState) : Prop where
  inited : s.isInited = true
  offset_eq : s.prefixoffset = a.prefixLength
  prefixStores : ∀ st ∈ s.prefixStores, st.Within prefixLen
  copied : ∀ i < s.prefixoffset, s.buf i = s.prefixbuf i

theorem prefixLength_le (a : LogCall) : a.prefixLength ≤ prefixLen := by
  unfold LogCall.prefixLength
  simp only
  split <;> split <;> omega

theorem printPrefix_spec (hoff : s.prefixoffset ≤ prefixLen) (stores : ∀ st ∈ s.prefixStores, st.Within prefixLen) :
    (s.printPrefix out).prefixoffset =
        (if out.length ≤ prefixLen - s.prefixoffset then s.prefixoffset + out.length else s.prefixoffset) ∧
      (∀ st ∈ (s.printPrefix out).prefixStores, st.Within prefixLen) ∧
      (s.printPrefix out).isInited = s.isInited ∧ (s.printPrefix out).buf = s.buf ∧
      (s.printPrefix out).bufStores = s.bufStores ∧ (s.printPrefix out).writes = s.writes := by
  have hlen := snprintf_length_le (prefixLen - s.prefixoffset) out
  have within : ∀ st ∈ s.prefixStores ++ [⟨s.prefixoffset, snprintf (prefixLen - s.prefixoffset) out⟩],
      st.Within prefixLen := by
    intro st hst
    rcases List.mem_append.mp hst with old | new
    · exact stores st old
    · rw [List.mem_singleton.mp new, Store.Within]
      simp only
      omega
  simp only [printPrefix, storePrefix]
  by_cases hfit : out.length ≤ prefixLen - s.prefixoffset
  · by_cases hpos : out.length > 0
    · rw [if_pos ⟨hpos, hfit⟩, if_pos hfit]
      exact ⟨rfl, within, rfl, rfl, rfl, rfl⟩
    · rw [if_neg (fun h => hpos h.1), if_pos hfit]
      exact ⟨by simp only; omega, within, rfl, rfl, rfl, rfl⟩
  · rw [if_neg (fun h => hfit h.2), if_neg hfit]
    exact ⟨rfl, within, rfl, rfl, rfl, rfl⟩

/-- Before the first matching category. -/
structure Fresh (s : LogState) : Prop where
  inited : s.isInited = false
  offset_eq : s.prefixoffset = 0
  prefixStores : ∀ st ∈ s.prefixStores, st.Within prefixLen
  writes : s.writes = []

theorem init_spec (fresh : s.Fresh) :
    (s.init a).Prepared a ∧ (s.init a).writes = s.writes ∧
      ∃ copy, copy.Within bufLen ∧ (s.init a).bufStores = s.bufStores ++ [copy] := by
  have stores : ∀ st ∈ ({ s with isInited := true } : LogState).prefixStores, st.Within prefixLen := fresh.prefixStores
  obtain ⟨hoff, within, inited, hbuf, hbufs, hwrites⟩ := @printPrefix_spec { s with isInited := true } a.stamp
    (by simp [fresh.offset_eq]) stores
  unfold init
  simp only
  generalize printPrefix { s with isInited := true } a.stamp = first at hoff within inited hbuf hbufs hwrites
  simp only [fresh.offset_eq, Nat.sub_zero, Nat.zero_add] at hoff
  have hfirst : first.prefixoffset ≤ prefixLen := by
    rw [hoff]
    split <;> omega
  have second : ∃ s' : LogState, (if a.fline ≠ -1 then first.printPrefix a.place else first) = s' ∧
      s'.prefixoffset = a.prefixLength ∧ (∀ st ∈ s'.prefixStores, st.Within prefixLen) ∧ s'.isInited = true ∧
      s'.bufStores = s.bufStores ∧ s'.writes = s.writes := by
    refine ⟨_, rfl, ?_⟩
    unfold LogCall.prefixLength
    by_cases hline : a.fline ≠ -1
    · obtain ⟨hoff', within', inited', hbuf', hbufs', hwrites'⟩ := @printPrefix_spec first a.place hfirst within
      rw [if_pos hline]
      refine ⟨?_, within', inited'.trans inited, hbufs'.trans hbufs, hwrites'.trans hwrites⟩
      simp only [hoff', hoff, hline, ne_eq, not_false_eq_true, true_and]
    · rw [if_neg hline]
      refine ⟨?_, within, inited, hbufs, hwrites⟩
      simp only [hoff, hline, false_and, if_false]
  obtain ⟨s', hs', hoff', within', inited', hbufs', hwrites'⟩ := second
  rw [hs']
  refine ⟨⟨inited', hoff', within', ?_⟩, hwrites', ⟨0, bytesAt s'.prefixbuf s'.prefixoffset⟩, ?_, ?_⟩
  · intro i hi
    have hi' : i < s'.prefixoffset := hi
    have hat := @Store.apply_at s'.buf ⟨0, bytesAt s'.prefixbuf s'.prefixoffset⟩ i (by rw [bytesAt_length]; exact hi')
    simp only [bytesAt_getElem? hi', Nat.zero_add] at hat
    exact (Option.some.inj hat).symm
  · have hle := prefixLength_le a
    simp only [Store.Within, bytesAt_length, hoff', bufLen]
    unfold prefixLen at hle
    omega
  · simp only [storeBuf, hbufs']

theorem emit_prepared (prep : s.Prepared a) (i : Nat) : (s.emit a i).Prepared a := by
  refine ⟨prep.inited, prep.offset_eq, prep.prefixStores, ?_⟩
  intro j hj
  have hj' : j < s.prefixoffset := hj
  simp only [emit, storeBuf]
  rw [Store.apply_before (by simp only; omega), Store.apply_before (by simp only; omega)]
  exact prep.copied j hj

/-- The stores of a record and the record itself, when there is room for the message and the newline. -/
theorem emit_spec (prep : s.Prepared a) (fits : a.prefixLength + a.msg.length < bufLen) (i : Nat) :
    (s.emit a i).writes = s.writes ++ [(i, s.prefixoffset + a.msg.length + 1,
        bytesAt s.prefixbuf s.prefixoffset ++ a.msg ++ text "\n")] ∧
      ((∀ st ∈ s.bufStores, st.Within bufLen) → ∀ st ∈ (s.emit a i).bufStores, st.Within bufLen) := by
  have hoff := prep.offset_eq
  have hnl : (text "\n").length = 1 := by decide +kernel
  constructor
  · simp only [emit, storeBuf]
    refine congrArg (fun bytes => s.writes ++ [(i, s.prefixoffset + a.msg.length + 1, bytes)]) ?_
    refine bytesAt_append (by rw [List.length_append, bytesAt_length, hnl]) ?_ ?_
    · intro j hj
      rw [List.length_append, bytesAt_length] at hj
      rw [Store.apply_before (by simp only; omega)]
      by_cases hin : j < s.prefixoffset
      · rw [Store.apply_before (by simp only; omega), List.getElem?_append_left (by rw [bytesAt_length]; exact hin),
          bytesAt_getElem? hin, prep.copied j hin]
      · rw [List.getElem?_append_right (by rw [bytesAt_length]; omega), bytesAt_length]
        have room : a.msg.length < bufLen - s.prefixoffset := by omega
        have hlen : (snprintf (bufLen - s.prefixoffset) a.msg).length = a.msg.length + 1 := by
          rw [snprintf, if_neg (by omega), List.take_of_length_le (by omega), List.length_append, List.length_singleton]
        have hat := @Store.apply_at s.buf ⟨s.prefixoffset, snprintf (bufLen - s.prefixoffset) a.msg⟩
          (j - s.prefixoffset) (by rw [hlen]; omega)
        simp only at hat
        rw [snprintf_getElem? room (by omega), show s.prefixoffset + (j - s.prefixoffset) = j by omega] at hat
        exact hat
    · intro j hj
      rw [List.length_append, bytesAt_length]
      exact @Store.apply_at _ ⟨s.prefixoffset + a.msg.length, text "\n"⟩ j hj
  · intro within st hst
    have hlen := snprintf_length_le (bufLen - s.prefixoffset) a.msg
    simp only [emit, storeBuf, List.append_assoc, List.mem_append, List.mem_cons, List.not_mem_nil, or_false] at hst
    rcases hst with old | rfl | rfl
    · exact within st old
    · simp only [Store.Within]
      omega
    · simp only [Store.Within, hnl]
      omega

/-- The loop before and after the first category that takes the level. -/
def Ready (a : LogCall) (s : LogState) : Prop := s.Fresh ∨ s.Prepared a

/-- What the first part of a turn leaves for the second. -/
theorem Ready.prepare (ready : Ready a s) :
    (if s.isInited = false then s.init a else s).Prepared a ∧
      (if s.isInited = false then s.init a else s).writes = s.writes ∧
      ((∀ st ∈ s.bufStores, st.Within bufLen) →
        ∀ st ∈ (if s.isInited = false then s.init a else s).bufStores, st.Within bufLen) ∧
      (s.isInited = true → (if s.isInited = false then s.init a else s) = s) := by
  rcases ready with fresh | prep
  · obtain ⟨prepared, hwrites, copy, hcopy, hbufs⟩ := @init_spec a s fresh
    rw [if_pos fresh.inited]
    refine ⟨prepared, hwrites, fun within st hst => ?_, fun inited => ?_⟩
    · rw [hbufs] at hst
      rcases List.mem_append.mp hst with old | new
      · exact within st old
      · rw [List.mem_singleton.mp new]
        exact hcopy
    · rw [fresh.inited] at inited
      cases inited
  · have hne : ¬ s.isInited = false := by simp [prep.inited]
    rw [if_neg hne]
    exact ⟨prep, rfl, id, fun _ => rfl⟩

theorem turn_of_takes {cat : LogFileCatConf × Nat} (htakes : cat.1.takes a.lv = true) :
    turn a s cat = (if s.isInited = false then s.init a else s).emit a cat.2 := by
  simp only [turn, htakes, if_true]

theorem turn_of_not_takes {cat : LogFileCatConf × Nat} (htakes : cat.1.takes a.lv = false) : turn a s cat = s := by
  simp only [turn, htakes, Bool.false_eq_true, if_false]

theorem Ready.turn (ready : Ready a s) (cat : LogFileCatConf × Nat) : Ready a (turn a s cat) := by
  cases htakes : cat.1.takes a.lv with
  | false =>
    rw [turn_of_not_takes htakes]
    exact ready
  | true =>
    rw [turn_of_takes htakes]
    exact .inr (emit_prepared ready.prepare.1 cat.2)

theorem init_bufStores (a : LogCall) (fresh : s.Fresh) : s.bufStores ⊆ (s.init a).bufStores := by
  obtain ⟨-, -, copy, -, hbufs⟩ := @init_spec a s fresh
  rw [hbufs]
  exact List.subset_append_left _ _

theorem turn_bufStores (ready : Ready a s) (cat : LogFileCatConf × Nat) : s.bufStores ⊆ (turn a s cat).bufStores := by
  cases htakes : cat.1.takes a.lv with
  | false =>
    rw [turn_of_not_takes htakes]
    exact List.Subset.refl _
  | true =>
    rw [turn_of_takes htakes]
    have kept : s.bufStores ⊆ (if s.isInited = false then s.init a else s).bufStores := by
      rcases ready with fresh | prep
      · rw [if_pos fresh.inited]
        exact init_bufStores a fresh
      · rw [if_neg (by simp [prep.inited])]
        exact List.Subset.refl _
    refine List.Subset.trans kept ?_
    simp only [emit, storeBuf, List.append_assoc]
    exact List.subset_append_left _ _

theorem foldl_bufStores {cats : List (LogFileCatConf × Nat)} (ready : Ready a s) :
    s.bufStores ⊆ (cats.foldl (turn a) s).bufStores := by
  induction cats generalizing s with
  | nil => exact List.Subset.refl _
  | cons cat cats ih => exact List.Subset.trans (turn_bufStores ready cat) (ih (ready.turn cat))

/-- The newline is stored at the place that the length of the whole message gives. -/
theorem foldl_newline {cats : List (LogFileCatConf × Nat)} {cat : LogFileCatConf × Nat} (ready : Ready a s)
    (hcat : cat ∈ cats) (htakes : cat.1.takes a.lv = true) :
    ⟨a.prefixLength + a.msg.length, text "\n"⟩ ∈ (cats.foldl (turn a) s).bufStores := by
  induction cats generalizing s with
  | nil => simp at hcat
  | cons c cats ih =>
    rcases List.mem_cons.mp hcat with rfl | later
    · refine foldl_bufStores (ready.turn cat) ?_
      rw [turn_of_takes htakes]
      obtain ⟨prep, -⟩ := ready.prepare
      simp only [emit, storeBuf]
      rw [prep.offset_eq]
      exact List.mem_append_right _ (List.mem_singleton.mpr rfl)
    · exact ih (ready.turn c) later

/-- The records written for the categories so far. -/
def Written (a : LogCall) (s : LogState) (seen : List (LogFileCatConf × Nat)) : Prop :=
  s.writes = (seen.filter fun cat => cat.1.takes a.lv).map fun cat =>
    (cat.2, s.prefixoffset + a.msg.length + 1, bytesAt s.prefixbuf s.prefixoffset ++ a.msg ++ text "\n")

theorem turn_written {seen : List (LogFileCatConf × Nat)} {cat : LogFileCatConf × Nat} (ready : Ready a s)
    (fits : a.prefixLength + a.msg.length < bufLen) (written : Written a s seen) :
    Written a (turn a s cat) (seen ++ [cat]) ∧
      ((∀ st ∈ s.bufStores, st.Within bufLen) → ∀ st ∈ (turn a s cat).bufStores, st.Within bufLen) := by
  cases htakes : cat.1.takes a.lv with
  | false =>
    rw [turn_of_not_takes htakes]
    refine ⟨?_, id⟩
    rw [Written, List.filter_append, List.filter_cons_of_neg (by simp [htakes]), List.filter_nil, List.append_nil]
    exact written
  | true =>
    rw [turn_of_takes htakes]
    obtain ⟨prep, hwrites, within, same⟩ := ready.prepare
    obtain ⟨hemit, within'⟩ := emit_spec prep fits cat.2
    refine ⟨?_, fun h => within' (within h)⟩
    have one : ([cat].filter fun cat => cat.1.takes a.lv) = [cat] := by simp [htakes]
    rw [Written, List.filter_append, one, List.map_append, hemit, hwrites]
    refine congrArg (· ++ _) ?_
    rcases ready with fresh | prepared
    · -- nothing was written before, so the prefix that is only now made up has no say
      have none : (seen.filter fun cat => cat.1.takes a.lv) = [] := by
        have hnil := written.symm.trans fresh.writes
        exact List.map_eq_nil_iff.mp hnil
      rw [fresh.writes, none, List.map_nil]
    · rw [same prepared.inited]
      exact written

theorem foldl_written {cats seen : List (LogFileCatConf × Nat)} (ready : Ready a s)
    (fits : a.prefixLength + a.msg.length < bufLen) (written : Written a s seen)
    (within : ∀ st ∈ s.bufStores, st.Within bufLen) :
    Written a (cats.foldl (turn a) s) (seen ++ cats) ∧
      ∀ st ∈ (cats.foldl (turn a) s).bufStores, st.Within bufLen := by
  induction cats generalizing s seen with
  | nil =>
    rw [List.append_nil]
    exact ⟨written, within⟩
  | cons cat cats ih =>
    obtain ⟨written', within'⟩ := @turn_written a s seen cat ready fits written
    have rest := ih (ready.turn cat) written' (within' within)
    rw [List.append_assoc, List.singleton_append] at rest
    exact rest

theorem foldl_ready {cats : List (LogFileCatConf × Nat)} (ready : Ready a s) : Ready a (cats.foldl (turn a) s) := by
  induction cats generalizing s with
  | nil => exact ready
  | cons cat cats ih => exact ih (ready.turn cat)

theorem Ready.prefixStores (ready : Ready a s) : ∀ st ∈ s.prefixStores, st.Within prefixLen := by
  rcases ready with fresh | prep
  · exact fresh.prefixStores
  · exact prep.prefixStores

theorem Ready.offset_le (ready : Ready a s) : s.prefixoffset ≤ a.prefixLength := by
  rcases ready with fresh | prep
  · rw [fresh.offset_eq]
    exact Nat.zero_le _
  · exact prep.offset_eq.le

theorem start_ready (a : LogCall) (prefixbuf buf : Nat → UInt8) : Ready a (start prefixbuf buf) :=
  .inl ⟨rfl, rfl, by simp [start], rfl⟩

theorem foldl_of_none {cats : List (LogFileCatConf × Nat)} (none : ∀ cat ∈ cats, cat.1.takes a.lv = false) :
    cats.foldl (turn a) s = s := by
  induction cats with
  | nil => rfl
  | cons cat cats ih =>
    rw [List.foldl_cons, turn_of_not_takes (none cat List.mem_cons_self)]
    exact ih fun c hc => none c (List.mem_cons_of_mem cat hc)

/-- A category takes the level and the message does not leave room for its newline. -/
theorem not_sound_of_long {cats : List LogFileCatConf} {cat : LogFileCatConf} (prefixbuf buf : Nat → UInt8)
    (hcat : cat ∈ cats) (htakes : cat.takes a.lv = true) (long : bufLen ≤ a.prefixLength + a.msg.length) :
    ¬ Sound a cats (log a cats (start prefixbuf buf)) := by
  rintro ⟨-, within, -⟩
  obtain ⟨i, hi, heq⟩ := List.mem_iff_getElem.mp hcat
  have hmem : (cat, i) ∈ cats.zipIdx := by
    rw [List.mk_mem_zipIdx_iff_getElem?, List.getElem?_eq_getElem hi, heq]
  have hnl := within _ (foldl_newline (start_ready a prefixbuf buf) hmem htakes)
  have hlen : (text "\n").length = 1 := by decide +kernel
  simp only [Store.Within, hlen] at hnl
  omega

/-- `Log` keeps to its buffers exactly when the whole message and its newline fit behind the prefix. -/
theorem log_sound_iff (a : LogCall) (cats : List LogFileCatConf) (prefixbuf buf : Nat → UInt8) :
    Sound a cats (log a cats (start prefixbuf buf)) ↔
      (∀ cat ∈ cats, cat.takes a.lv = false) ∨ a.prefixLength + a.msg.length < bufLen := by
  constructor
  · intro sound
    by_contra bad
    simp only [not_or, not_forall, Bool.not_eq_false, Nat.not_lt] at bad
    obtain ⟨⟨cat, hcat, htakes⟩, long⟩ := bad
    exact not_sound_of_long prefixbuf buf hcat htakes long sound
  · rintro (none | fits)
    · have none' : ∀ cat ∈ cats.zipIdx, cat.1.takes a.lv = false :=
        fun cat hcat => none cat.1 (List.fst_mem_of_mem_zipIdx hcat)
      have hfilter : (cats.zipIdx.filter fun cat => cat.1.takes a.lv) = [] := by
        rw [List.filter_eq_nil_iff]
        intro cat hcat
        simp [none' cat hcat]
      rw [log, foldl_of_none none']
      refine ⟨by simp [start], by simp [start], by simp [start], [], List.nil_prefix, ?_⟩
      rw [hfilter]
      rfl
    · have ready := start_ready a prefixbuf buf
      have ready' : Ready a (log a cats (start prefixbuf buf)) := foldl_ready ready
      obtain ⟨written, within⟩ := @foldl_written a (start prefixbuf buf) cats.zipIdx [] ready fits rfl (by simp [start])
      rw [List.nil_append] at written
      refine ⟨ready'.prefixStores, within, ?_, a.msg, List.prefix_refl _, written⟩
      intro w hw
      rw [log, written] at hw
      obtain ⟨cat, -, rfl⟩ := List.mem_map.mp hw
      have hle := ready'.offset_le
      simp only [log] at hle
      simp only
      omega

/-- A message of a megabyte, as a dumped packet may be, in a file that takes every level. -/
theorem log_overruns :
    ¬ Sound ⟨text "PbParser.cpp", text "Pack", 36, .debug, text "20130601 12:00:00", 0, List.replicate 1048576 97⟩
      [⟨0, 4⟩] (log ⟨text "PbParser.cpp", text "Pack", 36, .debug, text "20130601 12:00:00", 0,
        List.replicate 1048576 97⟩ [⟨0, 4⟩] (start (fun _ => 0) (fun _ => 0))) := by
  refine not_sound_of_long _ _ List.mem_cons_self (by decide) ?_
  have hlen : (List.replicate 1048576 (97 : UInt8)).length = 1048576 := List.length_replicate
  simp only [hlen, bufLen]
  omega

end LogState

end Wddlib
