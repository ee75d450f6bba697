import Wddlib.LogMgr

namespace Wddlib

namespace LogCall

/-- What `snprintf` leaves for the prefix behind `before`, of which nothing is kept that does not fit. -/
def printed (before out : List UInt8) : List UInt8 :=
  if out.length ≤ LogState.prefixLen - before.length then
    before ++ (snprintf (LogState.prefixLen - before.length) out).take out.length
  else before

/-- The prefix of a record. -/
def header (a : LogCall) : List UInt8 :=
  if a.fline ≠ -1 then printed (printed [] a.stamp) a.place else printed [] a.stamp

/-- What the files get of a call whose message fits. -/
def record (a : LogCall) : List UInt8 := a.header ++ a.msg ++ text "\n"

theorem printed_length {before : List UInt8} (out : List UInt8) (h : before.length ≤ LogState.prefixLen) :
    (printed before out).length ≤ LogState.prefixLen := by
  unfold printed
  split
  next =>
    rw [List.length_append, List.length_take]
    omega
  next => exact h

theorem record_length (a : LogCall) : a.record.length ≤ LogState.prefixLen + a.msg.length + 1 := by
  have stamp : (printed [] a.stamp).length ≤ LogState.prefixLen := printed_length _ (Nat.zero_le _)
  have hheader : a.header.length ≤ LogState.prefixLen := by
    unfold header
    split
    next => exact printed_length _ stamp
    next => exact stamp
  have hnl : (text "\n").length = 1 := by decide
  rw [record, List.length_append, List.length_append, hnl]
  omega

end LogCall

namespace LogState

variable {a : LogCall} {s : LogState} {out : List UInt8}

/-- The prefix so far. -/
def header (s : LogState) : List UInt8 := bytesAt s.prefixbuf s.prefixoffset

theorem header_length (s : LogState) : s.header.length = s.prefixoffset := bytesAt_length _ _

theorem printPrefix_header (s : LogState) (some : out ≠ []) :
    (s.printPrefix out).header = LogCall.printed s.header out := by
  have hpos := List.length_pos_iff.mpr some
  have keeps : ∀ i < s.prefixoffset, s.header[i]? = .some
      (Store.apply s.prefixbuf ⟨s.prefixoffset, snprintf (prefixLen - s.prefixoffset) out⟩ i) := by
    intro i hi
    rw [Store.apply_before hi, header, bytesAt_getElem? hi]
  unfold LogCall.printed printPrefix storePrefix
  rw [header_length]
  by_cases fits : out.length ≤ prefixLen - s.prefixoffset
  · have hlen : ((snprintf (prefixLen - s.prefixoffset) out).take out.length).length = out.length := by
      rw [snprintf, if_neg (by omega), List.length_take, List.length_append, List.length_take, List.length_singleton]
      omega
    simp only [hpos, fits, and_self, if_true]
    rw [header]
    refine bytesAt_append (by rw [header_length, hlen]) ?_ ?_
    · intro i hi
      rw [header_length] at hi
      exact keeps i hi
    · intro i hi
      rw [hlen] at hi
      have hsize : i < (snprintf (prefixLen - s.prefixoffset) out).length := by
        rw [List.length_take] at hlen
        omega
      rw [List.getElem?_take_of_lt hi, header_length]
      let st : Store := ⟨s.prefixoffset, snprintf (prefixLen - s.prefixoffset) out⟩
      have inside : i < st.bytes.length := hsize
      exact Store.apply_at inside
  · simp only [fits, and_false, if_false]
    rw [header]
    refine (bytesAt_append (by rw [header_length]; rfl) ?_ ?_ : _ = _ ++ []).trans (List.append_nil _)
    · intro i hi
      rw [header_length] at hi
      exact keeps i hi
    · intro i hi
      cases hi

theorem storeBuf_header (s : LogState) (st : Store) : (s.storeBuf st).header = s.header := rfl

theorem init_header (s : LogState) (fresh : s.prefixoffset = 0) : (s.init a).header = a.header := by
  have none : ({ s with isInited := true } : LogState).header = [] := by
    rw [header, fresh]
    rfl
  have stamp := printPrefix_header { s with isInited := true } (show a.stamp ≠ [] by
    have : text "[" ≠ [] := by decide
    simp [LogCall.stamp, this])
  rw [none] at stamp
  unfold LogState.init LogCall.header
  simp only [storeBuf_header]
  split
  next =>
    rw [← stamp]
    exact printPrefix_header _ (show a.place ≠ [] by
      have : text "[" ≠ [] := by decide
      simp [LogCall.place, this])
  next => exact stamp

/-- Once the prefix is made up it is the one of the call. -/
def Headed (a : LogCall) (s : LogState) : Prop := if s.isInited then s.header = a.header else s.prefixoffset = 0

theorem Headed.turn (headed : Headed a s) (ready : Ready a s) (cat : LogFileCatConf × Nat) :
    Headed a (turn a s cat) := by
  unfold LogState.turn
  split
  next =>
    obtain ⟨prep, -⟩ := ready.prepare
    split at prep
    next fresh =>
      rw [if_pos fresh]
      rw [Headed, if_neg (by simp [fresh])] at headed
      rw [Headed, if_pos (emit_prepared prep cat.2).inited]
      exact init_header s headed
    next inited =>
      rw [if_neg inited]
      rw [Headed, if_pos (by simpa using inited)] at headed
      rw [Headed, if_pos (emit_prepared prep cat.2).inited]
      exact headed
  next => exact headed

theorem Headed.foldl {cats : List (LogFileCatConf × Nat)} (headed : Headed a s) (ready : Ready a s) :
    Headed a (cats.foldl (LogState.turn a) s) := by
  induction cats generalizing s with
  | nil => exact headed
  | cons cat cats ih => exact ih (headed.turn ready cat) (ready.turn cat)

/-- Every category that takes the level gets the record of the call. -/
theorem log_writes (a : LogCall) (cats : List LogFileCatConf) (prefixbuf buf : Nat → UInt8)
    (fits : a.prefixLength + a.msg.length < bufLen) :
    (log a cats (start prefixbuf buf)).writes =
      ((cats.zipIdx.filter fun cat => cat.1.takes a.lv).map fun cat => (cat.2, a.record.length, a.record)) := by
  have ready := start_ready a prefixbuf buf
  have headed : Headed a (log a cats (start prefixbuf buf)) := Headed.foldl (show Headed a _ from rfl) ready
  obtain ⟨written, -⟩ := @foldl_written a (start prefixbuf buf) cats.zipIdx [] ready fits rfl (by simp [start])
  rw [List.nil_append] at written
  change Written a (log a cats (start prefixbuf buf)) cats.zipIdx at written
  rw [Written] at written
  rcases @foldl_ready a _ cats.zipIdx ready with fresh | prep
  · have hnil := written.symm.trans fresh.writes
    rw [written, hnil, List.map_eq_nil_iff.mp hnil]
    rfl
  · have inited : (log a cats (start prefixbuf buf)).isInited = true := prep.inited
    rw [Headed, if_pos inited] at headed
    have hnl : (text "\n").length = 1 := by decide
    rw [written]
    refine List.map_congr_left fun cat _ => ?_
    rw [← header, headed, ← LogCall.record, ← header_length, headed, LogCall.record, List.length_append,
      List.length_append, hnl]

end LogState

end Wddlib
