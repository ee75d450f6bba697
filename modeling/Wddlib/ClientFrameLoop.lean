import Wddlib.ClientFraming
import Mathlib.Logic.Relation

namespace Wddlib

open Relation

namespace FrameConf

/-- The number in the bytes of memory from `o` on. -/
def fieldAt (conf : FrameConf) (mem : Nat → UInt8) (o : Nat) : Nat :=
  bigEndian ((List.range conf.msglensize).map fun j => mem (o + j))

/-- The loop gets to the bytes from `o` on of a buffer with `n` readable bytes: every length field before
was small enough. -/
inductive FrameStart (conf : FrameConf) (mem : Nat → UInt8) (n : Nat) : Nat → Prop where
  | first : FrameStart conf mem n 0
  | next {o : Nat} (start : FrameStart conf mem n o) (more : conf.msglenpos < (n - o) % 4294967296)
      (fits : conf.fieldAt mem o ≤ (n - o) % 4294967296) : FrameStart conf mem n (o + conf.fieldAt mem o)

/-- One turn of the loop that does not leave it. -/
def Turn (conf : FrameConf) (behind : Nat → UInt8) (b b' : Buffer) : Prop :=
  ∃ payload len, conf.onMsgRecv behind b = some (payload, len) ∧ b' = (b.retrieve len).2

end FrameConf

namespace Buffer

variable {b : Buffer} {behind : Nat → UInt8} {n o : Nat}

theorem readAt_eq (b : Buffer) (behind : Nat → UInt8) (n : Nat) :
    b.readAt behind n = (List.range n).map (b.byteAt behind) := by
  refine List.ext_getElem (by simp [readAt]) ?_
  intro j hj _
  have hn : j < n := by simpa [readAt] using hj
  simp only [readAt, List.getElem_take, List.getElem_map, List.getElem_range, byteAt, List.getD_eq_getElem?_getD]
  by_cases inside : j < b.peek.length
  · rw [List.getElem_append_left inside, List.getElem?_eq_getElem inside, Option.getD_some]
  · rw [List.getElem_append_right (by omega), List.getElem?_eq_none (by omega), Option.getD_none]
    simp

theorem retrieve_part (h : b.Wf) (ho : o < b.content.length) :
    (b.retrieve o).2 = { b with readIndex := b.readIndex + o } := by
  have hw := h.write_le
  have hlt := h.size_lt
  have hlen := content_length h
  have hread := readableBytes_eq h
  simp only [retrieve, show o < b.readableBytes by omega, if_true]
  rw [sizeAdd_eq (by omega)]

theorem byteAt_retrieve (h : b.Wf) (ho : o < b.content.length) (j : Nat) :
    (b.retrieve o).2.byteAt behind j = b.byteAt behind (o + j) := by
  have hpeek : (b.retrieve o).2.peek = b.peek.drop o := by
    rw [retrieve_part h ho, peek, peek, List.drop_drop]
  have hle : o ≤ b.peek.length := by
    rw [peek_eq h, List.length_append]
    omega
  have hpos : j - (b.peek.length - o) = o + j - b.peek.length := by omega
  simp only [byteAt, hpeek, List.length_drop, hpos, List.getD_eq_getElem?_getD, List.getElem?_drop]

theorem retrieve_all (h : b.Wf) (hn : b.content.length ≤ n) : (b.retrieve n).2.content = [] := by
  rw [(retrieve_spec h n).2, List.drop_eq_nil_of_le hn]

end Buffer

namespace FrameConf

variable {conf : FrameConf} {behind : Nat → UInt8} {b b' : Buffer} {o : Nat}

theorem msglen_eq_fieldAt (hsize : conf.msglensize = 2 ∨ conf.msglensize = 4) (behind : Nat → UInt8) (b : Buffer) :
    conf.msglen behind b = conf.fieldAt (b.byteAt behind) 0 := by
  have hmsglen := msglen_eq hsize conf.msglenpos behind b
  simp only [fieldAt, Nat.zero_add]
  rw [← Buffer.readAt_eq]
  exact hmsglen

/-- A turn of the loop: `len` is the number of readable bytes as a `uint32_t`. -/
theorem onMsgRecv_ite (conf : FrameConf) (behind : Nat → UInt8) (h : b.Wf) :
    conf.onMsgRecv behind b =
      if conf.msglenpos < b.content.length % 4294967296 ∧ conf.msglen behind b ≤ b.content.length % 4294967296 then
        some (b.content.take (conf.msglen behind b), conf.msglen behind b)
      else none := by
  have hle := Nat.mod_le b.content.length 4294967296
  simp only [onMsgRecv, Buffer.readableBytes_eq h]
  by_cases more : conf.msglenpos < b.content.length % 4294967296
  · rw [if_neg (by omega), if_neg (by omega)]
    by_cases fits : conf.msglen behind b ≤ b.content.length % 4294967296
    · rw [if_neg (by omega), if_pos ⟨more, fits⟩, Buffer.peek_eq h, List.take_append_of_le_length (by omega)]
    · rw [if_pos (by omega), if_neg (by omega)]
  · rw [if_neg (show ¬ (_ ∧ _) by omega)]
    split
    · rfl
    · rw [if_pos (by omega)]

/-- A turn of the loop at the bytes from `o` on. -/
theorem onMsgRecv_at (hsize : conf.msglensize = 2 ∨ conf.msglensize = 4) (h : b.Wf) (ho : o < b.content.length) :
    conf.onMsgRecv behind (b.retrieve o).2 =
      if conf.msglenpos < (b.content.length - o) % 4294967296 ∧
          conf.fieldAt (b.byteAt behind) o ≤ (b.content.length - o) % 4294967296 then
        some ((b.content.drop o).take (conf.fieldAt (b.byteAt behind) o), conf.fieldAt (b.byteAt behind) o)
      else none := by
  obtain ⟨wf, hcontent⟩ := Buffer.retrieve_spec h o
  have hfield : conf.msglen behind (b.retrieve o).2 = conf.fieldAt (b.byteAt behind) o := by
    rw [msglen_eq_fieldAt hsize]
    simp only [fieldAt, Nat.zero_add, Buffer.byteAt_retrieve h ho]
  rw [onMsgRecv_ite conf behind wf, hcontent, hfield, List.length_drop]

/-- The loop ends from every place it gets to when no length field there is 0. -/
theorem drainLoop_ends (hsize : conf.msglensize = 2 ∨ conf.msglensize = 4) (h : b.Wf)
    (nonzero : ∀ o, conf.FrameStart (b.byteAt behind) b.content.length o →
      conf.msglenpos < (b.content.length - o) % 4294967296 → 0 < conf.fieldAt (b.byteAt behind) o)
    (start : conf.FrameStart (b.byteAt behind) b.content.length o) (ho : o < b.content.length) :
    ∃ fuel r, drainLoop (conf.onMsgRecv behind) fuel (b.retrieve o).2 = some r := by
  generalize hleft : b.content.length - o = left
  induction left using Nat.strong_induction_on generalizing o with
  | _ left ih =>
    have turn := @onMsgRecv_at conf behind b o hsize h ho
    by_cases goes : conf.msglenpos < (b.content.length - o) % 4294967296 ∧
        conf.fieldAt (b.byteAt behind) o ≤ (b.content.length - o) % 4294967296
    · rw [if_pos goes] at turn
      have hpos := nonzero o start goes.1
      have hle := Nat.mod_le (b.content.length - o) 4294967296
      have rest : ∃ fuel r, drainLoop (conf.onMsgRecv behind) fuel
          (b.retrieve (o + conf.fieldAt (b.byteAt behind) o)).2 = some r := by
        by_cases inside : o + conf.fieldAt (b.byteAt behind) o < b.content.length
        · exact ih _ (by omega) (.next start goes.1 goes.2) inside rfl
        · have wf := (Buffer.retrieve_spec h (o + conf.fieldAt (b.byteAt behind) o)).1
          have hnone := @onMsgRecv_empty behind _ conf wf (Buffer.retrieve_all h (by omega))
          exact ⟨1, _, drainLoop_none hnone⟩
      obtain ⟨fuel, r, hrun⟩ := rest
      rw [← Buffer.retrieve_retrieve h ho] at hrun
      exact ⟨fuel + 1, _, by simp only [drainLoop, turn, hrun]; rfl⟩
    · rw [if_neg goes] at turn
      exact ⟨1, _, drainLoop_none turn⟩

/-- A loop that ends does so from every place it gets to. -/
theorem FrameStart.ends (hsize : conf.msglensize = 2 ∨ conf.msglensize = 4) (h : b.Wf) {fuel : Nat}
    {r : List (List UInt8) × Buffer} (run : drainLoop (conf.onMsgRecv behind) fuel b = some r)
    (start : conf.FrameStart (b.byteAt behind) b.content.length o) (ho : o < b.content.length) :
    ∃ fuel r, drainLoop (conf.onMsgRecv behind) fuel (b.retrieve o).2 = some r := by
  induction start with
  | first =>
    rw [Buffer.retrieve_zero h (List.ne_nil_of_length_pos ho)]
    exact ⟨fuel, r, run⟩
  | @next o _ more fits ih =>
    have ho' : o < b.content.length := by omega
    obtain ⟨fuel', r', hrun⟩ := ih ho'
    have turn := @onMsgRecv_at conf behind b o hsize h ho'
    rw [if_pos ⟨more, fits⟩] at turn
    cases fuel' with
    | zero => simp [drainLoop] at hrun
    | succ fuel' =>
      simp only [drainLoop, turn] at hrun
      obtain ⟨r'', hrest, -⟩ := Option.map_eq_some_iff.mp hrun
      rw [Buffer.retrieve_retrieve h ho'] at hrest
      exact ⟨fuel', r'', hrest⟩

/-- What the loop gets to: an empty buffer, or the bytes from some place on. -/
theorem reached_start (hsize : conf.msglensize = 2 ∨ conf.msglensize = 4) (h : b.Wf)
    (reached : ReflTransGen (conf.Turn behind) b b') :
    (b'.Wf ∧ b'.content = []) ∨
      ∃ o < b.content.length, conf.FrameStart (b.byteAt behind) b.content.length o ∧ b' = (b.retrieve o).2 := by
  induction reached with
  | refl =>
    by_cases hnil : b.content = []
    · exact .inl ⟨h, hnil⟩
    · exact .inr ⟨0, List.length_pos_iff.mpr hnil, .first, (Buffer.retrieve_zero h hnil).symm⟩
  | tail _ turn ih =>
    obtain ⟨payload, len, found, rfl⟩ := turn
    rcases ih with ⟨wf, hnil⟩ | ⟨o, ho, start, rfl⟩
    · rw [onMsgRecv_empty wf hnil] at found
      cases found
    · rw [onMsgRecv_at hsize h ho] at found
      split at found
      next goes =>
        obtain ⟨-, rfl⟩ := Prod.mk.inj (Option.some.inj found)
        rw [Buffer.retrieve_retrieve h ho]
        by_cases inside : o + conf.fieldAt (b.byteAt behind) o < b.content.length
        · exact .inr ⟨_, inside, .next start goes.1 goes.2, rfl⟩
        · exact .inl ⟨(Buffer.retrieve_spec h _).1, Buffer.retrieve_all h (by omega)⟩
      next => cases found

end FrameConf

/-- The loop of `OnMsgRecv` for a channel with a record ends, and each of its turns removes a byte or
leaves it, if and only if no length field that it loads is 0. -/
theorem framing_loop_terminates_iff {conf : FrameConf} (hsize : conf.msglensize = 2 ∨ conf.msglensize = 4)
    (behind : Nat → UInt8) {b : Buffer} (wf : b.Wf) :
    ((∃ fuel r, drainLoop (conf.onMsgRecv behind) fuel b = some r) ∧
      ∀ b' payload len, ReflTransGen (conf.Turn behind) b b' → conf.onMsgRecv behind b' = some (payload, len) →
        (b'.retrieve len).2.readableBytes < b'.readableBytes) ↔
    ∀ o, conf.FrameStart (b.byteAt behind) b.readableBytes o →
      conf.msglenpos < (b.readableBytes - o) % 4294967296 → 0 < conf.fieldAt (b.byteAt behind) o := by
  rw [Buffer.readableBytes_eq wf]
  constructor
  · rintro ⟨⟨fuel, r, run⟩, -⟩ o start more
    have hle := Nat.mod_le (b.content.length - o) 4294967296
    have ho : o < b.content.length := by omega
    by_contra hzero
    have hzero : conf.fieldAt (b.byteAt behind) o = 0 := by omega
    obtain ⟨fuel', r', run'⟩ := start.ends hsize wf run ho
    obtain ⟨wf', hcontent⟩ := Buffer.retrieve_spec wf o
    have turn := @FrameConf.onMsgRecv_at conf behind b o hsize wf ho
    rw [if_pos ⟨more, by omega⟩, hzero] at turn
    have hne : (b.retrieve o).2.content ≠ [] := by
      rw [hcontent]
      refine List.ne_nil_of_length_pos ?_
      rw [List.length_drop]
      omega
    rw [drainLoop_stuck _ turn (Buffer.retrieve_zero wf' hne)] at run'
    cases run'
  · intro nonzero
    constructor
    · by_cases hnil : b.content = []
      · exact ⟨1, _, drainLoop_none (onMsgRecv_empty wf hnil)⟩
      · rw [← Buffer.retrieve_zero wf hnil]
        exact FrameConf.drainLoop_ends hsize wf nonzero .first (List.length_pos_iff.mpr hnil)
    · intro b' payload len reached found
      rcases FrameConf.reached_start hsize wf reached with ⟨wf', hnil⟩ | ⟨o, ho, start, rfl⟩
      · rw [onMsgRecv_empty wf' hnil] at found
        cases found
      · obtain ⟨wf', hcontent⟩ := Buffer.retrieve_spec wf o
        rw [FrameConf.onMsgRecv_at hsize wf ho] at found
        split at found
        next goes =>
          obtain ⟨-, rfl⟩ := Prod.mk.inj (Option.some.inj found)
          have hpos := nonzero o start goes.1
          obtain ⟨wf'', hcontent'⟩ := Buffer.retrieve_spec wf' (conf.fieldAt (b.byteAt behind) o)
          rw [Buffer.readableBytes_eq wf'', Buffer.readableBytes_eq wf', hcontent', hcontent]
          simp only [List.length_drop]
          omega
        next => cases found

/-- A receive buffer with a frame and the beginning of another one. -/
def frameAndHalf : Buffer := (Buffer.create 4).scatterRead [0, 3, 9, 0, 4, 1]

theorem framing_loop_terminates_iff_half :
    ∃ fuel r, drainLoop (FrameConf.onMsgRecv ⟨0, 2⟩ fun _ => 0) fuel frameAndHalf = some r := by
  have wf : frameAndHalf.Wf := ⟨by decide +kernel, by decide +kernel, by decide +kernel⟩
  have hread : frameAndHalf.readableBytes = 6 := by decide +kernel
  have first : FrameConf.fieldAt ⟨0, 2⟩ (frameAndHalf.byteAt fun _ => 0) 0 = 3 := by decide +kernel
  have second : FrameConf.fieldAt ⟨0, 2⟩ (frameAndHalf.byteAt fun _ => 0) 3 = 4 := by decide +kernel
  have known : ∀ o, FrameConf.FrameStart ⟨0, 2⟩ (frameAndHalf.byteAt fun _ => 0) 6 o → o = 0 ∨ o = 3 := by
    intro o start
    induction start with
    | first => exact .inl rfl
    | next _ _ fits ih =>
      rcases ih with rfl | rfl
      · exact .inr (by rw [first])
      · rw [second] at fits
        omega
  refine ((framing_loop_terminates_iff (Or.inl rfl) (fun _ => 0) wf).mpr ?_).1
  intro o start _
  rw [hread] at start
  rcases known o start with rfl | rfl
  · rw [first]
    decide
  · rw [second]
    decide

/-- A receive buffer after four bytes 0 have come in. -/
def zeroFrame : Buffer := (Buffer.create 1024).scatterRead [0, 0, 0, 0]

theorem framing_loop_diverges :
    zeroFrame.Wf ∧ zeroFrame.content = [0, 0, 0, 0] ∧
    (∀ fuel, drainLoop (FrameConf.onMsgRecv ⟨0, 4⟩ fun _ => 0) fuel zeroFrame = none) ∧
    FrameConf.onMsgRecv ⟨0, 4⟩ (fun _ => 0) zeroFrame = some ([], 0) ∧
    (zeroFrame.retrieve 0).2.readableBytes = zeroFrame.readableBytes := by
  have turn : FrameConf.onMsgRecv ⟨0, 4⟩ (fun _ => 0) zeroFrame = some ([], 0) := by decide +kernel
  refine ⟨⟨by decide +kernel, by decide +kernel, by decide +kernel⟩, by decide +kernel, ?_, turn, by decide +kernel⟩
  exact drainLoop_stuck [] turn (by decide +kernel)

/-- The number in the bytes from `msglenpos` on. -/
def FrameConf.fieldAtPos (conf : FrameConf) (b : Buffer) : Nat :=
  bigEndian ((b.content.drop conf.msglenpos).take conf.msglensize)

/-- A length at `msglenpos` that the buffer reaches makes its first bytes the message; without a whole
length field there is none. -/
def FrameConf.Honours (conf : FrameConf) (behind : Nat → UInt8) (b : Buffer) : Prop :=
  (conf.msglenpos + conf.msglensize ≤ conf.fieldAtPos b → conf.fieldAtPos b ≤ b.readableBytes →
    ∃ len, conf.onMsgRecv behind b = some (b.content.take (conf.fieldAtPos b), len)) ∧
  (b.readableBytes < conf.msglenpos + conf.msglensize → conf.onMsgRecv behind b = none)

/-- The position is honoured if and only if the first bytes hold the number that stands there, and a
partial length field is loaded as a number that is too large. -/
theorem msglenpos_honoured_iff {conf : FrameConf} (hsize : conf.msglensize = 2 ∨ conf.msglensize = 4)
    (behind : Nat → UInt8) {b : Buffer} (wf : b.Wf) :
    conf.Honours behind b ↔
      (conf.msglenpos + conf.msglensize ≤ conf.fieldAtPos b → conf.fieldAtPos b ≤ b.readableBytes →
        bigEndian (b.content.take conf.msglensize) = conf.fieldAtPos b ∧
        conf.fieldAtPos b ≤ b.readableBytes % 4294967296) ∧
      (b.readableBytes < conf.msglenpos + conf.msglensize → conf.msglenpos < b.readableBytes % 4294967296 →
        b.readableBytes % 4294967296 < bigEndian (b.readAt behind conf.msglensize)) := by
  have hmsglen : conf.msglen behind b = bigEndian (b.readAt behind conf.msglensize) :=
    msglen_eq hsize conf.msglenpos behind b
  have hle := Nat.mod_le b.content.length 4294967296
  rw [FrameConf.Honours, Buffer.readableBytes_eq wf, FrameConf.onMsgRecv_ite conf behind wf, hmsglen]
  generalize hfield : conf.fieldAtPos b = field
  refine and_congr (forall_congr' fun whole => forall_congr' fun fits => ?_)
    (forall_congr' fun short => ?_)
  · rw [Buffer.readAt_content wf (by omega)]
    constructor
    · rintro ⟨len, found⟩
      split at found
      next goes =>
        obtain ⟨htake, -⟩ := Prod.mk.inj (Option.some.inj found)
        have hlen := congrArg List.length htake
        simp only [List.length_take] at hlen
        omega
      next => cases found
    · rintro ⟨hsame, small⟩
      rw [hsame, if_pos ⟨by omega, small⟩]
      exact ⟨field, rfl⟩
  · constructor
    · intro quiet more
      split at quiet
      next => cases quiet
      next stays => omega
    · intro large
      rw [if_neg]
      rintro ⟨more, small⟩
      have := large more
      omega

/-- The number in front is the same as the one at position 2. -/
theorem msglenpos_honoured_iff_twice :
    FrameConf.Honours ⟨2, 2⟩ (fun _ => 0) ((Buffer.create 4).scatterRead [0, 5, 0, 5, 9]) := by
  have wf : ((Buffer.create 4).scatterRead [0, 5, 0, 5, 9]).Wf :=
    ⟨by decide +kernel, by decide +kernel, by decide +kernel⟩
  exact (@msglenpos_honoured_iff ⟨2, 2⟩ (Or.inl rfl) (fun _ => 0) _ wf).mpr (by decide +kernel)

/-- The shipped configuration: a frame of eight bytes with its length behind a number 1, of which one
byte is forwarded. -/
theorem msglenpos_ignored :
    ((Buffer.create 1024).scatterRead [0, 0, 0, 1, 0, 0, 0, 8]).Wf ∧
    FrameConf.fieldAtPos ⟨4, 4⟩ ((Buffer.create 1024).scatterRead [0, 0, 0, 1, 0, 0, 0, 8]) = 8 ∧
    FrameConf.onMsgRecv ⟨4, 4⟩ (fun _ => 0) ((Buffer.create 1024).scatterRead [0, 0, 0, 1, 0, 0, 0, 8]) =
      some ([0], 1) ∧
    ¬ FrameConf.Honours ⟨4, 4⟩ (fun _ => 0) ((Buffer.create 1024).scatterRead [0, 0, 0, 1, 0, 0, 0, 8]) := by
  have turn : FrameConf.onMsgRecv ⟨4, 4⟩ (fun _ => 0)
      ((Buffer.create 1024).scatterRead [0, 0, 0, 1, 0, 0, 0, 8]) = some ([0], 1) := by decide +kernel
  refine ⟨⟨by decide +kernel, by decide +kernel, by decide +kernel⟩, by decide +kernel, turn, ?_⟩
  rintro ⟨honoured, -⟩
  obtain ⟨len, found⟩ := honoured (by decide +kernel) (by decide +kernel)
  rw [turn] at found
  exact absurd (Prod.mk.inj (Option.some.inj found)).1 (by decide +kernel)

end Wddlib
