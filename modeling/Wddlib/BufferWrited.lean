import Wddlib.BufferFifo

namespace Wddlib

namespace Buffer

variable {b c : Buffer} {len : Nat}

/-- `Writed` does not return: `vector::resize` throws when `MakeSpace` asks it for 2^63 bytes or more. -/
def WritedThrows (b : Buffer) (len : Nat) : Prop :=
  b.writableBytes < len ∧ b.compact.writableBytes < sizeSub len b.writableBytes ∧
    9223372036854775808 ≤ sizeAdd b.compact.writeIndex (sizeSub len b.writableBytes)

instance (b : Buffer) (len : Nat) : Decidable (b.WritedThrows len) := inferInstanceAs (Decidable (_ ∧ _))

/-- `b'` is a well-formed buffer with `len` readable bytes more than `b`, those of `b` in front. -/
structure Grows (len : Nat) (b b' : Buffer) : Prop where
  read_le : b'.readIndex ≤ b'.writeIndex
  write_le : b'.writeIndex ≤ b'.buffer.length
  readable : b'.readableBytes = b.readableBytes + len
  first : b.content <+: b'.content
  writable : b'.writableBytes + b'.writeIndex = b'.buffer.length

/-- The `len` bytes fit into the vector as it is, or its free tail is empty and its size is just what `Writed` asks
for. -/
def HasRoom (b : Buffer) (len : Nat) : Prop :=
  b.readableBytes + len ≤ b.buffer.length ∨
    b.writableBytes = 0 ∧ b.readableBytes + len < 18446744073709551616

instance (b : Buffer) (len : Nat) : Decidable (b.HasRoom len) := inferInstanceAs (Decidable (_ ∨ _))

/-- The write index moves on inside the vector of a buffer with the same readable bytes. -/
theorem grows_of_room (h : b.Wf) (hc : c.Wf) (same : c.content = b.content)
    (room : c.writeIndex + len ≤ c.buffer.length) : Grows len b { c with writeIndex := sizeAdd c.writeIndex len } := by
  have hread := hc.read_le
  have hlt := hc.size_lt
  have hlen := content_length hc
  rw [sizeAdd_eq (by omega)]
  have wf : Wf { c with writeIndex := c.writeIndex + len } := ⟨Nat.le_add_right_of_le hread, room, hlt⟩
  refine ⟨wf.read_le, wf.write_le, ?_, ?_, ?_⟩
  · rw [readableBytes_eq wf, readableBytes_eq h, ← same, content_length wf, hlen]
    simp only
    omega
  · rw [← same]
    exact List.take_prefix_take_left (by simp only; omega)
  · rw [writableBytes_eq wf]
    exact Nat.sub_add_cancel room

theorem Grows.no_wrap {b' : Buffer} (h : Grows len b b') : b.readableBytes + len < 18446744073709551616 := by
  rw [← h.readable]
  exact Nat.mod_lt _ (by decide)

theorem writed_in_tail (tail : len ≤ b.writableBytes) :
    b.writed len = { b with writeIndex := sizeAdd b.writeIndex len } := by
  simp only [writed, if_neg (Nat.not_lt.mpr tail)]

/-- The readable bytes are moved to the front and the vector is left as it is. -/
theorem writed_moved (beyond : b.writableBytes < len)
    (enough : ¬ b.compact.writableBytes < sizeSub len b.writableBytes) :
    b.writed len = { b.compact with writeIndex := sizeAdd b.compact.writeIndex len } := by
  simp only [writed, if_pos beyond, makeSpace, if_neg enough]

theorem writed_resized (beyond : b.writableBytes < len)
    (short : b.compact.writableBytes < sizeSub len b.writableBytes) :
    b.writed len =
      ⟨resize b.compact.buffer (sizeAdd b.compact.writeIndex (sizeSub len b.writableBytes)), b.compact.readIndex,
        sizeAdd b.compact.writeIndex len⟩ := by
  simp only [writed, if_pos beyond, makeSpace, if_pos short]

/-- `Writed` keeps the buffer well-formed exactly when the bytes fit into the vector as it is, or the free tail is
empty: otherwise `MakeSpace` is asked only for what was missing behind the write index that it moves. -/
theorem writed_grows_iff (h : b.Wf) (hlen : len < 18446744073709551616) :
    Grows len b (b.writed len) ↔ b.HasRoom len := by
  have hw := h.write_le
  have hspace := writableBytes_eq h
  have hcontent := content_length h
  have hread : b.readableBytes = b.compact.writeIndex := rfl
  have hmoved := compact_write h
  have hsize := compact_length h
  have hfree := writableBytes_eq (compact_wf h)
  unfold HasRoom
  by_cases tail : len ≤ b.writableBytes
  · rw [writed_in_tail tail]
    exact iff_of_true (grows_of_room h h rfl (by omega)) (.inl (by omega))
  · have beyond : b.writableBytes < len := Nat.lt_of_not_le tail
    have hdiff : sizeSub len b.writableBytes = len - b.writableBytes := sizeSub_eq beyond.le hlen
    by_cases short : b.compact.writableBytes < sizeSub len b.writableBytes
    · rw [writed_resized beyond short]
      rw [hdiff] at short ⊢
      constructor
      · intro grows
        have hlt := grows.no_wrap
        have hle := grows.write_le
        simp only [resize_length] at hle
        rw [sizeAdd_eq (by omega), sizeAdd_eq (by omega)] at hle
        exact .inr ⟨by omega, hlt⟩
      · rintro (fits | ⟨empty, hlt⟩)
        · omega
        · have hsum : sizeAdd b.compact.writeIndex len = b.compact.writeIndex + len := sizeAdd_eq (by omega)
          obtain ⟨wf, same⟩ := resize_wf (compact_wf h) (Nat.le_add_right _ len) (by omega)
          have grows := grows_of_room h wf (same.trans (content_compact h)) (resize_length _ _).ge
          rw [empty, Nat.sub_zero]
          simp only [hsum] at grows ⊢
          exact grows
    · rw [writed_moved beyond short]
      rw [hdiff] at short
      constructor
      · intro grows
        have hlt := grows.no_wrap
        have hle := grows.write_le
        simp only at hle
        rw [sizeAdd_eq (by omega)] at hle
        exact .inl (by omega)
      · intro room
        exact grows_of_room h (compact_wf h) (content_compact h) (by omega)

/-- A buffer that `Writed` has left with more readable bytes is well-formed. -/
theorem Grows.wf {b' : Buffer} (h : Grows len b b') (hlt : b'.buffer.length < 18446744073709551616) : b'.Wf :=
  ⟨h.read_le, h.write_le, hlt⟩

theorem writed_size_lt (h : b.Wf) : (b.writed len).buffer.length < 18446744073709551616 := by
  have hlt := h.size_lt
  by_cases tail : len ≤ b.writableBytes
  · rw [writed_in_tail tail]
    exact hlt
  · by_cases short : b.compact.writableBytes < sizeSub len b.writableBytes
    · rw [writed_resized (Nat.lt_of_not_le tail) short, resize_length]
      exact Nat.mod_lt _ (by decide)
    · rw [writed_moved (Nat.lt_of_not_le tail) short]
      exact (compact_wf h).size_lt

end Buffer

/-- The calls on a buffer; `store` is what a caller writes to `BeginWrite()` before `Writed`. -/
inductive BufferCall where
  | op (o : BufferOp)
  | store (data : List UInt8)
  | writed (len : Nat)
  deriving DecidableEq, Repr

namespace BufferCall

/-- A `Writed` that throws has moved the readable bytes to the front. -/
def apply (b : Buffer) : BufferCall → Buffer
  | op o => o.apply b
  | store data => { b with buffer := copyInto b.buffer b.writeIndex data }
  | writed len => if b.WritedThrows len then b.compact else b.writed len

/-- The sizes of the other calls are as they have to be; the argument of `Writed` is any `size_t`. -/
def Sized (b : Buffer) : BufferCall → Prop
  | op o => o.Sized b
  | store data => data.length ≤ b.writableBytes
  | writed len => len < 18446744073709551616

instance decidableSized (b : Buffer) (call : BufferCall) : Decidable (call.Sized b) :=
  match call with
  | op o => BufferOp.decidableSized b o
  | store _ => Nat.decLe _ _
  | writed _ => Nat.decLt _ _

end BufferCall

/-- A buffer of `initSize` bytes after the first `k` calls. -/
def calledAt (initSize : Nat) (calls : List BufferCall) (k : Nat) : Buffer :=
  stateAt BufferCall.apply (.create initSize) calls k

def SizedCalls (initSize : Nat) (calls : List BufferCall) : Prop :=
  ∀ k (call : BufferCall), calls[k]? = some call → call.Sized (calledAt initSize calls k)

namespace Buffer

variable {b : Buffer} {len : Nat}

/-- The calls other than `Writed` keep the buffer well-formed, and `Writed` does when it has room. -/
theorem call_wf {call : BufferCall} (h : b.Wf) (sized : call.Sized b)
    (grows : ∀ len, call = .writed len → ¬ b.WritedThrows len → Grows len b (b.writed len)) : (call.apply b).Wf := by
  cases call with
  | op o =>
    have fifo : BufferTrace.Fifo ⟨b, b.content, []⟩ := ⟨h, rfl⟩
    have sized : o.Sized b := sized
    exact (fifo.step sized).wf
  | store data =>
    have sized : data.length ≤ b.writableBytes := sized
    have hspace := writableBytes_eq h
    have hw := h.write_le
    have hsize : (copyInto b.buffer b.writeIndex data).length = b.buffer.length := by
      simp only [copyInto, List.length_append, List.length_take, List.length_drop]
      omega
    refine ⟨h.read_le, ?_, ?_⟩
    · exact hsize ▸ hw
    · exact hsize ▸ h.size_lt
  | writed len =>
    simp only [BufferCall.apply]
    split
    next => exact compact_wf h
    next returns => exact (grows len rfl returns).wf (writed_size_lt h)

end Buffer

/-- Every `Writed` of a run that returns leaves a well-formed buffer with its bytes added exactly when each of them
finds room; the others throw. -/
theorem writed_keeps_iff {initSize : Nat} {calls : List BufferCall} (small : initSize < 9223372036854775808)
    (sized : SizedCalls initSize calls) :
    (∀ k len, calls[k]? = some (.writed len) → ¬ (calledAt initSize calls k).WritedThrows len →
        Buffer.Grows len (calledAt initSize calls k) (calledAt initSize calls (k + 1))) ↔
      ∀ k len, calls[k]? = some (.writed len) → ¬ (calledAt initSize calls k).WritedThrows len →
        (calledAt initSize calls k).HasRoom len := by
  have hnext : ∀ k len, calls[k]? = some (.writed len) → ¬ (calledAt initSize calls k).WritedThrows len →
      calledAt initSize calls (k + 1) = (calledAt initSize calls k).writed len := by
    intro k len hk returns
    rw [calledAt, stateAt_succ hk]
    exact if_neg returns
  have step : ∀ k len, calls[k]? = some (.writed len) → (calledAt initSize calls k).Wf →
      (Buffer.Grows len (calledAt initSize calls k) ((calledAt initSize calls k).writed len) ↔
        (calledAt initSize calls k).HasRoom len) :=
    fun k len hk wf => Buffer.writed_grows_iff wf (sized k _ hk)
  have create : (Buffer.create initSize).Wf := Buffer.create_wf (by omega)
  constructor
  · intro grows
    have wf : ∀ k, (calledAt initSize calls k).Wf := by
      refine stateAt_induct create fun k call hk wf => Buffer.call_wf wf (sized k call hk) ?_
      rintro len rfl returns
      have next := grows k len hk returns
      rw [hnext k len hk returns] at next
      exact next
    intro k len hk returns
    have next := grows k len hk returns
    rw [hnext k len hk returns] at next
    exact (step k len hk (wf k)).mp next
  · intro room
    have wf : ∀ k, (calledAt initSize calls k).Wf := by
      refine stateAt_induct create fun k call hk wf => Buffer.call_wf wf (sized k call hk) ?_
      rintro len rfl returns
      exact (step k len hk wf).mpr (room k len hk returns)
    intro k len hk returns
    rw [hnext k len hk returns]
    exact (step k len hk (wf k)).mpr (room k len hk returns)

/-- Two bytes are stored behind one that is readable, then the full vector is asked for two more. -/
def filledCalls : List BufferCall := [.op (.append [7]), .store [8, 9], .writed 2, .op (.retrieve 1), .writed 4]

theorem writed_keeps_iff_filled :
    (calledAt 3 filledCalls 5).content = [8, 9, 9, 0, 0, 0] ∧
      ∀ k len, filledCalls[k]? = some (.writed len) → ¬ (calledAt 3 filledCalls k).WritedThrows len →
        Buffer.Grows len (calledAt 3 filledCalls k) (calledAt 3 filledCalls (k + 1)) := by
  have sized : SizedCalls 3 filledCalls := forall_event_iff.mpr (by decide +kernel)
  refine ⟨by decide +kernel, (writed_keeps_iff (by decide) sized).mpr fun k len hk _ => ?_⟩
  match k with
  | 0 | 1 | 3 => cases hk
  | 2 | 4 =>
    cases hk
    decide +kernel
  | k + 5 => cases hk

/-- One byte is readable and one is free: `Writed` asks for two bytes behind the readable one and moves the index by
three. -/
theorem writed_leaves_vector :
    SizedCalls 2 [.op (.append [7]), .writed 3] ∧
      ¬ (calledAt 2 [.op (.append [7]), .writed 3] 1).WritedThrows 3 ∧
      (calledAt 2 [.op (.append [7]), .writed 3] 2).buffer.length = 3 ∧
      (calledAt 2 [.op (.append [7]), .writed 3] 2).writeIndex = 4 ∧
      (calledAt 2 [.op (.append [7]), .writed 3] 2).writableBytes = 18446744073709551615 ∧
      ¬ Buffer.Grows 3 (calledAt 2 [.op (.append [7]), .writed 3] 1)
        (calledAt 2 [.op (.append [7]), .writed 3] 2) := by
  refine ⟨forall_event_iff.mpr (by decide +kernel), by decide +kernel, by decide +kernel, by decide +kernel,
    by decide +kernel, fun grows => ?_⟩
  have hle := grows.write_le
  revert hle
  decide +kernel

end Wddlib
