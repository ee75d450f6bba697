import Wddlib.MachineInt

namespace Wddlib

/-- `std::copy` of `data` to the addresses from `pos` on, where the caller has made room. -/
def copyInto (mem : List UInt8) (pos : Nat) (data : List UInt8) : List UInt8 :=
  mem.take pos ++ data ++ mem.drop (pos + data.length)

/-- `std::vector<char>::resize`: new bytes are 0. -/
def resize (mem : List UInt8) (n : Nat) : List UInt8 := mem.take n ++ List.replicate (n - mem.length) 0

/-- The bytes at the addresses from `lo` up to `hi`. -/
def slice (mem : List UInt8) (lo hi : Nat) : List UInt8 := (mem.drop lo).take (hi - lo)

structure Buffer where
  buffer : List UInt8
  readIndex : Nat
  writeIndex : Nat
  deriving DecidableEq, Repr

namespace Buffer

def create (initSize : Nat) : Buffer := ⟨List.replicate initSize 0, 0, 0⟩

def readableBytes (b : Buffer) : Nat := sizeSub b.writeIndex b.readIndex

def writableBytes (b : Buffer) : Nat := sizeSub b.buffer.length b.writeIndex

/-- The memory of the vector from `Peek()` on, the bytes behind the write index included. -/
def peek (b : Buffer) : List UInt8 := b.buffer.drop b.readIndex

/-- The first step of `MakeSpace` and of `Shrink`: the readable bytes move to the front, the
others stay as they are. -/
def compact (b : Buffer) : Buffer :=
  ⟨copyInto b.buffer 0 (slice b.buffer b.readIndex b.writeIndex), 0, b.readableBytes⟩

def makeSpace (b : Buffer) (len : Nat) : Buffer :=
  let b := b.compact
  if b.writableBytes < len then { b with buffer := resize b.buffer (sizeAdd b.writeIndex len) } else b

/-- The number of bytes removed and the buffer afterwards. -/
def retrieve (b : Buffer) (len : Nat) : Nat × Buffer :=
  let readable := b.readableBytes
  if len < readable then (len, { b with readIndex := sizeAdd b.readIndex len })
  else (readable, { b with readIndex := 0, writeIndex := 0 })

def ensureWritableBytes (b : Buffer) (len : Nat) : Buffer :=
  if b.writableBytes < len then b.makeSpace len else b

def append (b : Buffer) (data : List UInt8) : Buffer :=
  let b := b.ensureWritableBytes data.length
  { b with
    buffer := copyInto b.buffer b.writeIndex data
    writeIndex := sizeAdd b.writeIndex data.length }

def shrink (b : Buffer) (reserve : Nat) : Buffer :=
  let b := b.compact
  { b with buffer := resize b.buffer (sizeAdd b.writeIndex reserve) }

def writed (b : Buffer) (len : Nat) : Buffer :=
  let writable := b.writableBytes
  let b := if writable < len then b.makeSpace (sizeSub len writable) else b
  { b with writeIndex := sizeAdd b.writeIndex len }

/-- The readable bytes. -/
def content (b : Buffer) : List UInt8 := slice b.buffer b.readIndex b.writeIndex

/-- The bytes of the vector behind the write index. -/
def stale (b : Buffer) : List UInt8 := b.buffer.drop b.writeIndex

/-- The indices are inside the vector, whose size is a `size_t`. -/
structure Wf (b : Buffer) : Prop where
  read_le : b.readIndex ≤ b.writeIndex
  write_le : b.writeIndex ≤ b.buffer.length
  size_lt : b.buffer.length < 18446744073709551616

variable {b : Buffer}

theorem create_wf {n : Nat} (h : n < 18446744073709551616) : (create n).Wf :=
  ⟨Nat.le_refl _, Nat.zero_le _, by simpa [create] using h⟩

theorem content_create (n : Nat) : (create n).content = [] := by
  simp [create, content, slice]

theorem content_length (h : b.Wf) : b.content.length = b.writeIndex - b.readIndex := by
  have := h.write_le
  simp only [content, slice, List.length_take, List.length_drop]
  omega

theorem readableBytes_eq (h : b.Wf) : b.readableBytes = b.content.length := by
  have := h.write_le
  have := h.size_lt
  rw [content_length h, readableBytes, sizeSub_eq h.read_le (by omega)]

theorem writableBytes_eq (h : b.Wf) : b.writableBytes = b.buffer.length - b.writeIndex :=
  sizeSub_eq h.write_le h.size_lt

/-- The memory seen from `Peek()`: the readable bytes, then whatever was stored behind them. -/
theorem peek_eq (h : b.Wf) : b.peek = b.content ++ b.stale := by
  have hsplit : b.writeIndex = b.readIndex + (b.writeIndex - b.readIndex) := by
    have := h.read_le
    omega
  have htail : b.stale = b.peek.drop (b.writeIndex - b.readIndex) := by
    simp only [peek, stale, List.drop_drop]
    rw [← hsplit]
  rw [htail]
  exact (List.take_append_drop _ _).symm

theorem compact_length (h : b.Wf) : b.compact.buffer.length = b.buffer.length := by
  have hw := h.write_le
  have hslice : (slice b.buffer b.readIndex b.writeIndex).length = b.writeIndex - b.readIndex := content_length h
  simp only [compact, copyInto, List.take_zero, List.nil_append, List.length_append, List.length_drop]
  omega

theorem compact_wf (h : b.Wf) : b.compact.Wf := by
  have hlen := content_length h
  have hread := readableBytes_eq h
  have hsize := compact_length h
  have := h.write_le
  refine ⟨Nat.zero_le _, ?_, ?_⟩
  · rw [hsize]
    simp only [compact]
    omega
  · rw [hsize]
    exact h.size_lt

theorem content_compact (h : b.Wf) : b.compact.content = b.content := by
  simp [content, compact, slice, copyInto, readableBytes_eq h]

theorem compact_write (h : b.Wf) : b.compact.writeIndex = b.content.length := readableBytes_eq h

theorem resize_length (mem : List UInt8) (n : Nat) : (resize mem n).length = n := by
  simp only [resize, List.length_append, List.length_take, List.length_replicate]
  omega

theorem resize_wf {n : Nat} (h : b.Wf) (hn : b.writeIndex ≤ n) (hlt : n < 18446744073709551616) :
    Wf { b with buffer := resize b.buffer n } ∧
      content { b with buffer := resize b.buffer n } = b.content := by
  have hw := h.write_le
  have hr := h.read_le
  refine ⟨⟨hr, ?_, ?_⟩, ?_⟩
  · rw [resize_length]
    exact hn
  · rw [resize_length]
    exact hlt
  · simp only [content, slice, resize]
    rw [List.drop_append_of_le_length (by simp; omega), List.take_append_of_le_length (by simp; omega),
      List.drop_take, List.take_take, Nat.min_eq_left (by omega)]

theorem makeSpace_spec {len : Nat} (h : b.Wf) (hlen : b.content.length + len < 18446744073709551616) :
    (b.makeSpace len).Wf ∧ (b.makeSpace len).content = b.content ∧
      (b.makeSpace len).writeIndex + len ≤ (b.makeSpace len).buffer.length := by
  have hc := compact_wf h
  have hw := compact_write h
  have hspace := writableBytes_eq hc
  have hle := hc.write_le
  unfold makeSpace
  simp only
  split
  next short =>
    rw [sizeAdd_eq (by omega)]
    obtain ⟨hwf, hsame⟩ := resize_wf hc (Nat.le_add_right _ len) (by omega)
    refine ⟨hwf, hsame.trans (content_compact h), ?_⟩
    rw [resize_length]
  next room => exact ⟨hc, content_compact h, by omega⟩

theorem ensureWritableBytes_spec {len : Nat} (h : b.Wf)
    (hlen : b.content.length + len < 18446744073709551616) :
    (b.ensureWritableBytes len).Wf ∧ (b.ensureWritableBytes len).content = b.content ∧
      (b.ensureWritableBytes len).writeIndex + len ≤ (b.ensureWritableBytes len).buffer.length := by
  have hspace := writableBytes_eq h
  have hle := h.write_le
  unfold ensureWritableBytes
  split
  next => exact makeSpace_spec h hlen
  next => exact ⟨h, rfl, by omega⟩

/-- Writing `data` at the write index, inside the vector, and moving the index behind it. -/
theorem fill_spec {data : List UInt8} (h : b.Wf) (room : b.writeIndex + data.length ≤ b.buffer.length) :
    Wf ⟨copyInto b.buffer b.writeIndex data, b.readIndex, b.writeIndex + data.length⟩ ∧
      content ⟨copyInto b.buffer b.writeIndex data, b.readIndex, b.writeIndex + data.length⟩ =
        b.content ++ data ∧
      stale ⟨copyInto b.buffer b.writeIndex data, b.readIndex, b.writeIndex + data.length⟩ =
        b.stale.drop data.length := by
  have hr := h.read_le
  have hw := h.write_le
  have hlt := h.size_lt
  have hsize : (copyInto b.buffer b.writeIndex data).length = b.buffer.length := by
    simp only [copyInto, List.length_append, List.length_take, List.length_drop]
    omega
  refine ⟨⟨by simp only; omega, by rw [hsize]; exact room, by rw [hsize]; exact hlt⟩, ?_, ?_⟩
  · have hfront : (b.buffer.take b.writeIndex).drop b.readIndex = b.content := by
      rw [content, slice, List.drop_take]
    have hlen := content_length h
    simp only [content, slice, copyInto, List.append_assoc]
    rw [List.drop_append_of_le_length (by simp; omega), hfront, ← List.append_assoc,
      List.take_append_of_le_length (by simp; omega), List.take_of_length_le (by simp; omega)]
    rfl
  · simp only [stale, copyInto, List.drop_drop]
    rw [List.drop_append, List.drop_eq_nil_of_le (by simp), List.nil_append]
    simp [Nat.min_eq_left hw]

theorem append_spec {data : List UInt8} (h : b.Wf)
    (hlen : b.content.length + data.length < 18446744073709551616) :
    (b.append data).Wf ∧ (b.append data).content = b.content ++ data := by
  obtain ⟨hwf, hsame, room⟩ := ensureWritableBytes_spec h hlen
  obtain ⟨hfull, hcontent, -⟩ := fill_spec hwf room
  have hlt := hwf.size_lt
  unfold append
  simp only
  rw [sizeAdd_eq (by omega)]
  exact ⟨hfull, by rw [hcontent, hsame]⟩

theorem retrieve_spec (h : b.Wf) (len : Nat) :
    (b.retrieve len).2.Wf ∧ (b.retrieve len).2.content = b.content.drop len := by
  have hr := h.read_le
  have hw := h.write_le
  have hlt := h.size_lt
  have hread := readableBytes_eq h
  have hlen := content_length h
  unfold retrieve
  simp only
  split
  next part =>
    rw [sizeAdd_eq (by omega)]
    refine ⟨⟨by simp only; omega, hw, hlt⟩, ?_⟩
    simp only [content, slice, List.drop_take, List.drop_drop]
    congr 1
    omega
  next all =>
    refine ⟨⟨Nat.le_refl _, Nat.zero_le _, hlt⟩, ?_⟩
    rw [List.drop_eq_nil_of_le (by omega)]
    simp [content, slice]

end Buffer

end Wddlib
