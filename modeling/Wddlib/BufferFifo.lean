import Wddlib.RecvStream
import Wddlib.RunPrefix

namespace Wddlib

/-- The calls on a `Buffer`; `recv` is the path of `DoRecv` behind a `::readv` of `chunk`. -/
inductive BufferOp where
  | append (data : List UInt8)
  | retrieve (len : Nat)
  | ensureWritableBytes (len : Nat)
  | shrink (reserve : Nat)
  | recv (chunk : List UInt8)
  deriving DecidableEq, Repr

/-- What one `::readv` may read: behind the write index, and into `extrabuf` when little is left there. -/
def Buffer.offered (b : Buffer) : Nat :=
  if b.writableBytes < 65536 then b.writableBytes + 65536 else b.writableBytes

namespace BufferOp

def apply (b : Buffer) : BufferOp → Buffer
  | append data => b.append data
  | retrieve len => (b.retrieve len).2
  | ensureWritableBytes len => b.ensureWritableBytes len
  | shrink reserve => b.shrink reserve
  | recv chunk => b.scatterRead chunk

/-- The bytes that the call puts in. -/
def stored : BufferOp → List UInt8
  | append data => data
  | recv chunk => chunk
  | _ => []

/-- The bytes that the call takes out, as many as `Retrieve` returns. -/
def retrieved (b : Buffer) : BufferOp → List UInt8
  | retrieve len => b.peek.take (b.retrieve len).1
  | _ => []

/-- The vector is asked for less than 2^63 bytes, and what is received was offered and is not dropped
because of the limit. -/
def Sized (b : Buffer) : BufferOp → Prop
  | append data => b.readableBytes + data.length < 9223372036854775808
  | retrieve _ => True
  | ensureWritableBytes len => b.readableBytes + len < 9223372036854775808
  | shrink reserve => b.readableBytes + reserve < 9223372036854775808
  | recv chunk => 1 ≤ chunk.length ∧ chunk.length ≤ b.offered ∧ b.readableBytes ≤ kMaxRecvBufSize

instance decidableSized (b : Buffer) (op : BufferOp) : Decidable (op.Sized b) :=
  match op with
  | append _ => Nat.decLt _ _
  | retrieve _ => .isTrue trivial
  | ensureWritableBytes _ => Nat.decLt _ _
  | shrink _ => Nat.decLt _ _
  | recv chunk => inferInstanceAs
    (Decidable (1 ≤ chunk.length ∧ chunk.length ≤ b.offered ∧ b.readableBytes ≤ kMaxRecvBufSize))

end BufferOp

/-- A buffer with everything that was put in and everything that was taken out. -/
structure BufferTrace where
  buf : Buffer
  stored : List UInt8
  retrieved : List UInt8
  deriving DecidableEq, Repr

def BufferTrace.step (t : BufferTrace) (op : BufferOp) : BufferTrace :=
  ⟨op.apply t.buf, t.stored ++ op.stored, t.retrieved ++ op.retrieved t.buf⟩

namespace Buffer

variable {b : Buffer}

theorem retrieve_fst (b : Buffer) (len : Nat) : (b.retrieve len).1 = min len b.readableBytes := by
  unfold retrieve
  simp only
  split <;> simp only <;> omega

/-- What `Retrieve` takes out stood in front of what it leaves. -/
theorem take_retrieve (h : b.Wf) (len : Nat) :
    b.peek.take (b.retrieve len).1 ++ (b.retrieve len).2.content = b.content := by
  have hread := readableBytes_eq h
  rw [retrieve_fst, (retrieve_spec h len).2, peek_eq h, List.take_append_of_le_length (by omega), hread]
  by_cases hlen : len ≤ b.content.length
  · rw [Nat.min_eq_left hlen, List.take_append_drop]
  · rw [Nat.min_eq_right (by omega), List.take_length, List.drop_eq_nil_of_le (by omega), List.append_nil]

theorem shrink_spec {reserve : Nat} (h : b.Wf) (hlen : b.content.length + reserve < 18446744073709551616) :
    (b.shrink reserve).Wf ∧ (b.shrink reserve).content = b.content := by
  have hw := compact_write h
  obtain ⟨hwf, hsame⟩ := resize_wf (compact_wf h) (Nat.le_add_right _ reserve) (by omega)
  unfold shrink
  simp only
  rw [sizeAdd_eq (by omega)]
  exact ⟨hwf, hsame.trans (content_compact h)⟩

theorem offered_fits (h : b.Wf) (small : b.content.length ≤ kMaxRecvBufSize) :
    b.content.length + b.offered < 18446744073709551616 := by
  have hlen := content_length h
  have hspace := writableBytes_eq h
  have hw := h.write_le
  have hlt := h.size_lt
  unfold kMaxRecvBufSize at small
  unfold offered
  split <;> omega

theorem writableBytes_ensure (h : b.Wf) {len : Nat} (hlen : b.content.length + len < 18446744073709551616) :
    len ≤ (b.ensureWritableBytes len).writableBytes := by
  obtain ⟨hwf, -, room⟩ := ensureWritableBytes_spec h hlen
  rw [writableBytes_eq hwf]
  omega

end Buffer

namespace BufferTrace

variable {t : BufferTrace}

/-- The indices are inside the vector, and what was put in and not yet taken out is there, in order. -/
structure Fifo (t : BufferTrace) : Prop where
  wf : t.buf.Wf
  order : t.stored = t.retrieved ++ t.buf.content

theorem create_fifo {initSize : Nat} (small : initSize < 9223372036854775808) :
    Fifo ⟨.create initSize, [], []⟩ :=
  ⟨Buffer.create_wf (by omega), (Buffer.content_create initSize).symm⟩

/-- A call that only puts `data` in. -/
theorem Fifo.store (h : t.Fifo) {b : Buffer} {data : List UInt8} (wf : b.Wf)
    (content_eq : b.content = t.buf.content ++ data) : Fifo ⟨b, t.stored ++ data, t.retrieved ++ []⟩ := by
  refine ⟨wf, ?_⟩
  rw [h.order, content_eq, List.append_nil, List.append_assoc]

theorem Fifo.step (h : t.Fifo) {op : BufferOp} (sized : op.Sized t.buf) : (t.step op).Fifo := by
  have hread := Buffer.readableBytes_eq h.wf
  cases op with
  | append data =>
    have sized : t.buf.readableBytes + data.length < 9223372036854775808 := sized
    obtain ⟨wf, content_eq⟩ := @Buffer.append_spec _ data h.wf (by omega)
    exact h.store wf content_eq
  | retrieve len =>
    refine ⟨(Buffer.retrieve_spec h.wf len).1, ?_⟩
    simp only [BufferTrace.step, BufferOp.stored, BufferOp.retrieved, BufferOp.apply]
    rw [List.append_assoc, Buffer.take_retrieve h.wf len, List.append_nil]
    exact h.order
  | ensureWritableBytes len =>
    have sized : t.buf.readableBytes + len < 9223372036854775808 := sized
    obtain ⟨wf, content_eq, -⟩ := @Buffer.ensureWritableBytes_spec _ len h.wf (by omega)
    exact h.store wf (content_eq.trans (List.append_nil _).symm)
  | shrink reserve =>
    have sized : t.buf.readableBytes + reserve < 9223372036854775808 := sized
    obtain ⟨wf, content_eq⟩ := @Buffer.shrink_spec _ reserve h.wf (by omega)
    exact h.store wf (content_eq.trans (List.append_nil _).symm)
  | recv chunk =>
    obtain ⟨-, within, small⟩ := sized
    rw [hread] at small
    have fits := Buffer.offered_fits h.wf small
    obtain ⟨wf, content_eq⟩ := @Buffer.scatterRead_spec _ chunk h.wf small (by omega)
    exact h.store wf content_eq

end BufferTrace

/-- A buffer of `initSize` bytes after the first `k` calls. -/
def bufferAt (initSize : Nat) (ops : List BufferOp) (k : Nat) : BufferTrace :=
  stateAt BufferTrace.step ⟨.create initSize, [], []⟩ ops k

def SizedRun (initSize : Nat) (ops : List BufferOp) : Prop :=
  ∀ k (op : BufferOp), ops[k]? = some op → op.Sized (bufferAt initSize ops k).buf

/-- Whatever is called, the readable bytes are those put in and not yet taken out, in order. -/
theorem buffer_is_fifo {initSize : Nat} {ops : List BufferOp} (small : initSize < 9223372036854775808)
    (sized : SizedRun initSize ops) (k : Nat) :
    let t := bufferAt initSize ops k
    t.buf.readIndex ≤ t.buf.writeIndex ∧ t.buf.writeIndex ≤ t.buf.buffer.length ∧
    t.stored = t.retrieved ++ t.buf.content ∧ t.buf.readableBytes = t.buf.content.length ∧
    (∀ len, (t.buf.retrieve len).1 = min len t.buf.readableBytes) ∧
    ∀ len, t.buf.readableBytes + len < 9223372036854775808 →
      len ≤ (t.buf.ensureWritableBytes len).writableBytes ∧
      (t.buf.ensureWritableBytes len).content = t.buf.content := by
  intro t
  have fifo : t.Fifo := by
    refine stateAt_induct (BufferTrace.create_fifo small) ?_ k
    intro k op hop h
    exact h.step (sized k op hop)
  have hread := Buffer.readableBytes_eq fifo.wf
  refine ⟨fifo.wf.read_le, fifo.wf.write_le, fifo.order, hread, Buffer.retrieve_fst t.buf, ?_⟩
  intro len hlen
  exact ⟨Buffer.writableBytes_ensure fifo.wf (by omega),
    (Buffer.ensureWritableBytes_spec fifo.wf (by omega)).2.1⟩

/-- A buffer of two bytes is filled, read into beyond its end, compacted and drained. -/
def drainedOps : List BufferOp :=
  [.append [1, 2], .retrieve 1, .recv [3, 4, 5], .shrink 2, .ensureWritableBytes 4, .retrieve 2, .retrieve 9]

theorem buffer_is_fifo_drained :
    SizedRun 2 drainedOps ∧ (bufferAt 2 drainedOps 6).buf.content = [4, 5] ∧
    (bufferAt 2 drainedOps 7).stored =
      (bufferAt 2 drainedOps 7).retrieved ++ (bufferAt 2 drainedOps 7).buf.content := by
  have sized : SizedRun 2 drainedOps := forall_event_iff.mpr (by decide +kernel)
  exact ⟨sized, by decide +kernel, (buffer_is_fifo (by decide) sized 7).2.2.1⟩

end Wddlib
