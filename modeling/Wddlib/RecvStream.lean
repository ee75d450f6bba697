import Wddlib.TcpChannel
import Mathlib.Tactic.Common

namespace Wddlib

/-- What one `::readv` returns, and what stands in memory behind the vector when the received
bytes are handled. The vector and `extrabuf` never offer a gigabyte. -/
structure Segment where
  chunk : List UInt8
  behind : Nat → UInt8
  nonempty : chunk ≠ []
  fits : chunk.length ≤ 1073741824

/-- The `n` bytes from `Peek()` on, whether they are inside the vector or not. -/
def Buffer.readAt (b : Buffer) (behind : Nat → UInt8) (n : Nat) : List UInt8 :=
  (b.peek ++ (List.range n).map behind).take n

/-- The byte `o` places behind `Peek()`, inside the vector or not. -/
def Buffer.byteAt (b : Buffer) (behind : Nat → UInt8) (o : Nat) : UInt8 :=
  b.peek.getD o (behind (o - b.peek.length))

/-- The value of big-endian bytes: `ntohs` and `ntohl` of what a little-endian host loads. -/
def bigEndian (bytes : List UInt8) : Nat := bytes.foldl (fun n byte => n * 256 + byte.toNat) 0

section Loop

variable {α : Type} (next : Buffer → Option (α × Nat))

/-- The loop of an `OnRecvMsg`: hand out messages and remove their bytes until `next` finds none.
`none` means that the budget was too small. -/
def drainLoop : Nat → Buffer → Option (List α × Buffer)
  | 0, _ => none
  | fuel + 1, b =>
    match next b with
    | none => some ([], b)
    | some (msg, len) => (drainLoop fuel (b.retrieve len).2).map fun r => (msg :: r.1, r.2)

end Loop

/-- Successive `DoRecv` calls: the messages handed out, in order, and the receive buffer. -/
def recvRun {α : Type} (next : (Nat → UInt8) → Buffer → Option (α × Nat)) (fuel : Nat) :
    Buffer → List Segment → Option (List α × Buffer)
  | b, [] => some ([], b)
  | b, seg :: segs =>
    (drainLoop (next seg.behind) fuel (b.scatterRead seg.chunk)).bind fun r =>
      (recvRun next fuel r.2 segs).map fun r' => (r.1 ++ r'.1, r'.2)

section Mono

variable {α : Type} {next : Buffer → Option (α × Nat)}

theorem drainLoop_mono {fuel fuel' : Nat} {b : Buffer} {r : List α × Buffer} (h : drainLoop next fuel b = some r)
    (hle : fuel ≤ fuel') : drainLoop next fuel' b = some r := by
  induction fuel generalizing fuel' b r with
  | zero => simp [drainLoop] at h
  | succ fuel ih =>
    obtain ⟨fuel', rfl⟩ : ∃ m, fuel' = m + 1 := ⟨fuel' - 1, by omega⟩
    simp only [drainLoop] at h ⊢
    cases hn : next b with
    | none => simpa [hn] using h
    | some found =>
      simp only [hn] at h ⊢
      obtain ⟨r', hr', rfl⟩ := Option.map_eq_some_iff.mp h
      rw [ih hr' (by omega)]
      rfl

theorem drainLoop_unique {fuel fuel' : Nat} {b : Buffer} {r r' : List α × Buffer}
    (h : drainLoop next fuel b = some r) (h' : drainLoop next fuel' b = some r') : r = r' := by
  have hm := drainLoop_mono h (Nat.le_max_left fuel fuel')
  rw [drainLoop_mono h' (Nat.le_max_right fuel fuel')] at hm
  exact (Option.some.inj hm).symm

theorem drainLoop_none {b : Buffer} (h : next b = none) : drainLoop next 1 b = some ([], b) := by
  simp only [drainLoop, h]

theorem drainLoop_nil {fuel : Nat} {b b' : Buffer} (h : drainLoop next fuel b = some ([], b')) : next b = none := by
  cases fuel with
  | zero => simp [drainLoop] at h
  | succ fuel =>
    simp only [drainLoop] at h
    cases hn : next b with
    | none => rfl
    | some found =>
      simp only [hn] at h
      obtain ⟨r, -, hr⟩ := Option.map_eq_some_iff.mp h
      simp at hr

/-- A message of no bytes is handed out again and again. -/
theorem drainLoop_stuck {b : Buffer} (m : α) (h : next b = some (m, 0)) (same : (b.retrieve 0).2 = b)
    (fuel : Nat) : drainLoop next fuel b = none := by
  induction fuel with
  | zero => rfl
  | succ fuel ih => simp [drainLoop, h, same, ih]

theorem recvRun_mono {next : (Nat → UInt8) → Buffer → Option (α × Nat)} {fuel fuel' : Nat} {b : Buffer}
    {segs : List Segment} {r : List α × Buffer} (h : recvRun next fuel b segs = some r) (hle : fuel ≤ fuel') :
    recvRun next fuel' b segs = some r := by
  induction segs generalizing b r with
  | nil => exact h
  | cons seg segs ih =>
    simp only [recvRun] at h ⊢
    obtain ⟨r₁, h₁, h₂⟩ := Option.bind_eq_some_iff.mp h
    obtain ⟨r₂, h₃, rfl⟩ := Option.map_eq_some_iff.mp h₂
    simp [drainLoop_mono h₁ hle, ih h₃]

theorem recvRun_unique {next : (Nat → UInt8) → Buffer → Option (α × Nat)} {fuel fuel' : Nat} {b : Buffer}
    {segs : List Segment} {r r' : List α × Buffer} (h : recvRun next fuel b segs = some r)
    (h' : recvRun next fuel' b segs = some r') : r = r' := by
  have hm := recvRun_mono h (Nat.le_max_left fuel fuel')
  rw [recvRun_mono h' (Nat.le_max_right fuel fuel')] at hm
  exact (Option.some.inj hm).symm

theorem recvRun_cons {next : (Nat → UInt8) → Buffer → Option (α × Nat)} {fuel fuel' : Nat} {b b₁ b₂ : Buffer}
    {seg : Segment} {segs : List Segment} {out out' : List α}
    (head : drainLoop (next seg.behind) fuel (b.scatterRead seg.chunk) = some (out, b₁))
    (tail : recvRun next fuel' b₁ segs = some (out', b₂)) :
    recvRun next (max fuel fuel') b (seg :: segs) = some (out ++ out', b₂) := by
  simp [recvRun, drainLoop_mono head (Nat.le_max_left fuel fuel'),
    recvRun_mono tail (Nat.le_max_right fuel fuel')]

theorem recvRun_uncons {next : (Nat → UInt8) → Buffer → Option (α × Nat)} {fuel : Nat} {b b₂ : Buffer}
    {seg : Segment} {segs : List Segment} {out : List α}
    (h : recvRun next fuel b (seg :: segs) = some (out, b₂)) :
    ∃ out₁ b₁ out₂, drainLoop (next seg.behind) fuel (b.scatterRead seg.chunk) = some (out₁, b₁) ∧
      recvRun next fuel b₁ segs = some (out₂, b₂) ∧ out = out₁ ++ out₂ := by
  simp only [recvRun] at h
  obtain ⟨⟨out₁, b₁⟩, h₁, h₂⟩ := Option.bind_eq_some_iff.mp h
  obtain ⟨⟨out₂, b₂'⟩, h₃, h₄⟩ := Option.map_eq_some_iff.mp h₂
  obtain ⟨rfl, rfl⟩ := Prod.mk.inj h₄
  exact ⟨out₁, b₁, out₂, h₁, h₃, rfl⟩

end Mono

namespace Buffer

variable {b : Buffer}

theorem readAt_content {behind : Nat → UInt8} {n : Nat} (h : b.Wf) (hn : n ≤ b.content.length) :
    b.readAt behind n = b.content.take n := by
  rw [readAt, peek_eq h, List.append_assoc, List.take_append_of_le_length hn]

theorem byteAt_content (behind : Nat → UInt8) (h : b.Wf) {o : Nat} (ho : o < b.content.length) :
    b.content[o]? = some (b.byteAt behind o) := by
  rw [byteAt, peek_eq h, List.getD_eq_getElem?_getD, List.getElem?_append_left ho]
  simp [ho]

theorem retrieve_retrieve (h : b.Wf) {m n : Nat} (hm : m < b.content.length) :
    ((b.retrieve m).2.retrieve n).2 = (b.retrieve (m + n)).2 := by
  have hr := h.read_le
  have hw := h.write_le
  have hlt := h.size_lt
  have hread := readableBytes_eq h
  have hlen := content_length h
  obtain ⟨hwf, hcontent⟩ := retrieve_spec h m
  have hread' := readableBytes_eq hwf
  rw [hcontent, List.length_drop] at hread'
  have first : (b.retrieve m).2 = { b with readIndex := b.readIndex + m } := by
    simp only [retrieve, show m < b.readableBytes by omega, if_true]
    rw [sizeAdd_eq (by omega)]
  rw [first] at hread' ⊢
  simp only [retrieve, hread']
  by_cases part : m + n < b.content.length
  · rw [if_pos (by omega), if_pos (by omega), sizeAdd_eq (by omega), sizeAdd_eq (by omega), Nat.add_assoc]
  · rw [if_neg (by omega), if_neg (by omega)]

theorem retrieve_zero (h : b.Wf) (hne : b.content ≠ []) : (b.retrieve 0).2 = b := by
  have hread := readableBytes_eq h
  have hpos := List.length_pos_iff.mpr hne
  have hw := h.write_le
  have hr := h.read_le
  have hlt := h.size_lt
  simp only [retrieve, show 0 < b.readableBytes by omega, if_true]
  rw [sizeAdd_eq (by omega)]
  rfl

theorem scatterRead_spec {chunk : List UInt8} (h : b.Wf) (pending : b.content.length ≤ kMaxRecvBufSize)
    (hlen : b.content.length + chunk.length < 18446744073709551616) :
    (b.scatterRead chunk).Wf ∧ (b.scatterRead chunk).content = b.content ++ chunk := by
  have hread := readableBytes_eq h
  have hspace := writableBytes_eq h
  have hw := h.write_le
  have hlt := h.size_lt
  unfold scatterRead
  simp only [show ¬ b.readableBytes > kMaxRecvBufSize by omega, if_false]
  generalize hfront : chunk.take b.writableBytes = front
  have hfit : front.length = min b.writableBytes chunk.length := by rw [← hfront, List.length_take]
  have hsplit : front ++ chunk.drop b.writableBytes = chunk := by rw [← hfront, List.take_append_drop]
  obtain ⟨hwf, hcontent, -⟩ := fill_spec h (show b.writeIndex + front.length ≤ b.buffer.length by omega)
  -- the bytes are in the vector before the write index moves
  have moved : writed { b with buffer := copyInto b.buffer b.writeIndex front } front.length =
      ⟨copyInto b.buffer b.writeIndex front, b.readIndex, b.writeIndex + front.length⟩ := by
    have hsize : (copyInto b.buffer b.writeIndex front).length = b.buffer.length := by
      simp only [copyInto, List.length_append, List.length_take, List.length_drop]
      omega
    have hwritable : ¬ writableBytes { b with buffer := copyInto b.buffer b.writeIndex front } < front.length := by
      simp only [writableBytes]
      rw [hsize, sizeSub_eq hw hlt]
      omega
    simp only [writed, hwritable, if_false]
    rw [sizeAdd_eq (by omega)]
  split
  next fit =>
    have hall : front = chunk := by rw [← hfront, List.take_of_length_le fit]
    subst hall
    rw [moved]
    exact ⟨hwf, hcontent⟩
  next more =>
    have hfull : b.writableBytes = front.length := by omega
    rw [hfull] at hsplit ⊢
    rw [moved]
    have hlen' := congrArg List.length hsplit
    rw [List.length_append] at hlen'
    obtain ⟨hwf', hcontent'⟩ := append_spec hwf (show _ + (chunk.drop front.length).length < _ by
      rw [hcontent, List.length_append]
      omega)
    exact ⟨hwf', by rw [hcontent', hcontent, List.append_assoc, hsplit]⟩

end Buffer

/-- A loop that finds nothing in an empty buffer and ends at all ends within one turn more than there are readable
bytes: no turn but the last leaves all of them. -/
theorem drainLoop_enough {α : Type} {next : Buffer → Option (α × Nat)} {fuel : Nat} {b : Buffer} {r : List α × Buffer}
    (nothing : ∀ b, b.Wf → b.content = [] → next b = none) (wf : b.Wf) (h : drainLoop next fuel b = some r) :
    drainLoop next (b.readableBytes + 1) b = some r := by
  induction fuel generalizing b r with
  | zero => simp [drainLoop] at h
  | succ fuel ih =>
    have hread := Buffer.readableBytes_eq wf
    have hall := h
    simp only [drainLoop] at h ⊢
    cases turn : next b with
    | none => simpa only [turn] using h
    | some found =>
      simp only [turn] at h ⊢
      obtain ⟨rest, hrest, rfl⟩ := Option.map_eq_some_iff.mp h
      obtain ⟨msg, len⟩ := found
      have hne : b.content ≠ [] := by
        intro hnil
        rw [nothing b wf hnil] at turn
        cases turn
      have hsome := List.length_pos_iff.mpr hne
      have hpos : 0 < len := by
        by_contra hzero
        obtain rfl : len = 0 := by omega
        rw [drainLoop_stuck msg turn (Buffer.retrieve_zero wf hne)] at hall
        cases hall
      obtain ⟨wf', hcontent⟩ := Buffer.retrieve_spec wf len
      have hread' := Buffer.readableBytes_eq wf'
      rw [hcontent, List.length_drop] at hread'
      have hrest' := drainLoop_mono (ih wf' hrest) (show _ ≤ b.readableBytes by omega)
      simp only [hrest', Option.map_some]

end Wddlib
