import Wddlib.TcpChannel
import Wddlib.RunPrefix

namespace Wddlib

inductive SendEvent where
  | doSend (buf : List UInt8) (outcome : WriteOutcome)
  | doContineSend (outcome : WriteOutcome)
  deriving DecidableEq, Repr

/-- A channel and the data of the `DoSend` calls that returned 0, in call order. -/
structure SendState where
  channel : TcpChannel
  promised : List UInt8
  deriving DecidableEq, Repr

namespace SendState

def create : SendState := ⟨.create, []⟩

def step (s : SendState) : SendEvent → SendState
  | .doSend buf outcome =>
    let sent := s.channel.doSend buf outcome
    ⟨sent.2, if sent.1 = 0 then s.promised ++ buf else s.promised⟩
  | .doContineSend outcome => { s with channel := s.channel.doContineSend outcome }

/-- No byte was lost, duplicated or reordered. -/
def Intact (s : SendState) : Prop := s.channel.accepted ++ s.channel.sendBuf.content = s.promised

instance (s : SendState) : Decidable s.Intact :=
  inferInstanceAs (Decidable (s.channel.accepted ++ s.channel.sendBuf.content = s.promised))

end SendState

/-- What `::write` of `len` bytes can do on an open non-blocking socket. -/
def WriteOutcome.Possible (len : Nat) : WriteOutcome → Prop
  | wrote n => n ≤ len
  | failed errno => errno = .eagain ∨ errno = .eintr

instance (len : Nat) (outcome : WriteOutcome) : Decidable (outcome.Possible len) :=
  match outcome with
  | .wrote n => inferInstanceAs (Decidable (n ≤ len))
  | .failed errno => inferInstanceAs (Decidable (errno = .eagain ∨ errno = .eintr))

/-- The data of a call is an object in memory, smaller than half the address space. -/
def SendEvent.Possible (s : SendState) : SendEvent → Prop
  | .doSend buf outcome => buf.length < 9223372036854775808 ∧ outcome.Possible buf.length
  | .doContineSend outcome => outcome.Possible s.channel.sendBuf.readableBytes

instance (s : SendState) (e : SendEvent) : Decidable (e.Possible s) :=
  match e with
  | .doSend buf outcome =>
    inferInstanceAs (Decidable (buf.length < 9223372036854775808 ∧ outcome.Possible buf.length))
  | .doContineSend outcome => inferInstanceAs (Decidable (outcome.Possible s.channel.sendBuf.readableBytes))

/-- A writable event is handled while write interest is on, and its `::write` fails. -/
def SendEvent.FailedFlush (s : SendState) : SendEvent → Prop
  | .doContineSend (.failed _) => s.channel.isWriting = true
  | _ => False

structure SendInv (s : SendState) : Prop where
  wf : s.channel.sendBuf.Wf
  writing : s.channel.isWriting = true ↔ s.channel.sendBuf.content ≠ []
  errno : s.channel.errno ≠ .epipe ∧ s.channel.errno ≠ .econnreset
  intact : s.Intact

section Channel

theorem queueRemaining_spec (ch : TcpChannel) (data : List UInt8) (wf : ch.sendBuf.Wf)
    (writing : ch.isWriting = true ↔ ch.sendBuf.content ≠ [])
    (pending : ch.sendBuf.readableBytes ≤ kMaxSendBufSize) (hdata : data.length < 9223372036854775808) :
    (ch.queueRemaining data data.length).sendBuf.Wf ∧
      (ch.queueRemaining data data.length).sendBuf.content = ch.sendBuf.content ++ data ∧
      ((ch.queueRemaining data data.length).isWriting = true ↔ ch.sendBuf.content ++ data ≠ []) ∧
      (ch.queueRemaining data data.length).errno = ch.errno ∧
      (ch.queueRemaining data data.length).accepted = ch.accepted := by
  have hread := Buffer.readableBytes_eq wf
  unfold kMaxSendBufSize at pending
  obtain ⟨hwf, hcontent⟩ := Buffer.append_spec wf (show ch.sendBuf.content.length + data.length < _ by omega)
  unfold TcpChannel.queueRemaining
  split
  next some =>
    have hne : data ≠ [] := List.ne_nil_of_length_pos some
    have keep : ¬ ch.sendBuf.readableBytes > kMaxSendBufSize := by
      unfold kMaxSendBufSize
      omega
    simp only [TcpChannel.appendSendBuf, keep, if_false, List.take_length]
    split
    next on => exact ⟨hwf, hcontent, by simp [on, hne], rfl, rfl⟩
    next => exact ⟨hwf, hcontent, by simp [hne], rfl, rfl⟩
  next none =>
    have hnil : data = [] := List.eq_nil_of_length_eq_zero (by omega)
    subst hnil
    exact ⟨wf, by simp, by simpa using writing, rfl, rfl⟩

/-- A direct write whose count does not fit an `int` leaves more bytes pending than allowed. -/
theorem doSend_wrote (ch : TcpChannel) {buf : List UInt8} {n : Nat} (wf : ch.sendBuf.Wf)
    (writing : ch.isWriting = true ↔ ch.sendBuf.content ≠ []) (errno : ch.errno ≠ .epipe ∧ ch.errno ≠ .econnreset)
    (hempty : ch.sendBuf.readableBytes = 0) (hn : n ≤ buf.length) (hlen : buf.length < 9223372036854775808)
    (pending : (ch.doSend buf (.wrote n)).2.sendBuf.readableBytes ≤ kMaxSendBufSize) :
    ch.doSend buf (.wrote n) =
      (0, TcpChannel.queueRemaining { ch with accepted := ch.accepted ++ buf.take n } (buf.drop n)
        (buf.drop n).length) := by
  have hnil : ch.sendBuf.content = [] := by
    rw [Buffer.readableBytes_eq wf] at hempty
    exact List.eq_nil_of_length_eq_zero hempty
  have queued : ∀ rest : List UInt8, rest.length < 9223372036854775808 →
      (TcpChannel.queueRemaining { ch with accepted := ch.accepted ++ buf.take n } rest
        rest.length).sendBuf.readableBytes = rest.length := by
    intro rest hrest
    obtain ⟨hwf, hcontent, -⟩ := queueRemaining_spec { ch with accepted := ch.accepted ++ buf.take n } rest wf
      writing (by rw [hempty]; exact Nat.zero_le _) hrest
    rw [Buffer.readableBytes_eq hwf, hcontent, hnil, List.nil_append]
  have hkeep : ¬ (ch.errno ≠ .eagain ∧ (ch.errno = .epipe ∨ ch.errno = .econnreset)) := by
    rintro ⟨-, he | he⟩
    · exact errno.1 he
    · exact errno.2 he
  simp only [TcpChannel.doSend, hempty, if_true, WriteOutcome.ret, WriteOutcome.errnoAfter,
    WriteOutcome.accepted, hkeep, if_false] at pending ⊢
  unfold kMaxSendBufSize at pending
  split at pending
  next nonneg =>
    have hcount : (int32 (n : Int)).toNat ≤ n ∧
        (n = (int32 (n : Int)).toNat ∨ (int32 (n : Int)).toNat + 4294967296 ≤ n) := by
      unfold int32 at nonneg ⊢
      split at nonneg <;> omega
    have hrest : sizeSub buf.length (int32 (n : Int)).toNat = (buf.drop (int32 (n : Int)).toNat).length := by
      rw [sizeSub_eq (by omega) (by omega), List.length_drop]
    simp only [hrest] at pending
    rw [queued _ (by simp; omega), List.length_drop] at pending
    have hsame : (int32 (n : Int)).toNat = n := by omega
    rw [if_pos nonneg, hrest, hsame]
  next neg =>
    simp only at pending
    rw [queued buf hlen] at pending
    rw [int32_eq_self (by omega) (by omega)] at neg
    omega

end Channel

section Step

variable {s : SendState}

theorem SendInv.pending_eq (h : SendInv s) : s.channel.sendBuf.readableBytes = s.channel.sendBuf.content.length :=
  Buffer.readableBytes_eq h.wf

/-- A `DoSend` call with data pending, or whose direct write fails, queues all its data. -/
theorem SendInv.queue (h : SendInv s) (ch : TcpChannel) {buf : List UInt8} (hbuf : ch.sendBuf = s.channel.sendBuf)
    (hwriting : ch.isWriting = s.channel.isWriting) (herrno : ch.errno ≠ .epipe ∧ ch.errno ≠ .econnreset)
    {sent : List UInt8} (haccepted : ch.accepted = s.channel.accepted ++ sent) {rest : List UInt8}
    (hsplit : s.channel.sendBuf.content = [] ∧ sent ++ rest = buf ∨ sent = [] ∧ rest = buf)
    (pending : s.channel.sendBuf.readableBytes ≤ kMaxSendBufSize) (hlen : rest.length < 9223372036854775808) :
    SendInv ⟨ch.queueRemaining rest rest.length, s.promised ++ buf⟩ := by
  obtain ⟨hwf, hcontent, hw, he, ha⟩ := queueRemaining_spec ch rest (by rw [hbuf]; exact h.wf)
    (by rw [hbuf, hwriting]; exact h.writing) (by rw [hbuf]; exact pending) hlen
  refine ⟨hwf, hw.trans (by rw [hcontent]), by rw [he]; exact herrno, ?_⟩
  have hint := h.intact
  unfold SendState.Intact at hint ⊢
  rw [ha, hcontent, haccepted, ← hint, hbuf]
  rcases hsplit with ⟨hempty, rfl⟩ | ⟨rfl, rfl⟩
  · simp [hempty]
  · simp

theorem doSend_inv (h : SendInv s) {buf : List UInt8} {outcome : WriteOutcome}
    (possible : (SendEvent.doSend buf outcome).Possible s)
    (pending : s.channel.sendBuf.readableBytes ≤ kMaxSendBufSize)
    (pending' : (s.step (.doSend buf outcome)).channel.sendBuf.readableBytes ≤ kMaxSendBufSize) :
    SendInv (s.step (.doSend buf outcome)) := by
  obtain ⟨hlen, hout⟩ := possible
  by_cases hempty : s.channel.sendBuf.readableBytes = 0
  · have hnil : s.channel.sendBuf.content = [] := by
      rw [h.pending_eq] at hempty
      exact List.eq_nil_of_length_eq_zero hempty
    cases outcome with
    | failed errno =>
      have hneg : ¬ int32 (WriteOutcome.failed errno).ret ≥ 0 := by
        simp only [WriteOutcome.ret]
        decide
      have herr : errno ≠ .epipe ∧ errno ≠ .econnreset := by
        rcases hout with rfl | rfl <;> decide
      have hkeep : ¬ (errno ≠ .eagain ∧ (errno = .epipe ∨ errno = .econnreset)) := by
        rintro ⟨-, he | he⟩
        · exact herr.1 he
        · exact herr.2 he
      simp only [SendState.step, TcpChannel.doSend, hempty, hneg, if_false, WriteOutcome.errnoAfter, hkeep,
        if_true]
      exact h.queue { s.channel with errno := errno, accepted := s.channel.accepted ++ [] } rfl rfl herr rfl
        (Or.inr ⟨rfl, rfl⟩) pending hlen
    | wrote n =>
      have hsent := doSend_wrote s.channel h.wf h.writing h.errno hempty hout hlen pending'
      simp only [SendState.step, hsent, if_true]
      exact h.queue { s.channel with accepted := s.channel.accepted ++ buf.take n } rfl rfl h.errno rfl
        (Or.inl ⟨hnil, List.take_append_drop n buf⟩) pending (by simp; omega)
  · simp only [SendState.step, TcpChannel.doSend, hempty, if_false, if_true]
    exact h.queue s.channel rfl rfl h.errno (List.append_nil _).symm (Or.inr ⟨rfl, rfl⟩) pending hlen

theorem doContineSend_inv (h : SendInv s) {n : Nat} (hn : n ≤ s.channel.sendBuf.readableBytes) :
    SendInv (s.step (.doContineSend (.wrote n))) := by
  have hlen := h.pending_eq
  have hwf := h.wf.size_lt
  have hle := h.wf.write_le
  have hcontent := Buffer.content_length h.wf
  simp only [SendState.step, TcpChannel.doContineSend]
  split
  next on =>
    have hpeek : s.channel.sendBuf.peek.take s.channel.sendBuf.readableBytes = s.channel.sendBuf.content := by
      rw [Buffer.peek_eq h.wf, hlen]
      simp
    have hret : ((WriteOutcome.wrote n).ret % 18446744073709551616).toNat = n := by
      simp only [WriteOutcome.ret]
      omega
    have hint := h.intact
    unfold SendState.Intact at hint
    simp only [hret, hpeek, WriteOutcome.errnoAfter, WriteOutcome.accepted]
    split
    next some =>
      obtain ⟨hwf', hcontent'⟩ := Buffer.retrieve_spec h.wf n
      have hread := Buffer.readableBytes_eq hwf'
      have hint' : (s.channel.accepted ++ s.channel.sendBuf.content.take n) ++
          (s.channel.sendBuf.retrieve n).2.content = s.promised := by
        rw [hcontent', List.append_assoc, List.take_append_drop, hint]
      split
      next done =>
        have hnil : (s.channel.sendBuf.retrieve n).2.content = [] :=
          List.eq_nil_of_length_eq_zero (by omega)
        exact ⟨hwf', by simp [hnil], h.errno, hint'⟩
      next more =>
        have hne : (s.channel.sendBuf.retrieve n).2.content ≠ [] :=
          List.ne_nil_of_length_pos (by omega)
        exact ⟨hwf', by simp [hne, on], h.errno, hint'⟩
    next none =>
      have hz : n = 0 := by omega
      subst hz
      exact ⟨h.wf, h.writing, h.errno, by simpa [SendState.Intact] using hint⟩
  next => exact h

/-- The failed write is taken for a write of everything. -/
theorem failedFlush_loses (h : SendInv s) {errno : Errno} (on : s.channel.isWriting = true) :
    ¬ (s.step (.doContineSend (.failed errno))).Intact := by
  have hne := h.writing.mp on
  have hlen := h.pending_eq
  have hwf := h.wf.size_lt
  have hle := h.wf.write_le
  have hcontent := Buffer.content_length h.wf
  have hret : ((WriteOutcome.failed errno).ret % 18446744073709551616).toNat = 18446744073709551615 := by
    simp [WriteOutcome.ret]
  obtain ⟨hwf', hcontent'⟩ := Buffer.retrieve_spec h.wf 18446744073709551615
  rw [List.drop_eq_nil_of_le (by omega)] at hcontent'
  have hread : (s.channel.sendBuf.retrieve 18446744073709551615).2.readableBytes = 0 := by
    rw [Buffer.readableBytes_eq hwf', hcontent']
    rfl
  have hint := h.intact
  simp only [SendState.Intact, SendState.step, TcpChannel.doContineSend, on, if_true, hret,
    WriteOutcome.accepted, List.append_nil, gt_iff_lt, Nat.zero_lt_succ, hread, hcontent'] at hint ⊢
  rw [← hint]
  simpa using Ne.symm hne

theorem step_inv (h : SendInv s) {e : SendEvent} (possible : e.Possible s) (fine : ¬ e.FailedFlush s)
    (pending : s.channel.sendBuf.readableBytes ≤ kMaxSendBufSize)
    (pending' : (s.step e).channel.sendBuf.readableBytes ≤ kMaxSendBufSize) : SendInv (s.step e) := by
  cases e with
  | doSend buf outcome => exact doSend_inv h possible pending pending'
  | doContineSend outcome =>
    cases outcome with
    | wrote n => exact doContineSend_inv h possible
    | failed errno =>
      have off : s.channel.isWriting = false := by simpa [SendEvent.FailedFlush] using fine
      simpa [SendState.step, TcpChannel.doContineSend, off] using h

theorem create_inv : SendInv .create := by
  refine ⟨Buffer.create_wf (by decide), ?_, by decide, ?_⟩
  · simp [SendState.create, TcpChannel.create, Buffer.content_create]
  · simp [SendState.Intact, SendState.create, TcpChannel.create, Buffer.content_create]

end Step

/-- The state of a new channel after the first `k` events. -/
def sendAt (events : List SendEvent) (k : Nat) : SendState := stateAt SendState.step .create events k

section Run

variable {events : List SendEvent}
  (possible : ∀ (k : Nat) (e : SendEvent), events[k]? = some e → e.Possible (sendAt events k))
  (pending : ∀ k, (sendAt events k).channel.sendBuf.readableBytes ≤ kMaxSendBufSize)

include possible pending

theorem sendAt_inv_succ {k : Nat} {e : SendEvent} (he : events[k]? = some e) (h : SendInv (sendAt events k))
    (fine : ¬ e.FailedFlush (sendAt events k)) : SendInv ((sendAt events k).step e) := by
  have after := pending (k + 1)
  rw [sendAt, stateAt_succ he] at after
  exact step_inv h (possible k e he) fine (pending k) after

/-- The stream of a channel stays intact in every state of a run exactly when no writable event
finds write interest on and then fails to write. -/
theorem sendStream_intact_iff : (∀ k, (sendAt events k).Intact) ↔
    ∀ (k : Nat) (e : SendEvent), events[k]? = some e → ¬ e.FailedFlush (sendAt events k) := by
  constructor
  · intro intact
    have fine : ∀ (k : Nat) (e : SendEvent), events[k]? = some e → SendInv (sendAt events k) →
        ¬ e.FailedFlush (sendAt events k) := by
      intro k e he hinv failed
      have after := intact (k + 1)
      rw [sendAt, stateAt_succ he] at after
      cases e with
      | doSend buf outcome => exact failed
      | doContineSend outcome =>
        cases outcome with
        | wrote n => exact failed
        | failed errno => exact failedFlush_loses hinv failed after
    intro k e he
    refine fine k e he (stateAt_induct create_inv ?_ k)
    intro j e' he' hinv
    exact sendAt_inv_succ possible pending he' hinv (fine j e' he' hinv)
  · intro fine k
    have hinv : SendInv (sendAt events k) := by
      refine stateAt_induct create_inv ?_ k
      intro j e he hinv
      exact sendAt_inv_succ possible pending he hinv (fine j e he)
    exact hinv.intact

end Run

theorem sendAt_two (e₀ e₁ : SendEvent) {P : SendState → Prop} (h₀ : P .create) (h₁ : P (SendState.create.step e₀))
    (h₂ : P ((SendState.create.step e₀).step e₁)) (k : Nat) : P (sendAt [e₀, e₁] k) := by
  rcases k with _ | _ | k
  · exact h₀
  · exact h₁
  · rw [sendAt, stateAt_of_length_le (by simp)]
    exact h₂

theorem event_two {e₀ e₁ e : SendEvent} {k : Nat} (h : [e₀, e₁][k]? = some e) :
    k = 0 ∧ e₀ = e ∨ k = 1 ∧ e₁ = e := by
  rcases k with _ | _ | k
  · exact Or.inl ⟨rfl, by simpa using h⟩
  · exact Or.inr ⟨rfl, by simpa using h⟩
  · simp at h

theorem sendStream_intact_iff_short_write :
    (sendAt [.doSend [97, 98] (.wrote 1), .doContineSend (.wrote 1)] 1).Intact ∧
      (sendAt [.doSend [97, 98] (.wrote 1), .doContineSend (.wrote 1)] 2).Intact := by
  suffices intact : ∀ k, (sendAt [.doSend [97, 98] (.wrote 1), .doContineSend (.wrote 1)] k).Intact from
    ⟨intact 1, intact 2⟩
  refine (sendStream_intact_iff ?_ ?_).mpr ?_
  · intro k e he
    rcases event_two he with ⟨rfl, rfl⟩ | ⟨rfl, rfl⟩ <;> decide +kernel
  · apply sendAt_two (P := fun s => s.channel.sendBuf.readableBytes ≤ kMaxSendBufSize) <;> decide +kernel
  · intro k e he
    rcases event_two he with ⟨rfl, rfl⟩ | ⟨rfl, rfl⟩ <;> exact id

/-- A short write of "ab", then a writable event whose `::write` would block: "b" is lost. -/
theorem sendStream_loses_pending :
    (∀ (k : Nat) (e : SendEvent),
        [.doSend [97, 98] (.wrote 1), .doContineSend (.failed .eagain)][k]? = some e →
        e.Possible (sendAt [.doSend [97, 98] (.wrote 1), .doContineSend (.failed .eagain)] k)) ∧
      (∀ k, (sendAt [.doSend [97, 98] (.wrote 1),
        .doContineSend (.failed .eagain)] k).channel.sendBuf.readableBytes ≤ kMaxSendBufSize) ∧
      ¬ ∀ k, (sendAt [.doSend [97, 98] (.wrote 1), .doContineSend (.failed .eagain)] k).Intact := by
  refine ⟨?_, ?_, ?_⟩
  · intro k e he
    rcases event_two he with ⟨rfl, rfl⟩ | ⟨rfl, rfl⟩ <;> decide +kernel
  · apply sendAt_two (P := fun s => s.channel.sendBuf.readableBytes ≤ kMaxSendBufSize) <;> decide +kernel
  · intro intact
    have lost := intact 2
    revert lost
    decide +kernel

end Wddlib
