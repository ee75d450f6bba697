import Wddlib.TcpClientBoundary

namespace Wddlib

/-- The values of `errno` after which `Connect` fails. -/
def ConnectErrno.isFatal : ConnectErrno → Bool
  | .zero | .einprogress | .eintr | .eisconn => false
  | .eagain | .eaddrinuse | .eaddrnotavail | .econnrefused | .enetunreach => false
  | .eacces | .eperm | .eafnosupport | .ealready | .ebadf | .efault | .enotsock | .other => true

/-- One call of `::write` transfers at most `0x7ffff000` bytes. -/
def WriteOutcome.Transfers : WriteOutcome → Prop
  | wrote n => n ≤ 2147479552
  | failed _ => True

namespace TcpClient

variable {c : TcpClient} {data : List UInt8} {outcome : WriteOutcome}

theorem setEvents_channel (c : TcpClient) (mask : EventMask) :
    (c.setEvents mask).updateEvent.channel = { c.channel with isWriting := mask.writing } := by
  rw [updateEvent_channel]
  rfl

/-- `Connect` does not touch what the channel holds and what it has written. -/
theorem connect_channel (c : TcpClient) (sock : Option Int) (errno : ConnectErrno) :
    ∃ writing, (c.connect sock errno).2.channel = { c.channel with isWriting := writing } := by
  unfold connect
  split
  next => exact ⟨c.channel.isWriting, rfl⟩
  next =>
    have off := setEvents_channel { c with isAutoReconnect := true } kNoneEvent
    change (TcpClient.disableAll { c with isAutoReconnect := true }).channel = _ at off
    simp only
    generalize TcpClient.disableAll { c with isAutoReconnect := true } = d at off
    cases sock with
    | none => exact ⟨false, off⟩
    | some fd =>
      have closes : (TcpClient.doClose { d with fd := fd, kernel := d.kernel.socket fd }).channel =
          { c.channel with isWriting := false } := by
        refine (setEvents_channel { d with fd := fd, kernel := d.kernel.socket fd } kNoneEvent).trans ?_
        simp only [off, kNoneEvent]
      have writes : (enableWriting { d with fd := fd, kernel := d.kernel.socket fd, state := .kConnecting }).channel =
          { c.channel with isWriting := true } := by
        refine (setEvents_channel
          { d with fd := fd, kernel := d.kernel.socket fd, state := .kConnecting } _).trans ?_
        simp only [off]
      cases errno with
      | zero | einprogress | eintr | eisconn => exact ⟨true, writes⟩
      | eagain | eaddrinuse | eaddrnotavail | econnrefused | enetunreach => exact ⟨false, off⟩
      | eacces | eperm | eafnosupport | ealready | ebadf | efault | enotsock | other => exact ⟨false, closes⟩

theorem connect_ret (hstate : c.state = .kDisconnected) (sock : Option Int) (errno : ConnectErrno) :
    (c.connect sock errno).1 < 0 ↔ sock = none ∨ errno.isFatal = true := by
  rw [connect, if_neg (not_not.mpr hstate)]
  cases sock with
  | none => simp [createNoBlock]
  | some fd => cases errno <;> simp [createNoBlock, ConnectErrno.isFatal]

/-- `DoSend` fails only when nothing is pending and `::write` has taken nothing. -/
theorem doSend_failed (hout : outcome.Transfers) (failed : (c.doSend data outcome).1 < 0) :
    c.channel.sendBuf.readableBytes = 0 ∧ (c.doSend data outcome).2.channel.sendBuf = c.channel.sendBuf ∧
      (c.doSend data outcome).2.channel.accepted = c.channel.accepted := by
  unfold doSend at failed ⊢
  rw [(withChannel_channel c _).1]
  unfold TcpChannel.doSend at failed ⊢
  split at failed
  next empty =>
    simp only [if_pos empty]
    simp only at failed
    split at failed
    next => simp at failed
    next negative =>
      rw [if_neg negative]
      split at failed
      next broken =>
        rw [if_pos broken]
        refine ⟨empty, rfl, ?_⟩
        cases outcome with
        | wrote n =>
          have hn : n ≤ 2147479552 := hout
          refine absurd ?_ negative
          rw [WriteOutcome.ret, int32_eq_self (by omega) (by omega)]
          omega
        | failed errno => exact List.append_nil _
      next => simp at failed
  next => simp at failed

end TcpClient

namespace TracedClient

variable {t : TracedClient} {data : List UInt8} {outcome : WriteOutcome} {sock : Option Int} {errno : ConnectErrno}

/-- No byte of the data that `SendMsg` rejects is on the wire or is pending then or later. -/
def RejectsWhole (t : TracedClient) (data : List UInt8) (outcome : WriteOutcome) (sock : Option Int)
    (errno : ConnectErrno) : Prop :=
  (t.client.sendMsg data outcome sock errno).1 < 0 →
    (t.step (.sendMsg data outcome sock errno)).client.channel.accepted = t.client.channel.accepted ∧
      ∀ later : List ClientEvent,
        ∀ p ∈ (later.foldl TracedClient.step (t.step (.sendMsg data outcome sock errno))).queue, p.call ≠ t.calls

/-- The pending bytes are those of the send buffer, and earlier calls have brought them. -/
structure Pending (t : TracedClient) : Prop where
  wf : t.client.channel.sendBuf.Wf
  bytes : t.queue.map PendingByte.byte = t.client.channel.sendBuf.content
  earlier : ∀ p ∈ t.queue, p.call < t.calls

/-- The bytes that a client holds in a run are those of earlier calls. -/
theorem tracedAt_pending {events : List ClientEvent} (possible : PossibleClientRun sock events)
    (k : Nat) : (tracedAt sock events k).Pending := by
  have coherent := tracedAt_coherent possible k
  exact ⟨coherent.inv.wf, coherent.bytes, fun p hp => (tracedAt_origin sock events k p hp).1⟩

/-- What is not pending after its call is never pending again. -/
theorem gone_stays_gone {k : Nat} (hk : k < t.calls) (gone : ∀ p ∈ t.queue, p.call ≠ k) (later : List ClientEvent) :
    ∀ p ∈ (later.foldl TracedClient.step t).queue, p.call ≠ k := by
  induction later generalizing t with
  | nil => exact gone
  | cons e later ih =>
    refine ih (Nat.lt_succ_of_lt hk) fun p hp => ?_
    rcases List.mem_append.mp (List.mem_of_mem_drop hp) with old | new
    · exact gone p old
    · obtain ⟨b, -, rfl⟩ := List.mem_map.mp new
      exact (Nat.ne_of_lt hk).symm

theorem step_queue_of_takes_nil (earlier : ∀ p ∈ t.queue, p.call < t.calls) {e : ClientEvent}
    (none : t.client.takes e = []) : ∀ p ∈ (t.step e).queue, p.call ≠ t.calls := by
  intro p hp
  have hmem := List.mem_of_mem_drop hp
  simp only [offered, arrivals, none, List.zipIdx_nil, List.map_nil, List.append_nil] at hmem
  exact Nat.ne_of_lt (earlier p hmem)

theorem step_queue_of_empty {e : ClientEvent} (empty : (t.client.step e).channel.sendBuf.readableBytes = 0) :
    (t.step e).queue = [] := by
  simp only [TracedClient.step, empty, Nat.sub_zero, List.drop_length]

/-- The data that was appended before `Connect` failed is the end of what is pending. -/
theorem step_queue_of_appended (pending : t.Pending) (hdata : data.length < 9223372036854775808) (hne : data ≠ [])
    (hstate : t.client.state = .kDisconnected) (auto : t.client.isAutoReconnect = true) :
    ∃ p ∈ (t.step (.sendMsg data outcome sock errno)).queue, p.call = t.calls := by
  have htakes : t.client.takes (.sendMsg data outcome sock errno) = data := by
    simp [TcpClient.takes, auto]
  have hclient : (t.client.step (.sendMsg data outcome sock errno)).channel.sendBuf =
      (t.client.channel.appendSendBuf data).sendBuf := by
    obtain ⟨writing, hch⟩ := TcpClient.connect_channel (t.client.appendSendBuf data) sock errno
    simp only [TcpClient.step, TcpClient.sendMsg, hstate, auto, if_true, hch]
    rfl
  have hlen : 0 < (t.client.channel.appendSendBuf data).sendBuf.readableBytes := by
    rw [Buffer.readableBytes_eq (TcpChannel.appendSendBuf_spec pending.wf hdata).1]
    exact List.length_pos_of_ne_nil (TcpChannel.appendSendBuf_ne_nil pending.wf hdata hne)
  have harr : t.arrivals (.sendMsg data outcome sock errno) ≠ [] := by
    intro hnil
    have hmap := @arrivals_bytes t (.sendMsg data outcome sock errno)
    rw [hnil, htakes] at hmap
    exact hne hmap.symm
  have hoff : t.offered (.sendMsg data outcome sock errno) ≠ [] := List.append_ne_nil_of_right_ne_nil _ harr
  -- the last byte of the data is the last one pending, however much is dropped in front
  have hqueue : (t.step (.sendMsg data outcome sock errno)).queue ≠ [] := by
    simp only [TracedClient.step, hclient]
    have hpos := List.length_pos_of_ne_nil hoff
    exact List.ne_nil_of_length_pos (by rw [List.length_drop]; omega)
  refine ⟨_, List.getLast_mem hqueue, ?_⟩
  have hlast : (t.step (.sendMsg data outcome sock errno)).queue.getLast hqueue =
      (t.arrivals (.sendMsg data outcome sock errno)).getLast harr := by
    simp only [TracedClient.step, List.getLast_drop, offered]
    exact List.getLast_append_of_right_ne_nil _ _ harr
  obtain ⟨b, -, hb⟩ := List.mem_map.mp (List.getLast_mem harr)
  rw [hlast, ← hb]

theorem takes_nil_of_rejected (ok : ¬ (t.client.state = .kDisconnected ∧ t.client.isAutoReconnect = true ∧ data ≠ [] ∧
      (sock = none ∨ errno.isFatal = true))) (hstate : t.client.state = .kDisconnected)
    (failed : (t.client.sendMsg data outcome sock errno).1 < 0) :
    t.client.takes (.sendMsg data outcome sock errno) = [] := by
  cases auto : t.client.isAutoReconnect with
  | false => simp [TcpClient.takes, hstate, auto]
  | true =>
    simp only [TcpClient.sendMsg, hstate, auto, if_true] at failed
    have fails := (@TcpClient.connect_ret (t.client.appendSendBuf data) hstate sock errno).mp failed
    have hnil : data = [] := by
      by_contra hne
      exact ok ⟨hstate, auto, hne, fails⟩
    simp [TcpClient.takes, hnil]

theorem sendMsg_disconnected_accepted (hstate : t.client.state = .kDisconnected) :
    (t.client.sendMsg data outcome sock errno).2.channel.accepted = t.client.channel.accepted := by
  simp only [TcpClient.sendMsg, hstate]
  split
  next =>
    obtain ⟨writing, hch⟩ := TcpClient.connect_channel (t.client.appendSendBuf data) sock errno
    rw [hch]
    rfl
  next => rfl

/-- `SendMsg` rejects the whole data but for a client that appends it and cannot even start to connect. -/
theorem rejects_whole_iff (pending : t.Pending) (hdata : data.length < 9223372036854775808)
    (hout : outcome.Transfers) :
    t.RejectsWhole data outcome sock errno ↔
      ¬ (t.client.state = .kDisconnected ∧ t.client.isAutoReconnect = true ∧ data ≠ [] ∧
        (sock = none ∨ errno.isFatal = true)) := by
  constructor
  · rintro rejects ⟨hstate, auto, hne, fails⟩
    have failed : (t.client.sendMsg data outcome sock errno).1 < 0 := by
      simp only [TcpClient.sendMsg, hstate, auto, if_true]
      exact (@TcpClient.connect_ret (t.client.appendSendBuf data) hstate sock errno).mpr fails
    obtain ⟨p, hp, hcall⟩ := step_queue_of_appended pending hdata hne hstate auto
    exact (rejects failed).2 [] p hp hcall
  · intro ok failed
    have whole : (t.client.sendMsg data outcome sock errno).2.channel.accepted = t.client.channel.accepted ∧
        ∀ p ∈ (t.step (.sendMsg data outcome sock errno)).queue, p.call ≠ t.calls := by
      cases hstate : t.client.state with
      | kConnected =>
        simp only [TcpClient.sendMsg, hstate] at failed
        obtain ⟨empty, sendBuf_eq, accepted_eq⟩ := TcpClient.doSend_failed hout failed
        have hsend : t.client.sendMsg data outcome sock errno = t.client.doSend data outcome := by
          simp only [TcpClient.sendMsg, hstate]
        have hqueue : (t.step (.sendMsg data outcome sock errno)).queue = [] := by
          refine step_queue_of_empty ?_
          rw [TcpClient.step, hsend, sendBuf_eq]
          exact empty
        refine ⟨by rw [hsend, accepted_eq], ?_⟩
        rw [hqueue]
        simp
      | kConnecting =>
        simp [TcpClient.sendMsg, hstate] at failed
      | kDisconnected =>
        exact ⟨sendMsg_disconnected_accepted hstate,
          step_queue_of_takes_nil pending.earlier (takes_nil_of_rejected ok hstate failed)⟩
    exact ⟨whole.1, gone_stays_gone (Nat.lt_succ_self _) whole.2⟩

/-- A client that was told to disconnect. -/
theorem rejects_whole_iff_disconnected :
    ((tracedAt (some 3) [.disconnect] 1).client.sendMsg [7] (.wrote 0) (some 4) .zero).1 < 0 ∧
      (tracedAt (some 3) [.disconnect] 1).RejectsWhole [7] (.wrote 0) (some 4) .zero := by
  have possible : PossibleClientRun (some 3) [.disconnect] := by
    refine forall_event_iff.mpr ?_
    decide +kernel
  refine ⟨by decide +kernel, ?_⟩
  exact (rejects_whole_iff (tracedAt_pending possible 1) (by simp) (by simp [WriteOutcome.Transfers])).mpr
    (by decide +kernel)

/-- No socket is to be had: `SendMsg` fails, and the byte goes out with the next connection. -/
theorem rejected_byte_is_sent :
    ((tracedAt (some 3) [] 0).client.sendMsg [7] (.wrote 0) none .other).1 < 0 ∧
      ¬ (tracedAt (some 3) [] 0).RejectsWhole [7] (.wrote 0) none .other ∧
      (tracedAt (some 3) [.sendMsg [7] (.wrote 0) none .other, .connect (some 4) .einprogress, .canSend 0 (.wrote 1)]
        3).client.channel.accepted = [7] := by
  have failed : ((tracedAt (some 3) [] 0).client.sendMsg [7] (.wrote 0) none .other).1 < 0 := by decide +kernel
  refine ⟨failed, fun rejects => ?_, by decide +kernel⟩
  have gone := (rejects failed).2 [] ⟨0, 0, 7⟩ (by decide +kernel)
  exact gone rfl

end TracedClient

end Wddlib
