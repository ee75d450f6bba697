import Wddlib.TcpClientRun
import Mathlib.Data.List.Infix

namespace Wddlib

/-- A byte that waits to be sent, with the event that brought it and its place in the data of that call. -/
structure PendingByte where
  call : Nat
  offset : Nat
  byte : UInt8
  deriving DecidableEq, Repr

namespace TcpClient

/-- The data that a call leaves with the client; a client that does not reconnect rejects it. -/
def takes (c : TcpClient) : ClientEvent → List UInt8
  | .sendMsg data _ _ _ => if c.state = .kDisconnected ∧ c.isAutoReconnect = false then [] else data
  | _ => []

/-- The poller watches the client for input. -/
def reads (c : TcpClient) : Bool := (c.kernel.interest c.fd).any EventMask.reading

/-- `HandleEvent` up to the place where `HandleCanSend` may be called. -/
def polled (c : TcpClient) (iEvent : EpollBits) (read : ReadOutcome) : TcpClient :=
  let closes := iEvent.epollhup && !iEvent.epollin
  let c := if closes then c.handleClose.2 else if iEvent.epollerr then c.handleError.2 else c
  if iEvent.epollin || iEvent.epollpri || iEvent.epollrdhup then (c.handleCanRecv read).2 else c

/-- The channel at the moment at which `_Connected` sets `m_state` to `kConnected`, if it does. -/
def entry (c : TcpClient) : ClientEvent → Option TcpChannel
  | .canSend soError _ => if c.state = .kConnecting ∧ soError = 0 then some c.channel else none
  | .poll iEvent read soError _ =>
    let isError := iEvent.epollhup && !iEvent.epollin || iEvent.epollerr
    let c := c.polled iEvent read
    if (!isError && iEvent.epollout) = true ∧ c.state = .kConnecting ∧ soError = 0 then some c.channel else none
  | _ => none

end TcpClient

/-- Bytes arrive only where the poller watches for input, and not on a descriptor that the same event has
closed. -/
def ClientEvent.Reported (c : TcpClient) : ClientEvent → Prop
  | .canRecv read => read.isReceived = true → c.reads = true
  | .poll iEvent read _ _ =>
    (iEvent.epollin || iEvent.epollpri || iEvent.epollrdhup) = true → read.isReceived = true →
      c.reads = true ∧ (iEvent.epollhup && !iEvent.epollin) = false
  | _ => True

instance ClientEvent.decidableReported (c : TcpClient) : (e : ClientEvent) → Decidable (e.Reported c)
  | .canRecv read => inferInstanceAs (Decidable (read.isReceived = true → c.reads = true))
  | .poll iEvent read _ _ => inferInstanceAs (Decidable
    ((iEvent.epollin || iEvent.epollpri || iEvent.epollrdhup) = true → read.isReceived = true →
      c.reads = true ∧ (iEvent.epollhup && !iEvent.epollin) = false))
  | .connect .. | .disconnect | .sendMsg .. | .canSend .. | .error | .close => isTrue trivial

instance WriteOutcome.decidableWithin (len : Nat) : (outcome : WriteOutcome) → Decidable (outcome.Within len)
  | .wrote n => inferInstanceAs (Decidable (n ≤ len))
  | .failed _ => isTrue trivial

instance ClientEvent.decidablePossible : (e : ClientEvent) → Decidable e.Possible
  | .sendMsg data outcome _ _ =>
    inferInstanceAs (Decidable (data.length < 9223372036854775808 ∧ outcome.Within data.length))
  | .connect .. | .disconnect | .canSend .. | .canRecv _ | .error | .close | .poll .. => isTrue trivial

/-- A client with its pending bytes. What leaves the send buffer leaves it at the front. -/
structure TracedClient where
  client : TcpClient
  calls : Nat
  queue : List PendingByte

namespace TracedClient

def arrivals (t : TracedClient) (e : ClientEvent) : List PendingByte :=
  (t.client.takes e).zipIdx.map fun b => ⟨t.calls, b.2, b.1⟩

def offered (t : TracedClient) (e : ClientEvent) : List PendingByte := t.queue ++ t.arrivals e

def step (t : TracedClient) (e : ClientEvent) : TracedClient :=
  let client := t.client.step e
  ⟨client, t.calls + 1, (t.offered e).drop ((t.offered e).length - client.channel.sendBuf.readableBytes)⟩

/-- Nothing received is left, and what is left to send starts with the first byte of a message. -/
def AtBoundary (t : TracedClient) : Prop :=
  t.client.channel.recvBuf.readableBytes = 0 ∧ ∀ p ∈ t.queue.head?, p.offset = 0

end TracedClient

theorem Buffer.retrieve_readableBytes (b : Buffer) :
    (b.retrieve b.readableBytes).2.content = [] ∧ (b.retrieve b.readableBytes).2.readableBytes = 0 := by
  unfold Buffer.retrieve
  simp only [Nat.lt_irrefl, if_false]
  exact ⟨by simp [Buffer.content, slice], by simp [Buffer.readableBytes, sizeSub]⟩

/-- The channel holds the same bytes. -/
structure TcpChannel.Keeps (ch ch' : TcpChannel) : Prop where
  sendBuf_eq : ch'.sendBuf = ch.sendBuf
  recvBuf_eq : ch'.recvBuf = ch.recvBuf

namespace TcpChannel

variable {ch : TcpChannel} {data : List UInt8}

theorem Keeps.refl (ch : TcpChannel) : Keeps ch ch := ⟨rfl, rfl⟩

theorem Keeps.trans {ch' ch'' : TcpChannel} (h : Keeps ch ch') (h' : Keeps ch' ch'') : Keeps ch ch'' :=
  ⟨h'.sendBuf_eq.trans h.sendBuf_eq, h'.recvBuf_eq.trans h.recvBuf_eq⟩

theorem queueRemaining_suffix (wf : ch.sendBuf.Wf) (hdata : data.length < 9223372036854775808) :
    (ch.queueRemaining data data.length).sendBuf.content <:+ ch.sendBuf.content ++ data := by
  have appended : (ch.appendSendBuf data).sendBuf.content <:+ ch.sendBuf.content ++ data := by
    rcases (appendSendBuf_spec wf hdata).2 with h | h
    · rw [h]
    · rw [h]
      exact List.suffix_append _ _
  unfold queueRemaining
  split
  next =>
    simp only [List.take_length]
    split <;> exact appended
  next none =>
    rw [List.eq_nil_of_length_eq_zero (show data.length = 0 by omega), List.append_nil]

theorem doSend_suffix (wf : ch.sendBuf.Wf) {outcome : WriteOutcome} (hdata : data.length < 9223372036854775808)
    (within : outcome.Within data.length) :
    (ch.doSend data outcome).2.sendBuf.content <:+ ch.sendBuf.content ++ data := by
  unfold doSend
  split
  next empty =>
    have hnil : ch.sendBuf.content = [] := by
      rw [Buffer.readableBytes_eq wf] at empty
      exact List.eq_nil_of_length_eq_zero empty
    simp only
    split
    next nonneg =>
      rw [remaining_eq hdata within nonneg]
      refine (queueRemaining_suffix (by exact wf) (by simp; omega)).trans ?_
      simp only [hnil, List.nil_append]
      exact List.drop_suffix _ _
    next =>
      split
      · simp only [hnil]
        exact List.nil_suffix
      · exact queueRemaining_suffix wf hdata
  next => exact queueRemaining_suffix wf hdata

theorem doContineSend_suffix (wf : ch.sendBuf.Wf) (outcome : WriteOutcome) :
    (ch.doContineSend outcome).sendBuf.content <:+ ch.sendBuf.content := by
  unfold doContineSend
  split
  next =>
    simp only
    split
    next =>
      have hcontent := (Buffer.retrieve_spec wf (outcome.ret % 18446744073709551616).toNat).2
      split <;>
      · simp only [hcontent]
        exact List.drop_suffix _ _
    next => exact List.suffix_rfl
  next => exact List.suffix_rfl

end TcpChannel

namespace TcpClient

variable {c : TcpClient}

/-- The client is disconnected and holds no bytes. -/
structure Emptied (c : TcpClient) : Prop where
  state_eq : c.state = .kDisconnected
  sent_nil : c.channel.sendBuf.content = []
  received_zero : c.channel.recvBuf.readableBytes = 0

@[simp] theorem updateEvent_channel (c : TcpClient) : c.updateEvent.channel = c.channel := by
  unfold updateEvent
  split <;> split <;> rfl

@[simp] theorem updateEvent_state (c : TcpClient) : c.updateEvent.state = c.state := by
  unfold updateEvent
  split <;> split <;> rfl

theorem setEvents_keeps (c : TcpClient) (mask : EventMask) :
    TcpChannel.Keeps c.channel (c.setEvents mask).updateEvent.channel ∧
      (c.setEvents mask).updateEvent.state = c.state := by
  rw [updateEvent_channel, updateEvent_state]
  exact ⟨⟨rfl, rfl⟩, rfl⟩

theorem doClose_keeps (c : TcpClient) : TcpChannel.Keeps c.channel c.doClose.channel :=
  (setEvents_keeps c kNoneEvent).1

theorem withChannel_channel (c : TcpClient) (ch : TcpChannel) :
    (c.withChannel ch).channel = ch ∧ (c.withChannel ch).state = c.state := by
  unfold withChannel
  split
  · exact ⟨rfl, rfl⟩
  · simp

theorem connect_keeps (c : TcpClient) (sock : Option Int) (errno : ConnectErrno) :
    TcpChannel.Keeps c.channel (c.connect sock errno).2.channel ∧
      ((c.connect sock errno).2.state = .kConnected → c.state = .kConnected) := by
  unfold connect
  split
  next => exact ⟨.refl _, id⟩
  next disconnected =>
    rw [not_not] at disconnected
    obtain ⟨kept, state_eq⟩ := setEvents_keeps { c with isAutoReconnect := true } kNoneEvent
    have hstate : (disableAll { c with isAutoReconnect := true }).state = .kDisconnected :=
      state_eq.trans disconnected
    change TcpChannel.Keeps c.channel (disableAll { c with isAutoReconnect := true }).channel at kept
    generalize disableAll { c with isAutoReconnect := true } = d at kept hstate
    have unconnected : ∀ d' : TcpClient, TcpChannel.Keeps d.channel d'.channel → d'.state ≠ .kConnected →
        TcpChannel.Keeps c.channel d'.channel ∧ (d'.state = .kConnected → c.state = .kConnected) :=
      fun d' keeps hne => ⟨kept.trans keeps, fun h => absurd h hne⟩
    cases sock with
    | none => exact unconnected d (.refl _) (by simp [hstate])
    | some fd =>
      have connecting := unconnected
        (enableWriting { d with fd := fd, kernel := d.kernel.socket fd, state := .kConnecting })
        (setEvents_keeps { d with fd := fd, kernel := d.kernel.socket fd, state := .kConnecting } _).1
        (by simp [enableWriting, setEvents])
      have closed := unconnected (doClose { d with fd := fd, kernel := d.kernel.socket fd })
        (doClose_keeps { d with fd := fd, kernel := d.kernel.socket fd }) (by simp [doClose])
      have given := unconnected { d with fd := fd, kernel := d.kernel.socket fd, state := .kDisconnected }
        (.refl _) (by simp)
      cases errno <;> first | exact connecting | exact closed | exact given

theorem handleClose_empty (c : TcpClient) : c.handleClose.2.Emptied := by
  unfold handleClose
  simp only
  refine ⟨?_, (Buffer.retrieve_readableBytes _).1, (Buffer.retrieve_readableBytes _).2⟩
  split
  next => rfl
  next disconnected => exact not_not.mp disconnected

theorem dropReceived_recvBuf (ch : TcpChannel) :
    (dropReceived ch).recvBuf = ch.recvBuf ∨ (dropReceived ch).recvBuf.readableBytes = 0 := by
  unfold dropReceived
  split
  · exact .inr (Buffer.retrieve_readableBytes _).2
  · exact .inl rfl

/-- Received bytes come only while the client is connected. -/
structure Received (c c' : TcpClient) : Prop where
  state_eq : c'.state = c.state
  sendBuf_eq : c'.channel.sendBuf = c.channel.sendBuf
  recvBuf_or : c.state = .kConnected ∨ c'.channel.recvBuf = c.channel.recvBuf ∨
    c'.channel.recvBuf.readableBytes = 0

theorem Inv.connected_of_reads (h : c.Inv) (watched : c.reads = true) : c.state = .kConnected := by
  have maskOk := h.maskOk
  rw [reads, h.settled.tracked.interest_eq, wanted] at watched
  cases hs : c.state with
  | kConnected => rfl
  | kDisconnected =>
    simp only [MaskOk, hs] at maskOk
    simp [maskOk, kNoneEvent] at watched
  | kConnecting =>
    simp only [MaskOk, hs] at maskOk
    simp [maskOk, kNoneEvent] at watched

theorem handleCanRecv_cases (read : ReadOutcome) (arrives : read.isReceived = true → c.state = .kConnected) :
    (c.handleCanRecv read).2.Emptied ∨ Received c (c.handleCanRecv read).2 := by
  cases read with
  | closed => exact .inl (handleClose_empty _)
  | failed errno =>
    exact .inr ⟨rfl, (dropReceived_send c.channel).1, .inr (dropReceived_recvBuf c.channel)⟩
  | received chunk => exact .inr ⟨rfl, rfl, .inl (arrives rfl)⟩

theorem Received.refl (c : TcpClient) : Received c c := ⟨rfl, rfl, .inr (.inl rfl)⟩

theorem Emptied.received {c' : TcpClient} (h : c.Emptied) (received : Received c c') : c'.Emptied := by
  refine ⟨received.state_eq.trans h.state_eq, ?_, ?_⟩
  · rw [received.sendBuf_eq]
    exact h.sent_nil
  · rcases received.recvBuf_or with connected | same | none
    · rw [h.state_eq] at connected
      cases connected
    · rw [same]
      exact h.received_zero
    · exact none

theorem polled_cases (h : c.Inv) {iEvent : EpollBits} {read : ReadOutcome} {soError : Int} {write : WriteOutcome}
    (reported : (ClientEvent.poll iEvent read soError write).Reported c) :
    (c.polled iEvent read).Emptied ∨ Received c (c.polled iEvent read) := by
  unfold polled
  simp only
  cases closes : iEvent.epollhup && !iEvent.epollin with
  | true =>
    simp only [if_true]
    split
    next input =>
      have silent : read.isReceived = true → c.handleClose.2.state = .kConnected := by
        intro arrives
        simpa [closes] using (reported input arrives).2
      rcases handleCanRecv_cases read silent with emptied | received
      · exact .inl emptied
      · exact .inl ((handleClose_empty c).received received)
    next => exact .inl (handleClose_empty c)
  | false =>
    have same : (if iEvent.epollerr = true then c.handleError.2 else c) = c := ite_self c
    simp only [Bool.false_eq_true, if_false, same]
    split
    next input => exact handleCanRecv_cases read fun arrives => h.connected_of_reads (reported input arrives).1
    next => exact .inr (.refl c)

theorem connected_suffix (wf : c.channel.sendBuf.Wf) (outcome : WriteOutcome) :
    (c.connected 0 outcome).2.state = .kConnected ∧
      (c.connected 0 outcome).2.channel.sendBuf.content <:+ c.channel.sendBuf.content := by
  obtain ⟨kept, state_eq⟩ := setEvents_keeps { c with state := .kConnected }
    { events { c with state := .kConnected } with reading := true }
  change TcpChannel.Keeps c.channel (enableReading { c with state := .kConnected }).channel at kept
  change (enableReading { c with state := .kConnected }).state = .kConnected at state_eq
  simp only [connected, ne_eq, not_true_eq_false, if_false]
  generalize enableReading { c with state := .kConnected } = d at kept state_eq
  split
  next =>
    obtain ⟨kept', state_eq'⟩ := setEvents_keeps d { d.events with writing := true }
    have hbuf : d.enableWriting.channel.sendBuf = c.channel.sendBuf := (kept.trans kept').sendBuf_eq
    obtain ⟨hchannel, hstate⟩ := withChannel_channel d.enableWriting
      (d.enableWriting.channel.doContineSend outcome)
    simp only [doContineSend]
    rw [hchannel, hstate, ← hbuf]
    refine ⟨state_eq'.trans state_eq, TcpChannel.doContineSend_suffix ?_ outcome⟩
    rw [hbuf]
    exact wf
  next =>
    obtain ⟨kept', state_eq'⟩ := setEvents_keeps d { d.events with writing := false }
    have hbuf : d.disableWriting.channel.sendBuf = c.channel.sendBuf := (kept.trans kept').sendBuf_eq
    simp only [hbuf]
    exact ⟨state_eq'.trans state_eq, List.suffix_rfl⟩

theorem handleCanSend_cases (wf : c.channel.sendBuf.Wf) (soError : Int) (outcome : WriteOutcome) :
    let c' := (c.handleCanSend soError outcome).2
    (c'.state = .kConnected ∧ (c.state ≠ .kConnected → c.state = .kConnecting ∧ soError = 0) ∧
        c'.channel.sendBuf.content <:+ c.channel.sendBuf.content) ∨
      (c.state ≠ .kConnected ∧ c'.state ≠ .kConnected ∧ TcpChannel.Keeps c.channel c'.channel) := by
  unfold handleCanSend
  cases hs : c.state with
  | kDisconnected => exact .inr ⟨by simp, by simp [hs], .refl _⟩
  | kConnected =>
    left
    simp only [doContineSend]
    obtain ⟨channel_eq, state_eq⟩ := withChannel_channel c (c.channel.doContineSend outcome)
    rw [channel_eq, state_eq]
    exact ⟨hs, by simp, TcpChannel.doContineSend_suffix wf outcome⟩
  | kConnecting =>
    by_cases healthy : soError = 0
    · subst healthy
      obtain ⟨state_eq, suffix⟩ := connected_suffix wf outcome
      exact .inl ⟨state_eq, by simp, suffix⟩
    · simp only [connected, ne_eq, healthy, not_false_eq_true, if_true]
      exact .inr ⟨by simp, by simp [doClose], doClose_keeps c⟩

/-- The client is connected after the event; it may have sent bytes from the front. -/
structure Streams (c : TcpClient) (e : ClientEvent) (c' : TcpClient) : Prop where
  state_eq : c'.state = .kConnected
  entered : c.state ≠ .kConnected → (c.entry e).isSome = true
  suffix : c'.channel.sendBuf.content <:+ c.channel.sendBuf.content ++ c.takes e

/-- The client is not connected after the event, and it has sent nothing. -/
structure Rests (c : TcpClient) (e : ClientEvent) (c' : TcpClient) : Prop where
  state_ne : c'.state ≠ .kConnected
  outside : c.state ≠ .kConnected ∨ e = .disconnect
  recvBuf_or : c'.channel.recvBuf = c.channel.recvBuf ∨ c'.channel.recvBuf.readableBytes = 0
  content_or : c'.channel.sendBuf.content = c.channel.sendBuf.content ++ c.takes e ∨
    c'.channel.sendBuf.content = c.takes e

theorem Received.streams_or_rests {c' : TcpClient} {e : ClientEvent} (h : Received c c') (htakes : c.takes e = []) :
    Streams c e c' ∨ Rests c e c' := by
  have hbuf := h.sendBuf_eq
  have hstate := h.state_eq
  by_cases connected : c.state = .kConnected
  · refine .inl ⟨hstate.trans connected, fun hne => absurd connected hne, ?_⟩
    rw [hbuf, htakes, List.append_nil]
  · refine .inr ⟨by rwa [hstate], .inl connected, h.recvBuf_or.resolve_left connected, .inl ?_⟩
    rw [hbuf, htakes, List.append_nil]

theorem connect_streams_or_rests (c : TcpClient) (sock : Option Int) (errno : ConnectErrno) :
    Streams c (.connect sock errno) (c.connect sock errno).2 ∨
      Rests c (.connect sock errno) (c.connect sock errno).2 := by
  obtain ⟨kept, enters⟩ := connect_keeps c sock errno
  by_cases connected : c.state = .kConnected
  · have unchanged : (c.connect sock errno).2 = c := by simp [connect, connected]
    rw [unchanged]
    exact (Received.refl c).streams_or_rests rfl
  · refine .inr ⟨fun h => connected (enters h), .inl connected, .inl kept.recvBuf_eq, .inl ?_⟩
    rw [kept.sendBuf_eq]
    exact (List.append_nil _).symm

theorem sendMsg_streams_or_rests (h : c.Inv) {data : List UInt8} {outcome : WriteOutcome}
    (hdata : data.length < 9223372036854775808) (within : outcome.Within data.length) (sock : Option Int)
    (errno : ConnectErrno) :
    Streams c (.sendMsg data outcome sock errno) (c.sendMsg data outcome sock errno).2 ∨
      Rests c (.sendMsg data outcome sock errno) (c.sendMsg data outcome sock errno).2 := by
  unfold sendMsg
  cases hs : c.state with
  | kConnected =>
    left
    obtain ⟨channel_eq, state_eq⟩ := withChannel_channel c (c.channel.doSend data outcome).2
    refine ⟨state_eq.trans hs, fun hne => absurd hs hne, ?_⟩
    simp only [doSend, channel_eq, takes, hs]
    exact TcpChannel.doSend_suffix h.wf hdata within
  | kConnecting =>
    right
    refine ⟨by simp [appendSendBuf, hs], .inl (by simp [hs]), .inl rfl, ?_⟩
    simp only [takes, hs]
    exact (TcpChannel.appendSendBuf_spec h.wf hdata).2
  | kDisconnected =>
    right
    cases auto : c.isAutoReconnect with
    | true =>
      simp only [if_true]
      obtain ⟨kept, enters⟩ := connect_keeps (c.appendSendBuf data) sock errno
      have outside : (c.appendSendBuf data).state ≠ .kConnected := by simp [appendSendBuf, hs]
      refine ⟨fun hc => outside (enters hc), .inl (by simp [hs]), .inl kept.recvBuf_eq, ?_⟩
      rw [kept.sendBuf_eq]
      simp only [takes, auto, Bool.true_eq_false, and_false, if_false]
      exact (TcpChannel.appendSendBuf_spec h.wf hdata).2
    | false =>
      refine ⟨by simp [hs], .inl (by simp [hs]), .inl rfl, .inl ?_⟩
      simp [takes, hs, auto]

/-- `HandleCanSend` after bytes may have been received. -/
theorem Received.handleCanSend {d : TcpClient} {e : ClientEvent} (h : Received c d) (wf : c.channel.sendBuf.Wf)
    (htakes : c.takes e = []) {soError : Int} {write : WriteOutcome}
    (enters : d.state = .kConnecting → soError = 0 → (c.entry e).isSome = true) :
    Streams c e (d.handleCanSend soError write).2 ∨ Rests c e (d.handleCanSend soError write).2 := by
  have hstate := h.state_eq
  have hbuf := h.sendBuf_eq
  rcases handleCanSend_cases (hbuf ▸ wf) soError write with ⟨connected, entered, suffix⟩ | ⟨outside, hne, kept⟩
  · left
    refine ⟨connected, ?_, ?_⟩
    · intro hne
      rw [← hstate] at hne
      exact enters (entered hne).1 (entered hne).2
    · rwa [htakes, List.append_nil, ← hbuf]
  · right
    rw [hstate] at outside
    refine ⟨hne, .inl outside, ?_, .inl ?_⟩
    · rw [kept.recvBuf_eq]
      exact h.recvBuf_or.resolve_left outside
    · rw [kept.sendBuf_eq, hbuf, htakes, List.append_nil]

/-- What an event does to the bytes that the client holds. -/
theorem step_cases (h : c.Inv) {e : ClientEvent} (possible : e.Possible) (reported : e.Reported c) :
    Streams c e (c.step e) ∨ (c.step e).Emptied ∨ Rests c e (c.step e) := by
  cases e with
  | connect sock errno => exact (connect_streams_or_rests c sock errno).imp_right .inr
  | disconnect =>
    have kept : TcpChannel.Keeps c.channel c.disconnect.2.channel := doClose_keeps { c with isAutoReconnect := false }
    refine .inr (.inr ⟨by simp [step, disconnect, doClose], .inr rfl, .inl kept.recvBuf_eq, .inl ?_⟩)
    rw [step, kept.sendBuf_eq]
    exact (List.append_nil _).symm
  | sendMsg data outcome sock errno =>
    exact (sendMsg_streams_or_rests h possible.1 possible.2 sock errno).imp_right .inr
  | canSend soError outcome =>
    refine ((Received.refl c).handleCanSend h.wf rfl ?_).imp_right .inr
    intro connecting healthy
    simp [entry, connecting, healthy]
  | canRecv read =>
    rcases handleCanRecv_cases read fun arrives => h.connected_of_reads (reported arrives) with emptied | received
    · exact .inr (.inl emptied)
    · exact (received.streams_or_rests rfl).imp_right .inr
  | error => exact ((Received.refl c).streams_or_rests rfl).imp_right .inr
  | close => exact .inr (.inl (handleClose_empty c))
  | poll iEvent read soError write =>
    have step_eq : c.step (.poll iEvent read soError write) =
        if !(iEvent.epollhup && !iEvent.epollin || iEvent.epollerr) && iEvent.epollout
          then ((c.polled iEvent read).handleCanSend soError write).2 else c.polled iEvent read := rfl
    rw [step_eq]
    rcases polled_cases h reported with emptied | received
    · right
      left
      split
      · simp only [TcpClient.handleCanSend, emptied.state_eq]
        exact emptied
      · exact emptied
    · split
      next sends =>
        refine (received.handleCanSend h.wf rfl ?_).imp_right .inr
        intro connecting healthy
        simp only [entry, sends, connecting, healthy, and_self, if_true, Option.isSome_some]
      next => exact (received.streams_or_rests rfl).imp_right .inr

theorem step_suffix (h : c.Inv) {e : ClientEvent} (possible : e.Possible) (reported : e.Reported c) :
    (c.step e).channel.sendBuf.content <:+ c.channel.sendBuf.content ++ c.takes e := by
  rcases step_cases h possible reported with streams | emptied | rests
  · exact streams.suffix
  · rw [emptied.sent_nil]
    exact List.nil_suffix
  · rcases rests.content_or with all | new
    · rw [all]
    · rw [new]
      exact List.suffix_append _ _

/-- What the client holds when it becomes connected is what it held before the event. -/
theorem entry_received (h : c.Inv) {e : ClientEvent} (reported : e.Reported c) {ch : TcpChannel}
    (enters : c.entry e = some ch) :
    c.state = .kConnecting ∧ ch.sendBuf = c.channel.sendBuf ∧
      (ch.recvBuf = c.channel.recvBuf ∨ ch.recvBuf.readableBytes = 0) := by
  cases e with
  | canSend soError outcome =>
    simp only [entry, Option.ite_none_right_eq_some, Option.some.injEq] at enters
    obtain ⟨⟨connecting, -⟩, rfl⟩ := enters
    exact ⟨connecting, rfl, .inl rfl⟩
  | poll iEvent read soError write =>
    simp only [entry, Option.ite_none_right_eq_some, Option.some.injEq] at enters
    obtain ⟨⟨-, connecting, -⟩, rfl⟩ := enters
    rcases polled_cases h reported with emptied | received
    · rw [emptied.state_eq] at connecting
      cases connecting
    · rw [received.state_eq] at connecting
      refine ⟨connecting, received.sendBuf_eq, received.recvBuf_or.resolve_left ?_⟩
      simp [connecting]
  | connect | disconnect | sendMsg | canRecv | error | close => cases enters

end TcpClient

namespace TracedClient

variable {t : TracedClient} {e : ClientEvent}

/-- The pending bytes are those of the send buffer. -/
structure Coherent (t : TracedClient) : Prop where
  inv : t.client.Inv
  bytes : t.queue.map PendingByte.byte = t.client.channel.sendBuf.content

theorem arrivals_bytes : (t.arrivals e).map PendingByte.byte = t.client.takes e := by
  rw [arrivals, List.map_map]
  exact List.zipIdx_map_fst 0 _

theorem arrivals_head : ∀ p ∈ (t.arrivals e).head?, p.offset = 0 := by
  intro p hp
  unfold arrivals at hp
  cases htakes : t.client.takes e with
  | nil => simp [htakes] at hp
  | cons b data =>
    simp only [htakes, List.zipIdx_cons, List.map_cons, List.head?_cons, Option.mem_some_iff] at hp
    rw [← hp]

theorem Coherent.offered_bytes (h : t.Coherent) :
    (t.offered e).map PendingByte.byte = t.client.channel.sendBuf.content ++ t.client.takes e := by
  rw [offered, List.map_append, h.bytes, arrivals_bytes]

theorem Coherent.step (h : t.Coherent) (possible : e.Possible) (reported : e.Reported t.client) :
    (t.step e).Coherent := by
  have inv := h.inv.step possible
  refine ⟨inv, ?_⟩
  have length_eq := congrArg List.length (@Coherent.offered_bytes t e h)
  rw [List.length_map] at length_eq
  have suffix := TcpClient.step_suffix h.inv possible reported
  rw [List.suffix_iff_eq_drop] at suffix
  simp only [TracedClient.step]
  rw [List.map_drop, h.offered_bytes, length_eq, Buffer.readableBytes_eq inv.wf]
  exact suffix.symm

theorem offered_head (h : ∀ p ∈ t.queue.head?, p.offset = 0) : ∀ p ∈ (t.offered e).head?, p.offset = 0 := by
  intro p hp
  rw [offered, List.head?_append] at hp
  cases hq : t.queue.head? with
  | some q =>
    rw [hq] at h hp
    exact h p hp
  | none =>
    rw [hq] at hp
    exact arrivals_head p hp

/-- What an unconnected client has pending is what it had and what it took, or, when there was too much, only
what it took. -/
theorem Coherent.step_queue (h : t.Coherent) (possible : e.Possible)
    (rests : TcpClient.Rests t.client e (t.client.step e)) :
    (t.step e).queue = t.offered e ∨ (t.step e).queue = t.arrivals e := by
  simp only [TracedClient.step]
  rw [Buffer.readableBytes_eq (h.inv.step possible).wf]
  rcases rests.content_or with all | new
  · left
    rw [all, ← h.offered_bytes, List.length_map, Nat.sub_self, List.drop_zero]
  · right
    rw [new, ← arrivals_bytes, List.length_map, offered, List.length_append, Nat.add_sub_cancel, List.drop_left]

/-- A step that leaves the client unconnected leaves it on a boundary if it was on one. -/
theorem Coherent.step_atBoundary (h : t.Coherent) (possible : e.Possible) (reported : e.Reported t.client)
    (rest : (t.client.step e).state ≠ .kConnected)
    (before : t.client.state ≠ .kConnected ∨ e = .disconnect → t.AtBoundary) : (t.step e).AtBoundary := by
  rcases TcpClient.step_cases h.inv possible reported with streams | emptied | rests
  · exact absurd streams.state_eq rest
  · refine ⟨emptied.received_zero, ?_⟩
    have bytes := (h.step possible reported).bytes
    rw [show (t.step e).client.channel.sendBuf.content = [] from emptied.sent_nil, List.map_eq_nil_iff] at bytes
    simp [bytes]
  · obtain ⟨received, head⟩ := before rests.outside
    constructor
    · rcases rests.recvBuf_or with same | none
      · change (t.client.step e).channel.recvBuf.readableBytes = 0
        rw [same]
        exact received
      · exact none
    · rcases h.step_queue possible rests with all | new
      · rw [all]
        exact offered_head head
      · rw [new]
        exact arrivals_head

end TracedClient

/-- Every pending byte is one of the data of a call of `SendMsg`. -/
def TracedClient.Origin (events : List ClientEvent) (t : TracedClient) : Prop :=
  ∀ p ∈ t.queue, p.call < t.calls ∧
    ∃ data outcome sock errno, events[p.call]? = some (.sendMsg data outcome sock errno) ∧
      data[p.offset]? = some p.byte

theorem TracedClient.Origin.step {events : List ClientEvent} {t : TracedClient} {e : ClientEvent}
    (h : t.Origin events) (he : events[t.calls]? = some e) : (t.step e).Origin events := by
  intro p hp
  change p.call < t.calls + 1 ∧ _
  rcases List.mem_append.mp (List.mem_of_mem_drop hp) with old | new
  · exact ⟨(h p old).1.trans (Nat.lt_succ_self _), (h p old).2⟩
  · obtain ⟨⟨b, i⟩, hmem, rfl⟩ := List.mem_map.mp new
    rw [List.mk_mem_zipIdx_iff_getElem?] at hmem
    refine ⟨Nat.lt_succ_self _, ?_⟩
    cases e with
    | sendMsg data outcome sock errno =>
      refine ⟨data, outcome, sock, errno, he, ?_⟩
      simp only [TcpClient.takes] at hmem
      split at hmem
      · simp at hmem
      · exact hmem
    | connect | disconnect | canSend | canRecv | error | close | poll => cases hmem

theorem TcpClient.create_channel (sock : Option Int) : (create sock).channel = .create := by
  cases sock <;> rfl

/-- The client with its pending bytes after the first `k` events. -/
def tracedAt (sock : Option Int) (events : List ClientEvent) (k : Nat) : TracedClient :=
  stateAt TracedClient.step ⟨.create sock, 0, []⟩ events k

/-- Every event can happen where it happens. -/
def PossibleClientRun (sock : Option Int) (events : List ClientEvent) : Prop :=
  ∀ (k : Nat) (e : ClientEvent), events[k]? = some e → e.Possible ∧ e.Reported (clientAt sock events k)

/-- Every `Disconnect` of a connected client finds nothing half received and nothing half sent. -/
def DisconnectsAtBoundary (sock : Option Int) (events : List ClientEvent) : Prop :=
  ∀ k : Nat, events[k]? = some .disconnect → (clientAt sock events k).state = .kConnected →
    (tracedAt sock events k).AtBoundary

section Run

variable {sock : Option Int} {events : List ClientEvent} {k : Nat}

theorem tracedAt_client (sock : Option Int) (events : List ClientEvent) (k : Nat) :
    (tracedAt sock events k).client = clientAt sock events k := by
  induction k with
  | zero => simp only [tracedAt, clientAt, stateAt_zero]
  | succ k ih =>
    unfold tracedAt clientAt at ih ⊢
    cases he : events[k]? with
    | none => rw [stateAt_end he, stateAt_end he, ih]
    | some e =>
      rw [stateAt_succ he, stateAt_succ he, ← ih]
      rfl

theorem tracedAt_calls (hk : k ≤ events.length) : (tracedAt sock events k).calls = k := by
  induction k with
  | zero => simp only [tracedAt, stateAt_zero]
  | succ k ih =>
    have he : events[k]? = some events[k] := List.getElem?_eq_getElem (by omega)
    unfold tracedAt at ih ⊢
    rw [stateAt_succ he]
    simp only [TracedClient.step]
    rw [ih (by omega)]

theorem tracedAt_coherent (possible : PossibleClientRun sock events) (k : Nat) : (tracedAt sock events k).Coherent := by
  refine stateAt_induct ?_ ?_ k
  · refine ⟨TcpClient.create_inv sock, ?_⟩
    rw [TcpClient.create_channel]
    exact (Buffer.content_create 1024).symm
  · intro k e he coherent
    obtain ⟨hpossible, reported⟩ := possible k e he
    rw [← tracedAt_client] at reported
    exact coherent.step hpossible reported

theorem tracedAt_origin (sock : Option Int) (events : List ClientEvent) (k : Nat) :
    (tracedAt sock events k).Origin events := by
  refine stateAt_induct ?_ ?_ k
  · simp [TracedClient.Origin]
  · intro k e he origin
    refine origin.step ?_
    have calls_eq := @tracedAt_calls sock events k (List.getElem?_eq_some_iff.mp he).1.le
    unfold tracedAt at calls_eq
    rw [calls_eq]
    exact he

/-- Outside a connection the client is on a boundary. -/
theorem tracedAt_atBoundary (possible : PossibleClientRun sock events) (careful : DisconnectsAtBoundary sock events)
    (k : Nat) (outside : (clientAt sock events k).state ≠ .kConnected) : (tracedAt sock events k).AtBoundary := by
  induction k with
  | zero =>
    simp only [tracedAt, stateAt_zero]
    refine ⟨?_, by simp⟩
    rw [TcpClient.create_channel]
    decide +kernel
  | succ k ih =>
    cases he : events[k]? with
    | none =>
      unfold clientAt at outside ih
      unfold tracedAt at ih ⊢
      rw [stateAt_end he] at outside ⊢
      exact ih outside
    | some e =>
      have coherent := tracedAt_coherent possible k
      obtain ⟨hpossible, reported⟩ := possible k e he
      unfold clientAt at outside
      rw [stateAt_succ he] at outside
      change ((clientAt sock events k).step e).state ≠ .kConnected at outside
      have step_eq : tracedAt sock events (k + 1) = (tracedAt sock events k).step e := stateAt_succ he
      rw [← tracedAt_client] at reported outside
      rw [step_eq]
      refine coherent.step_atBoundary hpossible reported outside ?_
      intro before
      by_cases connected : (clientAt sock events k).state = .kConnected
      · rw [tracedAt_client] at before
        rw [before.resolve_left (not_not.mpr connected)] at he
        exact careful k he connected
      · exact ih connected

/-- Where every `Disconnect` of a connected client finds nothing half received and nothing half sent, a client
that becomes connected has received nothing, and the first byte that it will send is the first byte of the
data of a call of `SendMsg`. -/
theorem connects_on_boundary (possible : PossibleClientRun sock events) (careful : DisconnectsAtBoundary sock events)
    {k : Nat} {e : ClientEvent} (he : events[k]? = some e) :
    let c := clientAt sock events k
    (c.state ≠ .kConnected → (c.step e).state = .kConnected → (c.entry e).isSome = true) ∧
    ∀ ch, c.entry e = some ch →
      ch.recvBuf.readableBytes = 0 ∧
      ch.sendBuf.content = (tracedAt sock events k).queue.map PendingByte.byte ∧
      ∀ byte, ch.sendBuf.content.head? = some byte → ∃ call data outcome s errno,
        (tracedAt sock events k).queue.head? = some ⟨call, 0, byte⟩ ∧ call < k ∧
        events[call]? = some (.sendMsg data outcome s errno) ∧ data.head? = some byte := by
  intro c
  obtain ⟨hpossible, reported⟩ := possible k e he
  have coherent := tracedAt_coherent possible k
  have client_eq := tracedAt_client sock events k
  have inv : c.Inv := by
    have inv := coherent.inv
    rwa [client_eq] at inv
  have bytes : (tracedAt sock events k).queue.map PendingByte.byte = c.channel.sendBuf.content := by
    rw [coherent.bytes, client_eq]
  constructor
  · intro outside connected
    rcases TcpClient.step_cases inv hpossible reported with streams | emptied | rests
    · exact streams.entered outside
    · rw [emptied.state_eq] at connected
      cases connected
    · exact absurd connected rests.state_ne
  · intro ch enters
    obtain ⟨connecting, sendBuf_eq, recvBuf_or⟩ := TcpClient.entry_received inv reported enters
    have outside : c.state ≠ .kConnected := by simp [connecting]
    obtain ⟨received, head⟩ := tracedAt_atBoundary possible careful k outside
    rw [client_eq] at received
    refine ⟨?_, ?_, ?_⟩
    · rcases recvBuf_or with same | none
      · rw [same]
        exact received
      · exact none
    · rw [sendBuf_eq, bytes]
    · intro byte first
      rw [sendBuf_eq, ← bytes, List.head?_map, Option.map_eq_some_iff] at first
      obtain ⟨p, hp, rfl⟩ := first
      have offset_eq := head p hp
      obtain ⟨hcall, data, outcome, s, errno, hsend, hbyte⟩ :=
        tracedAt_origin sock events k p (List.mem_of_mem_head? hp)
      rw [tracedAt_calls (List.getElem?_eq_some_iff.mp he).1.le] at hcall
      refine ⟨p.call, data, outcome, s, errno, ?_, hcall, hsend, ?_⟩
      · rw [hp, ← offset_eq]
      · rw [List.head?_eq_getElem?, ← offset_eq]
        exact hbyte

end Run

/-- The descriptor can be written. -/
def writable : EpollBits := ⟨false, false, true, false, false, false⟩

/-- A message is written in full before the client disconnects; another is sent while it connects again. -/
def flushedRun : List ClientEvent :=
  [.sendMsg [1, 2, 3] (.wrote 0) (some 7) .einprogress, .poll writable .closed 0 (.wrote 3), .disconnect,
    .connect (some 8) .einprogress, .sendMsg [4, 5] (.wrote 0) none .zero, .poll writable .closed 0 (.wrote 1)]

theorem connects_on_boundary_flushed :
    PossibleClientRun none flushedRun ∧ DisconnectsAtBoundary none flushedRun ∧
    ∃ ch call, (clientAt none flushedRun 5).entry (.poll writable .closed 0 (.wrote 1)) = some ch ∧
      ch.sendBuf.content = [4, 5] ∧ ch.recvBuf.readableBytes = 0 ∧ call < 5 ∧
      (tracedAt none flushedRun 5).queue.head? = some ⟨call, 0, 4⟩ := by
  have possible : PossibleClientRun none flushedRun := forall_event_iff.mpr (by decide +kernel)
  have careful : DisconnectsAtBoundary none flushedRun := by
    have each : ∀ (k : Nat) (e : ClientEvent), flushedRun[k]? = some e → e = .disconnect →
        (clientAt none flushedRun k).state = .kConnected → (tracedAt none flushedRun k).AtBoundary := by
      rw [forall_event_iff]
      unfold TracedClient.AtBoundary
      decide +kernel
    intro k he
    exact each k _ he rfl
  obtain ⟨-, entering⟩ :=
    @connects_on_boundary none flushedRun possible careful 5 (.poll writable .closed 0 (.wrote 1)) rfl
  have content : ((clientAt none flushedRun 5).entry (.poll writable .closed 0 (.wrote 1))).map
      (fun ch => ch.sendBuf.content) = some [4, 5] := by decide +kernel
  obtain ⟨ch, enters, content_eq⟩ := Option.map_eq_some_iff.mp content
  obtain ⟨received, -, first⟩ := entering ch enters
  obtain ⟨call, data, outcome, s, errno, head, hcall, -⟩ := first 4 (by rw [content_eq]; rfl)
  exact ⟨possible, careful, ch, call, enters, content_eq, received, hcall, head⟩

/-- The client disconnects when one byte of three has been written, and connects again. -/
def leakingRun : List ClientEvent :=
  [.sendMsg [1, 2, 3] (.wrote 0) (some 7) .einprogress, .poll writable .closed 0 (.wrote 1), .disconnect,
    .connect (some 8) .einprogress, .poll writable .closed 0 (.wrote 2)]

theorem connects_inside_message :
    PossibleClientRun none leakingRun ∧
    ((clientAt none leakingRun 4).entry (.poll writable .closed 0 (.wrote 2))).map (fun ch => ch.sendBuf.content) =
      some [2, 3] ∧
    (tracedAt none leakingRun 4).queue.head? = some ⟨0, 1, 2⟩ ∧
    ∀ e ∈ leakingRun, ∀ data outcome s errno, e = .sendMsg data outcome s errno → data.head? ≠ some 2 := by
  refine ⟨forall_event_iff.mpr (by decide +kernel), by decide +kernel, by decide +kernel, ?_⟩
  rintro _ he data outcome s errno rfl
  simp only [leakingRun, List.mem_cons, List.not_mem_nil, ClientEvent.sendMsg.injEq, reduceCtorEq, or_false] at he
  rw [he.1]
  decide

end Wddlib
