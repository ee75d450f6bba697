import Wddlib.TcpClient
import Wddlib.RunPrefix

namespace Wddlib

/-- The client has registered `fd` with `mask`, if it has one, and nothing else. -/
structure EpollKernel.Tracks (k : EpollKernel) (fd : Int) (mask : Option EventMask) : Prop where
  only : ∀ other, k.interest other = if other = fd then mask else none
  opened : mask ≠ none → k.isOpen fd = true
  last : ∀ other m, k.lastCtl = some (other, some m) ↔ other = fd ∧ mask = some m

namespace EpollKernel

variable {k : EpollKernel} {fd fd' : Int} {mask m : EventMask}

theorem Tracks.interest_eq {mask : Option EventMask} (h : k.Tracks fd mask) : k.interest fd = mask := by
  rw [h.only, if_pos rfl]

/-- What a request that succeeds leaves of the descriptor. -/
theorem Tracks.replace {old left : Option EventMask} (h : k.Tracks fd old) (opened : k.isOpen fd = true) :
    Tracks { k with interest := Function.update k.interest fd left, lastCtl := some (fd, left) } fd left := by
  refine ⟨?_, fun _ => opened, ?_⟩
  · intro other
    by_cases heq : other = fd
    · simp [heq]
    · simp [heq, h.only]
  · intro other m
    simp [eq_comm]

theorem Tracks.add (h : k.Tracks fd none) (opened : k.isOpen fd = true) :
    (k.epollCtl .add fd mask).Tracks fd (some mask) := by
  have legal : k.legalCtl .add fd = true := by simp [legalCtl, opened, h.interest_eq]
  simp only [epollCtl, legal, if_true]
  exact h.replace opened

theorem Tracks.mod (h : k.Tracks fd (some m)) : (k.epollCtl .mod fd mask).Tracks fd (some mask) := by
  have opened := h.opened (by simp)
  have legal : k.legalCtl .mod fd = true := by simp [legalCtl, opened, h.interest_eq]
  simp only [epollCtl, legal, if_true]
  exact h.replace opened

theorem Tracks.del (h : k.Tracks fd (some m)) : (k.epollCtl .del fd mask).Tracks fd none := by
  have opened := h.opened (by simp)
  have legal : k.legalCtl .del fd = true := by simp [legalCtl, opened, h.interest_eq]
  simp only [epollCtl, legal, if_true]
  exact h.replace opened

theorem Tracks.close (h : k.Tracks fd none) : (k.close fd).Tracks fd none := by
  refine ⟨?_, by simp, h.last⟩
  intro other
  by_cases heq : other = fd
  · simp [EpollKernel.close, heq]
  · simp [EpollKernel.close, heq, h.only]

/-- A client that has registered nothing may take another descriptor. -/
theorem Tracks.socket (h : k.Tracks fd none) : (k.socket fd').Tracks fd' none := by
  refine ⟨?_, by simp, by simpa [EpollKernel.socket] using h.last⟩
  intro other
  simp [EpollKernel.socket, h.only]

end EpollKernel

/-- The channel wants to write exactly when it has something to write. -/
structure TcpChannel.Flushing (ch : TcpChannel) : Prop where
  wf : ch.sendBuf.Wf
  writing : ch.isWriting = decide (ch.sendBuf.content ≠ [])

/-- `::write` of `len` bytes fails or takes at most that many. -/
def WriteOutcome.Within (len : Nat) : WriteOutcome → Prop
  | wrote n => n ≤ len
  | failed _ => True

namespace TcpChannel

variable {ch : TcpChannel} {data : List UInt8}

/-- What was pending is kept in front of the data, unless there was too much of it. -/
theorem appendSendBuf_spec (wf : ch.sendBuf.Wf) (hdata : data.length < 9223372036854775808) :
    (ch.appendSendBuf data).sendBuf.Wf ∧
      ((ch.appendSendBuf data).sendBuf.content = ch.sendBuf.content ++ data ∨
        (ch.appendSendBuf data).sendBuf.content = data) := by
  have hread := Buffer.readableBytes_eq wf
  unfold appendSendBuf
  split
  next =>
    obtain ⟨hwf, hcontent⟩ := Buffer.retrieve_spec wf ch.sendBuf.readableBytes
    rw [hread, List.drop_length] at hcontent
    obtain ⟨hwf', hcontent'⟩ := @Buffer.append_spec _ data hwf (by rw [hread, hcontent]; simp; omega)
    rw [hread, hcontent, List.nil_append] at hcontent'
    refine ⟨hwf', .inr ?_⟩
    rw [hread]
    exact hcontent'
  next short =>
    unfold kMaxSendBufSize at short
    obtain ⟨hwf', hcontent'⟩ := @Buffer.append_spec _ data wf (by omega)
    exact ⟨hwf', .inl hcontent'⟩

theorem appendSendBuf_ne_nil (wf : ch.sendBuf.Wf) (hdata : data.length < 9223372036854775808) (hne : data ≠ []) :
    (ch.appendSendBuf data).sendBuf.content ≠ [] := by
  rcases (appendSendBuf_spec wf hdata).2 with all | new
  · simp [all, hne]
  · rw [new]
    exact hne

/-- `remaining` is the length of what a direct `::write` has left. -/
theorem remaining_eq {outcome : WriteOutcome} (hdata : data.length < 9223372036854775808)
    (within : outcome.Within data.length) (nonneg : int32 outcome.ret ≥ 0) :
    sizeSub data.length (int32 outcome.ret).toNat = (data.drop (int32 outcome.ret).toNat).length := by
  have hle : (int32 outcome.ret).toNat ≤ data.length := by
    cases outcome with
    | wrote n =>
      have hn : n ≤ data.length := within
      exact (int32_toNat_le n).trans hn
    | failed errno => simp [WriteOutcome.ret, int32] at nonneg
  rw [sizeSub_eq hle (by omega), List.length_drop]

theorem Flushing.queueRemaining (h : ch.Flushing) (hdata : data.length < 9223372036854775808) :
    (ch.queueRemaining data data.length).Flushing := by
  have hwf := (@appendSendBuf_spec ch data h.wf hdata).1
  unfold TcpChannel.queueRemaining
  split
  next some =>
    have hcontent := appendSendBuf_ne_nil h.wf hdata (List.ne_nil_of_length_pos some)
    simp only [List.take_length]
    split
    next on => exact ⟨hwf, by simp [on, hcontent]⟩
    next => exact ⟨hwf, by simp [hcontent]⟩
  next => exact h

theorem Flushing.doSend (h : ch.Flushing) {outcome : WriteOutcome} (hdata : data.length < 9223372036854775808)
    (within : outcome.Within data.length) : (ch.doSend data outcome).2.Flushing := by
  have tried : ∀ errno accepted, Flushing { ch with errno := errno, accepted := accepted } :=
    fun _ _ => ⟨h.wf, h.writing⟩
  unfold TcpChannel.doSend
  split
  next =>
    simp only
    split
    next nonneg =>
      rw [remaining_eq hdata within nonneg]
      exact (tried _ _).queueRemaining (by simp; omega)
    next =>
      split
      · exact tried _ _
      · exact (tried _ _).queueRemaining hdata
  next => exact h.queueRemaining hdata

/-- Also when `::write` fails: then everything pending is dropped. -/
theorem Flushing.doContineSend (h : ch.Flushing) (outcome : WriteOutcome) : (ch.doContineSend outcome).Flushing := by
  unfold TcpChannel.doContineSend
  split
  next on =>
    simp only
    split
    next =>
      obtain ⟨hwf, -⟩ := Buffer.retrieve_spec h.wf (outcome.ret % 18446744073709551616).toNat
      have hread := Buffer.readableBytes_eq hwf
      split
      next empty =>
        refine ⟨hwf, ?_⟩
        rw [hread] at empty
        simp [List.eq_nil_of_length_eq_zero empty]
      next pending =>
        refine ⟨hwf, ?_⟩
        rw [hread] at pending
        simp [on, List.ne_nil_of_length_pos (Nat.pos_of_ne_zero pending)]
    next => exact ⟨h.wf, h.writing⟩
  next => exact h

end TcpChannel

namespace TcpClient

variable {c : TcpClient} {mask : EventMask}

/-- What the client wants to be registered with. -/
def wanted (c : TcpClient) : Option EventMask := if c.events = kNoneEvent then none else some c.events

/-- The poller has been told what the client wants. -/
structure Settled (c : TcpClient) : Prop where
  tracked : c.kernel.Tracks c.fd c.wanted
  pooling : c.isPooling = c.wanted.isSome

theorem updateEvent_eq {old : Option EventMask} (tracked : c.kernel.Tracks c.fd old)
    (pooling : c.isPooling = old.isSome) (opened : c.events ≠ kNoneEvent → c.kernel.isOpen c.fd = true) :
    ∃ kernel, c.updateEvent = { c with kernel := kernel, isPooling := c.wanted.isSome } ∧
      kernel.Tracks c.fd c.wanted := by
  unfold updateEvent wanted
  cases old with
  | none =>
    have hp : c.isPooling = false := pooling
    by_cases hev : c.events = kNoneEvent
    · refine ⟨c.kernel, ?_, ?_⟩
      · simp only [hp, hev, if_true, Option.isSome_none]
        rw [← hp]
      · rw [if_pos hev]
        exact tracked
    · refine ⟨c.kernel.epollCtl .add c.fd c.events, ?_, ?_⟩
      · simp [hp, hev, update]
      · rw [if_neg hev]
        exact tracked.add (opened hev)
  | some m =>
    have hp : c.isPooling = true := pooling
    by_cases hev : c.events = kNoneEvent
    · refine ⟨c.kernel.epollCtl .del c.fd c.events, ?_, ?_⟩
      · simp [hp, hev, update]
      · rw [if_pos hev]
        exact tracked.del
    · refine ⟨c.kernel.epollCtl .mod c.fd c.events, ?_, ?_⟩
      · simp [hp, hev, update]
      · rw [if_neg hev]
        exact tracked.mod

theorem updateEvent_settled {old : Option EventMask} (tracked : c.kernel.Tracks c.fd old)
    (pooling : c.isPooling = old.isSome) (opened : c.events ≠ kNoneEvent → c.kernel.isOpen c.fd = true) :
    c.updateEvent.Settled ∧ c.updateEvent.state = c.state ∧ c.updateEvent.channel = c.channel ∧
      c.updateEvent.reading = c.reading := by
  obtain ⟨kernel, heq, tracks⟩ := updateEvent_eq tracked pooling opened
  rw [heq]
  exact ⟨⟨tracks, rfl⟩, rfl, rfl, rfl⟩

/-- A client that polls has its descriptor open. -/
theorem Settled.opened (h : c.Settled) (hev : c.events ≠ kNoneEvent) : c.kernel.isOpen c.fd = true :=
  h.tracked.opened (by simp [wanted, hev])

/-- What each state says about the events of the client. -/
def MaskOk (c : TcpClient) : Prop :=
  match c.state with
  | .kDisconnected => c.events = kNoneEvent
  | .kConnecting => c.events = ⟨false, true⟩
  | .kConnected => c.events = ⟨true, decide (c.channel.sendBuf.content ≠ [])⟩

structure Inv (c : TcpClient) : Prop where
  wf : c.channel.sendBuf.Wf
  settled : c.Settled
  maskOk : c.MaskOk

/-- The client has changed nothing but its events, to `mask`, and has told the poller. -/
structure Told (c : TcpClient) (mask : EventMask) (c' : TcpClient) : Prop where
  settled : c'.Settled
  state_eq : c'.state = c.state
  sendBuf_eq : c'.channel.sendBuf = c.channel.sendBuf
  events_eq : c'.events = mask

theorem setEvents_told (h : c.Settled) (opened : mask ≠ kNoneEvent → c.kernel.isOpen c.fd = true) :
    Told c mask (c.setEvents mask).updateEvent := by
  obtain ⟨settled, state_eq, channel_eq, reading_eq⟩ :=
    @updateEvent_settled (c.setEvents mask) _ h.tracked h.pooling opened
  refine ⟨settled, state_eq, ?_, ?_⟩
  · rw [channel_eq]
    rfl
  · rw [events, channel_eq, reading_eq]
    rfl

theorem disableAll_told (h : c.Settled) : Told c kNoneEvent c.disableAll := setEvents_told h (by simp)

theorem enableReading_told (h : c.Settled) (opened : c.kernel.isOpen c.fd = true) :
    Told c ⟨true, c.events.writing⟩ c.enableReading :=
  setEvents_told h fun _ => opened

theorem enableWriting_told (h : c.Settled) (opened : c.kernel.isOpen c.fd = true) :
    Told c ⟨c.events.reading, true⟩ c.enableWriting :=
  setEvents_told h fun _ => opened

theorem disableWriting_told (h : c.Settled) (opened : c.kernel.isOpen c.fd = true) :
    Told c ⟨c.events.reading, false⟩ c.disableWriting :=
  setEvents_told h fun _ => opened

theorem doClose_inv (wf : c.channel.sendBuf.Wf) (h : c.Settled) : c.doClose.Inv := by
  have told := disableAll_told h
  have hnone : c.disableAll.wanted = none := if_pos told.events_eq
  have hwanted : c.doClose.wanted = none := hnone
  have tracked := told.settled.tracked
  have pooling := told.settled.pooling
  rw [hnone] at tracked pooling
  refine ⟨?_, ⟨?_, ?_⟩, told.events_eq⟩
  · change c.disableAll.channel.sendBuf.Wf
    rw [told.sendBuf_eq]
    exact wf
  · rw [hwanted]
    exact tracked.close
  · rw [hwanted]
    exact pooling

theorem Inv.doClose (h : c.Inv) : c.doClose.Inv := doClose_inv h.wf h.settled

theorem Inv.disconnect (h : c.Inv) : c.disconnect.2.Inv :=
  @doClose_inv { c with isAutoReconnect := false } h.wf ⟨h.settled.tracked, h.settled.pooling⟩

/-- What is received and `errno` have no say. -/
theorem Inv.withBuffers (h : c.Inv) {channel : TcpChannel} (hbuf : channel.sendBuf = c.channel.sendBuf)
    (hwriting : channel.isWriting = c.channel.isWriting) : Inv { c with channel := channel } := by
  have events_eq : events { c with channel := channel } = c.events := by simp [events, hwriting]
  have wanted_eq : wanted { c with channel := channel } = c.wanted := by simp [wanted, events_eq]
  refine ⟨?_, ⟨?_, ?_⟩, ?_⟩
  · simp only [hbuf]
    exact h.wf
  · rw [wanted_eq]
    exact h.settled.tracked
  · rw [wanted_eq]
    exact h.settled.pooling
  · have maskOk := h.maskOk
    unfold MaskOk at maskOk ⊢
    rw [events_eq]
    simp only [hbuf]
    exact maskOk

theorem Inv.flushing (h : c.Inv) (hstate : c.state = .kConnected) : c.channel.Flushing := by
  have maskOk := h.maskOk
  simp only [MaskOk, hstate] at maskOk
  exact ⟨h.wf, congrArg EventMask.writing maskOk⟩

theorem Inv.opened (h : c.Inv) (hstate : c.state ≠ .kDisconnected) : c.kernel.isOpen c.fd = true := by
  have maskOk := h.maskOk
  refine h.settled.opened ?_
  cases hs : c.state with
  | kDisconnected => exact absurd hs hstate
  | kConnecting =>
    simp only [MaskOk, hs] at maskOk
    simp [maskOk, kNoneEvent]
  | kConnected =>
    simp only [MaskOk, hs] at maskOk
    simp [maskOk, kNoneEvent]

/-- A connected client takes over a channel that wants to write when it has something to write. -/
theorem withChannel_inv (h : c.Settled) (hstate : c.state = .kConnected) (reading : c.reading = true)
    {channel : TcpChannel} (flushing : channel.Flushing) : (c.withChannel channel).Inv := by
  have connected : ∀ c' : TcpClient, c'.Settled → c'.state = .kConnected → c'.reading = true →
      c'.channel = channel → c'.Inv := by
    intro c' settled state_eq reading_eq channel_eq
    refine ⟨channel_eq ▸ flushing.wf, settled, ?_⟩
    simp only [MaskOk, state_eq, events, reading_eq, channel_eq, flushing.writing]
  have polls : c.events ≠ kNoneEvent := by simp [events, reading, kNoneEvent]
  unfold withChannel
  split
  next same =>
    have events_eq : events { c with channel := channel } = c.events := by simp [events, same]
    have wanted_eq : wanted { c with channel := channel } = c.wanted := by simp only [wanted, events_eq]
    refine connected _ ⟨?_, ?_⟩ hstate reading rfl
    · rw [wanted_eq]
      exact h.tracked
    · rw [wanted_eq]
      exact h.pooling
  next =>
    obtain ⟨settled, state_eq, channel_eq, reading_eq⟩ :=
      @updateEvent_settled { c with channel := channel } _ h.tracked h.pooling (fun _ => h.opened polls)
    exact connected _ settled (state_eq.trans hstate) (reading_eq.trans reading) channel_eq

theorem Inv.appendSendBuf (h : c.Inv) (hstate : c.state ≠ .kConnected) {data : List UInt8}
    (hdata : data.length < 9223372036854775808) : (c.appendSendBuf data).Inv := by
  refine ⟨(TcpChannel.appendSendBuf_spec h.wf hdata).1, ⟨h.settled.tracked, h.settled.pooling⟩, ?_⟩
  have maskOk := h.maskOk
  unfold MaskOk at maskOk ⊢
  cases hs : c.state with
  | kConnected => exact absurd hs hstate
  | kDisconnected =>
    rw [hs] at maskOk
    simp only [TcpClient.appendSendBuf, hs]
    exact maskOk
  | kConnecting =>
    rw [hs] at maskOk
    simp only [TcpClient.appendSendBuf, hs]
    exact maskOk

/-- A client that is not registered takes a fresh socket. -/
theorem Settled.socket (h : c.Settled) (hevents : c.events = kNoneEvent) (fd : Int) :
    Settled { c with fd := fd, kernel := c.kernel.socket fd } := by
  have hwanted : c.wanted = none := if_pos hevents
  have tracked := h.tracked
  rw [hwanted] at tracked
  refine ⟨?_, h.pooling⟩
  change (c.kernel.socket fd).Tracks fd c.wanted
  rw [hwanted]
  exact tracked.socket

theorem enableWriting_connecting (wf : c.channel.sendBuf.Wf) (h : c.Settled) (hevents : c.events = kNoneEvent)
    (opened : c.kernel.isOpen c.fd = true) : (TcpClient.enableWriting { c with state := .kConnecting }).Inv := by
  have told := @enableWriting_told { c with state := .kConnecting } ⟨h.tracked, h.pooling⟩ opened
  refine ⟨?_, told.settled, ?_⟩
  · rw [told.sendBuf_eq]
    exact wf
  · unfold MaskOk
    rw [told.state_eq]
    refine told.events_eq.trans ?_
    change (⟨c.events.reading, true⟩ : EventMask) = _
    rw [hevents]
    rfl

theorem Inv.connect (h : c.Inv) (sock : Option Int) (errno : ConnectErrno) : (c.connect sock errno).2.Inv := by
  unfold TcpClient.connect
  split
  next => exact h
  next disconnected =>
    have hstate : c.state = .kDisconnected := not_not.mp disconnected
    have told := @disableAll_told { c with isAutoReconnect := true } ⟨h.settled.tracked, h.settled.pooling⟩
    simp only
    generalize TcpClient.disableAll { c with isAutoReconnect := true } = d at told
    have wf : d.channel.sendBuf.Wf := by
      rw [told.sendBuf_eq]
      exact h.wf
    cases sock with
    | none =>
      have idle : d.Inv := by
        refine ⟨wf, told.settled, ?_⟩
        simp only [MaskOk, told.state_eq, hstate]
        exact told.events_eq
      exact idle
    | some fd =>
      have fresh := told.settled.socket told.events_eq fd
      have opened : (d.kernel.socket fd).isOpen fd = true := by simp [EpollKernel.socket]
      cases errno with
      | zero | einprogress | eintr | eisconn => exact enableWriting_connecting wf fresh told.events_eq opened
      | eagain | eaddrinuse | eaddrnotavail | econnrefused | enetunreach =>
        exact ⟨wf, ⟨fresh.tracked, fresh.pooling⟩, told.events_eq⟩
      | eacces | eperm | eafnosupport | ealready | ebadf | efault | enotsock | other => exact doClose_inv wf fresh

theorem Inv.sendMsg (h : c.Inv) {data : List UInt8} {outcome : WriteOutcome}
    (hdata : data.length < 9223372036854775808) (within : outcome.Within data.length) (sock : Option Int)
    (errno : ConnectErrno) : (c.sendMsg data outcome sock errno).2.Inv := by
  unfold TcpClient.sendMsg
  cases hs : c.state with
  | kConnected =>
    have maskOk := h.maskOk
    simp only [MaskOk, hs] at maskOk
    exact withChannel_inv h.settled hs (congrArg EventMask.reading maskOk) ((h.flushing hs).doSend hdata within)
  | kDisconnected =>
    simp only
    split
    · exact (h.appendSendBuf (by simp [hs]) hdata).connect sock errno
    · exact h
  | kConnecting => exact h.appendSendBuf (by simp [hs]) hdata

theorem Inv.doContineSend (h : c.Inv) (hstate : c.state = .kConnected) (outcome : WriteOutcome) :
    (c.doContineSend outcome).Inv := by
  have maskOk := h.maskOk
  simp only [MaskOk, hstate] at maskOk
  exact withChannel_inv h.settled hstate (congrArg EventMask.reading maskOk)
    ((h.flushing hstate).doContineSend outcome)

/-- A client that has just been connected and has told the poller. -/
theorem Told.connected {c' : TcpClient} (told : Told c mask c') (wf : c.channel.sendBuf.Wf)
    (hstate : c.state = .kConnected) (hmask : mask = ⟨true, decide (c.channel.sendBuf.content ≠ [])⟩) : c'.Inv := by
  refine ⟨?_, told.settled, ?_⟩
  · rw [told.sendBuf_eq]
    exact wf
  · unfold MaskOk
    rw [told.state_eq, hstate]
    simp only
    rw [told.sendBuf_eq]
    exact told.events_eq.trans hmask

theorem Inv.connected (h : c.Inv) (hstate : c.state = .kConnecting) (soError : Int) (outcome : WriteOutcome) :
    (c.connected soError outcome).2.Inv := by
  unfold TcpClient.connected
  split
  next => exact h.doClose
  next =>
    have told := @enableReading_told { c with state := .kConnected } ⟨h.settled.tracked, h.settled.pooling⟩
      (h.opened (by simp [hstate]))
    simp only
    generalize TcpClient.enableReading { c with state := .kConnected } = d at told
    have wf : d.channel.sendBuf.Wf := by
      rw [told.sendBuf_eq]
      exact h.wf
    have hread := Buffer.readableBytes_eq wf
    have reads : d.events.reading = true := by rw [told.events_eq]
    have opened : d.kernel.isOpen d.fd = true := by
      refine told.settled.opened ?_
      rw [told.events_eq]
      simp [kNoneEvent]
    split
    next pending =>
      have hne : d.channel.sendBuf.content ≠ [] := by
        rw [hread] at pending
        exact List.ne_nil_of_length_pos pending
      have writes := enableWriting_told told.settled opened
      refine (writes.connected wf told.state_eq ?_).doContineSend (writes.state_eq.trans told.state_eq) outcome
      simp [reads, hne]
    next empty =>
      have hnil : d.channel.sendBuf.content = [] := List.eq_nil_of_length_eq_zero (by omega)
      refine (disableWriting_told told.settled opened).connected wf told.state_eq ?_
      simp [reads, hnil]

theorem Inv.handleCanSend (h : c.Inv) (soError : Int) (outcome : WriteOutcome) :
    (c.handleCanSend soError outcome).2.Inv := by
  unfold TcpClient.handleCanSend
  cases hs : c.state with
  | kConnecting => exact h.connected hs soError outcome
  | kConnected => exact h.doContineSend hs outcome
  | kDisconnected => exact h

theorem Inv.handleClose (h : c.Inv) : c.handleClose.2.Inv := by
  have closed : ∀ d : TcpClient, d.Inv → d.state = .kDisconnected →
      Inv { d with
        channel := { d.channel with
          sendBuf := (d.channel.sendBuf.retrieve d.channel.sendBuf.readableBytes).2
          recvBuf := (d.channel.recvBuf.retrieve d.channel.recvBuf.readableBytes).2 } } := by
    intro d hd hs
    refine ⟨(Buffer.retrieve_spec hd.wf _).1, ⟨hd.settled.tracked, hd.settled.pooling⟩, ?_⟩
    have maskOk := hd.maskOk
    simp only [MaskOk, hs] at maskOk ⊢
    exact maskOk
  unfold TcpClient.handleClose
  simp only
  split
  next => exact closed _ h.doClose rfl
  next disconnected => exact closed _ h (not_not.mp disconnected)

theorem dropReceived_send (ch : TcpChannel) :
    (dropReceived ch).sendBuf = ch.sendBuf ∧ (dropReceived ch).isWriting = ch.isWriting := by
  unfold dropReceived
  split <;> exact ⟨rfl, rfl⟩

theorem Inv.handleCanRecv (h : c.Inv) (outcome : ReadOutcome) : (c.handleCanRecv outcome).2.Inv := by
  obtain ⟨hbuf, hwriting⟩ := dropReceived_send c.channel
  cases outcome with
  | closed => exact (h.withBuffers hbuf hwriting).handleClose
  | failed errno => exact h.withBuffers hbuf hwriting
  | received chunk => exact h.withBuffers rfl rfl

theorem Inv.handleEvent (h : c.Inv) (iEvent : EpollBits) (read : ReadOutcome) (soError : Int)
    (write : WriteOutcome) : (c.handleEvent iEvent read soError write).Inv := by
  have first : (if iEvent.epollhup && !iEvent.epollin then c.handleClose.2
      else if iEvent.epollerr then c.handleError.2 else c).Inv := by
    split
    · exact h.handleClose
    · split <;> exact h
  unfold TcpClient.handleEvent
  simp only
  generalize (if iEvent.epollhup && !iEvent.epollin then c.handleClose.2
      else if iEvent.epollerr then c.handleError.2 else c) = d at first
  have second : (if iEvent.epollin || iEvent.epollpri || iEvent.epollrdhup then (d.handleCanRecv read).2
      else d).Inv := by
    split
    · exact first.handleCanRecv read
    · exact first
  split
  · exact second.handleCanSend soError write
  · exact second

end TcpClient

/-- The data of a call is an object in memory, and `::write` of it takes no more than there is. -/
def ClientEvent.Possible : ClientEvent → Prop
  | .sendMsg data outcome _ _ => data.length < 9223372036854775808 ∧ outcome.Within data.length
  | _ => True

namespace TcpClient

variable {c : TcpClient}

theorem Inv.step (h : c.Inv) {e : ClientEvent} (possible : e.Possible) : (c.step e).Inv := by
  cases e with
  | connect sock errno => exact h.connect sock errno
  | disconnect => exact h.disconnect
  | sendMsg data outcome sock errno => exact h.sendMsg possible.1 possible.2 sock errno
  | canSend soError outcome => exact h.handleCanSend soError outcome
  | canRecv outcome => exact h.handleCanRecv outcome
  | error => exact h
  | close => exact h.handleClose
  | poll iEvent read soError write => exact h.handleEvent iEvent read soError write

theorem create_inv (sock : Option Int) : (create sock).Inv := by
  have wf : (Buffer.create 1024).Wf := Buffer.create_wf (by decide)
  have start : Inv ⟨.kDisconnected, true, -1, false, false, .create, ⟨fun _ => false, fun _ => none, none⟩⟩ := by
    refine ⟨wf, ⟨⟨?_, ?_, ?_⟩, rfl⟩, rfl⟩
    · intro other
      exact (ite_self none).symm
    · intro h
      exact absurd rfl h
    · intro other m
      constructor
      · rintro ⟨⟩
      · rintro ⟨-, ⟨⟩⟩
  cases sock with
  | none => exact start
  | some fd => exact ⟨wf, start.settled.socket rfl fd, rfl⟩

end TcpClient

/-- The client after the first `k` events; `sock` is the descriptor that its constructor got, if any. -/
def clientAt (sock : Option Int) (events : List ClientEvent) (k : Nat) : TcpClient :=
  stateAt TcpClient.step (.create sock) events k

theorem clientAt_inv {sock : Option Int} {events : List ClientEvent} (possible : ∀ e ∈ events, e.Possible)
    (k : Nat) : (clientAt sock events k).Inv := by
  refine stateAt_induct (TcpClient.create_inv sock) ?_ k
  intro k e he inv
  exact inv.step (possible e (List.mem_of_getElem? he))

/-- Whatever is called, whatever happens and whatever the system calls return, the poller knows what
the state of the client asks for: nothing, to write, or to read and to write what is pending. -/
theorem tcpClient_registration {sock : Option Int} {events : List ClientEvent}
    (possible : ∀ e ∈ events, e.Possible) (k : Nat) :
    let c := clientAt sock events k
    (c.state = .kDisconnected →
      c.isPooling = false ∧ c.events = kNoneEvent ∧ ∀ fd, c.kernel.interest fd = none) ∧
    (c.state = .kConnecting →
      c.events = ⟨false, true⟩ ∧ ∀ fd, c.kernel.interest fd = if fd = c.fd then some ⟨false, true⟩ else none) ∧
    (c.state = .kConnected →
      ∃ writing, c.events = ⟨true, writing⟩ ∧ (writing = true ↔ 0 < c.channel.sendBuf.readableBytes) ∧
        ∀ fd, c.kernel.interest fd = if fd = c.fd then some ⟨true, writing⟩ else none) ∧
    (c.isPooling = true ↔ c.kernel.lastCtl = some (c.fd, some c.events)) ∧
    (c.isPooling = true ↔ c.kernel.interest c.fd = some c.events) := by
  intro c
  have inv : c.Inv := clientAt_inv possible k
  have maskOk := inv.maskOk
  have only := inv.settled.tracked.only
  have hread := Buffer.readableBytes_eq inv.wf
  have polls : ∀ mask : EventMask, c.events = mask → mask ≠ kNoneEvent → c.wanted = some mask := by
    rintro mask rfl hne
    exact if_neg hne
  have wanted_iff : c.isPooling = true ↔ c.wanted = some c.events := by
    rw [inv.settled.pooling]
    unfold TcpClient.wanted
    split <;> simp
  refine ⟨?_, ?_, ?_, ?_, ?_⟩
  · intro hs
    simp only [TcpClient.MaskOk, hs] at maskOk
    have hwanted : c.wanted = none := if_pos maskOk
    refine ⟨?_, maskOk, ?_⟩
    · rw [inv.settled.pooling, hwanted]
      rfl
    · intro fd
      rw [only, hwanted, ite_self]
  · intro hs
    simp only [TcpClient.MaskOk, hs] at maskOk
    refine ⟨maskOk, ?_⟩
    intro fd
    rw [only, polls _ maskOk (by simp [kNoneEvent])]
  · intro hs
    simp only [TcpClient.MaskOk, hs] at maskOk
    refine ⟨_, maskOk, ?_, ?_⟩
    · rw [hread, List.length_pos_iff, decide_eq_true_eq]
    · intro fd
      rw [only, polls _ maskOk (by simp [kNoneEvent])]
  · rw [inv.settled.tracked.last, wanted_iff]
    simp
  · rw [inv.settled.tracked.interest_eq, wanted_iff]

/-- A message is queued while the client connects, is written in part once it is connected, and the
peer closes. -/
def queuedRun : List ClientEvent :=
  [.sendMsg [1, 2, 3] (.wrote 0) (some 7) .einprogress, .canSend 0 (.wrote 1), .canRecv .closed]

theorem tcpClient_registration_queued :
    (clientAt (some 5) queuedRun 1).state = .kConnecting ∧ (clientAt (some 5) queuedRun 2).state = .kConnected ∧
    (clientAt (some 5) queuedRun 2).kernel.interest 7 = some ⟨true, true⟩ ∧
    (clientAt (some 5) queuedRun 3).isPooling = false := by
  have possible : ∀ e ∈ queuedRun, e.Possible := by
    intro e he
    simp only [queuedRun, List.mem_cons, List.not_mem_nil, or_false] at he
    rcases he with rfl | rfl | rfl
    · exact ⟨by decide, Nat.zero_le _⟩
    · trivial
    · trivial
  refine ⟨by decide +kernel, by decide +kernel, by decide +kernel, ?_⟩
  exact ((tcpClient_registration possible 3).1 (by decide +kernel)).1

end Wddlib
