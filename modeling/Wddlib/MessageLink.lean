import Wddlib.BackendFraming
import Wddlib.SendStream

namespace Wddlib

variable {M : Type}

/-- One direction of the connection between `connsvr` and a backend: the sender's channel, how many of the bytes that
its socket has taken were read at the other end, and the receive buffer there. `sent` are the messages whose `SendMsg`
returned 0, `handled` those that the receiver's loop has handed out. -/
structure MessageLink (M : Type) where
  sender : SendState
  sent : List M
  taken : Nat
  recvBuf : Buffer
  handled : List M

inductive LinkEvent (M : Type) where
  | sendMsg (msg : M) (outcome : WriteOutcome)
  | canSend (outcome : WriteOutcome)
  | canRecv (len : Nat) (behind : Nat → UInt8)

namespace MessageLink

def create : MessageLink M := ⟨.create, [], 0, .create 1024, []⟩

def onWire (link : MessageLink M) : List UInt8 := link.sender.channel.accepted.drop link.taken

/-- `ConnClient::SendMsg`; `TcpClient::SendMsg` of a connected client is `DoSend`. -/
def sendMsg (codec : Codec M) (link : MessageLink M) (msg : M) (outcome : WriteOutcome) : MessageLink M :=
  match PbParser.pack codec msg with
  | none => link
  | some (buff, len) =>
    { link with
      sender := link.sender.step (.doSend (buff.take len.toNat) outcome)
      sent :=
        if (link.sender.channel.doSend (buff.take len.toNat) outcome).1 = 0 then link.sent ++ [msg] else link.sent }

/-- `DoRecv` of the next `len` bytes, and the loop of `OnRecvMsg`. A loop that hands out messages of at least one byte
is over after as many turns as there are bytes. -/
def canRecv (codec : Codec M) (link : MessageLink M) (len : Nat) (behind : Nat → UInt8) : MessageLink M :=
  let b := link.recvBuf.scatterRead (link.onWire.take len)
  match drainLoop (codec.onRecvMsg behind) (b.readableBytes + 1) b with
  | none => { link with taken := link.taken + len, recvBuf := b }
  | some (msgs, b) => { link with taken := link.taken + len, recvBuf := b, handled := link.handled ++ msgs }

def step (codec : Codec M) (link : MessageLink M) : LinkEvent M → MessageLink M
  | .sendMsg msg outcome => link.sendMsg codec msg outcome
  | .canSend outcome => { link with sender := link.sender.step (.doContineSend outcome) }
  | .canRecv len behind => link.canRecv codec len behind

/-- The receive buffer after the next `len` bytes, without the messages that they complete. -/
def leftover (codec : Codec M) (link : MessageLink M) (len : Nat) : Buffer :=
  let b := link.recvBuf.scatterRead (link.onWire.take len)
  (b.retrieve (b.readableBytes - pendingAfter ((link.sent.drop link.handled.length).map codec.packet)
    (link.recvBuf.content.length + (link.onWire.take len).length))).2

/-- Messages serialise to less than 2 GiB, and a read finds what the sender's socket has taken. -/
def Possible (codec : Codec M) (link : MessageLink M) : LinkEvent M → Prop
  | .sendMsg msg outcome => codec.Packable msg ∧ outcome.Possible (codec.packet msg).length
  | .canSend outcome => outcome.Possible link.sender.channel.sendBuf.readableBytes
  | .canRecv len _ => 0 < len ∧ len ≤ 1073741824 ∧ len ≤ link.onWire.length

/-- No writable event fails to write; the part of a message that a read leaves is no more than `DoRecv` keeps, and if
it is part of a length prefix, no stale bytes parse. -/
def Smooth (codec : Codec M) (link : MessageLink M) : LinkEvent M → Prop
  | .sendMsg _ _ => True
  | .canSend outcome => ¬ (SendEvent.doContineSend outcome).FailedFlush link.sender
  | .canRecv len behind => (link.leftover codec len).content.length ≤ kMaxRecvBufSize ∧
    codec.StaleUnparsable behind (link.leftover codec len)

/-- No more bytes are pending than `AppendSendBuf` keeps. -/
def Fits (link : MessageLink M) : Prop := link.sender.channel.sendBuf.readableBytes ≤ kMaxSendBufSize

instance (link : MessageLink M) : Decidable link.Fits :=
  inferInstanceAs (Decidable (link.sender.channel.sendBuf.readableBytes ≤ kMaxSendBufSize))

instance (codec : Codec M) (behind : Nat → UInt8) (b : Buffer) : Decidable (codec.StaleUnparsable behind b) :=
  inferInstanceAs (Decidable (_ → _ → _))

/-- What the receiver waits for is the rest of what was sent. -/
structure Fed (codec : Codec M) (link : MessageLink M) : Prop where
  sendInv : SendInv link.sender
  promised : link.sender.promised = (link.sent.map codec.packet).flatten
  packable : ∀ msg ∈ link.sent, codec.Packable msg
  taken_le : link.taken ≤ link.sender.channel.accepted.length
  pending : link.recvBuf.content.length ≤ kMaxRecvBufSize
  queue : ∃ todo, link.sent = link.handled ++ todo ∧
    Waiting link.recvBuf (todo.map codec.packet) (link.sender.promised.drop link.taken)

end MessageLink

section Sender

variable {s : SendState}

theorem queueRemaining_accepted (ch : TcpChannel) (data : List UInt8) (remaining : Nat) :
    (ch.queueRemaining data remaining).accepted = ch.accepted := by
  unfold TcpChannel.queueRemaining TcpChannel.appendSendBuf
  split
  · dsimp only
    split <;> rfl
  · rfl

/-- What a socket has taken stays taken. -/
theorem accepted_stays (s : SendState) (e : SendEvent) : s.channel.accepted <+: (s.step e).channel.accepted := by
  cases e with
  | doSend buf outcome =>
    simp only [SendState.step, TcpChannel.doSend]
    split
    · split
      · rw [queueRemaining_accepted]
        exact List.prefix_append _ _
      · split
        · exact List.prefix_append _ _
        · rw [queueRemaining_accepted]
          exact List.prefix_append _ _
    · simp only [queueRemaining_accepted, List.prefix_refl]
  | doContineSend outcome =>
    simp only [SendState.step, TcpChannel.doContineSend]
    split
    · split
      · split <;> exact List.prefix_append _ _
      · exact List.prefix_append _ _
    · exact List.prefix_refl _

/-- On an open socket `DoSend` returns 0. -/
theorem doSend_ret (h : SendInv s) {buf : List UInt8} {outcome : WriteOutcome}
    (possible : outcome.Possible buf.length) :
    (s.channel.doSend buf outcome).1 = 0 := by
  have open_ : ¬ (outcome.errnoAfter s.channel.errno ≠ .eagain ∧
      (outcome.errnoAfter s.channel.errno = .epipe ∨ outcome.errnoAfter s.channel.errno = .econnreset)) := by
    cases outcome with
    | wrote n =>
      rintro ⟨-, he | he⟩
      · exact h.errno.1 he
      · exact h.errno.2 he
    | failed errno => rcases possible with rfl | rfl <;> simp [WriteOutcome.errnoAfter]
  simp only [TcpChannel.doSend, open_, if_false]
  split
  · split <;> rfl
  · rfl

end Sender

/-- One more frame is sent to a receiver that waits. -/
theorem Waiting.more {b : Buffer} {frames : List (List UInt8)} {rest frame : List UInt8} (h : Waiting b frames rest)
    (hne : frame ≠ []) : Waiting b (frames ++ [frame]) (rest ++ frame) where
  wf := h.wf
  stream := by
    rw [← List.append_assoc, h.stream]
    simp
  short := by
    cases frames with
    | nil =>
      have hnil : b.content = [] := (List.append_eq_nil_iff.mp h.stream).1
      simpa [hnil] using List.length_pos_iff.mpr hne
    | cons first frames => simpa using h.short

namespace MessageLink

variable {codec : Codec M} {link : MessageLink M}

theorem create_fed (codec : Codec M) : Fed codec (create : MessageLink M) := by
  refine ⟨create_inv, rfl, by simp [create], Nat.zero_le _, ?_, [], rfl, ?_⟩
  · simp [create, Buffer.content_create]
  · exact .create rfl (by simp)

/-- A sent message is a packet more in the stream. -/
theorem sendMsg_eq (lawful : codec.Lawful) (yes : codec.protocolPacket = true) (h : SendInv link.sender) {msg : M}
    {outcome : WriteOutcome} (possible : link.Possible codec (.sendMsg msg outcome)) :
    link.sendMsg codec msg outcome =
      { link with sender := link.sender.step (.doSend (codec.packet msg) outcome), sent := link.sent ++ [msg] } := by
  obtain ⟨⟨bytes, hbytes, hlen⟩, hout⟩ := possible
  have hpack := pack_eq lawful yes hbytes hlen
  have hdata : (htonl (bytes.length + 4) ++ bytes).take ((bytes.length : Int) + 4).toNat = codec.packet msg := by
    simp only [Codec.packet, hpack]
  simp only [sendMsg, hpack, hdata, doSend_ret h hout, if_true]

theorem Fed.sendMsg (h : Fed codec link) (lawful : codec.Lawful) (yes : codec.protocolPacket = true) {msg : M}
    {outcome : WriteOutcome} (possible : link.Possible codec (.sendMsg msg outcome)) (fits : link.Fits)
    (fits' : (link.step codec (.sendMsg msg outcome)).Fits) : Fed codec (link.step codec (.sendMsg msg outcome)) := by
  have heq : link.step codec (.sendMsg msg outcome) = _ := sendMsg_eq lawful yes h.sendInv possible
  rw [heq] at fits' ⊢
  obtain ⟨packable, hout⟩ := possible
  have rule := backendFraming_rule lawful yes
  have hlen : (codec.packet msg).length < 2147483648 := by
    obtain ⟨bytes, hbytes, hlt⟩ := packable
    rw [packet_eq lawful yes hbytes hlt, List.length_append, htonl_length]
    omega
  have hevent : (SendEvent.doSend (codec.packet msg) outcome).Possible link.sender := ⟨by omega, hout⟩
  have hpromised : (link.sender.step (.doSend (codec.packet msg) outcome)).promised =
      link.sender.promised ++ codec.packet msg := by
    simp only [SendState.step, doSend_ret h.sendInv hout, if_true]
  have hgrow := (accepted_stays link.sender (.doSend (codec.packet msg) outcome)).length_le
  have hintact := congrArg List.length h.sendInv.intact
  rw [List.length_append] at hintact
  have htaken := h.taken_le
  obtain ⟨todo, hsent, wait⟩ := h.queue
  refine ⟨step_inv h.sendInv hevent id fits fits', ?_, ?_, htaken.trans hgrow, h.pending, todo ++ [msg], ?_, ?_⟩
  · rw [hpromised, h.promised]
    simp
  · intro m hm
    rcases List.mem_append.mp hm with old | new
    · exact h.packable m old
    · rw [List.mem_singleton.mp new]
      exact packable
  · rw [hsent, List.append_assoc]
  · rw [hpromised, List.drop_append_of_le_length (show link.taken ≤ _ by omega), List.map_append]
    exact wait.more (rule.nonempty msg packable)

theorem Fed.canSend (h : Fed codec link) {outcome : WriteOutcome} (possible : link.Possible codec (.canSend outcome))
    (smooth : link.Smooth codec (.canSend outcome)) (fits : link.Fits)
    (fits' : (link.step codec (.canSend outcome)).Fits) : Fed codec (link.step codec (.canSend outcome)) := by
  have hgrow := (accepted_stays link.sender (.doContineSend outcome)).length_le
  have hevent : (SendEvent.doContineSend outcome).Possible link.sender := possible
  exact ⟨step_inv h.sendInv hevent smooth fits fits', h.promised, h.packable, h.taken_le.trans hgrow, h.pending,
    h.queue⟩

theorem frames_length_le {done : List M} (nonempty : ∀ msg ∈ done, codec.packet msg ≠ []) :
    done.length ≤ (done.map codec.packet).flatten.length := by
  induction done with
  | nil => exact Nat.zero_le _
  | cons msg done ih =>
    have hpos := List.length_pos_iff.mpr (nonempty msg (by simp))
    have hrest := ih fun m hm => nonempty m (by simp [hm])
    simp only [List.length_cons, List.map_cons, List.flatten_cons, List.length_append]
    omega

theorem Fed.canRecv (h : Fed codec link) (lawful : codec.Lawful) (yes : codec.protocolPacket = true) {len : Nat}
    {behind : Nat → UInt8} (possible : link.Possible codec (.canRecv len behind))
    (smooth : link.Smooth codec (.canRecv len behind)) :
    Fed codec (link.step codec (.canRecv len behind)) := by
  obtain ⟨hpos, hbig, hwire⟩ := possible
  have rule := backendFraming_rule lawful yes
  obtain ⟨todo, hsent, wait⟩ := h.queue
  have hchunk : (link.onWire.take len).length = len := by rw [List.length_take]; omega
  let seg : Segment := ⟨link.onWire.take len, behind, List.ne_nil_of_length_pos (by omega), by omega⟩
  have hseg : seg.chunk.length = len := hchunk
  -- the bytes on the wire come first among those that the receiver waits for
  have hsplit : link.sender.promised.drop link.taken = seg.chunk ++ link.sender.promised.drop (link.taken + len) := by
    have hintact : link.sender.channel.accepted ++ link.sender.channel.sendBuf.content = link.sender.promised :=
      h.sendInv.intact
    have hfront : seg.chunk = (link.sender.promised.drop link.taken).take len := by
      rw [← hintact, List.drop_append_of_le_length h.taken_le]
      exact (List.take_append_of_le_length hwire).symm
    rw [hfront, ← List.drop_drop, List.take_append_drop]
  rw [hsplit] at wait
  have packable : ∀ msg ∈ todo, codec.Packable msg := fun msg hm => h.packable msg (by simp [hsent, hm])
  obtain ⟨done, later, rfl, total, hleft, wait', loop⟩ := wait.receive rule packable h.pending
  have htodo : link.sent.drop link.handled.length = done ++ later := by rw [hsent, List.drop_left]
  have hsettled : link.leftover codec len = link.recvBuf.settled seg
      (pendingAfter ((done ++ later).map codec.packet) (link.recvBuf.content.length + seg.chunk.length)) := by
    simp only [leftover, htodo]
    rfl
  rw [← hsettled] at hleft wait' loop
  have nothing : codec.onRecvMsg behind (link.leftover codec len) = none :=
    (rule.quiet behind _ later _ (fun msg hm => packable msg (by simp [hm])) wait' smooth.1).mpr smooth.2
  -- the loop hands out `done` and stops
  have hread : (link.recvBuf.scatterRead seg.chunk).readableBytes = link.recvBuf.content.length + len := by
    have hmax : kMaxRecvBufSize < 1073741824 := by decide
    have hpending := h.pending
    obtain ⟨wf, hcontent⟩ := Buffer.scatterRead_spec (b := link.recvBuf) wait.wf h.pending
      (show link.recvBuf.content.length + seg.chunk.length < _ by omega)
    rw [Buffer.readableBytes_eq wf, hcontent, List.length_append, hseg]
  have hdone : done.length ≤ (done.map codec.packet).flatten.length :=
    frames_length_le fun msg hm => rule.nonempty msg (packable msg (by simp [hm]))
  have ended : drainLoop (codec.onRecvMsg behind) ((link.recvBuf.scatterRead seg.chunk).readableBytes + 1)
      (link.recvBuf.scatterRead seg.chunk) = some (done, link.leftover codec len) :=
    drainLoop_mono (drainLoop_done loop nothing) (by omega)
  have heq : link.step codec (.canRecv len behind) =
      { link with
        taken := link.taken + len
        recvBuf := link.leftover codec len
        handled := link.handled ++ done } := by
    simp only [step, MessageLink.canRecv]
    rw [ended]
  rw [heq]
  refine ⟨h.sendInv, h.promised, h.packable, ?_, smooth.1, later, ?_, wait'⟩
  · have := h.taken_le
    simp only [onWire, List.length_drop] at hwire
    show link.taken + len ≤ link.sender.channel.accepted.length
    omega
  · rw [hsent, List.append_assoc]

theorem Fed.step (h : Fed codec link) (lawful : codec.Lawful) (yes : codec.protocolPacket = true) {e : LinkEvent M}
    (possible : link.Possible codec e) (smooth : link.Smooth codec e) (fits : link.Fits)
    (fits' : (link.step codec e).Fits) : Fed codec (link.step codec e) := by
  cases e with
  | sendMsg msg outcome => exact h.sendMsg lawful yes possible fits fits'
  | canSend outcome => exact h.canSend possible smooth fits fits'
  | canRecv len behind => exact h.canRecv lawful yes possible smooth

/-- The messages of the `SendMsg` calls. -/
def messages (events : List (LinkEvent M)) : List M :=
  events.filterMap fun
    | .sendMsg msg _ => some msg
    | _ => none

/-- Every message was accepted by its `SendMsg` call, so far. -/
theorem step_sent (lawful : codec.Lawful) (yes : codec.protocolPacket = true) (h : Fed codec link) {e : LinkEvent M}
    (possible : link.Possible codec e) : (link.step codec e).sent = link.sent ++ messages [e] := by
  cases e with
  | sendMsg msg outcome =>
    have heq : link.step codec (.sendMsg msg outcome) = _ := sendMsg_eq lawful yes h.sendInv possible
    rw [heq]
    rfl
  | canSend outcome => exact (List.append_nil _).symm
  | canRecv len behind =>
    simp only [MessageLink.step, MessageLink.canRecv]
    split <;> exact (List.append_nil _).symm

end MessageLink

/-- The link after the first `k` events. -/
def linkAt (codec : Codec M) (events : List (LinkEvent M)) (k : Nat) : MessageLink M :=
  stateAt (MessageLink.step codec) .create events k

/-- Whatever the sockets take at a time and however the stream is cut, the receiver handles the messages in the order
in which they were sent, each once, and when everything has been read it has handled all of them. -/
theorem messageLink_in_order {codec : Codec M} (lawful : codec.Lawful) (yes : codec.protocolPacket = true)
    {events : List (LinkEvent M)}
    (possible : ∀ k e, events[k]? = some e → (linkAt codec events k).Possible codec e)
    (smooth : ∀ k e, events[k]? = some e → (linkAt codec events k).Smooth codec e)
    (fits : ∀ k, (linkAt codec events k).Fits) (k : Nat) :
    let link := linkAt codec events k
    link.sent = MessageLink.messages (events.take k) ∧ link.handled <+: link.sent ∧
      (link.sender.channel.sendBuf.content = [] → link.onWire = [] → link.handled = link.sent) := by
  let Good (link : MessageLink M) (sofar : List (LinkEvent M)) : Prop :=
    link.Fed codec ∧ link.sent = MessageLink.messages sofar
  have good : Good (linkAt codec events k) (events.take k) := by
    induction k with
    | zero => exact ⟨MessageLink.create_fed codec, rfl⟩
    | succ k ih =>
      cases he : events[k]? with
      | none =>
        have ended := List.getElem?_eq_none_iff.mp he
        rw [linkAt, stateAt_end he, List.take_of_length_le (by omega)]
        rwa [List.take_of_length_le ended] at ih
      | some e =>
        have after := fits (k + 1)
        rw [linkAt, stateAt_succ he] at after ⊢
        refine ⟨ih.1.step lawful yes (possible k e he) (smooth k e he) (fits k) after, ?_⟩
        have sent := MessageLink.step_sent lawful yes ih.1 (possible k e he)
        rw [ih.2] at sent
        refine sent.trans ?_
        rw [List.take_add_one, he]
        exact List.filterMap_append.symm
  intro link
  obtain ⟨todo, hsent, wait⟩ := good.1.queue
  refine ⟨good.2, ⟨todo, hsent.symm⟩, ?_⟩
  intro flushed empty
  have hintact : link.sender.channel.accepted ++ link.sender.channel.sendBuf.content = link.sender.promised :=
    good.1.sendInv.intact
  have nothing : link.sender.promised.drop link.taken = [] := by
    rw [← hintact, flushed, List.append_nil]
    exact empty
  rw [nothing] at wait
  have hnil : todo = [] := List.map_eq_nil_iff.mp wait.ended.1
  rw [hsent, hnil, List.append_nil]

/-- The second message is queued behind a short write of the first one, and the first read ends inside a length
prefix. -/
def linkRun : List (LinkEvent UInt8) :=
  [.sendMsg 7 (.wrote 3), .sendMsg 9 (.wrote 24), .canRecv 3 fun _ => 0, .canSend (.wrote 45),
    .canRecv 45 fun _ => 0]

theorem messageLink_in_order_short_write :
    (linkAt stopCodec linkRun 3).handled = [] ∧ (linkAt stopCodec linkRun 5).handled = [7, 9] := by
  have smooth : ∀ k e, linkRun[k]? = some e → (linkAt stopCodec linkRun k).Smooth stopCodec e := by
    intro k e he
    rcases k with _ | _ | _ | _ | _ | k <;> cases he
    · exact trivial
    · exact trivial
    · exact ⟨by decide +kernel, by decide +kernel⟩
    · exact id
    · exact ⟨by decide +kernel, by decide +kernel⟩
  have possible : ∀ k e, linkRun[k]? = some e → (linkAt stopCodec linkRun k).Possible stopCodec e := by
    intro k e he
    rcases k with _ | _ | _ | _ | _ | k <;> cases he
    · exact ⟨stopCodec_packable 7, by decide⟩
    · exact ⟨stopCodec_packable 9, by decide⟩
    · exact ⟨by decide, by decide, by decide +kernel⟩
    · exact show 45 ≤ _ by decide +kernel
    · exact ⟨by decide, by decide, by decide +kernel⟩
  have fits : ∀ k, (linkAt stopCodec linkRun k).Fits := by
    intro k
    rcases k with _ | _ | _ | _ | _ | k
    · decide +kernel
    · decide +kernel
    · decide +kernel
    · decide +kernel
    · decide +kernel
    · rw [linkAt, stateAt_of_length_le (by simp [linkRun])]
      decide +kernel
  have link := messageLink_in_order stopCodec_lawful rfl possible smooth fits 5
  refine ⟨by decide +kernel, ?_⟩
  rw [link.2.2 (by decide +kernel) (by decide +kernel), link.1]
  rfl

end Wddlib
