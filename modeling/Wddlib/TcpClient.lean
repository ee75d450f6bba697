import Wddlib.TcpChannel
import Mathlib.Logic.Function.Basic

namespace Wddlib

/-- An event mask: the bits of `kReadEvent` and the bit of `kWriteEvent`. -/
structure EventMask where
  reading : Bool
  writing : Bool
  deriving DecidableEq, Repr

def kNoneEvent : EventMask := ⟨false, false⟩

inductive EpollOp where
  | add
  | mod
  | del
  deriving DecidableEq, Repr

/-- What the kernel keeps for one client: which of its descriptors are open, which of them are in the
interest set of the poller and with which mask, and what the last `epoll_ctl` that succeeded left of
its descriptor there. -/
structure EpollKernel where
  isOpen : Int → Bool
  interest : Int → Option EventMask
  lastCtl : Option (Int × Option EventMask)

namespace EpollKernel

/-- A descriptor is added once, and only what was added is changed or deleted. -/
def legalCtl (k : EpollKernel) (op : EpollOp) (fd : Int) : Bool :=
  k.isOpen fd && match op with
    | .add => (k.interest fd).isNone
    | _ => (k.interest fd).isSome

/-- `::epoll_ctl`, which succeeds on the legal requests. -/
def epollCtl (k : EpollKernel) (op : EpollOp) (fd : Int) (mask : EventMask) : EpollKernel :=
  if k.legalCtl op fd then
    let left := match op with
      | .del => none
      | _ => some mask
    { k with interest := Function.update k.interest fd left, lastCtl := some (fd, left) }
  else k

/-- `::close`: a closed descriptor leaves the interest set. -/
def close (k : EpollKernel) (fd : Int) : EpollKernel :=
  { k with isOpen := Function.update k.isOpen fd false, interest := Function.update k.interest fd none }

def socket (k : EpollKernel) (fd : Int) : EpollKernel := { k with isOpen := Function.update k.isOpen fd true }

end EpollKernel

inductive ClientState where
  | kDisconnected
  | kConnecting
  | kConnected
  deriving DecidableEq, Repr

/-- The values of `errno` that `Connect` tells apart after `::connect`; `zero` is success. -/
inductive ConnectErrno where
  | zero
  | einprogress
  | eintr
  | eisconn
  | eagain
  | eaddrinuse
  | eaddrnotavail
  | econnrefused
  | enetunreach
  | eacces
  | eperm
  | eafnosupport
  | ealready
  | ebadf
  | efault
  | enotsock
  | other
  deriving DecidableEq, Repr

/-- What a call of `::readv` does: the peer has closed, the call fails, or bytes arrive. -/
inductive ReadOutcome where
  | closed
  | failed (errno : Errno)
  | received (chunk : List UInt8)
  deriving DecidableEq, Repr

def ReadOutcome.isReceived : ReadOutcome → Bool
  | received _ => true
  | _ => false

/-- A client with its base classes; the bit of `kWriteEvent` in `m_iEvents` is `channel.isWriting`. -/
structure TcpClient where
  state : ClientState
  isAutoReconnect : Bool
  fd : Int
  reading : Bool
  isPooling : Bool
  channel : TcpChannel
  kernel : EpollKernel

namespace TcpClient

/-- `m_iEvents`. -/
def events (c : TcpClient) : EventMask := ⟨c.reading, c.channel.isWriting⟩

def setEvents (c : TcpClient) (mask : EventMask) : TcpClient :=
  { c with reading := mask.reading, channel := { c.channel with isWriting := mask.writing } }

/-- `EPollPoller::Update`; a failure is only logged. -/
def update (c : TcpClient) (op : EpollOp) : TcpClient :=
  { c with kernel := c.kernel.epollCtl op c.fd c.events }

/-- `EPollPoller::UpdateEvent`. -/
def updateEvent (c : TcpClient) : TcpClient :=
  if c.isPooling = false then
    if c.events = kNoneEvent then c else { c.update .add with isPooling := true }
  else if c.events = kNoneEvent then { c.update .del with isPooling := false }
  else c.update .mod

def enableReading (c : TcpClient) : TcpClient := (c.setEvents { c.events with reading := true }).updateEvent
def enableWriting (c : TcpClient) : TcpClient := (c.setEvents { c.events with writing := true }).updateEvent
def disableWriting (c : TcpClient) : TcpClient := (c.setEvents { c.events with writing := false }).updateEvent
def disableAll (c : TcpClient) : TcpClient := (c.setEvents kNoneEvent).updateEvent

/-- `sock` is the descriptor that `::socket` returns, if any. -/
def createNoBlock (c : TcpClient) (sock : Option Int) : Int × TcpClient :=
  match sock with
  | none => (-1, c)
  | some fd => (0, { c with fd := fd, kernel := c.kernel.socket fd })

/-- `TcpSocket::Close`. -/
def close (c : TcpClient) : TcpClient :=
  let c := c.disableAll
  { c with kernel := c.kernel.close c.fd }

def doClose (c : TcpClient) : TcpClient := { c.close with state := .kDisconnected }

def create (sock : Option Int) : TcpClient :=
  (createNoBlock ⟨.kDisconnected, true, -1, false, false, .create, ⟨fun _ => false, fun _ => none, none⟩⟩ sock).2

/-- `errno` is that of `::connect`, which is only made when there is a socket. -/
def connect (c : TcpClient) (sock : Option Int) (errno : ConnectErrno) : Int × TcpClient :=
  if c.state ≠ .kDisconnected then (1, c)
  else
    let c := disableAll { c with isAutoReconnect := true }
    let created := c.createNoBlock sock
    if created.1 < 0 then (-1, created.2)
    else
      let c := created.2
      match errno with
      | .zero | .einprogress | .eintr | .eisconn => (0, enableWriting { c with state := .kConnecting })
      | .eagain | .eaddrinuse | .eaddrnotavail | .econnrefused | .enetunreach =>
        (0, { c with state := .kDisconnected })
      | .eacces | .eperm | .eafnosupport | .ealready | .ebadf | .efault | .enotsock => (-1, c.doClose)
      | .other => (-1, c.doClose)

def disconnect (c : TcpClient) : Int × TcpClient := (0, doClose { c with isAutoReconnect := false })

/-- The channel after `DoSend` or `DoContineSend`; these call `EnableWriting` or `DisableWriting`,
which tell the poller, exactly when they change the bit. -/
def withChannel (c : TcpClient) (channel : TcpChannel) : TcpClient :=
  if channel.isWriting = c.channel.isWriting then { c with channel := channel }
  else updateEvent { c with channel := channel }

def doSend (c : TcpClient) (buf : List UInt8) (outcome : WriteOutcome) : Int × TcpClient :=
  ((c.channel.doSend buf outcome).1, c.withChannel (c.channel.doSend buf outcome).2)

def doContineSend (c : TcpClient) (outcome : WriteOutcome) : TcpClient :=
  c.withChannel (c.channel.doContineSend outcome)

def appendSendBuf (c : TcpClient) (data : List UInt8) : TcpClient :=
  { c with channel := c.channel.appendSendBuf data }

/-- `outcome` is that of `::write` when the client is connected, `sock` and `errno` those of
`::socket` and `::connect` when it is not. -/
def sendMsg (c : TcpClient) (data : List UInt8) (outcome : WriteOutcome) (sock : Option Int)
    (errno : ConnectErrno) : Int × TcpClient :=
  match c.state with
  | .kConnected => c.doSend data outcome
  | .kDisconnected => if c.isAutoReconnect then (c.appendSendBuf data).connect sock errno else (-1, c)
  | .kConnecting => (0, c.appendSendBuf data)

/-- `_Connected`; `soError` is the result of `GetSocketError`. -/
def connected (c : TcpClient) (soError : Int) (outcome : WriteOutcome) : Int × TcpClient :=
  if soError ≠ 0 then (-1, c.doClose)
  else
    let c := enableReading { c with state := .kConnected }
    if c.channel.sendBuf.readableBytes > 0 then (0, c.enableWriting.doContineSend outcome)
    else (0, c.disableWriting)

def handleCanSend (c : TcpClient) (soError : Int) (outcome : WriteOutcome) : Int × TcpClient :=
  match c.state with
  | .kConnecting => c.connected soError outcome
  | .kConnected => (0, c.doContineSend outcome)
  | .kDisconnected => (-1, c)

/-- `HandleError` logs `errno`. -/
def handleError (c : TcpClient) : Int × TcpClient := (0, c)

/-- The pending bytes of both directions are dropped. -/
def handleClose (c : TcpClient) : Int × TcpClient :=
  let c := if c.state ≠ .kDisconnected then c.doClose else c
  let sendBuf := (c.channel.sendBuf.retrieve c.channel.sendBuf.readableBytes).2
  let recvBuf := (c.channel.recvBuf.retrieve c.channel.recvBuf.readableBytes).2
  (0, { c with channel := { c.channel with sendBuf := sendBuf, recvBuf := recvBuf } })

/-- The first lines of `DoRecv`: received bytes beyond the limit are dropped. -/
def dropReceived (ch : TcpChannel) : TcpChannel :=
  if ch.recvBuf.readableBytes > kMaxRecvBufSize then
    { ch with recvBuf := (ch.recvBuf.retrieve ch.recvBuf.readableBytes).2 }
  else ch

/-- `HandleCanRecv`, which is `DoRecv`; the `OnRecvMsg` of the class only logs. -/
def handleCanRecv (c : TcpClient) (outcome : ReadOutcome) : Int × TcpClient :=
  match outcome with
  | .closed => (0, (handleClose { c with channel := dropReceived c.channel }).2)
  | .failed errno => (-1, { c with channel := { dropReceived c.channel with errno := errno } })
  | .received chunk =>
    (chunk.length, { c with channel := { c.channel with recvBuf := c.channel.recvBuf.scatterRead chunk } })

end TcpClient

/-- The bits of `epoll_event.events`. -/
structure EpollBits where
  epollin : Bool
  epollpri : Bool
  epollout : Bool
  epollerr : Bool
  epollhup : Bool
  epollrdhup : Bool
  deriving DecidableEq, Repr

/-- `EPollPoller::HandleEvent`. -/
def TcpClient.handleEvent (c : TcpClient) (iEvent : EpollBits) (read : ReadOutcome) (soError : Int)
    (write : WriteOutcome) : TcpClient :=
  let closes := iEvent.epollhup && !iEvent.epollin
  let isError := closes || iEvent.epollerr
  let c := if closes then c.handleClose.2 else if iEvent.epollerr then c.handleError.2 else c
  let c := if iEvent.epollin || iEvent.epollpri || iEvent.epollrdhup then (c.handleCanRecv read).2 else c
  if !isError && iEvent.epollout then (c.handleCanSend soError write).2 else c

/-- A call on the client, one of its handlers, or an event of `Poll`, with what the system calls made
there return. -/
inductive ClientEvent where
  | connect (sock : Option Int) (errno : ConnectErrno)
  | disconnect
  | sendMsg (data : List UInt8) (outcome : WriteOutcome) (sock : Option Int) (errno : ConnectErrno)
  | canSend (soError : Int) (outcome : WriteOutcome)
  | canRecv (outcome : ReadOutcome)
  | error
  | close
  | poll (iEvent : EpollBits) (read : ReadOutcome) (soError : Int) (write : WriteOutcome)
  deriving DecidableEq, Repr

def TcpClient.step (c : TcpClient) : ClientEvent → TcpClient
  | .connect sock errno => (c.connect sock errno).2
  | .disconnect => c.disconnect.2
  | .sendMsg data outcome sock errno => (c.sendMsg data outcome sock errno).2
  | .canSend soError outcome => (c.handleCanSend soError outcome).2
  | .canRecv outcome => (c.handleCanRecv outcome).2
  | .error => c.handleError.2
  | .close => c.handleClose.2
  | .poll iEvent read soError write => c.handleEvent iEvent read soError write

end Wddlib
