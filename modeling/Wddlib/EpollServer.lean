import Wddlib.ConnTable

namespace Wddlib

/-- A channel object; `serial` tells objects apart. -/
structure ServerChannel where
  serial : Nat
  fd : Int
  id : Int
  isPooling : Bool
  deriving DecidableEq, Repr

/-- The bodies of the messages that the server sends to a backend. -/
inductive MsgBody where
  | startReq (currentconn channelcnt : Nat)
  | stop (timestamp : Nat)
  | route (routechannel : Int)
  | msgNtf (buff : List UInt8)
  deriving DecidableEq, Repr

structure ServerMsg where
  connid : Int
  addr : InetAddress
  body : MsgBody
  deriving DecidableEq, Repr

/-- What the server does besides changing its tables. -/
inductive Effect where
  | assigned (serial : Nat) (connid : Int)
  | released (idx : Nat) (connid : Int)
  | handed (channelid : Int) (msg : ServerMsg)
  | delivered (serial : Nat) (connid : Int) (payload : List UInt8)
  deriving DecidableEq, Repr

/-- The server, the open descriptors of the process and the ones its poller watches for input.
`effects` lists what has been done, the latest first. -/
structure EpollServer where
  table : ConnTable
  channelMap : Int → Option ServerChannel
  channelCount : Nat
  nextSerial : Nat
  currentTime : Nat
  isOpen : Int → Bool
  watched : Int → Bool
  effects : List Effect

namespace EpollServer

def create (maxconn channels : Nat) : EpollServer where
  table := .create maxconn
  channelMap _ := none
  channelCount := channels + 1
  nextSerial := 0
  currentTime := 0
  isOpen _ := false
  watched _ := false
  effects := []

def addEffect (s : EpollServer) (e : Effect) : EpollServer := { s with effects := e :: s.effects }

def isChannelIdValid (s : EpollServer) (id : Int) : Bool := decide (id ≥ 0 ∧ id < int32 s.channelCount)

/-- The result of the backend client is not looked at where this is used. -/
def sendMsg (s : EpollServer) (channelid : Int) (msg : ServerMsg) : EpollServer :=
  if s.isChannelIdValid channelid then s.addEffect (.handed channelid msg) else s

/-- `_CloseConn`. -/
def closeConn (s : EpollServer) (connid : Int) : EpollServer :=
  match s.table.getConnectionRecord connid with
  | none => s
  | some i => addEffect { s with table := s.table.closeConn connid } (.released i connid)

/-- `TcpSocket::Close` on a channel object: it is taken out of the poller and its descriptor is
closed. The object as it is afterwards comes first. -/
def close (s : EpollServer) (ch : ServerChannel) : ServerChannel × EpollServer :=
  ({ ch with isPooling := false },
    { s with
      isOpen := Function.update s.isOpen ch.fd false
      watched := Function.update s.watched ch.fd false })

/-- The stop message is sent to the channel with the number of the connection. -/
def onCloseChannel (s : EpollServer) (ch : ServerChannel) : EpollServer :=
  let s := match s.table.getConnectionRecord ch.id with
    | none => s
    | some i => s.sendMsg ch.id ⟨ch.id, (s.table.vec i).addr, .stop s.currentTime⟩
  let s := s.closeConn ch.id
  { s with channelMap := Function.update s.channelMap ch.fd none }

/-- `ServerChannel::HandleClose`, which is also `Disconnect`. -/
def handleClose (s : EpollServer) (ch : ServerChannel) : EpollServer :=
  let closed := s.close ch
  closed.2.onCloseChannel closed.1

/-- `TcpServer::OnNewChannel` with the construction of the channel and `AcceptedFD`. The poller
can only watch a descriptor that is open. -/
def tcpOnNewChannel (s : EpollServer) (fd : Int) : EpollServer :=
  let s := match s.channelMap fd with
    | none => s
    | some ch => s.handleClose ch
  { s with
    channelMap := Function.update s.channelMap fd (some ⟨s.nextSerial, fd, 0, true⟩)
    watched := Function.update s.watched fd (s.isOpen fd)
    nextSerial := s.nextSerial + 1 }

/-- `startSent` tells whether channel 0 accepts the start request. -/
def onNewChannel (s : EpollServer) (fd : Int) (addr : InetAddress) (startSent : Bool) : Int × EpollServer :=
  let s := s.tcpOnNewChannel fd
  match s.channelMap fd with
  | none => (-1, s)
  | some ch =>
    let recored := s.table.recoredNewConn fd addr
    let connid := recored.1
    let s := { s with table := recored.2 }
    if connid < 0 then
      let closed := s.close ch
      (-1, { closed.2 with channelMap := Function.update s.channelMap fd (some closed.1) })
    else
      let s := { s with channelMap := Function.update s.channelMap fd (some { ch with id := connid }) }
      let s := s.addEffect (.assigned ch.serial connid)
      let startReq := .startReq (s.table.getCurrConn % 4294967296) (s.channelCount % 4294967296)
      let s := s.addEffect (.handed 0 ⟨connid, addr, startReq⟩)
      if startSent then (0, s) else (0, s.closeConn connid)

def closeConnid (s : EpollServer) (connid : Int) : EpollServer :=
  let s := match s.table.getConnectionRecord connid with
    | none => s
    | some i =>
      match s.channelMap (s.table.vec i).fd with
      | none => s
      | some ch => s.handleClose ch
  s.closeConn connid

def getSvrChannel (s : EpollServer) (connid : Int) : Option ServerChannel :=
  (s.table.getConnectionRecord connid).bind fun i => s.channelMap (s.table.vec i).fd

/-- One turn of the loop of `OnMsgRecv`: a whole frame of the client goes to its backend. -/
def forward (s : EpollServer) (ch : ServerChannel) (payload : List UInt8) : EpollServer :=
  match s.table.getConnectionRecord ch.id with
  | none => s
  | some i =>
    s.sendMsg (s.table.vec i).channelid ⟨(s.table.vec i).connid, (s.table.vec i).addr, .msgNtf payload⟩

end EpollServer

end Wddlib
