import Wddlib.EpollServer

namespace Wddlib

def connsvrStartRsp : Nat := 1
def connsvrStop : Nat := 2
def connsvrRoute : Nat := 3
def connsvrMsgNtf : Nat := 4

/-- The fields of a `ConnsvrMsg` that the handlers read, and `route`, which stands for the
`routechannel` of the submessage `route` that none of them reads; an absent submessage reads as its
default. `addr` stands for the `ip` and `port` of the head. -/
structure BackendMsg where
  cmdid : Nat
  connid : UInt32
  addr : InetAddress
  accept : Int
  routechannel : UInt32
  route : UInt32
  buff : List UInt8
  deriving DecidableEq, Repr

namespace BackendMsg

/-- `head().connid()` passed on as an `int`. -/
def connidInt (msg : BackendMsg) : Int := int32 msg.connid.toNat

/-- `startrsp().routechannel()` passed on as an `int`. -/
def routechannelInt (msg : BackendMsg) : Int := int32 msg.routechannel.toNat

/-- `route().routechannel()` passed on as an `int`. -/
def routeInt (msg : BackendMsg) : Int := int32 msg.route.toNat

end BackendMsg

namespace EpollServer

def setChannelid (s : EpollServer) (i : Nat) (id : Int) : EpollServer :=
  { s with table := s.table.setChannelid i id }

def startRspHandle (s : EpollServer) (msg : BackendMsg) : Int × EpollServer :=
  match s.table.getConnectionRecord msg.connidInt with
  | none => (-1, s)
  | some i =>
    if msg.accept ≠ 0 then (0, s.closeConnid msg.connidInt)
    else if s.isChannelIdValid msg.routechannelInt then (0, s.setChannelid i msg.routechannelInt)
    else (0, s.closeConnid msg.connidInt)

def stopHandle (s : EpollServer) (msg : BackendMsg) : Int × EpollServer :=
  match s.table.getConnectionRecord msg.connidInt with
  | none => (-1, s)
  | some i =>
    let s := s.sendMsg (s.table.vec i).channelid ⟨msg.connidInt, (s.table.vec i).addr, .stop s.currentTime⟩
    (0, s.closeConnid msg.connidInt)

/-- The new channel is read from `startrsp`, not from `route`. -/
def routeHandle (s : EpollServer) (msg : BackendMsg) : Int × EpollServer :=
  match s.table.getConnectionRecord msg.connidInt with
  | none => (-1, s)
  | some i =>
    let s := if s.isChannelIdValid msg.routechannelInt then s.setChannelid i msg.routechannelInt else s
    (0, s.sendMsg (s.table.vec i).channelid
      ⟨msg.connidInt, (s.table.vec i).addr, .route (s.table.vec i).channelid⟩)

/-- `fromChannel` is the backend channel the message came in on. -/
def msgNtfHandle (s : EpollServer) (msg : BackendMsg) (fromChannel : Int) : Int × EpollServer :=
  match s.table.getConnectionRecord msg.connidInt with
  | none => (-1, s.sendMsg fromChannel ⟨msg.connidInt, msg.addr, .stop s.currentTime⟩)
  | some i =>
    match s.getSvrChannel msg.connidInt with
    | none =>
      let s := s.sendMsg (s.table.vec i).channelid ⟨msg.connidInt, msg.addr, .stop s.currentTime⟩
      (-1, s.closeConnid msg.connidInt)
    | some sc => (0, s.addEffect (.delivered sc.serial msg.connidInt msg.buff))

/-- `MsgHandleMgr::HandleMsg`. -/
def handleMsg (s : EpollServer) (msg : BackendMsg) (fromChannel : Int) : Int × EpollServer :=
  if msg.cmdid = connsvrStartRsp then s.startRspHandle msg
  else if msg.cmdid = connsvrStop then s.stopHandle msg
  else if msg.cmdid = connsvrRoute then s.routeHandle msg
  else if msg.cmdid = connsvrMsgNtf then s.msgNtfHandle msg fromChannel
  else (-1, s)

end EpollServer

/-- What the poller and the clock bring to the server. -/
inductive ServerEvent where
  | accept (fd : Int) (addr : InetAddress) (startSent : Bool)
  | clientClose (fd : Int)
  | clientFrame (fd : Int) (payload : List UInt8)
  | backendMsg (fromChannel : Int) (msg : BackendMsg)
  | tick (now : Nat)
  deriving DecidableEq, Repr

namespace EpollServer

def step (s : EpollServer) : ServerEvent → EpollServer
  | .accept fd addr startSent =>
    (onNewChannel { s with isOpen := Function.update s.isOpen fd true } fd addr startSent).2
  | .clientClose fd =>
    match s.channelMap fd with
    | none => s
    | some ch => s.handleClose ch
  | .clientFrame fd payload =>
    match s.channelMap fd with
    | none => s
    | some ch => s.forward ch payload
  | .backendMsg fromChannel msg => (s.handleMsg msg fromChannel).2
  | .tick now => { s with currentTime := now }

end EpollServer

/-- The descriptors that `accept` returns are positive and not open. -/
def ServerEvent.Possible (s : EpollServer) : ServerEvent → Prop
  | .accept fd _ _ => 0 < fd ∧ s.isOpen fd = false
  | _ => True

end Wddlib
