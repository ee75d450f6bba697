import Wddlib.ClientFrameLoop
import Wddlib.MsgHandle
import Wddlib.RunPrefix

namespace Wddlib

/-- `set_connid` of an `int`: the field is a `uint32`. -/
def uint32 (n : Int) : UInt32 := UInt32.ofNat (n % 4294967296).toNat

namespace ConnsvrTest

/-- `StartRspHandle` of `connsvrtest`: every connection is accepted and stays on channel 0. The handlers give the
messages that are sent back. -/
def startRspHandle (msg : ServerMsg) : List BackendMsg :=
  [⟨connsvrStartRsp, uint32 msg.connid, msg.addr, 0, 0, 0, []⟩]

def stopHandle (_ : ServerMsg) : List BackendMsg := []

def routeHandle (_ : ServerMsg) : List BackendMsg := []

/-- The notification goes back as it came. -/
def msgNtfHandle (msg : ServerMsg) (buff : List UInt8) : List BackendMsg :=
  [⟨connsvrMsgNtf, uint32 msg.connid, msg.addr, 0, 0, 0, buff⟩]

/-- `MsgHandleMgr::HandleMsg` of `connsvrtest`; start requests are answered by its `StartRspHandle`. -/
def handleMsg (msg : ServerMsg) : List BackendMsg :=
  match msg.body with
  | .startReq _ _ => startRspHandle msg
  | .stop _ => stopHandle msg
  | .route _ => routeHandle msg
  | .msgNtf buff => msgNtfHandle msg buff

end ConnsvrTest

/-- The messages for channel `k` in a log, the oldest first. -/
def sentTo (k : Int) (effects : List Effect) : List ServerMsg :=
  effects.reverse.filterMap fun
    | .handed channelid msg => if channelid = k then some msg else none
    | _ => none

/-- The payloads written to the channel object `serial` in a log, the oldest first. -/
def writtenTo (serial : Nat) (effects : List Effect) : List (List UInt8) :=
  effects.reverse.filterMap fun
    | .delivered n _ payload => if n = serial then some payload else none
    | _ => none

/-- `connsvr` with a `connsvrtest` behind each of its channels. `recvBuf` are the receive buffers of the channel
objects; `up` and `down` have the messages of each backend link that were sent and not handled yet, the oldest first.
`heard` and `frames` record the bytes that came from each channel object and what `OnMsgRecv` has forwarded of them. -/
structure Gateway where
  server : EpollServer
  recvBuf : Nat → Buffer
  up : Int → List ServerMsg
  down : Int → List BackendMsg
  heard : Nat → List UInt8
  frames : Nat → List (List UInt8)

inductive GatewayEvent where
  | accept (fd : Int) (addr : InetAddress) (startSent : Bool)
  | clientClose (fd : Int)
  | clientBytes (fd : Int) (seg : Segment)
  | tick (now : Nat)
  | toBackend (k : Int)
  | toServer (k : Int)
  | loseUp (k : Int) (i : Nat)
  | loseDown (k : Int) (i : Nat)

namespace Gateway

def create (maxconn channels : Nat) : Gateway where
  server := .create maxconn channels
  recvBuf _ := .create 1024
  up _ := []
  down _ := []
  heard _ := []
  frames _ := []

/-- The server goes on to the state `server`; what it has sent on the way is on the links. -/
def advance (g : Gateway) (server : EpollServer) : Gateway :=
  { g with
    server := server
    up := fun k => g.up k ++ sentTo k (server.effects.take (server.effects.length - g.server.effects.length)) }

/-- `DoRecv` and `EpollServer::OnMsgRecv` of a channel object. A turn of the loop that does not end it removes a byte
or is repeated for ever, so that the number of readable bytes bounds the turns of a loop that ends. -/
def recv (conf : FrameConf) (g : Gateway) (ch : ServerChannel) (seg : Segment) : Gateway :=
  let b := (g.recvBuf ch.serial).scatterRead seg.chunk
  let g := { g with
    recvBuf := Function.update g.recvBuf ch.serial b
    heard := Function.update g.heard ch.serial (g.heard ch.serial ++ seg.chunk) }
  match g.server.table.getConnectionRecord ch.id with
  | none => g
  | some _ =>
    match drainLoop (conf.onMsgRecv seg.behind) (b.readableBytes + 1) b with
    | none => g
    | some (payloads, b) =>
      { g.advance (payloads.foldl (fun s payload => s.forward ch payload) g.server) with
        recvBuf := Function.update g.recvBuf ch.serial b
        frames := Function.update g.frames ch.serial (g.frames ch.serial ++ payloads) }

/-- A message that is lost on a link also stands for one that was never put on it. -/
def step (conf : FrameConf) (g : Gateway) : GatewayEvent → Gateway
  | .accept fd addr startSent => g.advance (g.server.step (.accept fd addr startSent))
  | .clientClose fd => g.advance (g.server.step (.clientClose fd))
  | .clientBytes fd seg =>
    match g.server.channelMap fd with
    | none => g
    | some ch => g.recv conf ch seg
  | .tick now => g.advance (g.server.step (.tick now))
  | .toBackend k =>
    match g.up k with
    | [] => g
    | msg :: rest =>
      { g with
        up := Function.update g.up k rest
        down := Function.update g.down k (g.down k ++ ConnsvrTest.handleMsg msg) }
  | .toServer k =>
    match g.down k with
    | [] => g
    | msg :: rest =>
      advance { g with down := Function.update g.down k rest } (g.server.step (.backendMsg k msg))
  | .loseUp k i => { g with up := Function.update g.up k ((g.up k).eraseIdx i) }
  | .loseDown k i => { g with down := Function.update g.down k ((g.down k).eraseIdx i) }

/-- `OnMsgRecv` comes to an end after the segment is read. -/
def Returns (conf : FrameConf) (g : Gateway) (ch : ServerChannel) (seg : Segment) : Prop :=
  g.server.table.getConnectionRecord ch.id ≠ none →
    (drainLoop (conf.onMsgRecv seg.behind) (((g.recvBuf ch.serial).scatterRead seg.chunk).readableBytes + 1)
      ((g.recvBuf ch.serial).scatterRead seg.chunk)).isSome = true

/-- The poller reports bytes for the descriptors it watches, and `OnMsgRecv` returns before the next event. -/
def Possible (conf : FrameConf) (g : Gateway) : GatewayEvent → Prop
  | .accept fd _ _ => 0 < fd ∧ g.server.isOpen fd = false
  | .clientBytes fd seg => g.server.watched fd = true ∧ ∀ ch ∈ g.server.channelMap fd, g.Returns conf ch seg
  | _ => True

/-- A message is lost, or `DoRecv` throws the received bytes away because there are too many of them. -/
def Loses (g : Gateway) : GatewayEvent → Prop
  | .clientBytes fd _ => ∃ ch ∈ g.server.channelMap fd, kMaxRecvBufSize < (g.recvBuf ch.serial).readableBytes
  | .loseUp _ _ => True
  | .loseDown _ _ => True
  | _ => False

instance (conf : FrameConf) (g : Gateway) (ch : ServerChannel) (seg : Segment) : Decidable (g.Returns conf ch seg) :=
  inferInstanceAs (Decidable (_ → _))

instance decidablePossible (conf : FrameConf) (g : Gateway) (e : GatewayEvent) : Decidable (g.Possible conf e) :=
  match e with
  | .accept fd _ _ => inferInstanceAs (Decidable (0 < fd ∧ g.server.isOpen fd = false))
  | .clientBytes fd seg =>
    inferInstanceAs (Decidable (g.server.watched fd = true ∧ ∀ ch ∈ g.server.channelMap fd, g.Returns conf ch seg))
  | .clientClose _ => .isTrue trivial
  | .tick _ => .isTrue trivial
  | .toBackend _ => .isTrue trivial
  | .toServer _ => .isTrue trivial
  | .loseUp _ _ => .isTrue trivial
  | .loseDown _ _ => .isTrue trivial

instance decidableLoses (g : Gateway) (e : GatewayEvent) : Decidable (g.Loses e) :=
  match e with
  | .clientBytes fd _ =>
    inferInstanceAs (Decidable (∃ ch ∈ g.server.channelMap fd, kMaxRecvBufSize < (g.recvBuf ch.serial).readableBytes))
  | .loseUp _ _ => .isTrue trivial
  | .loseDown _ _ => .isTrue trivial
  | .accept _ _ _ => .isFalse id
  | .clientClose _ => .isFalse id
  | .tick _ => .isFalse id
  | .toBackend _ => .isFalse id
  | .toServer _ => .isFalse id

variable {conf : FrameConf} {g : Gateway} {k : Int}

theorem step_toBackend_nil (h : g.up k = []) : g.step conf (.toBackend k) = g := by simp only [step, h]

theorem step_toBackend_cons {msg : ServerMsg} {rest : List ServerMsg} (h : g.up k = msg :: rest) :
    g.step conf (.toBackend k) =
      { g with
        up := Function.update g.up k rest
        down := Function.update g.down k (g.down k ++ ConnsvrTest.handleMsg msg) } := by
  simp only [step, h]

theorem step_toServer_nil (h : g.down k = []) : g.step conf (.toServer k) = g := by simp only [step, h]

theorem step_toServer_cons {msg : BackendMsg} {rest : List BackendMsg} (h : g.down k = msg :: rest) :
    g.step conf (.toServer k) =
      advance { g with down := Function.update g.down k rest } (g.server.step (.backendMsg k msg)) := by
  simp only [step, h]

end Gateway

/-- The gateway after the first `k` events. -/
def gatewayAt (maxconn channels : Nat) (conf : FrameConf) (events : List GatewayEvent) (k : Nat) : Gateway :=
  stateAt (Gateway.step conf) (.create maxconn channels) events k

/-- Each event of the run can occur where it does. -/
def PossibleGatewayRun (maxconn channels : Nat) (conf : FrameConf) (events : List GatewayEvent) : Prop :=
  ∀ k (e : GatewayEvent), events[k]? = some e → (gatewayAt maxconn channels conf events k).Possible conf e

/-- Something is lost in the first `n` events. -/
def LossyRun (maxconn channels : Nat) (conf : FrameConf) (events : List GatewayEvent) (n : Nat) : Prop :=
  ∃ k < n, ∃ e ∈ events[k]?, (gatewayAt maxconn channels conf events k).Loses e

variable {maxconn channels : Nat} {conf : FrameConf} {events : List GatewayEvent}

theorem possibleGatewayRun_iff : PossibleGatewayRun maxconn channels conf events ↔
    ∀ k : Fin events.length, (gatewayAt maxconn channels conf events k).Possible conf (events.get k) :=
  forall_event_iff

instance PossibleGatewayRun.decidable : Decidable (PossibleGatewayRun maxconn channels conf events) :=
  decidable_of_iff _ possibleGatewayRun_iff.symm

instance LossyRun.decidable (n : Nat) : Decidable (LossyRun maxconn channels conf events n) :=
  inferInstanceAs (Decidable (∃ k < n, ∃ e ∈ events[k]?, (gatewayAt maxconn channels conf events k).Loses e))

end Wddlib
