import Wddlib.AppCtrlServer
import Wddlib.FloatInt
import Wddlib.ServerApp

namespace Wddlib

structure TimeVal where
  sec : Int
  usec : Nat
  lt : usec < 1000000 := by decide
  deriving DecidableEq

def TimeVal.epoch : TimeVal where
  sec := 0
  usec := 0

inductive ProcRetMode where
  | sleep
  | noSleep
  deriving DecidableEq

/-- One `DoRecv` of a control channel: the channel object, what it reads, and what `_LoadConf` finds while that is
handled. -/
structure CtrlRead where
  client : Nat
  chunk : List UInt8
  confFile : ConfFile
  deriving DecidableEq

/-- What a pass of the loop of `Run` gets: the control reads of `Poll(0)`, the result of `OnProc` and the clock. -/
structure Round where
  reads : List CtrlRead
  procRet : ProcRetMode
  curtime : TimeVal
  deriving DecidableEq

/-- A command that was executed and the reply that its channel was sent. -/
structure Reply where
  client : Nat
  instr : List UInt8
  outstr : List UInt8
  deriving DecidableEq

/-- A pass of the loop: its replies, the argument of `usleep`, and whether `OnTick` is called. -/
structure LoopTurn where
  round : Round
  replies : List Reply
  usleep : Option Int
  onTick : Bool
  deriving DecidableEq

/-- `ServerApp` in the loop of `Run`. `recvBuf` are the receive buffers of the control channel objects, which start
empty. -/
structure MainLoop (Conf : Type) where
  app : ServerApp Conf
  recvBuf : Nat → Buffer
  ticktime : TimeVal
  idlesleepcount : Nat

/-- The milliseconds from `ticktime` to `curtime`. -/
def elapsedMs (curtime ticktime : TimeVal) : Int :=
  (curtime.sec - ticktime.sec) * 1000 + ((curtime.usec : Int) - ticktime.usec).tdiv 1000

def fcost (curtime ticktime : TimeVal) : Int := toFloat (elapsedMs curtime ticktime)

/-- `100 - fcost` is a `float` too. -/
def alignms (fcost : Int) : Int := floatToInt (toFloat (100 - fcost))

/-- `alignms*1000`, an `int`, as the `useconds_t` of `usleep`. -/
def usleepArg (alignms : Int) : Int := int32 (alignms * 1000) % 4294967296

namespace MainLoop

variable {Conf : Type}

/-- After `Init`, with the first reading of the clock. -/
def create (conf : Conf) (ticktime : TimeVal) : MainLoop Conf where
  app := ⟨conf, false⟩
  recvBuf _ := .create 1024
  ticktime := ticktime
  idlesleepcount := 0

section Program

variable (parse : TextFormat Conf) (onCtrlCmd : List UInt8 → List UInt8 → Int × List UInt8)

/-- The commands that one `OnMsgRecv` finds. -/
def controlCmds (client : Nat) (file : ConfFile) (app : ServerApp Conf) :
    List (List UInt8) → ServerApp Conf × List Reply
  | [] => (app, [])
  | instr :: instrs =>
    let r := app.controlCmd parse onCtrlCmd file instr []
    let rest := controlCmds client file r.1 instrs
    (rest.1, ⟨client, instr, r.2⟩ :: rest.2)

/-- `DoRecv` and `AppCtrlServer::OnMsgRecv`; every turn of its loop but the last removes a byte. -/
def recv (loop : MainLoop Conf) (read : CtrlRead) : MainLoop Conf × List Reply :=
  let b := (loop.recvBuf read.client).scatterRead read.chunk
  match AppCtrlServer.onMsgRecv (b.readableBytes + 1) b with
  | none => ({ loop with recvBuf := Function.update loop.recvBuf read.client b }, [])
  | some (instrs, b) =>
    let r := controlCmds parse onCtrlCmd read.client read.confFile loop.app instrs
    ({ loop with app := r.1, recvBuf := Function.update loop.recvBuf read.client b }, r.2)

/-- `m_poll.Poll(0)`. -/
def poll (loop : MainLoop Conf) : List CtrlRead → MainLoop Conf × List Reply
  | [] => (loop, [])
  | read :: reads =>
    let r := loop.recv parse onCtrlCmd read
    let rest := poll r.1 reads
    (rest.1, r.2 ++ rest.2)

def pass (loop : MainLoop Conf) (round : Round) : MainLoop Conf × LoopTurn :=
  let r := loop.poll parse onCtrlCmd round.reads
  let idle := if round.procRet = .sleep then loop.idlesleepcount + 1 else 0
  let cost := fcost round.curtime loop.ticktime
  let sleeps := idle > 10 ∧ alignms cost > 0
  ({ r.1 with
      idlesleepcount := if sleeps then 0 else idle
      ticktime := if cost ≥ 100 then round.curtime else loop.ticktime },
    ⟨round, r.2, if sleeps then some (usleepArg (alignms cost)) else none, decide (cost ≥ 100)⟩)

/-- The loop of `Run` as far as the rounds go. After `m_is_stop` there are no more passes. -/
def run (loop : MainLoop Conf) : List Round → MainLoop Conf × List LoopTurn
  | [] => (loop, [])
  | round :: rounds =>
    if loop.app.isStop then (loop, [])
    else
      let r := loop.pass parse onCtrlCmd round
      let rest := run r.1 rounds
      (rest.1, r.2 :: rest.2)

end Program

end MainLoop

end Wddlib
