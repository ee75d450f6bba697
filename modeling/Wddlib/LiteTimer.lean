import Wddlib.ObjPool
import Wddlib.HeapAlgo

namespace Wddlib

structure LiteTimer where
  id : Int
  timerIdx : Int
  expireTime : Int
  deriving DecidableEq, Repr, Inhabited

/-- `LiteTimer::operator <`, reversed so that the standard max-heap keeps the earliest timer at
the root. -/
def LiteTimer.less (t elem : LiteTimer) : Bool := decide (t.expireTime > elem.expireTime)

structure TTimerArg (β : Type) where
  timerIdx : Int
  buf : β

/-- A timer manager: the heap, the argument pool (`none` before `InitTimerMgr`), and the pool's
objects by slot. -/
structure LiteTimerMgr (β : Type) where
  timerHeap : List LiteTimer
  timerArgPool : Option TObjPool
  args : Int → TTimerArg β

namespace LiteTimerMgr

variable {β : Type}

def getTimerArg (mgr : LiteTimerMgr β) (id : Int) : Option ObjPtr :=
  mgr.timerArgPool.bind fun pool => objpoolGet pool id

def setTimerIdxById (mgr : LiteTimerMgr β) (id idx : Int) : Int × LiteTimerMgr β :=
  match mgr.timerArgPool with
  | none => (-1, mgr)
  | some pool =>
    match objpoolGet pool id with
    | none => (-2, mgr)
    | some arg =>
      (0, { mgr with args := Function.update mgr.args arg.slot { mgr.args arg.slot with timerIdx := idx } })

def getTimerIdxByID (mgr : LiteTimerMgr β) (id : Int) : Int :=
  match mgr.timerArgPool with
  | none => -1
  | some pool =>
    match objpoolGet pool id with
    | none => -2
    | some arg => (mgr.args arg.slot).timerIdx

/-- `m_TimerHeap[i]`; the value outside the vector is never relied on. -/
def timerAt (mgr : LiteTimerMgr β) (i : Nat) : LiteTimer := mgr.timerHeap.getD i default

/-- `m_TimerHeap[i] = elem` through `LiteTimer::operator =`: the element keeps its own index and
reports it to the manager under the id it takes over. -/
def assignTimer (mgr : LiteTimerMgr β) (i : Nat) (elem : LiteTimer) : LiteTimerMgr β :=
  let timer := { mgr.timerAt i with id := elem.id, expireTime := elem.expireTime }
  let mgr := { mgr with timerHeap := mgr.timerHeap.set i timer }
  (mgr.setTimerIdxById timer.id timer.timerIdx).2

/-- The heap as the standard algorithms see it: copies out, `operator =` in. -/
def cells : Cells (LiteTimerMgr β) LiteTimer := ⟨timerAt, assignTimer⟩

def setExpireTime (mgr : LiteTimerMgr β) (i : Nat) (expireTime : Int) : LiteTimerMgr β :=
  { mgr with timerHeap := mgr.timerHeap.set i { mgr.timerAt i with expireTime := expireTime } }

def popBack (mgr : LiteTimerMgr β) : LiteTimerMgr β :=
  { mgr with timerHeap := mgr.timerHeap.dropLast }

/-- `IAmTimerMgr::_StartTimer`. -/
def startTimerById (mgr : LiteTimerMgr β) (id expireTime : Int) : Int × LiteTimerMgr β :=
  let idx : Nat := mgr.timerHeap.length
  let timer : LiteTimer := ⟨id, idx, expireTime⟩
  let mgr := { mgr with timerHeap := mgr.timerHeap ++ [timer] }
  let mgr := (mgr.setTimerIdxById id idx).2
  (0, pushHeap cells LiteTimer.less mgr mgr.timerHeap.length)

/-- The part `IAmTimerMgr::UpdateTimer` and `_StopTimer` share: the timer at `idx` is keyed to 0,
sifted up in its prefix and popped to the back of the heap. -/
def moveToBack (mgr : LiteTimerMgr β) (idx : Int) : LiteTimerMgr β :=
  let mgr := mgr.setExpireTime idx.toNat 0
  let mgr := pushHeap cells LiteTimer.less mgr (idx.toNat + 1)
  popHeap cells LiteTimer.less mgr mgr.timerHeap.length

/-- `IAmTimerMgr::UpdateTimer`. -/
def updateTimerById (mgr : LiteTimerMgr β) (id expireTime : Int) : Int × LiteTimerMgr β :=
  let idx := mgr.getTimerIdxByID id
  if idx < 0 ∨ mgr.timerHeap.length < 1 ∨ expireTime = 0 then (-1, mgr)
  else
    let mgr := mgr.moveToBack idx
    let mgr := mgr.setExpireTime (mgr.timerHeap.length - 1) expireTime
    (0, pushHeap cells LiteTimer.less mgr mgr.timerHeap.length)

/-- `IAmTimerMgr::_StopTimer`. -/
def stopTimerById (mgr : LiteTimerMgr β) (id : Int) : Int × LiteTimerMgr β :=
  let idx := mgr.getTimerIdxByID id
  if idx < 0 ∨ mgr.timerHeap.length < 1 then (-1, mgr)
  else (0, (mgr.moveToBack idx).popBack)

/-- `IAmTimerMgr::_TickOneExpireTimer`. -/
def tickOneExpireTimerId (mgr : LiteTimerMgr β) (now : Int) : Int × LiteTimerMgr β :=
  if mgr.timerHeap.length ≠ 0 ∧ (mgr.timerAt 0).expireTime ≤ now then
    ((mgr.timerAt 0).id, (popHeap cells LiteTimer.less mgr mgr.timerHeap.length).popBack)
  else (-1, mgr)

/-- A manager as constructed: nothing in the heap, no pool; the object area holds anything. -/
def create (args : Int → TTimerArg β) : LiteTimerMgr β := ⟨[], none, args⟩

def initTimerMgr (mgr : LiteTimerMgr β) (malloc : Nat → Bool) (maxCount argSize : Nat) :
    Int × LiteTimerMgr β :=
  if mgr.timerArgPool.isSome then (-1, mgr)
  else
    match objpoolInit malloc maxCount argSize with
    | (ret, pool) =>
      if ret < 0 then (-2, { mgr with timerArgPool := pool })
      else (0, { mgr with timerArgPool := pool, timerHeap := [] })

def startTimer (mgr : LiteTimerMgr β) (expireTime : Int) (buf : β) : Int × LiteTimerMgr β :=
  match mgr.timerArgPool with
  | none => (-1, mgr)
  | some pool =>
    if expireTime = 0 then (-1, mgr)
    else
      let allocated := objpoolAlloc pool
      let mgr := { mgr with timerArgPool := some allocated.2 }
      if 0 > allocated.1 then (-2, mgr)
      else
        match objpoolGet allocated.2 allocated.1 with
        | none => (-3, mgr)
        | some arg =>
          let mgr :=
            { mgr with args := Function.update mgr.args arg.slot { mgr.args arg.slot with buf := buf } }
          let started := mgr.startTimerById allocated.1 expireTime
          if started.1 < (0 : Int) then (-4, started.2) else (0, started.2)

def updateTimer (mgr : LiteTimerMgr β) (id expireTime : Int) : Int × LiteTimerMgr β :=
  if mgr.timerArgPool.isNone ∨ expireTime = 0 then (-1, mgr)
  else
    let updated := mgr.updateTimerById id expireTime
    if updated.1 < 0 then (-2, updated.2) else (0, updated.2)

def stopTimer (mgr : LiteTimerMgr β) (id : Int) : Int × LiteTimerMgr β :=
  match mgr.timerArgPool with
  | none => (-1, mgr)
  | some _ =>
    let stopped := mgr.stopTimerById id
    if stopped.1 < 0 then (-2, stopped.2)
    else (0, { stopped.2 with timerArgPool := stopped.2.timerArgPool.map fun pool => (objpoolFree pool id).2 })

/-- The returned id, the manager afterwards and the value of `arg` afterwards. -/
def tickOneExpireTimer (mgr : LiteTimerMgr β) (now : Int) (arg : β) : Int × LiteTimerMgr β × β :=
  match mgr.timerArgPool with
  | none => (-1, mgr, arg)
  | some _ =>
    let ticked := mgr.tickOneExpireTimerId now
    if ticked.1 < 0 then (-1, ticked.2, arg)
    else
      match ticked.2.getTimerArg ticked.1 with
      | none => (-1, ticked.2, arg)
      | some timerArg =>
        (ticked.1,
          { ticked.2 with timerArgPool := ticked.2.timerArgPool.map fun pool => (objpoolFree pool ticked.1).2 },
          (ticked.2.args timerArg.slot).buf)

def getActiveCount (mgr : LiteTimerMgr β) : Int :=
  match mgr.timerArgPool with
  | none => if errObjpoolNullptr ≠ mgr.timerHeap.length then -1 else mgr.timerHeap.length
  | some pool => if objpoolGetUsedItems pool ≠ mgr.timerHeap.length then -1 else mgr.timerHeap.length

end LiteTimerMgr

end Wddlib
