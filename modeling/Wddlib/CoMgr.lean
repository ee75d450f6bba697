import Wddlib.ObjPool
import Wddlib.Coroutine

namespace Wddlib

inductive CoMgrWorkMode where
  | fixedStacksizePool
  | fixedStacksizeMalloc
  | dynamicStacksizeMalloc
  deriving DecidableEq, Repr

/-- The fields of an `SCoroutine` beside its `coroutine`. -/
structure CoInfo where
  iPoolID : Int
  tExpireTime : Int
  isTimeOut : Bool
  deriving DecidableEq, Repr

def yieldTimeout : Int := -987654321

/-- A call of `Resume` or `Yield` that waits for control to come back, with its locals. -/
inductive MgrFrame where
  | resume (iPoolID : Int) (pCo : Nat)
  | yield (pCo : Nat)
  deriving DecidableEq, Repr

/-- The calls on a manager, with what they returned, and the functions of coroutines that have
returned. `caller` is the coroutine that made the call, `none` outside of all coroutines. -/
inductive MgrLog where
  | allocated (ret : Int)
  | resumed (caller : Option Nat) (id ret : Int)
  | yielded (caller : Option Nat) (ret : Int)
  | finished (id : Int)
  | released (id ret : Int)
  | called (id : Int)
  deriving DecidableEq, Repr

/-- A manager; its coroutine in slot `p` of the pool is coroutine `p` of `sch`. `frame` has the call
of the manager that each waiting context is in. -/
structure SCoMgr where
  workMode : CoMgrWorkMode
  pool : TObjPool
  iDefaultStackSize : Nat
  iRunningID : Int
  sch : CoMachine
  info : Nat → CoInfo
  frame : Option Nat → Option MgrFrame
  log : List MgrLog

namespace SCoMgr

/-- A manager after a successful `InitCoMgr`, whose pool is `pool`. -/
def initCoMgr (pool : TObjPool) (iStackSize : Nat) (iMode : CoMgrWorkMode) (firststack secondstack : List UInt8) :
    SCoMgr where
  workMode := iMode
  pool := pool
  iDefaultStackSize := iStackSize
  iRunningID := 0
  sch := .create (decide (iMode = .dynamicStacksizeMalloc)) firststack secondstack
  info _ := ⟨0, 0, false⟩
  frame _ := none
  log := []

def getCo (m : SCoMgr) (iPoolID : Int) : Option Nat := (objpoolGet m.pool iPoolID).map fun p => p.slot.toNat

def geCoCount (m : SCoMgr) : Int := objpoolGetUsedItems m.pool

def record (m : SCoMgr) (entry : MgrLog) : SCoMgr := { m with log := entry :: m.log }

def modifyInfo (m : SCoMgr) (x : Nat) (f : CoInfo → CoInfo) : SCoMgr :=
  { m with info := Function.update m.info x (f (m.info x)) }

/-- `pStack` and `iStackSize` of `Alloc`. -/
def stackOf (m : SCoMgr) : StackMem × Nat :=
  match m.workMode with
  | .fixedStacksizePool => (.pool, m.iDefaultStackSize)
  | .fixedStacksizeMalloc => (.malloced, m.iDefaultStackSize)
  | .dynamicStacksizeMalloc => (.first, m.sch.firststack.length)

/-- The second half of `Alloc`: the slot `pCo` was taken under the id `iIdx`. -/
def initCo (m : SCoMgr) (iIdx : Int) (pCo : Nat) : SCoMgr :=
  let m := m.modifyInfo pCo fun _ => ⟨iIdx, 0, false⟩
  let sch := m.sch.coInit pCo m.stackOf.1 m.stackOf.2
  if m.workMode = .dynamicStacksizeMalloc ∧ m.iDefaultStackSize ≠ 0 then
    let size := m.iDefaultStackSize
    { m with sch := sch.modifyCo pCo fun c => { c with stack := some (List.replicate size 0), stackmaxsize := size } }
  else { m with sch := sch }

def alloc (m : SCoMgr) : Int × SCoMgr :=
  let taken := objpoolAlloc m.pool
  let iIdx := taken.1
  if iIdx < 0 then (-1, m)
  else
    let m := { m with pool := taken.2 }
    match m.getCo iIdx with
    | none => (-2, m)
    | some pCo => (iIdx, m.initCo iIdx pCo)

/-- What `Release` gives back of the stack of a coroutine. -/
def freeStack (m : SCoMgr) (pCo : Nat) : CoMachine :=
  match m.workMode with
  | .dynamicStacksizeMalloc =>
    if (m.sch.co pCo).stack ≠ none then
      m.sch.modifyCo pCo fun c => { c with stack := none, stacksize := 0, stackmaxsize := 0 }
    else m.sch
  | .fixedStacksizeMalloc =>
    if (m.sch.co pCo).ssSp ≠ .null then m.sch.modifyCo pCo fun c => { c with ssSp := .null, ssSize := 0 }
    else m.sch
  | .fixedStacksizePool => m.sch

def release (m : SCoMgr) (iPoolID : Int) : Int × SCoMgr :=
  match m.getCo iPoolID with
  | none => (-1, m)
  | some pCo =>
    let freed := objpoolFree m.pool iPoolID
    (freed.1, { m with sch := m.freeStack pCo, pool := freed.2 })

/-- The end of `Resume`, once `co_resume` has returned 0. -/
def resumeReturn (m : SCoMgr) (caller : Option Nat) (iPoolID : Int) (pCo : Nat) : SCoMgr :=
  let m := { m with iRunningID := 0 }
  if (m.sch.co pCo).status = .ended then (m.release iPoolID).2.record (.resumed caller iPoolID 0)
  else m.record (.resumed caller iPoolID iPoolID)

/-- The end of `Yield`. -/
def yieldReturn (m : SCoMgr) (caller : Option Nat) (pCo : Nat) : SCoMgr :=
  m.record (.yielded caller (if (m.info pCo).isTimeOut then yieldTimeout else 0))

/-- After a switch the call that the executing context is in goes on. -/
def goOn (m : SCoMgr) : SCoMgr :=
  let caller := m.sch.owner
  match m.sch.arrival, m.frame caller with
  | .resume _, some (.resume iPoolID pCo) =>
    resumeReturn { m with frame := Function.update m.frame caller none } caller iPoolID pCo
  | .yield, some (.yield pCo) => yieldReturn { m with frame := Function.update m.frame caller none } caller pCo
  | _, _ => m

/-- `ssize` is how much of its stack the caller uses. -/
def resume (m : SCoMgr) (iPoolID : Int) (ssize : Nat) : SCoMgr :=
  match m.getCo iPoolID with
  | none => m.record (.resumed m.sch.owner iPoolID (-1))
  | some pCo =>
    let caller := m.sch.owner
    let m := { m with iRunningID := iPoolID }
    match m.sch.coResume pCo ssize with
    | (some _, sch) => (release { m with sch := sch } iPoolID).2.record (.resumed caller iPoolID (-2))
    | (none, sch) =>
      goOn { m with sch := sch, frame := Function.update m.frame caller (some (.resume iPoolID pCo)) }

def yield (m : SCoMgr) (expiretime : Int) (ssize : Nat) : SCoMgr :=
  match m.getCo m.iRunningID with
  | none => m.record (.yielded m.sch.owner (-1))
  | some pCo =>
    let caller := m.sch.owner
    let m := m.modifyInfo pCo fun i => { i with tExpireTime := expiretime, isTimeOut := false }
    match m.sch.coYield ssize with
    | (some _, sch) => yieldReturn { m with sch := sch } caller pCo
    | (none, sch) => goOn { m with sch := sch, frame := Function.update m.frame caller (some (.yield pCo)) }

/-- The function of the executing coroutine returns. -/
def finish (m : SCoMgr) : SCoMgr :=
  match m.sch.owner with
  | none => m
  | some x => goOn { m.record (.finished (m.info x).iPoolID) with sch := m.sch.process x }

end SCoMgr

/-- What the executing code does next. `timeOut` is the mark that a sweep sets before it resumes a
coroutine. -/
inductive MgrEvent where
  | alloc
  | resume (iPoolID : Int) (ssize : Nat)
  | yield (expiretime : Int) (ssize : Nat)
  | ret
  | release (iPoolID : Int)
  | timeOut (pCo : Nat)
  deriving DecidableEq, Repr

namespace SCoMgr

def markTimeOut (m : SCoMgr) (pCo : Nat) : SCoMgr := m.modifyInfo pCo fun i => { i with isTimeOut := true }

def step (m : SCoMgr) (e : MgrEvent) : SCoMgr :=
  if m.sch.lost then m
  else match e with
    | .alloc => m.alloc.2.record (.allocated m.alloc.1)
    | .resume iPoolID ssize => m.resume iPoolID ssize
    | .yield expiretime ssize => m.yield expiretime ssize
    | .ret => m.finish
    | .release iPoolID => (m.release iPoolID).2.record (.released iPoolID (m.release iPoolID).1)
    | .timeOut pCo => m.markTimeOut pCo

end SCoMgr

end Wddlib
