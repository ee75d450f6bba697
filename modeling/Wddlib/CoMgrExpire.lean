import Wddlib.CoMgrRun
import Wddlib.ExpireCursor

namespace Wddlib

/-- A sweep that code is in: `ProcessAllExpire` at the link `i` of the used list, `ProcessPartExpire`
up to the position `iEnd`. `looked` tells that the node at hand has been dealt with. -/
inductive Sweep where
  | all (tNow i : Int) (looked : Bool)
  | part (tNow iEnd : Int) (looked : Bool)
  deriving DecidableEq, Repr

/-- A manager in use. `iLastPos` is the static variable of `ProcessPartExpire` and `sweep` has the
sweep that each code is in, that outside of all coroutines under `none`. `asked` is the argument
of the last `Yield` that each code called, `deadline` that of the last `Yield` since its
allocation that found each coroutine running. -/
structure SweepState where
  mgr : SCoMgr
  iLastPos : Int
  sweep : Option Nat → Option Sweep
  asked : Option Nat → Int
  deadline : Nat → Option Int

/-- What the executing code does next. Inside of a sweep that is one half of a turn of its loop. -/
inductive SweepEvent where
  | alloc
  | resume (iPoolID : Int) (ssize : Nat)
  | yield (expiretime : Int) (ssize : Nat)
  | ret
  | release (iPoolID : Int)
  | processAllExpire (tNow : Int)
  | processPartExpire (tNow iOnceProcessCount : Int)
  | loop (ssize : Nat)
  deriving DecidableEq, Repr

/-- The coroutine whose function a `Resume` starts. -/
def SCoMgr.starts (m : SCoMgr) (iPoolID : Int) : Option Nat :=
  (m.getCo iPoolID).filter fun pCo => decide ((m.sch.co pCo).status = .ready ∧ m.sch.pRunCo ≠ some pCo)

namespace SweepState

def create (m : SCoMgr) : SweepState where
  mgr := m
  iLastPos := 0
  sweep _ := none
  asked _ := 0
  deadline _ := none

def setSweep (s : SweepState) (sweep : Option Sweep) : SweepState :=
  { s with sweep := Function.update s.sweep s.mgr.sch.owner sweep }

/-- A function that is started is in no sweep. -/
def resume (s : SweepState) (iPoolID : Int) (ssize : Nat) : SweepState :=
  { s with
    mgr := s.mgr.resume iPoolID ssize
    sweep := match s.mgr.starts iPoolID with
      | none => s.sweep
      | some pCo => Function.update s.sweep (some pCo) none }

/-- What both sweeps do with a node. -/
def examine (s : SweepState) (tNow : Int) (node : Option ObjPtr) (ssize : Nat) : SweepState :=
  match node with
  | none => s
  | some p =>
    let pCo := p.slot.toNat
    if (s.mgr.info pCo).tExpireTime ≤ tNow then
      resume { s with mgr := s.mgr.markTimeOut pCo } (s.mgr.info pCo).iPoolID ssize
    else s

/-- Half a turn of the loop of a sweep: the node is dealt with, or the loop moves on. -/
def loop (s : SweepState) (ssize : Nat) : Sweep → SweepState
  | .all tNow i false =>
    if i = -1 then s.setSweep none
    else (s.setSweep (some (.all tNow i true))).examine tNow (objpoolGetBypos s.mgr.pool i) ssize
  | .all tNow i true => s.setSweep (some (.all tNow (s.mgr.pool.idx i).nextIdx false))
  | .part tNow iEnd false =>
    if s.iLastPos < iEnd then
      (s.setSweep (some (.part tNow iEnd true))).examine tNow (objpoolGetBypos s.mgr.pool s.iLastPos) ssize
    else s.setSweep none
  | .part tNow iEnd true =>
    setSweep { s with iLastPos := int32 (s.iLastPos + 1) } (some (.part tNow iEnd false))

/-- The time of the sweep that the executing code is in and the coroutine it is about to deal with. -/
def node (s : SweepState) : Option (Int × Nat) :=
  match s.sweep s.mgr.sch.owner with
  | some (.all tNow i false) =>
    if i = -1 then none else (objpoolGetBypos s.mgr.pool i).map fun p => (tNow, p.slot.toNat)
  | some (.part tNow iEnd false) =>
    if s.iLastPos < iEnd then (objpoolGetBypos s.mgr.pool s.iLastPos).map fun p => (tNow, p.slot.toNat) else none
  | _ => none

/-- `Alloc`; a slot that is given out has not been waiting. -/
def alloc (s : SweepState) : SweepState :=
  { s with
    mgr := s.mgr.step .alloc
    deadline := match s.mgr.alloc.2.getCo s.mgr.alloc.1 with
      | none => s.deadline
      | some pCo => Function.update s.deadline pCo none }

def yield (s : SweepState) (expiretime : Int) (ssize : Nat) : SweepState :=
  { s with
    mgr := s.mgr.step (.yield expiretime ssize)
    asked := Function.update s.asked s.mgr.sch.owner expiretime
    deadline := match s.mgr.getCo s.mgr.iRunningID with
      | none => s.deadline
      | some pCo => Function.update s.deadline pCo (some expiretime) }

def processPartExpire (s : SweepState) (tNow iOnceProcessCount : Int) : SweepState :=
  let iMaxCount := objpoolGetSize s.mgr.pool
  let iLastPos := partStart iMaxCount s.iLastPos
  setSweep { s with iLastPos := iLastPos } (some (.part tNow (partEnd iMaxCount iOnceProcessCount iLastPos) false))

def step (s : SweepState) (e : SweepEvent) : SweepState :=
  if s.mgr.sch.lost then s
  else match s.sweep s.mgr.sch.owner, e with
    | some sweep, .loop ssize => s.loop ssize sweep
    | some _, _ => s
    | none, .alloc => s.alloc
    | none, .resume iPoolID ssize => s.resume iPoolID ssize
    | none, .yield expiretime ssize => s.yield expiretime ssize
    | none, .ret => { s with mgr := s.mgr.step .ret }
    | none, .release iPoolID => { s with mgr := s.mgr.step (.release iPoolID) }
    | none, .processAllExpire tNow => s.setSweep (some (.all tNow s.mgr.pool.usedHead false))
    | none, .processPartExpire tNow iOnceProcessCount => s.processPartExpire tNow iOnceProcessCount
    | none, .loop _ => s

theorem examine_mgr (s : SweepState) (tNow : Int) (node : Option ObjPtr) (ssize : Nat) :
    (s.examine tNow node ssize).mgr =
      match node.map fun p => (tNow, p.slot.toNat) with
      | none => s.mgr
      | some (tNow, x) =>
        if (s.mgr.info x).tExpireTime ≤ tNow then (s.mgr.markTimeOut x).resume (s.mgr.info x).iPoolID ssize
        else s.mgr := by
  cases node with
  | none => rfl
  | some p =>
    simp only [examine, Option.map_some]
    split <;> rfl

/-- Half a turn of a sweep touches the manager only where it deals with a node. -/
theorem loop_mgr {s : SweepState} {sweep : Sweep} (h : s.sweep s.mgr.sch.owner = some sweep) (ssize : Nat) :
    (s.loop ssize sweep).mgr =
      match s.node with
      | none => s.mgr
      | some (tNow, x) =>
        if (s.mgr.info x).tExpireTime ≤ tNow then (s.mgr.markTimeOut x).resume (s.mgr.info x).iPoolID ssize
        else s.mgr := by
  cases sweep with
  | all tNow i looked =>
    cases looked with
    | true => simp only [loop, node, h, setSweep]
    | false =>
      by_cases hi : i = -1
      · simp only [loop, node, h, hi, if_true, setSweep]
      · simp only [loop, node, h, hi, if_false]
        exact examine_mgr _ _ _ _
  | part tNow iEnd looked =>
    cases looked with
    | true => simp only [loop, node, h, setSweep]
    | false =>
      by_cases hi : s.iLastPos < iEnd
      · simp only [loop, node, h, hi, if_true]
        exact examine_mgr _ _ _ _
      · simp only [loop, node, h, hi, if_false, setSweep]

end SweepState

end Wddlib
