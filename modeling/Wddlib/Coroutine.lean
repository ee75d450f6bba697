import Wddlib.ParentChain
import Wddlib.RunPrefix

namespace Wddlib

/-- `co_state`. -/
inductive CoState where
  | none
  | ready
  | run
  | suspend
  | ended
  deriving DecidableEq, Repr

/-- The memory that the stack pointer of a context names: a pool unit, an allocated block, or one of
the two shared stacks. -/
inductive StackMem where
  | null
  | pool
  | malloced
  | first
  | second
  deriving DecidableEq, Repr

/-- A `coroutine`; coroutines are named by numbers in place of addresses, and `none` is NULL.
`ssSp` and `ssSize` are the stack of its context. -/
structure Coroutine where
  status : CoState
  parent : Option Nat
  ssSp : StackMem
  ssSize : Nat
  stacksize : Nat
  stackmaxsize : Nat
  stack : Option (List UInt8)
  usesecondstack : Bool
  deriving DecidableEq, Repr

/-- Where code that gave up control goes on. -/
inductive Pending where
  | start
  | resume (target : Nat)
  | yield
  | finished
  deriving DecidableEq, Repr

/-- A saved context: whose code it belongs to (`none` for the code outside of all coroutines) and
where that code goes on. -/
structure SavedCtx where
  owner : Option Nat
  pending : Pending
  deriving DecidableEq, Repr

/-- What a run of coroutines leaves behind for the statements about it. -/
inductive CoLog where
  | inited (co : Nat)
  | resumed (caller : Option Nat) (co : Nat)
  | started (co : Nat) (second : Bool)
  | gaveUp (co : Nat) (bytes : List UInt8)
  deriving DecidableEq, Repr

/-- A `schedule` with its coroutines. `ctx` has the saved contexts, that of the schedule under
`none`; a context that was switched to is gone until it is saved again. `owner` is whose code is
executing, `arrival` how it got there, `calls` are the `co_resume` calls, caller and target, that have
not returned, the innermost first. After a switch to a context that is gone the machine is `lost`. -/
structure CoMachine where
  isDynamicStack : Bool
  pRunCo : Option Nat
  firststack : List UInt8
  secondstack : List UInt8
  co : Nat → Coroutine
  ctx : Option Nat → Option SavedCtx
  owner : Option Nat
  arrival : Pending
  calls : List (Option Nat × Nat)
  lost : Bool
  log : List CoLog

namespace CoMachine

def create (isDynamicStack : Bool) (firststack secondstack : List UInt8) : CoMachine where
  isDynamicStack := isDynamicStack
  pRunCo := none
  firststack := firststack
  secondstack := secondstack
  co _ := ⟨.none, none, .null, 0, 0, 0, none, false⟩
  ctx _ := none
  owner := none
  arrival := .start
  calls := []
  lost := false
  log := []

def modifyCo (s : CoMachine) (x : Nat) (f : Coroutine → Coroutine) : CoMachine :=
  { s with co := Function.update s.co x (f (s.co x)) }

def setStatus (s : CoMachine) (x : Nat) (status : CoState) : CoMachine :=
  s.modifyCo x fun c => { c with status := status }

def setParent (s : CoMachine) (x : Nat) (parent : Option Nat) : CoMachine :=
  s.modifyCo x fun c => { c with parent := parent }

/-- The shared stack that a coroutine was given. -/
def buffer (s : CoMachine) (second : Bool) : List UInt8 := if second then s.secondstack else s.firststack

def setBuffer (s : CoMachine) (second : Bool) (bytes : List UInt8) : CoMachine :=
  if second then { s with secondstack := bytes } else { s with firststack := bytes }

/-- The last `n` bytes, which are the top of a stack that grows down. -/
def topBytes (bytes : List UInt8) (n : Nat) : List UInt8 := bytes.drop (bytes.length - n)

/-- `_save_stack`; `ssize` is the distance from the stack pointer to the top of the stack. -/
def saveStack (s : CoMachine) (x ssize : Nat) : CoMachine :=
  let bytes := topBytes (s.buffer (s.co x).usesecondstack) ssize
  let s := if (s.co x).stackmaxsize < ssize then
      s.modifyCo x fun c => { c with stackmaxsize := ssize, stack := some (List.replicate ssize 0) }
    else s
  let s := s.modifyCo x fun c =>
    { c with stacksize := ssize, stack := some (bytes ++ (c.stack.getD []).drop ssize) }
  { s with log := .gaveUp x bytes :: s.log }

/-- `_restore_stack`. -/
def restoreStack (s : CoMachine) (x : Nat) : CoMachine :=
  let c := s.co x
  let bytes := s.buffer c.usesecondstack
  s.setBuffer c.usesecondstack (bytes.take (bytes.length - c.stacksize) ++ (c.stack.getD []).take c.stacksize)

/-- `_set_dynamic_stack`. -/
def setDynamicStack (s : CoMachine) (x : Nat) (issecond : Bool) : CoMachine :=
  s.modifyCo x fun c =>
    { c with
      usesecondstack := issecond
      ssSp := if issecond then .second else .first
      ssSize := (s.buffer issecond).length }

/-- `getcontext` and `makecontext`: the context starts `_process`. -/
def makecontext (s : CoMachine) (x : Nat) : CoMachine :=
  { s with ctx := Function.update s.ctx (some x) (some ⟨some x, .start⟩) }

/-- A `co_resume` call returns when its caller goes on. -/
def callsAfter (calls : List (Option Nat × Nat)) (saved : SavedCtx) : List (Option Nat × Nat) :=
  match saved.pending with
  | .resume _ => calls.eraseP fun call => call.1 = saved.owner
  | _ => calls

/-- The current context is saved in `src`, which goes on at `pending`, and `dst` is switched to. -/
def coSwapcontext (s : CoMachine) (src dst : Option Nat) (pending : Pending) : CoMachine :=
  let ctx := Function.update s.ctx src (some ⟨s.owner, pending⟩)
  match ctx dst with
  | none => { s with ctx := ctx, lost := true }
  | some saved =>
    { s with
      ctx := Function.update ctx dst none
      owner := saved.owner
      arrival := saved.pending
      calls := callsAfter s.calls saved
      lost := decide (saved.pending = .finished) }

def coInit (s : CoMachine) (x : Nat) (pStack : StackMem) (iStackSize : Nat) : CoMachine :=
  let s := s.modifyCo x fun c =>
    { c with
      status := .ready
      ssSp := pStack
      ssSize := iStackSize
      stacksize := 0
      stack := none
      stackmaxsize := 0
      usesecondstack := false }
  { s with log := .inited x :: s.log }

/-- The first half of `co_resume`: the running coroutine becomes the parent and waits. -/
def linkParent (s : CoMachine) (x ssize : Nat) : CoMachine :=
  let s := s.setParent x none
  let s := match s.pRunCo with
    | none => s
    | some p =>
      let s := (s.setParent x (some p)).setStatus p .suspend
      if s.isDynamicStack then s.saveStack p ssize else s
  { s with pRunCo := some x }

/-- The switch at the end of `co_resume`. -/
def switchTo (s : CoMachine) (x : Nat) : CoMachine :=
  coSwapcontext { s with calls := (s.owner, x) :: s.calls, log := .resumed s.owner x :: s.log }
    (s.co x).parent (some x) (.resume x)

/-- The case `CO_STATE_READY` of `co_resume`. -/
def startCo (s : CoMachine) (x : Nat) : CoMachine :=
  let s := s.setStatus x .run
  let second := match (s.co x).parent with
    | some p => !(s.co p).usesecondstack
    | none => false
  let s := if s.isDynamicStack then
      let s := s.setDynamicStack x second
      { s with log := .started x second :: s.log }
    else s
  (s.makecontext x).switchTo x

/-- The case `CO_STATE_SUSPEND` of `co_resume`. -/
def continueCo (s : CoMachine) (x : Nat) : CoMachine :=
  let s := s.setStatus x .run
  let s := if s.isDynamicStack then s.restoreStack x else s
  s.switchTo x

/-- `none` in place of a result says that control went to `x`; the call returns 0 when it comes back. -/
def coResume (s : CoMachine) (x ssize : Nat) : Option Int × CoMachine :=
  let s := s.linkParent x ssize
  match (s.co x).status with
  | .ready => (none, s.startCo x)
  | .suspend => (none, s.continueCo x)
  | _ => (some (-2), s)

/-- The end of `co_yield` and of `_process`: the parent, or the code outside of all coroutines, goes
on. -/
def switchBack (s : CoMachine) (x : Nat) (pending : Pending) : CoMachine :=
  let parent := (s.co x).parent
  let s := { s with pRunCo := parent }
  match parent with
  | none => s.coSwapcontext (some x) none pending
  | some p =>
    let s := (s.setParent x none).setStatus p .run
    let s := if s.isDynamicStack then s.restoreStack p else s
    s.coSwapcontext (some x) (some p) pending

def coYield (s : CoMachine) (ssize : Nat) : Option Int × CoMachine :=
  match s.pRunCo with
  | none => (some (-1), s)
  | some x =>
    let s := if s.isDynamicStack then s.saveStack x ssize else s
    (none, (s.setStatus x .suspend).switchBack x .yield)

/-- The rest of `_process` after the function of coroutine `x` has returned. -/
def process (s : CoMachine) (x : Nat) : CoMachine := (s.setStatus x .ended).switchBack x .finished

end CoMachine

/-- What the executing code does next. `ssize` is how much of its stack it uses then. -/
inductive CoEvent where
  | init (co : Nat) (pStack : StackMem) (iStackSize : Nat)
  | resume (co ssize : Nat)
  | yield (ssize : Nat)
  | ret
  | write (bytes : List UInt8)
  deriving DecidableEq, Repr

namespace CoMachine

/-- The executing coroutine writes to the shared stack it runs on. -/
def writeStack (s : CoMachine) (bytes : List UInt8) : CoMachine :=
  match s.owner with
  | none => s
  | some x => if s.isDynamicStack then s.setBuffer (s.co x).usesecondstack bytes else s

def step (s : CoMachine) (e : CoEvent) : CoMachine :=
  if s.lost then s
  else match e with
    | .init x pStack iStackSize => s.coInit x pStack iStackSize
    | .resume x ssize => (s.coResume x ssize).2
    | .yield ssize => (s.coYield ssize).2
    | .ret =>
      match s.owner with
      | none => s
      | some x => s.process x
    | .write bytes => s.writeStack bytes

end CoMachine

end Wddlib
