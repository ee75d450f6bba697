import Wddlib.BlockLedger
import Wddlib.CoMgrRun

namespace Wddlib

/-- The stack memory of a manager: the calls of `allocfunc` and `freefunc`, the latest first, and the
blocks that the pointers name. `stack` has the pointer of each coroutine to the copy of its stack,
`ssSp` the block its context runs on with `FIXED_STACKSIZE_MALLOC`, `ctxSp` is that of `m_Sch.ctx`. -/
structure StackHeap (α : Type) where
  calls : List (HeapCall α)
  firststack : Option (Block α)
  secondstack : Option (Block α)
  ctxSp : Option (Block α)
  stack : Nat → Option (Block α)
  ssSp : Nat → Option (Block α)

namespace StackHeap

variable {α : Type} (allocfunc : List (HeapCall α) → Nat → α)

/-- What `allocfunc` answers to a call for `size` bytes. -/
def grant (calls : List (HeapCall α)) (size : Nat) : Block α := ⟨allocfunc calls size, size⟩

def allocStack (h : StackHeap α) (x size : Nat) : StackHeap α :=
  let block := grant allocfunc h.calls size
  { h with calls := .alloc block :: h.calls, stack := Function.update h.stack x (some block) }

def allocSsSp (h : StackHeap α) (x size : Nat) : StackHeap α :=
  let block := grant allocfunc h.calls size
  { h with calls := .alloc block :: h.calls, ssSp := Function.update h.ssSp x (some block) }

def freefunc (h : StackHeap α) (pMem : Option (Block α)) : StackHeap α :=
  { h with calls := .free (pMem.map Block.addr) :: h.calls }

/-- `InitCoMgr`: with dynamic stacks the two shared ones are allocated. -/
def initCoMgr (m : SCoMgr) : StackHeap α :=
  match m.workMode with
  | .dynamicStacksizeMalloc =>
    let first := grant allocfunc [] m.sch.firststack.length
    let second := grant allocfunc [.alloc first] m.sch.secondstack.length
    ⟨[.alloc second, .alloc first], some first, some second, none, fun _ => none, fun _ => none⟩
  | _ => ⟨[], none, none, none, fun _ => none, fun _ => none⟩

/-- `_save_stack`: a copy that has grown gets a new block. -/
def saveStack (h : StackHeap α) (s : CoMachine) (x ssize : Nat) : StackHeap α :=
  if (s.co x).stackmaxsize < ssize then (h.freefunc (h.stack x)).allocStack allocfunc x ssize else h

/-- `co_resume` and `co_yield` save the stack of the running coroutine. -/
def saveRunning (h : StackHeap α) (s : CoMachine) (ssize : Nat) : StackHeap α :=
  match s.pRunCo with
  | none => h
  | some p => if s.isDynamicStack then h.saveStack allocfunc s p ssize else h

/-- The second half of `Alloc`; `co_init` sets `stack` to NULL. -/
def initCo (h : StackHeap α) (m : SCoMgr) (pCo : Nat) : StackHeap α :=
  let h := match m.workMode with
    | .fixedStacksizeMalloc => h.allocSsSp allocfunc pCo m.iDefaultStackSize
    | _ => h
  let h := { h with stack := Function.update h.stack pCo none }
  if m.workMode = .dynamicStacksizeMalloc ∧ m.iDefaultStackSize ≠ 0 then
    h.allocStack allocfunc pCo m.iDefaultStackSize
  else h

def alloc (h : StackHeap α) (m : SCoMgr) : StackHeap α :=
  let taken := objpoolAlloc m.pool
  if taken.1 < 0 then h
  else
    match SCoMgr.getCo { m with pool := taken.2 } taken.1 with
    | none => h
    | some pCo => h.initCo allocfunc m pCo

/-- What `Release` gives back. -/
def freeStack (h : StackHeap α) (m : SCoMgr) (pCo : Nat) : StackHeap α :=
  match m.workMode with
  | .dynamicStacksizeMalloc =>
    if h.stack pCo ≠ none then
      { h.freefunc (h.stack pCo) with stack := Function.update h.stack pCo none }
    else h
  | .fixedStacksizeMalloc =>
    if h.ssSp pCo ≠ none then
      { h.freefunc (h.ssSp pCo) with ssSp := Function.update h.ssSp pCo none }
    else h
  | .fixedStacksizePool => h

def release (h : StackHeap α) (m : SCoMgr) (iPoolID : Int) : StackHeap α :=
  match m.getCo iPoolID with
  | none => h
  | some pCo => h.freeStack m pCo

/-- The end of `Resume`, for the call that goes on after a switch. -/
def goOn (h : StackHeap α) (m : SCoMgr) : StackHeap α :=
  match m.sch.arrival, m.frame m.sch.owner with
  | .resume _, some (.resume iPoolID pCo) =>
    if (m.sch.co pCo).status = .ended then h.release m iPoolID else h
  | _, _ => h

def resume (h : StackHeap α) (m : SCoMgr) (iPoolID : Int) (ssize : Nat) : StackHeap α :=
  match m.getCo iPoolID with
  | none => h
  | some pCo =>
    let h := h.saveRunning allocfunc m.sch ssize
    match m.sch.coResume pCo ssize with
    | (some _, _) => h.release m iPoolID
    | (none, sch) =>
      h.goOn { m with sch := sch, frame := Function.update m.frame m.sch.owner (some (.resume iPoolID pCo)) }

def yield (h : StackHeap α) (m : SCoMgr) (ssize : Nat) : StackHeap α :=
  match m.getCo m.iRunningID with
  | none => h
  | some pCo =>
    let h := h.saveRunning allocfunc m.sch ssize
    match m.sch.coYield ssize with
    | (some _, _) => h
    | (none, sch) =>
      h.goOn { m with sch := sch, frame := Function.update m.frame m.sch.owner (some (.yield pCo)) }

def finish (h : StackHeap α) (m : SCoMgr) : StackHeap α :=
  match m.sch.owner with
  | none => h
  | some x => h.goOn { m with sch := m.sch.process x }

/-- What an event of the manager `m` does to its stack memory. -/
def step (h : StackHeap α) (m : SCoMgr) (e : MgrEvent) : StackHeap α :=
  if m.sch.lost then h
  else match e with
    | .alloc => h.alloc allocfunc m
    | .resume iPoolID ssize => h.resume allocfunc m iPoolID ssize
    | .yield _ ssize => h.yield allocfunc m ssize
    | .ret => h.finish m
    | .release iPoolID => h.release m iPoolID
    | .timeOut _ => h

/-- `Destory`. -/
def destory (h : StackHeap α) (m : SCoMgr) : StackHeap α :=
  if m.workMode = .dynamicStacksizeMalloc ∧ h.ctxSp ≠ none then
    { h.freefunc h.ctxSp with ctxSp := none }
  else h

end StackHeap

/-- The stack memory after the first `k` events. -/
def heapAt {α : Type} (allocfunc : List (HeapCall α) → Nat → α) (m₀ : SCoMgr) (events : List MgrEvent) :
    Nat → StackHeap α
  | 0 => .initCoMgr allocfunc m₀
  | k + 1 =>
    match events[k]? with
    | none => heapAt allocfunc m₀ events k
    | some e => (heapAt allocfunc m₀ events k).step allocfunc (mgrAt m₀ events k) e

end Wddlib
