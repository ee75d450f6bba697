import Wddlib.CoControl

namespace Wddlib

/-- The bytes that were on top of the stack of `x` when it gave up control last. -/
def lastGaveUp (log : List CoLog) (x : Nat) : Option (List UInt8) :=
  log.findSome? fun
    | .gaveUp y bytes => if y = x then some bytes else none
    | _ => none

/-- The shared stack that `x` was started on, if it was started after it was initialised last. -/
def startedOn (x : Nat) : List CoLog → Option Bool
  | [] => none
  | .inited y :: log => if y = x then none else startedOn x log
  | .started y second :: log => if y = x then some second else startedOn x log
  | _ :: log => startedOn x log

/-- The copy that a coroutine keeps of its stack, and the shared stack it belongs to. -/
structure StackCopy where
  stacksize : Nat
  stackmaxsize : Nat
  stack : Option (List UInt8)
  usesecondstack : Bool
  deriving DecidableEq, Repr

def Coroutine.copy (c : Coroutine) : StackCopy := ⟨c.stacksize, c.stackmaxsize, c.stack, c.usesecondstack⟩

/-- The shared stacks and the copies of a machine. -/
structure Memory where
  firststack : List UInt8
  secondstack : List UInt8
  copy : Nat → StackCopy
  gaveUp : Nat → Option (List UInt8)
  started : Nat → Option Bool

namespace Memory

def buffer (m : Memory) (second : Bool) : List UInt8 := if second then m.secondstack else m.firststack

def setBuffer (m : Memory) (second : Bool) (bytes : List UInt8) : Memory :=
  if second then { m with secondstack := bytes } else { m with firststack := bytes }

def save (m : Memory) (x ssize : Nat) : Memory :=
  let c := m.copy x
  let bytes := CoMachine.topBytes (m.buffer c.usesecondstack) ssize
  let block := if c.stackmaxsize < ssize then List.replicate ssize 0 else c.stack.getD []
  { m with
    copy := Function.update m.copy x
      ⟨ssize, max c.stackmaxsize ssize, some (bytes ++ block.drop ssize), c.usesecondstack⟩
    gaveUp := Function.update m.gaveUp x (some bytes) }

def restore (m : Memory) (x : Nat) : Memory :=
  let c := m.copy x
  let bytes := m.buffer c.usesecondstack
  m.setBuffer c.usesecondstack (bytes.take (bytes.length - c.stacksize) ++ (c.stack.getD []).take c.stacksize)

def start (m : Memory) (x : Nat) (second : Bool) : Memory :=
  { m with
    copy := Function.update m.copy x { m.copy x with usesecondstack := second }
    started := Function.update m.started x (some second) }

def init (m : Memory) (x : Nat) : Memory :=
  { m with
    copy := Function.update m.copy x ⟨0, 0, none, false⟩
    started := Function.update m.started x none }

/-- `p`, if there is one, gives up control. -/
def saveParent (m : Memory) (p : Option Nat) (ssize : Nat) : Memory :=
  match p with
  | none => m
  | some p => m.save p ssize

/-- `p`, if there is one, gets control back. -/
def restoreParent (m : Memory) (p : Option Nat) : Memory :=
  match p with
  | none => m
  | some p => m.restore p

/-- The shared stack that a coroutine is started on by `p`. -/
def freeStack (m : Memory) (p : Option Nat) : Bool :=
  match p with
  | none => false
  | some p => !(m.copy p).usesecondstack

end Memory

namespace CoMachine

def memory (s : CoMachine) : Memory where
  firststack := s.firststack
  secondstack := s.secondstack
  copy x := (s.co x).copy
  gaveUp := lastGaveUp s.log
  started x := startedOn x s.log

variable {s : CoMachine} {x : Nat}

theorem memory_modifyCo {f : Coroutine → Coroutine} (h : (f (s.co x)).copy = (s.co x).copy) :
    (s.modifyCo x f).memory = s.memory := by
  have copy_eq := modifyCo_field Coroutine.copy s x f
  rw [h, Function.update_eq_self] at copy_eq
  simp only [memory, copy_eq]
  rfl

@[simp] theorem memory_setStatus (s : CoMachine) (x : Nat) (status : CoState) :
    (s.setStatus x status).memory = s.memory :=
  memory_modifyCo rfl

@[simp] theorem memory_setParent (s : CoMachine) (x : Nat) (parent : Option Nat) :
    (s.setParent x parent).memory = s.memory :=
  memory_modifyCo rfl

@[simp] theorem memory_setRunning (s : CoMachine) (x : Option Nat) : memory { s with pRunCo := x } = s.memory := rfl

@[simp] theorem memory_makecontext (s : CoMachine) (x : Nat) : (s.makecontext x).memory = s.memory := rfl

@[simp] theorem memory_coSwapcontext (s : CoMachine) (src dst : Option Nat) (pending : Pending) :
    (s.coSwapcontext src dst pending).memory = s.memory := by
  unfold coSwapcontext
  simp only
  split <;> rfl

@[simp] theorem memory_switchTo (s : CoMachine) (x : Nat) : (s.switchTo x).memory = s.memory := by
  rw [switchTo, memory_coSwapcontext]
  rfl

@[simp] theorem memory_setBuffer (s : CoMachine) (second : Bool) (bytes : List UInt8) :
    (s.setBuffer second bytes).memory = s.memory.setBuffer second bytes := by
  cases second <;> rfl

@[simp] theorem memory_restoreStack (s : CoMachine) (x : Nat) :
    (s.restoreStack x).memory = s.memory.restore x :=
  memory_setBuffer _ _ _

theorem memory_setDynamicStack (s : CoMachine) (x : Nat) (second : Bool) :
    memory { s.setDynamicStack x second with log := .started x second :: (s.setDynamicStack x second).log } =
      s.memory.start x second := by
  have copy_eq := modifyCo_field Coroutine.copy s x fun c =>
    { c with
      usesecondstack := second
      ssSp := if second then .second else .first
      ssSize := (s.buffer second).length }
  have started_eq : (fun y => startedOn y (.started x second :: s.log)) =
      Function.update (fun y => startedOn y s.log) x (some second) := by
    funext y
    by_cases hy : y = x
    · simp [startedOn, hy]
    · simp [startedOn, Function.update_of_ne hy, Ne.symm hy]
  simp only [memory, setDynamicStack, copy_eq, Memory.start]
  simp only [modifyCo, started_eq]
  rfl

@[simp] theorem memory_coInit (s : CoMachine) (x : Nat) (pStack : StackMem) (iStackSize : Nat) :
    (s.coInit x pStack iStackSize).memory = s.memory.init x := by
  have copy_eq := modifyCo_field Coroutine.copy s x fun c =>
    { c with
      status := .ready, ssSp := pStack, ssSize := iStackSize, stacksize := 0, stack := none
      stackmaxsize := 0, usesecondstack := false }
  have started_eq : (fun y => startedOn y (.inited x :: s.log)) =
      Function.update (fun y => startedOn y s.log) x none := by
    funext y
    by_cases hy : y = x
    · simp [startedOn, hy]
    · simp [startedOn, Function.update_of_ne hy, Ne.symm hy]
  simp only [memory, coInit, copy_eq, Memory.init]
  simp only [modifyCo, started_eq]
  rfl

theorem saveStack_eq (s : CoMachine) (x ssize : Nat) :
    s.saveStack x ssize =
      { s.modifyCo x fun c =>
          { c with
            stacksize := ssize
            stackmaxsize := max c.stackmaxsize ssize
            stack := some (topBytes (s.buffer c.usesecondstack) ssize ++
              (if c.stackmaxsize < ssize then List.replicate ssize 0 else c.stack.getD []).drop ssize) } with
        log := .gaveUp x (topBytes (s.buffer (s.co x).usesecondstack) ssize) :: s.log } := by
  unfold saveStack
  by_cases grow : (s.co x).stackmaxsize < ssize
  · have hmax : max (s.co x).stackmaxsize ssize = ssize := by omega
    simp [grow, modifyCo, hmax]
  · have hmax : max (s.co x).stackmaxsize ssize = (s.co x).stackmaxsize := by omega
    simp [grow, modifyCo, hmax]

@[simp] theorem memory_saveStack (s : CoMachine) (x ssize : Nat) :
    (s.saveStack x ssize).memory = s.memory.save x ssize := by
  let f : Coroutine → Coroutine := fun c =>
    { c with
      stacksize := ssize
      stackmaxsize := max c.stackmaxsize ssize
      stack := some (topBytes (s.buffer c.usesecondstack) ssize ++
        (if c.stackmaxsize < ssize then List.replicate ssize 0 else c.stack.getD []).drop ssize) }
  have copy_eq := modifyCo_field Coroutine.copy s x f
  have gaveUp_eq : lastGaveUp (.gaveUp x (topBytes (s.buffer (s.co x).usesecondstack) ssize) :: s.log) =
      Function.update (lastGaveUp s.log) x (some (topBytes (s.buffer (s.co x).usesecondstack) ssize)) := by
    funext y
    by_cases hy : y = x
    · simp [lastGaveUp, hy]
    · simp [lastGaveUp, Function.update_of_ne hy, Ne.symm hy]
  rw [saveStack_eq]
  simp only [memory, copy_eq, gaveUp_eq, Memory.save, f]
  rfl

theorem memory_linkParent (dynamic : s.isDynamicStack = true) (x ssize : Nat) :
    (s.linkParent x ssize).memory = s.memory.saveParent s.pRunCo ssize := by
  have pRunCo_eq : (s.setParent x none).pRunCo = s.pRunCo := rfl
  unfold linkParent
  rw [memory_setRunning, pRunCo_eq]
  cases s.pRunCo with
  | none => simp [Memory.saveParent]
  | some p =>
    have dynamic' : (((s.setParent x none).setParent x (some p)).setStatus p .suspend).isDynamicStack = true :=
      dynamic
    simp only [dynamic', if_true, memory_saveStack, memory_setStatus, memory_setParent, Memory.saveParent]

theorem memory_startCo (dynamic : s.isDynamicStack = true) (x : Nat) :
    (s.startCo x).memory = s.memory.start x (s.memory.freeStack (s.co x).parent) := by
  have dynamic' : (s.setStatus x .run).isDynamicStack = true := dynamic
  have parent_eq : ((s.setStatus x .run).co x).parent = (s.co x).parent := by
    simp [setStatus, modifyCo]
  have flag_eq : ∀ p, ((s.setStatus x .run).co p).usesecondstack = (s.co p).usesecondstack := by
    intro p
    by_cases hp : p = x
    · simp [setStatus, modifyCo, hp]
    · simp [setStatus, modifyCo, Function.update_of_ne hp]
  unfold startCo
  simp only [memory_switchTo, memory_makecontext, dynamic', if_true, memory_setDynamicStack, memory_setStatus,
    parent_eq, flag_eq]
  cases (s.co x).parent <;> rfl

theorem memory_continueCo (dynamic : s.isDynamicStack = true) (x : Nat) :
    (s.continueCo x).memory = s.memory.restore x := by
  have dynamic' : (s.setStatus x .run).isDynamicStack = true := dynamic
  unfold continueCo
  simp only [memory_switchTo, dynamic', if_true, memory_restoreStack, memory_setStatus]

theorem isDynamicStack_ite (b : Bool) {s s' : CoMachine} (h : s'.isDynamicStack = s.isDynamicStack) :
    (if b then s' else s).isDynamicStack = s.isDynamicStack := by
  cases b with
  | true => exact h
  | false => rfl

theorem saveStack_isDynamicStack (s : CoMachine) (x ssize : Nat) :
    (s.saveStack x ssize).isDynamicStack = s.isDynamicStack := by
  rw [saveStack_eq]
  rfl

theorem setBuffer_isDynamicStack (s : CoMachine) (second : Bool) (bytes : List UInt8) :
    (s.setBuffer second bytes).isDynamicStack = s.isDynamicStack := by
  cases second <;> rfl

theorem linkParent_isDynamicStack (s : CoMachine) (x ssize : Nat) :
    (s.linkParent x ssize).isDynamicStack = s.isDynamicStack := by
  unfold linkParent
  have pRunCo_eq : (s.setParent x none).pRunCo = s.pRunCo := rfl
  simp only [pRunCo_eq]
  cases s.pRunCo with
  | none => rfl
  | some p => exact isDynamicStack_ite _ (saveStack_isDynamicStack _ _ _)

theorem linkParent_parent (s : CoMachine) (x ssize : Nat) : ((s.linkParent x ssize).co x).parent = s.pRunCo := by
  have parent_eq : ((s.linkParent x ssize).co x).parent = (s.control.link x).parent x := by
    rw [← control_linkParent s x ssize]
    rfl
  rw [parent_eq, Control.link_eq]
  exact Function.update_self _ _ _

theorem memory_coResume (dynamic : s.isDynamicStack = true) (x ssize : Nat) :
    (s.coResume x ssize).2.memory =
      let saved := s.memory.saveParent s.pRunCo ssize
      match (s.control.link x).status x with
      | .ready => saved.start x (saved.freeStack s.pRunCo)
      | .suspend => saved.restore x
      | _ => saved := by
  have status_eq : ((s.linkParent x ssize).co x).status = (s.control.link x).status x := by
    rw [← control_linkParent s x ssize]
    rfl
  have dynamic' : (s.linkParent x ssize).isDynamicStack = true :=
    (linkParent_isDynamicStack s x ssize).trans dynamic
  simp only [coResume, status_eq]
  cases (s.control.link x).status x with
  | ready => simp only [memory_startCo dynamic', memory_linkParent dynamic, linkParent_parent]
  | suspend => simp only [memory_continueCo dynamic', memory_linkParent dynamic]
  | none => simp only [memory_linkParent dynamic]
  | run => simp only [memory_linkParent dynamic]
  | ended => simp only [memory_linkParent dynamic]

theorem memory_switchBack (dynamic : s.isDynamicStack = true) (x : Nat) (pending : Pending) :
    (s.switchBack x pending).memory = s.memory.restoreParent (s.co x).parent := by
  unfold switchBack
  cases (s.co x).parent with
  | none => simp [Memory.restoreParent]
  | some p =>
    have dynamic' : ((setParent { s with pRunCo := some p } x none).setStatus p .run).isDynamicStack = true :=
      dynamic
    simp only [dynamic', if_true, memory_coSwapcontext, memory_restoreStack, memory_setStatus, memory_setParent,
      memory_setRunning, Memory.restoreParent]

theorem memory_coYield (dynamic : s.isDynamicStack = true) (running : s.pRunCo = some x) (ssize : Nat) :
    (s.coYield ssize).2.memory = (s.memory.save x ssize).restoreParent (s.co x).parent := by
  have dynamic' : ((s.saveStack x ssize).setStatus x .suspend).isDynamicStack = true :=
    (saveStack_isDynamicStack s x ssize).trans dynamic
  have parent_eq : (((s.saveStack x ssize).setStatus x .suspend).co x).parent = (s.co x).parent := by
    simp [setStatus, modifyCo, saveStack_eq]
  simp only [coYield, running, dynamic, if_true, memory_switchBack dynamic', memory_setStatus, memory_saveStack,
    parent_eq]

theorem memory_process (dynamic : s.isDynamicStack = true) (x : Nat) :
    (s.process x).memory = s.memory.restoreParent (s.co x).parent := by
  have dynamic' : (s.setStatus x .ended).isDynamicStack = true := dynamic
  have parent_eq : ((s.setStatus x .ended).co x).parent = (s.co x).parent := by
    simp [setStatus, modifyCo]
  rw [process, memory_switchBack dynamic', memory_setStatus, parent_eq]

theorem memory_writeStack (dynamic : s.isDynamicStack = true) (executing : s.owner = some x) (bytes : List UInt8) :
    (s.writeStack bytes).memory = s.memory.setBuffer (s.co x).usesecondstack bytes := by
  simp [writeStack, executing, dynamic]

theorem coSwapcontext_isDynamicStack (s : CoMachine) (src dst : Option Nat) (pending : Pending) :
    (s.coSwapcontext src dst pending).isDynamicStack = s.isDynamicStack := by
  unfold coSwapcontext
  simp only
  split <;> rfl

theorem startCo_isDynamicStack (s : CoMachine) (x : Nat) : (s.startCo x).isDynamicStack = s.isDynamicStack := by
  unfold startCo switchTo
  rw [coSwapcontext_isDynamicStack]
  exact isDynamicStack_ite _ rfl

theorem continueCo_isDynamicStack (s : CoMachine) (x : Nat) :
    (s.continueCo x).isDynamicStack = s.isDynamicStack := by
  unfold continueCo switchTo
  rw [coSwapcontext_isDynamicStack]
  exact isDynamicStack_ite _ (setBuffer_isDynamicStack _ _ _)

theorem switchBack_isDynamicStack (s : CoMachine) (x : Nat) (pending : Pending) :
    (s.switchBack x pending).isDynamicStack = s.isDynamicStack := by
  unfold switchBack
  cases (s.co x).parent with
  | none => exact coSwapcontext_isDynamicStack _ _ _ _
  | some p =>
    simp only
    rw [coSwapcontext_isDynamicStack]
    exact isDynamicStack_ite _ (setBuffer_isDynamicStack _ _ _)

theorem coYield_isDynamicStack (s : CoMachine) (ssize : Nat) :
    (s.coYield ssize).2.isDynamicStack = s.isDynamicStack := by
  unfold coYield
  cases s.pRunCo with
  | none => rfl
  | some x =>
    simp only
    rw [switchBack_isDynamicStack]
    exact isDynamicStack_ite _ (saveStack_isDynamicStack _ _ _)

theorem coResume_isDynamicStack (s : CoMachine) (x ssize : Nat) :
    (s.coResume x ssize).2.isDynamicStack = s.isDynamicStack := by
  unfold coResume
  simp only
  split
  · rw [startCo_isDynamicStack, linkParent_isDynamicStack]
  · rw [continueCo_isDynamicStack, linkParent_isDynamicStack]
  · exact linkParent_isDynamicStack s x ssize

theorem step_isDynamicStack (s : CoMachine) (e : CoEvent) : (s.step e).isDynamicStack = s.isDynamicStack := by
  unfold step
  split
  · rfl
  · cases e with
    | init x pStack iStackSize => rfl
    | resume x ssize => exact coResume_isDynamicStack s x ssize
    | yield ssize => exact coYield_isDynamicStack s ssize
    | ret =>
      simp only
      cases s.owner with
      | none => rfl
      | some x => exact switchBack_isDynamicStack _ _ _
    | write bytes =>
      simp only [writeStack]
      cases s.owner with
      | none => rfl
      | some x => exact isDynamicStack_ite _ (setBuffer_isDynamicStack _ _ _)

end CoMachine

end Wddlib
