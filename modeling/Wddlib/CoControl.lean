import Wddlib.Coroutine

namespace Wddlib

/-- The caller of the `co_resume` call that started or continued `x` most recently. -/
def lastResumer (log : List CoLog) (x : Nat) : Option (Option Nat) :=
  log.findSome? fun
    | .resumed caller y => if y = x then some caller else none
    | _ => none

/-- `x` was resumed after it was initialised last. -/
def resumedSinceInit (x : Nat) : List CoLog → Bool
  | [] => false
  | .inited y :: log => if y = x then false else resumedSinceInit x log
  | .resumed _ y :: log => if y = x then true else resumedSinceInit x log
  | _ :: log => resumedSinceInit x log

/-- The part of a machine that decides who runs, without the stacks. -/
structure Control where
  pRunCo : Option Nat
  status : Nat → CoState
  parent : Nat → Option Nat
  ctx : Option Nat → Option SavedCtx
  owner : Option Nat
  arrival : Pending
  calls : List (Option Nat × Nat)
  lost : Bool
  resumer : Nat → Option (Option Nat)
  active : Nat → Bool

namespace Control

def setStatus (c : Control) (x : Nat) (status : CoState) : Control :=
  { c with status := Function.update c.status x status }

def setParent (c : Control) (x : Nat) (parent : Option Nat) : Control :=
  { c with parent := Function.update c.parent x parent }

def makecontext (c : Control) (x : Nat) : Control :=
  { c with ctx := Function.update c.ctx (some x) (some ⟨some x, .start⟩) }

def swap (c : Control) (src dst : Option Nat) (pending : Pending) : Control :=
  let ctx := Function.update c.ctx src (some ⟨c.owner, pending⟩)
  match ctx dst with
  | none => { c with ctx := ctx, lost := true }
  | some saved =>
    { c with
      ctx := Function.update ctx dst none
      owner := saved.owner
      arrival := saved.pending
      calls := CoMachine.callsAfter c.calls saved
      lost := decide (saved.pending = .finished) }

def init (c : Control) (x : Nat) : Control :=
  { c.setStatus x .ready with active := Function.update c.active x false }

def link (c : Control) (x : Nat) : Control :=
  let linked := c.setParent x c.pRunCo
  let waiting := match c.pRunCo with
    | none => linked
    | some p => linked.setStatus p .suspend
  { waiting with pRunCo := some x }

def switchTo (c : Control) (x : Nat) : Control :=
  swap
    { c with
      calls := (c.owner, x) :: c.calls
      resumer := Function.update c.resumer x (some c.owner)
      active := Function.update c.active x true }
    (c.parent x) (some x) (.resume x)

def resume (c : Control) (x : Nat) : Control :=
  match (c.link x).status x with
  | .ready => (((c.link x).setStatus x .run).makecontext x).switchTo x
  | .suspend => ((c.link x).setStatus x .run).switchTo x
  | _ => c.link x

def switchBack (c : Control) (x : Nat) (pending : Pending) : Control :=
  match c.parent x with
  | none => swap { c with pRunCo := none } (some x) none pending
  | some p => ((setParent { c with pRunCo := some p } x none).setStatus p .run).swap (some x) (some p) pending

def yield (c : Control) : Control :=
  match c.pRunCo with
  | none => c
  | some x => (c.setStatus x .suspend).switchBack x .yield

def ret (c : Control) : Control :=
  match c.owner with
  | none => c
  | some x => (c.setStatus x .ended).switchBack x .finished

def step (c : Control) (e : CoEvent) : Control :=
  if c.lost then c
  else match e with
    | .init x _ _ => c.init x
    | .resume x _ => c.resume x
    | .yield _ => c.yield
    | .ret => c.ret
    | .write _ => c

variable {c : Control} {x : Nat}

/-- The statuses once the running coroutine waits. -/
def waitingStatus (c : Control) : Nat → CoState :=
  match c.pRunCo with
  | none => c.status
  | some p => Function.update c.status p .suspend

theorem link_eq (c : Control) (x : Nat) :
    c.link x =
      { c with
        pRunCo := some x
        status := c.waitingStatus
        parent := Function.update c.parent x c.pRunCo } := by
  unfold link waitingStatus
  cases c.pRunCo with
  | none => rfl
  | some p => rfl

theorem waitingStatus_of_ne (h : c.pRunCo ≠ some x) : c.waitingStatus x = c.status x := by
  cases hp : c.pRunCo with
  | none => simp only [waitingStatus, hp]
  | some p =>
    have hne : x ≠ p := by
      rintro rfl
      exact h hp
    simp only [waitingStatus, hp, Function.update_of_ne hne]

/-- A target that does not run keeps its status while it is linked. -/
theorem link_status_of_ne (h : c.pRunCo ≠ some x) : (c.link x).status x = c.status x := by
  rw [link_eq]
  exact waitingStatus_of_ne h

end Control

namespace CoMachine

def control (s : CoMachine) : Control where
  pRunCo := s.pRunCo
  status x := (s.co x).status
  parent x := (s.co x).parent
  ctx := s.ctx
  owner := s.owner
  arrival := s.arrival
  calls := s.calls
  lost := s.lost
  resumer := lastResumer s.log
  active x := resumedSinceInit x s.log

variable {s : CoMachine} {x : Nat}

/-- A field of one coroutine seen as a function of the coroutine. -/
theorem modifyCo_field {β : Type} (field : Coroutine → β) (s : CoMachine) (x : Nat) (f : Coroutine → Coroutine) :
    (fun y => field ((s.modifyCo x f).co y)) =
      Function.update (fun y => field (s.co y)) x (field (f (s.co x))) := by
  funext y
  by_cases hy : y = x
  · subst hy
    simp [modifyCo]
  · simp [modifyCo, Function.update_of_ne hy]

/-- What neither links coroutines nor changes a status keeps the control. -/
theorem control_modifyCo {f : Coroutine → Coroutine} (hs : (f (s.co x)).status = (s.co x).status)
    (hp : (f (s.co x)).parent = (s.co x).parent) : (s.modifyCo x f).control = s.control := by
  have status_eq := modifyCo_field Coroutine.status s x f
  have parent_eq := modifyCo_field Coroutine.parent s x f
  rw [hs, Function.update_eq_self] at status_eq
  rw [hp, Function.update_eq_self] at parent_eq
  simp only [control, status_eq, parent_eq]
  rfl

@[simp] theorem control_setStatus (s : CoMachine) (x : Nat) (status : CoState) :
    (s.setStatus x status).control = s.control.setStatus x status := by
  have status_eq := modifyCo_field Coroutine.status s x fun c => { c with status := status }
  have parent_eq := modifyCo_field Coroutine.parent s x fun c => { c with status := status }
  rw [Function.update_eq_self] at parent_eq
  simp only [control, setStatus, status_eq, parent_eq]
  rfl

@[simp] theorem control_setParent (s : CoMachine) (x : Nat) (parent : Option Nat) :
    (s.setParent x parent).control = s.control.setParent x parent := by
  have status_eq := modifyCo_field Coroutine.status s x fun c => { c with parent := parent }
  have parent_eq := modifyCo_field Coroutine.parent s x fun c => { c with parent := parent }
  rw [Function.update_eq_self] at status_eq
  simp only [control, setParent, status_eq, parent_eq]
  rfl

@[simp] theorem control_setBuffer (s : CoMachine) (second : Bool) (bytes : List UInt8) :
    (s.setBuffer second bytes).control = s.control := by
  unfold setBuffer
  split <;> rfl

@[simp] theorem control_restoreStack (s : CoMachine) (x : Nat) : (s.restoreStack x).control = s.control :=
  control_setBuffer _ _ _

@[simp] theorem control_setDynamicStack (s : CoMachine) (x : Nat) (second : Bool) :
    (s.setDynamicStack x second).control = s.control :=
  control_modifyCo rfl rfl

@[simp] theorem control_gaveUp (s : CoMachine) (x : Nat) (bytes : List UInt8) :
    control { s with log := .gaveUp x bytes :: s.log } = s.control := rfl

@[simp] theorem control_started (s : CoMachine) (x : Nat) (second : Bool) :
    control { s with log := .started x second :: s.log } = s.control := rfl

@[simp] theorem control_saveStack (s : CoMachine) (x ssize : Nat) : (s.saveStack x ssize).control = s.control := by
  unfold saveStack
  rw [control_gaveUp]
  split
  · refine (control_modifyCo ?_ ?_).trans (control_modifyCo rfl rfl)
    · rfl
    · rfl
  · exact control_modifyCo rfl rfl

@[simp] theorem control_setRunning (s : CoMachine) (x : Option Nat) :
    control { s with pRunCo := x } = { s.control with pRunCo := x } := rfl

@[simp] theorem control_makecontext (s : CoMachine) (x : Nat) :
    (s.makecontext x).control = s.control.makecontext x := rfl

@[simp] theorem control_coSwapcontext (s : CoMachine) (src dst : Option Nat) (pending : Pending) :
    (s.coSwapcontext src dst pending).control = s.control.swap src dst pending := by
  cases h : Function.update s.ctx src (some ⟨s.owner, pending⟩) dst with
  | none => simp [coSwapcontext, Control.swap, control, h]
  | some saved => simp [coSwapcontext, Control.swap, control, h]

@[simp] theorem control_coInit (s : CoMachine) (x : Nat) (pStack : StackMem) (iStackSize : Nat) :
    (s.coInit x pStack iStackSize).control = s.control.init x := by
  have status_eq := modifyCo_field Coroutine.status s x fun c =>
    { c with
      status := .ready, ssSp := pStack, ssSize := iStackSize, stacksize := 0, stack := none
      stackmaxsize := 0, usesecondstack := false }
  have parent_eq := modifyCo_field Coroutine.parent s x fun c =>
    { c with
      status := .ready, ssSp := pStack, ssSize := iStackSize, stacksize := 0, stack := none
      stackmaxsize := 0, usesecondstack := false }
  rw [Function.update_eq_self] at parent_eq
  have active_eq : (fun y => resumedSinceInit y (.inited x :: s.log)) =
      Function.update (fun y => resumedSinceInit y s.log) x false := by
    funext y
    by_cases hy : y = x
    · simp [resumedSinceInit, hy]
    · simp [resumedSinceInit, Function.update_of_ne hy, Ne.symm hy]
  simp only [control, coInit, status_eq, parent_eq, Control.init, Control.setStatus]
  simp only [modifyCo, active_eq]
  rfl

theorem control_resumed (s : CoMachine) (x : Nat) :
    control { s with calls := (s.owner, x) :: s.calls, log := .resumed s.owner x :: s.log } =
      { s.control with
        calls := (s.owner, x) :: s.calls
        resumer := Function.update s.control.resumer x (some s.owner)
        active := Function.update s.control.active x true } := by
  have resumer_eq : lastResumer (.resumed s.owner x :: s.log) =
      Function.update (lastResumer s.log) x (some s.owner) := by
    funext y
    by_cases hy : y = x
    · simp [lastResumer, hy]
    · simp [lastResumer, Function.update_of_ne hy, Ne.symm hy]
  have active_eq : (fun y => resumedSinceInit y (.resumed s.owner x :: s.log)) =
      Function.update (fun y => resumedSinceInit y s.log) x true := by
    funext y
    by_cases hy : y = x
    · simp [resumedSinceInit, hy]
    · simp [resumedSinceInit, Function.update_of_ne hy, Ne.symm hy]
  simp only [control, resumer_eq, active_eq]

@[simp] theorem control_switchTo (s : CoMachine) (x : Nat) : (s.switchTo x).control = s.control.switchTo x := by
  rw [switchTo, control_coSwapcontext, control_resumed]
  rfl

/-- With or without dynamic stacks the control is the same. -/
theorem control_ite (dynamic : Bool) {s s' : CoMachine} (h : s'.control = s.control) :
    (if dynamic then s' else s).control = s.control := by
  cases dynamic with
  | true => exact h
  | false => rfl

@[simp] theorem control_linkParent (s : CoMachine) (x ssize : Nat) :
    (s.linkParent x ssize).control = s.control.link x := by
  have pRunCo_eq : (s.setParent x none).pRunCo = s.pRunCo := rfl
  unfold linkParent Control.link
  rw [control_setRunning, pRunCo_eq]
  cases hp : s.pRunCo with
  | none =>
    have hc : s.control.pRunCo = none := hp
    simp only [hc, control_setParent]
  | some p =>
    have hc : s.control.pRunCo = some p := hp
    simp only [hc]
    rw [control_ite _ (control_saveStack _ _ _)]
    simp [Control.setParent]

theorem control_startCo (s : CoMachine) (x : Nat) :
    (s.startCo x).control = ((s.control.setStatus x .run).makecontext x).switchTo x := by
  unfold startCo
  rw [control_switchTo, control_makecontext, control_ite _ (by simp), control_setStatus]

theorem control_continueCo (s : CoMachine) (x : Nat) :
    (s.continueCo x).control = (s.control.setStatus x .run).switchTo x := by
  unfold continueCo
  rw [control_switchTo, control_ite _ (control_restoreStack _ _), control_setStatus]

@[simp] theorem control_coResume (s : CoMachine) (x ssize : Nat) :
    (s.coResume x ssize).2.control = s.control.resume x := by
  have status_eq : ((s.linkParent x ssize).co x).status = (s.control.link x).status x := by
    rw [← control_linkParent s x ssize]
    rfl
  simp only [coResume, Control.resume, status_eq]
  cases (s.control.link x).status x with
  | ready => simp only [control_startCo, control_linkParent]
  | suspend => simp only [control_continueCo, control_linkParent]
  | none => exact control_linkParent s x ssize
  | run => exact control_linkParent s x ssize
  | ended => exact control_linkParent s x ssize

@[simp] theorem control_switchBack (s : CoMachine) (x : Nat) (pending : Pending) :
    (s.switchBack x pending).control = s.control.switchBack x pending := by
  unfold switchBack Control.switchBack
  have parent_eq : s.control.parent x = (s.co x).parent := rfl
  rw [parent_eq]
  cases (s.co x).parent with
  | none => simp
  | some p =>
    simp only [control_coSwapcontext]
    rw [control_ite _ (control_restoreStack _ _)]
    simp

@[simp] theorem control_coYield (s : CoMachine) (ssize : Nat) :
    (s.coYield ssize).2.control = s.control.yield := by
  unfold coYield Control.yield
  have pRunCo_eq : s.control.pRunCo = s.pRunCo := rfl
  rw [pRunCo_eq]
  cases s.pRunCo with
  | none => rfl
  | some x =>
    simp only [control_switchBack, control_setStatus]
    rw [control_ite _ (control_saveStack _ _ _)]

theorem control_process (s : CoMachine) (x : Nat) :
    (s.process x).control = (s.control.setStatus x .ended).switchBack x .finished := by
  simp [process]

@[simp] theorem control_writeStack (s : CoMachine) (bytes : List UInt8) :
    (s.writeStack bytes).control = s.control := by
  unfold writeStack
  split
  · rfl
  · exact control_ite _ (control_setBuffer _ _ _)

/-- The stacks have no say in who runs. -/
theorem control_step (s : CoMachine) (e : CoEvent) : (s.step e).control = s.control.step e := by
  have lost_eq : s.control.lost = s.lost := rfl
  unfold step Control.step
  rw [lost_eq]
  cases s.lost with
  | true => rfl
  | false =>
    cases e with
    | init x pStack iStackSize => exact control_coInit s x pStack iStackSize
    | resume x ssize => exact control_coResume s x ssize
    | yield ssize => exact control_coYield s ssize
    | ret =>
      have owner_eq : s.control.owner = s.owner := rfl
      simp only [Bool.false_eq_true, if_false, Control.ret, owner_eq]
      cases s.owner with
      | none => rfl
      | some x => exact control_process s x
    | write bytes => exact control_writeStack s bytes

end CoMachine

end Wddlib
