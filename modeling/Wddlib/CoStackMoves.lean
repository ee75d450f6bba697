import Wddlib.CoStackHeap
import Wddlib.CoroutineStack

namespace Wddlib

namespace Memory

variable {m m' m'' : Memory} {x y : Nat}

/-- How much of its stack a coroutine has room for in its copy. -/
def room (m : Memory) (x : Nat) : Nat := (m.copy x).stackmaxsize

theorem save_room (m : Memory) (x ssize : Nat) :
    (m.save x ssize).room = Function.update m.room x (max (m.room x) ssize) := by
  funext y
  by_cases hy : y = x
  · subst hy
    simp [room, save]
  · simp [room, save, Function.update_of_ne hy]

theorem init_room (m : Memory) (x : Nat) : (m.init x).room = Function.update m.room x 0 := by
  funext y
  by_cases hy : y = x
  · subst hy
    simp [room, init]
  · simp [room, init, Function.update_of_ne hy]

theorem restore_room (m : Memory) (x : Nat) : (m.restore x).room = m.room := by
  funext y
  rw [room, (restore_copy m x).1]
  rfl

theorem start_room (m : Memory) (x : Nat) (second : Bool) : (m.start x second).room = m.room := by
  funext y
  by_cases hy : y = x
  · subst hy
    simp [room, start]
  · simp [room, start, Function.update_of_ne hy]

/-- The copies of `m'` have the room that those of `m` have. -/
structure SameRoom (m m' : Memory) : Prop where
  room_eq : m'.room = m.room
  tidy : m.Tidy → m'.Tidy

theorem SameRoom.refl (m : Memory) : SameRoom m m := ⟨rfl, fun h => h⟩

theorem restore_same (m : Memory) (x : Nat) : SameRoom m (m.restore x) :=
  ⟨restore_room m x, fun h => h.restore x⟩

theorem start_same (m : Memory) (x : Nat) (second : Bool) : SameRoom m (m.start x second) :=
  ⟨start_room m x second, fun h => h.start x second⟩

theorem restoreParent_same (m : Memory) (p : Option Nat) : SameRoom m (m.restoreParent p) := by
  cases p with
  | none => exact .refl m
  | some p => exact restore_same m p

end Memory

namespace CoMachine

variable {s : CoMachine} {x : Nat}

/-- `co_resume` gives no coroutine more room but the one whose stack it saves. -/
theorem coResume_room (dynamic : s.isDynamicStack = true) (x ssize : Nat) :
    (s.memory.saveParent s.pRunCo ssize).SameRoom (s.coResume x ssize).2.memory := by
  rw [memory_coResume dynamic]
  cases (s.control.link x).status x with
  | ready => exact Memory.start_same _ _ _
  | suspend => exact Memory.restore_same _ _
  | none => exact .refl _
  | run => exact .refl _
  | ended => exact .refl _

theorem coYield_room (dynamic : s.isDynamicStack = true) (running : s.pRunCo = some x) (ssize : Nat) :
    (s.memory.saveParent s.pRunCo ssize).SameRoom (s.coYield ssize).2.memory := by
  rw [memory_coYield dynamic running, running]
  exact Memory.restoreParent_same _ _

theorem process_room (dynamic : s.isDynamicStack = true) (x : Nat) : s.memory.SameRoom (s.process x).memory := by
  rw [memory_process dynamic]
  exact Memory.restoreParent_same _ _

theorem modifyCo_room (s : CoMachine) (x : Nat) (f : Coroutine → Coroutine) :
    (s.modifyCo x f).memory.room = Function.update s.memory.room x (f (s.co x)).stackmaxsize :=
  modifyCo_field Coroutine.stackmaxsize s x f

theorem modifyCo_tidy (tidy : s.memory.Tidy) {f : Coroutine → Coroutine}
    (fits : (f (s.co x)).stacksize ≤ (f (s.co x)).stackmaxsize)
    (second : (f (s.co x)).usesecondstack = (s.co x).usesecondstack) : (s.modifyCo x f).memory.Tidy := by
  refine ⟨?_, ?_⟩
  · intro y
    by_cases hy : y = x
    · subst hy
      simpa [memory, modifyCo, Coroutine.copy] using fits
    · simpa [memory, modifyCo, Coroutine.copy, Function.update_of_ne hy] using tidy.bounded y
  · intro y b started
    by_cases hy : y = x
    · subst hy
      simpa [memory, modifyCo, Coroutine.copy, second] using tidy.kept y b started
    · simpa [memory, modifyCo, Coroutine.copy, Function.update_of_ne hy] using tidy.kept y b started

end CoMachine

namespace SCoMgr

variable {m m' : SCoMgr} {chain xs : List Nat} {free used : List Int} {x : Nat} {iIdx : Int}

/-- What `InitCoMgr` has set up stays. -/
structure SameSetup (m m' : SCoMgr) : Prop where
  workMode : m'.workMode = m.workMode
  size : m'.iDefaultStackSize = m.iDefaultStackSize
  flag : m'.sch.isDynamicStack = m.sch.isDynamicStack

theorem initCo_setup (m : SCoMgr) (iIdx : Int) (x : Nat) : m.SameSetup (m.initCo iIdx x) := by
  unfold initCo
  simp only
  split <;> exact ⟨rfl, rfl, rfl⟩

theorem initCo_room (dynamic : m.workMode = .dynamicStacksizeMalloc) (iIdx : Int) (x : Nat) :
    (m.initCo iIdx x).sch.memory.room = Function.update m.sch.memory.room x m.iDefaultStackSize := by
  have init_eq : ∀ pStack iStackSize,
      (m.sch.coInit x pStack iStackSize).memory.room = Function.update m.sch.memory.room x 0 := by
    intro pStack iStackSize
    rw [CoMachine.memory_coInit]
    exact Memory.init_room _ _
  have hmode : (m.modifyInfo x fun _ => ⟨iIdx, 0, false⟩).workMode = .dynamicStacksizeMalloc := dynamic
  unfold initCo
  simp only [hmode, true_and]
  split
  next =>
    refine (CoMachine.modifyCo_room _ _ _).trans ?_
    exact (congrArg (Function.update · x m.iDefaultStackSize) (init_eq _ _)).trans (Function.update_idem _ _ _)
  next hzero =>
    have hsize : m.iDefaultStackSize = 0 := not_not.mp hzero
    rw [hsize]
    exact init_eq _ _

theorem initCo_tidy (tidy : m.sch.memory.Tidy) (iIdx : Int) (x : Nat) : (m.initCo iIdx x).sch.memory.Tidy := by
  have made : (m.sch.coInit x m.stackOf.1 m.stackOf.2).memory.Tidy := by
    rw [CoMachine.memory_coInit]
    exact tidy.init x
  unfold initCo
  simp only
  split
  next =>
    refine CoMachine.modifyCo_tidy made ?_ rfl
    simp [CoMachine.coInit, CoMachine.modifyCo]
  next => exact made

theorem freeStack_flag (m : SCoMgr) (x : Nat) : (m.freeStack x).isDynamicStack = m.sch.isDynamicStack := by
  unfold freeStack
  split
  · split <;> rfl
  · split <;> rfl
  · rfl

theorem freeStack_room (m : SCoMgr) {x y : Nat} (hne : y ≠ x) :
    (m.freeStack x).memory.room y = m.sch.memory.room y := by
  unfold freeStack
  split
  · split
    · rw [CoMachine.modifyCo_room, Function.update_of_ne hne]
    · rfl
  · split
    · rw [CoMachine.modifyCo_room, Function.update_of_ne hne]
    · rfl
  · rfl

theorem freeStack_tidy (tidy : m.sch.memory.Tidy) (x : Nat) : (m.freeStack x).memory.Tidy := by
  unfold freeStack
  split
  · split
    · exact CoMachine.modifyCo_tidy tidy (Nat.le_refl 0) rfl
    · exact tidy
  · split
    · exact CoMachine.modifyCo_tidy tidy (tidy.bounded x) rfl
    · exact tidy
  · exact tidy

/-- A coroutine that is resumed starts or goes on behind its `co_yield`. -/
theorem Inv.given_arrives (inv : m.Inv chain free used) (mem : (x : Int) ∈ used) (off : x ∉ chain) (ssize : Nat) :
    (m.given x ssize).sch.arrival = .start ∨ (m.given x ssize).sch.arrival = .yield := by
  have heq : (m.given x ssize).sch.arrival = _ :=
    (congrArg Control.arrival (CoMachine.control_coResume m.sch x ssize)).trans
      (inv.chained.resume_arrival (inv.idle x mem off))
  rw [heq]
  split
  · exact .inl rfl
  · exact .inr rfl

theorem Inv.resume_setup (inv : m.Inv chain free used) (mem : (x : Int) ∈ used) (off : x ∉ chain) (ssize : Nat) :
    m.SameSetup (m.resume (m.info x).iPoolID ssize) := by
  have flag := CoMachine.coResume_isDynamicStack m.sch x ssize
  rw [inv.resume_eq mem off]
  rcases SCoMgr.goOn_arrives (m.given x ssize) (inv.given_arrives mem off ssize) with hsame | ⟨ret, hret⟩
  · rw [hsame]
    exact ⟨rfl, rfl, flag⟩
  · rw [hret]
    exact ⟨rfl, rfl, flag⟩

theorem Inv.yield_setup (inv : m.Inv (x :: xs) free used) (running : m.iRunningID = (m.info x).iPoolID)
    (expiretime : Int) (ssize : Nat) : m.SameSetup (m.yield expiretime ssize) := by
  rw [inv.yield_eq running]
  exact ⟨rfl, rfl, CoMachine.coYield_isDynamicStack m.sch ssize⟩

/-- The copies once `x` is released: others have the room they had. -/
structure RoomBut (m m' : SCoMgr) (x : Nat) : Prop where
  room_eq : ∀ y : Nat, y ≠ x → m'.sch.memory.room y = m.sch.memory.room y
  tidy : m.sch.memory.Tidy → m'.sch.memory.Tidy

theorem Registry.release_rooms (registry : m.Registry free used) (mem : (x : Int) ∈ used) :
    m.SameSetup (m.release (m.info x).iPoolID).2 ∧ m.RoomBut (m.release (m.info x).iPoolID).2 x := by
  obtain ⟨-, -, pool', -, heq, -⟩ := registry.release mem
  rw [heq]
  exact ⟨⟨rfl, rfl, freeStack_flag m x⟩, ⟨fun y hy => freeStack_room m hy, fun tidy => freeStack_tidy tidy x⟩⟩

theorem Inv.finish_rooms (inv : m.Inv (x :: xs) free used) :
    m.SameSetup m.finish ∧ (m.sch.isDynamicStack = true → m.RoomBut m.finish x) := by
  have leaving := inv.left_leaving
  have flag : (m.sch.process x).isDynamicStack = m.sch.isDynamicStack := CoMachine.switchBack_isDynamicStack _ _ _
  obtain ⟨⟨hmode, hsize, hflag⟩, room⟩ := leaving.registry.release_rooms leaving.mem
  have hid : ((m.left x xs.head?).info x).iPoolID = (m.info x).iPoolID := rfl
  rw [hid] at hmode hsize hflag room
  rw [inv.finish_eq]
  refine ⟨⟨hmode, hsize, hflag.trans flag⟩, ?_⟩
  intro dynamic
  have processed := CoMachine.process_room dynamic x
  refine ⟨?_, fun tidy => room.tidy (processed.tidy tidy)⟩
  intro y hy
  exact (room.room_eq y hy).trans (congrFun processed.room_eq y)

theorem Registry.rest_not_mem {before after : List Int} (registry : m.Registry free used)
    (split : used = before ++ (x : Int) :: after) : (x : Int) ∉ before ++ after := by
  have nodup := (List.nodup_append.mp registry.repr.nodup).2.1
  rw [split, List.nodup_middle] at nodup
  exact (List.nodup_cons.mp nodup).1

end SCoMgr

namespace StackHeap

variable {α : Type} {allocfunc : List (HeapCall α) → Nat → α} {h : StackHeap α} {m : SCoMgr} {chain xs : List Nat}
  {free used : List Int} {x : Nat} {id : Int}

/-- The two shared stacks. -/
def shared (h : StackHeap α) : List (Block α) := h.firststack.toList ++ h.secondstack.toList

theorem saveRunning_shared (h : StackHeap α) (s : CoMachine) (ssize : Nat) :
    (h.saveRunning allocfunc s ssize).shared = h.shared := by
  unfold saveRunning saveStack
  cases s.pRunCo with
  | none => rfl
  | some p =>
    simp only
    split
    · split <;> rfl
    · rfl

theorem freeStack_shared (h : StackHeap α) (m : SCoMgr) (x : Nat) : (h.freeStack m x).shared = h.shared := by
  unfold freeStack
  split
  · split <;> rfl
  · split <;> rfl
  · rfl

theorem release_shared (h : StackHeap α) (m : SCoMgr) (id : Int) : (h.release m id).shared = h.shared := by
  unfold release
  split
  · rfl
  · exact freeStack_shared h m _

theorem goOn_shared (h : StackHeap α) (m : SCoMgr) : (h.goOn m).shared = h.shared := by
  unfold goOn
  split
  · split
    · exact release_shared h m _
    · rfl
  · rfl

theorem alloc_shared (h : StackHeap α) (m : SCoMgr) : (h.alloc allocfunc m).shared = h.shared := by
  unfold alloc
  simp only
  split
  · rfl
  · split
    · rfl
    · unfold initCo
      simp only
      split
      · cases m.workMode <;> rfl
      · cases m.workMode <;> rfl

/-- No event touches the shared stacks. -/
theorem step_shared (h : StackHeap α) (m : SCoMgr) (e : MgrEvent) : (h.step allocfunc m e).shared = h.shared := by
  unfold step
  split
  · rfl
  · cases e with
    | alloc => exact alloc_shared h m
    | resume id ssize =>
      simp only [resume]
      split
      · rfl
      · split
        · rw [release_shared, saveRunning_shared]
        · rw [goOn_shared, saveRunning_shared]
    | yield expiretime ssize =>
      simp only [yield]
      split
      · rfl
      · split
        · rw [saveRunning_shared]
        · rw [goOn_shared, saveRunning_shared]
    | ret =>
      simp only [finish]
      split
      · rfl
      · exact goOn_shared h _
    | release id => exact release_shared h m id
    | timeOut x => rfl

theorem saveRunning_fixed (fixed : m.sch.isDynamicStack = false) (ssize : Nat) :
    h.saveRunning allocfunc m.sch ssize = h := by
  unfold saveRunning
  cases m.sch.pRunCo with
  | none => rfl
  | some p => simp only [fixed, Bool.false_eq_true, if_false]

theorem alloc_full (full : m.alloc.1 = -1) : h.alloc allocfunc m = h := by
  unfold SCoMgr.alloc at full
  unfold alloc
  simp only at full ⊢
  split
  next => rfl
  next enough =>
    rw [if_neg enough] at full
    split
    next => rfl
    next pCo hget =>
      simp only [hget] at full
      omega

theorem alloc_made (nonneg : 0 ≤ m.alloc.1) (hget : m.alloc.2.getCo m.alloc.1 = some x) :
    h.alloc allocfunc m = h.initCo allocfunc m x := by
  unfold SCoMgr.alloc at nonneg hget
  unfold alloc
  simp only at nonneg hget ⊢
  split
  next few =>
    rw [if_pos few] at nonneg
    omega
  next enough =>
    rw [if_neg enough] at nonneg hget
    split
    next hnone =>
      simp only [hnone] at nonneg
      omega
    next pCo hsome =>
      simp only [hsome] at hget
      obtain ⟨-, -, -, -, hpool⟩ :=
        SCoMgr.initCo_fields { m with pool := (objpoolAlloc m.pool).2 } (objpoolAlloc m.pool).1 pCo
      have same : some pCo = some x := by
        rw [← hget, ← hsome]
        unfold SCoMgr.getCo
        rw [hpool]
      rw [Option.some.inj same]

theorem goOn_arrives (arrives : m.sch.arrival = .start ∨ m.sch.arrival = .yield) : h.goOn m = h := by
  rcases arrives with hstart | hyield
  · simp only [goOn, hstart]
  · simp only [goOn, hyield]

/-- Control comes back to the `Resume` call that ran `x`. -/
theorem goOn_back {y : Nat} (arrival : m.sch.arrival = .resume y) (frame : m.frame m.sch.owner = some (.resume id x)) :
    h.goOn m = if (m.sch.co x).status = .ended then h.release m id else h := by
  simp only [goOn, arrival, frame]

theorem release_of_some (hget : m.getCo id = some x) : h.release m id = h.freeStack m x := by
  simp only [release, hget]

theorem resume_saves (inv : m.Inv chain free used) (mem : (x : Int) ∈ used) (off : x ∉ chain) (ssize : Nat) :
    h.resume allocfunc m (m.info x).iPoolID ssize = h.saveRunning allocfunc m.sch ssize := by
  have hget : m.getCo (m.info x).iPoolID = some x := inv.registry.getCo_iff.mpr ⟨mem, rfl⟩
  have hnone := @SCoMgr.coResume_none x m.sch ssize (inv.chained.not_running off) (inv.idle x mem off)
  have hpair : m.sch.coResume x ssize = (none, (m.sch.coResume x ssize).2) := Prod.ext hnone rfl
  simp only [resume, hget]
  rw [hpair]
  exact goOn_arrives (inv.given_arrives mem off ssize)

theorem yield_saves (inv : m.Inv (x :: xs) free used) (running : m.iRunningID = (m.info x).iPoolID) (ssize : Nat) :
    h.yield allocfunc m ssize = h.saveRunning allocfunc m.sch ssize := by
  have hget : m.getCo m.iRunningID = some x := inv.registry.getCo_iff.mpr ⟨inv.busy x (by simp), running⟩
  have howner : m.sch.owner = some x := inv.owner_eq
  obtain ⟨hpair, back⟩ := inv.coYield_back ssize
  have hframe := inv.frame_caller fun c hc => Function.update_of_ne hc (some (.yield x)) m.frame
  simp only [yield, hget, howner]
  rw [hpair]
  have waiting : Function.update m.frame (some x) (some (.yield x)) (m.sch.coYield ssize).2.owner =
      some (.resume (m.info x).iPoolID x) := (congrArg _ back.owner).trans hframe
  have suspended : ¬ ((m.sch.coYield ssize).2.co x).status = .ended := by simp [back.status]
  exact (goOn_back back.arrival waiting).trans (if_neg suspended)

theorem finish_frees (inv : m.Inv (x :: xs) free used) : h.finish m = h.freeStack m x := by
  have howner : m.sch.owner = some x := inv.owner_eq
  have hget : m.getCo (m.info x).iPoolID = some x := inv.registry.getCo_iff.mpr ⟨inv.busy x (by simp), rfl⟩
  have back := inv.process_back
  have hframe := inv.frame_caller (fun _ _ => rfl)
  simp only [finish, howner]
  refine (goOn_back back.arrival ((congrArg m.frame back.owner).trans hframe)).trans ?_
  exact (if_pos back.status).trans (release_of_some hget)

end StackHeap

end Wddlib
