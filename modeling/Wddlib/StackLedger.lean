import Wddlib.CoStackMoves
import Mathlib.Algebra.Order.BigOperators.Group.List
import Mathlib.Algebra.Order.Group.Nat

namespace Wddlib

/-- Who holds a block of stack memory. -/
inductive StackOwner where
  | first
  | second
  | copy (x : Nat)
  | context (x : Nat)
  deriving DecidableEq, Repr

namespace StackHeap

variable {α : Type} [DecidableEq α] {allocfunc : List (HeapCall α) → Nat → α} {h : StackHeap α} {m m' : SCoMgr}
  {chain xs : List Nat} {spare used before after : List Int} {x : Nat} {id : Int} {e : MgrEvent}

def holder (h : StackHeap α) : StackOwner → Option (Block α)
  | .first => h.firststack
  | .second => h.secondstack
  | .copy x => h.stack x
  | .context x => h.ssSp x

omit [DecidableEq α] in
theorem holder_stack (h : StackHeap α) (calls : List (HeapCall α)) (x : Nat) (block : Option (Block α)) :
    holder { h with calls := calls, stack := Function.update h.stack x block } =
      Function.update h.holder (.copy x) block := by
  funext i
  cases i with
  | copy y => simp [holder, Function.update_apply]
  | first => rfl
  | second => rfl
  | context y => rfl

omit [DecidableEq α] in
theorem holder_ssSp (h : StackHeap α) (calls : List (HeapCall α)) (x : Nat) (block : Option (Block α)) :
    holder { h with calls := calls, ssSp := Function.update h.ssSp x block } =
      Function.update h.holder (.context x) block := by
  funext i
  cases i with
  | context y => simp [holder, Function.update_apply]
  | first => rfl
  | second => rfl
  | copy y => rfl

/-- Every block that is outstanding is held by somebody. -/
def Blocks (h : StackHeap α) : Prop := BlockLedger h.calls h.holder

theorem Blocks.allocStack (blocks : h.Blocks) (fresh : AllocatesFresh allocfunc) (idle : h.stack x = none)
    (size : Nat) : (h.allocStack allocfunc x size).Blocks := by
  unfold Blocks StackHeap.allocStack
  rw [holder_stack]
  exact BlockLedger.alloc blocks _ idle (fresh h.calls size blocks.sound)

theorem Blocks.allocSsSp (blocks : h.Blocks) (fresh : AllocatesFresh allocfunc) (idle : h.ssSp x = none)
    (size : Nat) : (h.allocSsSp allocfunc x size).Blocks := by
  unfold Blocks StackHeap.allocSsSp
  rw [holder_ssSp]
  exact BlockLedger.alloc blocks _ idle (fresh h.calls size blocks.sound)

/-- A copy gives its block back for a new one. -/
theorem Blocks.renew (blocks : h.Blocks) (fresh : AllocatesFresh allocfunc) (x size : Nat) :
    ((h.freefunc (h.stack x)).allocStack allocfunc x size).Blocks := by
  have given := BlockLedger.free blocks (.copy x)
  let calls := HeapCall.free ((h.stack x).map Block.addr) :: h.calls
  have apart : ∀ other ∈ outstanding calls, other.addr ≠ (grant allocfunc calls size).addr :=
    fresh calls size given.sound
  unfold Blocks StackHeap.allocStack
  rw [holder_stack]
  exact BlockLedger.replace blocks (.copy x) apart

theorem Blocks.freeStack (blocks : h.Blocks) (m : SCoMgr) (x : Nat) : (h.freeStack m x).Blocks := by
  unfold StackHeap.freeStack
  split
  · split
    · unfold Blocks freefunc
      rw [holder_stack]
      exact BlockLedger.free blocks (.copy x)
    · exact blocks
  · split
    · unfold Blocks freefunc
      rw [holder_ssSp]
      exact BlockLedger.free blocks (.context x)
    · exact blocks
  · exact blocks

/-- The stack memory fits the manager, whose coroutines are the slots `used`. -/
structure Fits (h : StackHeap α) (m : SCoMgr) (used : List Int) : Prop where
  blocks : h.Blocks
  ctxSp : h.ctxSp = none
  flag : m.sch.isDynamicStack = decide (m.workMode = .dynamicStacksizeMalloc)
  spare : ∀ x : Nat, (x : Int) ∉ used → h.stack x = none ∧ h.ssSp x = none
  shared : m.workMode ≠ .dynamicStacksizeMalloc → h.firststack = none ∧ h.secondstack = none
  copies : m.workMode ≠ .dynamicStacksizeMalloc → ∀ x, h.stack x = none
  contexts : m.workMode ≠ .fixedStacksizeMalloc → ∀ x, h.ssSp x = none
  given : m.workMode = .fixedStacksizeMalloc → ∀ x : Nat, (x : Int) ∈ used →
    ∃ block, h.ssSp x = some block ∧ block.size = m.iDefaultStackSize
  sized : m.workMode = .dynamicStacksizeMalloc → ∀ x : Nat, (x : Int) ∈ used →
    (h.stack x).elim 0 Block.size = m.sch.memory.room x
  tidy : m.workMode = .dynamicStacksizeMalloc → m.sch.memory.Tidy

theorem Fits.frame (fits : h.Fits m used) (setup : m.SameSetup m')
    (same : m.workMode = .dynamicStacksizeMalloc → m.sch.memory.SameRoom m'.sch.memory) : h.Fits m' used := by
  obtain ⟨hmode, hsize, hflag⟩ := setup
  refine ⟨fits.blocks, fits.ctxSp, ?_, fits.spare, ?_, ?_, ?_, ?_, ?_, ?_⟩
  · rw [hflag, hmode]
    exact fits.flag
  · rw [hmode]
    exact fits.shared
  · rw [hmode]
    exact fits.copies
  · rw [hmode]
    exact fits.contexts
  · rw [hmode, hsize]
    exact fits.given
  · intro dynamic x hx
    rw [hmode] at dynamic
    rw [(same dynamic).room_eq]
    exact fits.sized dynamic x hx
  · intro dynamic
    rw [hmode] at dynamic
    exact (same dynamic).tidy (fits.tidy dynamic)

/-- With dynamic stacks the copy of one coroutine changes, others stay in use. -/
theorem Fits.setStack (fits : h.Fits m used) (dynamic : m.workMode = .dynamicStacksizeMalloc)
    (setup : m.SameSetup m') {calls : List (HeapCall α)} {block : Option (Block α)} {used' : List Int}
    (blocks : Blocks { h with calls := calls, stack := Function.update h.stack x block })
    (tidy : m'.sch.memory.Tidy) (others : ∀ y : Nat, y ≠ x → ((y : Int) ∈ used' ↔ (y : Int) ∈ used))
    (room : ∀ y : Nat, y ≠ x → m'.sch.memory.room y = m.sch.memory.room y)
    (here : (x : Int) ∈ used' → block.elim 0 Block.size = m'.sch.memory.room x)
    (gone : (x : Int) ∉ used' → block = none) :
    Fits { h with calls := calls, stack := Function.update h.stack x block } m' used' := by
  obtain ⟨hmode, -, hflag⟩ := setup
  have hcontexts := fits.contexts (by simp [dynamic])
  refine ⟨blocks, fits.ctxSp, ?_, ?_, ?_, ?_, fun _ => hcontexts, ?_, ?_, fun _ => tidy⟩
  · rw [hflag, hmode]
    exact fits.flag
  · intro y hy
    refine ⟨?_, hcontexts y⟩
    by_cases hyx : y = x
    · subst hyx
      exact (Function.update_self _ _ _).trans (gone hy)
    · rw [others y hyx] at hy
      exact (Function.update_of_ne hyx _ _).trans (fits.spare y hy).1
  · intro fixed
    exact absurd (hmode.trans dynamic) fixed
  · intro fixed
    exact absurd (hmode.trans dynamic) fixed
  · intro fixed
    rw [hmode, dynamic] at fixed
    cases fixed
  · intro _ y hy
    by_cases hyx : y = x
    · subst hyx
      simp only [Function.update_self]
      exact here hy
    · simp only [Function.update_of_ne hyx, room y hyx]
      exact fits.sized dynamic y ((others y hyx).mp hy)

/-- With allocated stacks the stack of one coroutine changes, others stay in use. -/
theorem Fits.setSsSp (fits : h.Fits m used) (malloced : m.workMode = .fixedStacksizeMalloc)
    (setup : m.SameSetup m') {calls : List (HeapCall α)} {block : Option (Block α)} {used' : List Int}
    (blocks : Blocks { h with calls := calls, ssSp := Function.update h.ssSp x block })
    (others : ∀ y : Nat, y ≠ x → ((y : Int) ∈ used' ↔ (y : Int) ∈ used))
    (here : (x : Int) ∈ used' → ∃ given, block = some given ∧ given.size = m.iDefaultStackSize)
    (gone : (x : Int) ∉ used' → block = none) :
    Fits { h with calls := calls, ssSp := Function.update h.ssSp x block } m' used' := by
  obtain ⟨hmode, hsize, hflag⟩ := setup
  have fixed : m.workMode ≠ .dynamicStacksizeMalloc := by simp [malloced]
  have fixed' : m'.workMode ≠ .dynamicStacksizeMalloc := by rwa [hmode]
  refine ⟨blocks, fits.ctxSp, ?_, ?_, fun _ => fits.shared fixed, fun _ => fits.copies fixed, ?_, ?_, ?_, ?_⟩
  · rw [hflag, hmode]
    exact fits.flag
  · intro y hy
    refine ⟨fits.copies fixed y, ?_⟩
    by_cases hyx : y = x
    · subst hyx
      exact (Function.update_self _ _ _).trans (gone hy)
    · rw [others y hyx] at hy
      exact (Function.update_of_ne hyx _ _).trans (fits.spare y hy).2
  · intro other
    exact absurd (hmode.trans malloced) other
  · intro _ y hy
    rw [hsize]
    by_cases hyx : y = x
    · subst hyx
      simp only [Function.update_self]
      exact here hy
    · simp only [Function.update_of_ne hyx]
      exact fits.given malloced y ((others y hyx).mp hy)
  · intro dynamic
    exact absurd dynamic fixed'
  · intro dynamic
    exact absurd dynamic fixed'

/-- Stacks in the pool are no blocks. -/
theorem Fits.pooled (fits : h.Fits m used) (pool : m.workMode = .fixedStacksizePool) (setup : m.SameSetup m')
    (used' : List Int) : h.Fits m' used' := by
  have fixed : m.workMode ≠ .dynamicStacksizeMalloc := by simp [pool]
  have hstack := fits.copies fixed
  have hssSp := fits.contexts (by simp [pool])
  have kept := fits.frame setup fun dynamic => absurd dynamic fixed
  have hmode' : m'.workMode = .fixedStacksizePool := setup.workMode.trans pool
  refine ⟨kept.blocks, kept.ctxSp, kept.flag, fun y _ => ⟨hstack y, hssSp y⟩, kept.shared, kept.copies,
    kept.contexts, ?_, ?_, ?_⟩
  · intro malloced
    rw [hmode'] at malloced
    cases malloced
  · intro dynamic
    rw [hmode'] at dynamic
    cases dynamic
  · intro dynamic
    rw [hmode'] at dynamic
    cases dynamic

/-- The stack of the running coroutine is saved. -/
theorem Fits.save (fits : h.Fits m used) (fresh : AllocatesFresh allocfunc)
    (running : ∀ p, m.sch.pRunCo = some p → (p : Int) ∈ used) (ssize : Nat) (setup : m.SameSetup m')
    (same : m.workMode = .dynamicStacksizeMalloc →
      (m.sch.memory.saveParent m.sch.pRunCo ssize).SameRoom m'.sch.memory) :
    (h.saveRunning allocfunc m.sch ssize).Fits m' used := by
  by_cases dynamic : m.workMode = .dynamicStacksizeMalloc
  · have hflag : m.sch.isDynamicStack = true := by
      rw [fits.flag, dynamic]
      rfl
    have same := same dynamic
    unfold saveRunning
    cases hrun : m.sch.pRunCo with
    | none =>
      rw [hrun] at same
      exact fits.frame setup fun _ => same
    | some p =>
      have hp := running p hrun
      rw [hrun] at same
      simp only [hflag, if_true, saveStack]
      have hroom : (m.sch.co p).stackmaxsize = m.sch.memory.room p := rfl
      rw [hroom]
      have room_eq : m'.sch.memory.room =
          Function.update m.sch.memory.room p (max (m.sch.memory.room p) ssize) :=
        same.room_eq.trans (Memory.save_room _ _ _)
      have tidy : m'.sch.memory.Tidy := same.tidy ((fits.tidy dynamic).save p ssize)
      split
      next grow =>
        rw [Nat.max_eq_right (by omega)] at room_eq
        refine fits.setStack dynamic setup (fits.blocks.renew fresh p ssize) tidy (fun _ _ => Iff.rfl) ?_ ?_ ?_
        · intro y hy
          rw [room_eq, Function.update_of_ne hy]
        · intro _
          rw [room_eq, Function.update_self]
          rfl
        · intro hnot
          exact absurd hp hnot
      next small =>
        refine fits.frame setup fun _ => ⟨?_, fun _ => tidy⟩
        rw [room_eq, Nat.max_eq_left (by omega), Function.update_eq_self]
  · have fixed : m.sch.isDynamicStack = false := by
      rw [fits.flag]
      exact decide_eq_false dynamic
    rw [saveRunning_fixed fixed]
    exact fits.frame setup fun h => absurd h dynamic

/-- A coroutine is made in the slot `x`. -/
theorem Fits.make (fits : h.Fits m used) (fresh : AllocatesFresh allocfunc) (hx : (x : Int) ∉ used)
    (setup : m.SameSetup m')
    (made : m.workMode = .dynamicStacksizeMalloc →
      m'.sch.memory.room = Function.update m.sch.memory.room x m.iDefaultStackSize ∧ m'.sch.memory.Tidy) :
    (h.initCo allocfunc m x).Fits m' ((x : Int) :: used) := by
  obtain ⟨hstack, hssSp⟩ := fits.spare x hx
  have others : ∀ y : Nat, y ≠ x → ((y : Int) ∈ (x : Int) :: used ↔ (y : Int) ∈ used) := by
    intro y hy
    have hne : (y : Int) ≠ x := fun heq => hy (Int.ofNat.inj heq)
    simp [hne]
  have same : { h with stack := Function.update h.stack x none } = h := by
    rw [← hstack, Function.update_eq_self]
  cases hmode : m.workMode with
  | fixedStacksizePool =>
    simp only [initCo, hmode, same, reduceCtorEq, false_and, if_false]
    exact fits.pooled hmode setup _
  | fixedStacksizeMalloc =>
    have fixed : m.workMode ≠ .dynamicStacksizeMalloc := by simp [hmode]
    have kept : { h.allocSsSp allocfunc x m.iDefaultStackSize with stack := Function.update h.stack x none } =
        h.allocSsSp allocfunc x m.iDefaultStackSize := by
      rw [← hstack, Function.update_eq_self]
      rfl
    simp only [initCo, hmode, reduceCtorEq, false_and, if_false]
    change Fits { h.allocSsSp allocfunc x m.iDefaultStackSize with stack := Function.update h.stack x none } m' _
    rw [kept]
    exact fits.setSsSp hmode setup (fits.blocks.allocSsSp fresh hssSp _) others (fun _ => ⟨_, rfl, rfl⟩) (by simp)
  | dynamicStacksizeMalloc =>
    obtain ⟨room_eq, tidy⟩ := made hmode
    have room : ∀ y : Nat, y ≠ x → m'.sch.memory.room y = m.sch.memory.room y := by
      intro y hy
      rw [room_eq, Function.update_of_ne hy]
    simp only [initCo, hmode, same, true_and]
    split
    next =>
      refine fits.setStack hmode setup (fits.blocks.allocStack fresh hstack _) tidy others room ?_ (by simp)
      intro _
      rw [room_eq, Function.update_self]
      rfl
    next hzero =>
      have hsize : m.iDefaultStackSize = 0 := not_not.mp hzero
      have unchanged : Blocks { h with stack := Function.update h.stack x none } := by
        rw [same]
        exact fits.blocks
      have fits' := fits.setStack hmode setup unchanged tidy others room ?_ (by simp)
      · rwa [same] at fits'
      · intro _
        rw [room_eq, Function.update_self, hsize]
        rfl

/-- The coroutine in the slot `x` is released. -/
theorem Fits.free (fits : h.Fits m used) (hx : (x : Int) ∉ before ++ after)
    (split : used = before ++ (x : Int) :: after) (setup : m.SameSetup m')
    (rooms : m.sch.isDynamicStack = true → m.RoomBut m' x) : (h.freeStack m x).Fits m' (before ++ after) := by
  have others : ∀ y : Nat, y ≠ x → ((y : Int) ∈ before ++ after ↔ (y : Int) ∈ used) := by
    intro y hy
    have hne : (y : Int) ≠ x := fun heq => hy (Int.ofNat.inj heq)
    simp [split, hne]
  have blocks := fits.blocks.freeStack m x
  cases hmode : m.workMode with
  | fixedStacksizePool =>
    simp only [StackHeap.freeStack, hmode]
    exact fits.pooled hmode setup _
  | fixedStacksizeMalloc =>
    simp only [StackHeap.freeStack, hmode] at blocks ⊢
    split
    next held =>
      rw [if_pos held] at blocks
      exact fits.setSsSp hmode setup blocks others (fun hmem => absurd hmem hx) fun _ => rfl
    next idle =>
      obtain ⟨block, held, -⟩ := fits.given hmode x (by simp [split])
      exact absurd (by simp [held]) idle
  | dynamicStacksizeMalloc =>
    have hflag : m.sch.isDynamicStack = true := by
      rw [fits.flag, hmode]
      rfl
    obtain ⟨room, tidy⟩ := rooms hflag
    simp only [StackHeap.freeStack, hmode] at blocks ⊢
    split
    next held =>
      rw [if_pos held] at blocks
      exact fits.setStack hmode setup blocks (tidy (fits.tidy hmode)) others room (fun hmem => absurd hmem hx)
        fun _ => rfl
    next idle =>
      have same : { h with stack := Function.update h.stack x none } = h := by
        rw [← not_not.mp idle, Function.update_eq_self]
      have unchanged : Blocks { h with stack := Function.update h.stack x none } := by
        rw [same]
        exact fits.blocks
      have fits' := fits.setStack hmode setup unchanged (tidy (fits.tidy hmode)) others room
        (fun hmem => absurd hmem hx) fun _ => rfl
      rwa [same] at fits'

/-- Every step of a manager keeps its stack memory in order. -/
theorem Fits.step (fits : h.Fits m used) (inv : m.Inv chain spare used) (fresh : AllocatesFresh allocfunc)
    (legal : e.Legal m) :
    ∃ chain' spare' used', (m.step e).Inv chain' spare' used' ∧ (h.step allocfunc m e).Fits (m.step e) used' := by
  have alive : m.sch.lost = false := inv.chained.alive
  have hrun : m.sch.pRunCo = chain.head? := inv.chained.head
  have running : ∀ p, m.sch.pRunCo = some p → (p : Int) ∈ used := by
    intro p hp
    rw [hrun] at hp
    exact inv.busy p (List.mem_of_mem_head? hp)
  have dynamic : m.workMode = .dynamicStacksizeMalloc → m.sch.isDynamicStack = true := by
    intro hmode
    rw [fits.flag, hmode]
    rfl
  have unchanged : ∀ entry, h.Fits (m.record entry) used :=
    fun entry => fits.frame ⟨rfl, rfl, rfl⟩ fun _ => .refl _
  unfold SCoMgr.step StackHeap.step
  rw [alive]
  simp only [Bool.false_eq_true, if_false]
  cases e with
  | alloc =>
    rcases inv.alloc with ⟨hret, hsame, rfl⟩ | ⟨p, rest, x, pool', rfl, hslot, hid, heq, -, -, after⟩
    · simp only [alloc_full hret, hret, hsame]
      exact ⟨chain, [], used, inv.record rfl, unchanged _⟩
    · subst hslot
      have hx : (x : Int) ∉ used := by
        intro hmem
        exact (List.nodup_append.mp inv.registry.repr.nodup).2.2 x (by simp) x hmem rfl
      have hinfo := (SCoMgr.initCo_fields { m with pool := pool' } m.alloc.1 x).2.2.2.1
      have hown : (m.alloc.2.info x).iPoolID = m.alloc.1 := by rw [heq, hinfo, Function.update_self]
      have hget : m.alloc.2.getCo m.alloc.1 = some x := after.registry.getCo_iff.mpr ⟨by simp, hown.symm⟩
      have nonneg : 0 ≤ m.alloc.1 := by
        rw [← hown]
        exact Int.le_of_lt (after.registry.id_pos (by simp))
      simp only [alloc_made nonneg hget]
      refine ⟨chain, rest, _, after, fits.make fresh hx ?_ ?_⟩
      · have setup := SCoMgr.initCo_setup { m with pool := pool' } m.alloc.1 x
        rw [← heq] at setup
        exact ⟨setup.workMode, setup.size, setup.flag⟩
      · intro hmode
        have room_eq := @SCoMgr.initCo_room { m with pool := pool' } hmode m.alloc.1 x
        have tidy := @SCoMgr.initCo_tidy { m with pool := pool' } (fits.tidy hmode) m.alloc.1 x
        rw [← heq] at room_eq tidy
        exact ⟨room_eq, tidy⟩
  | resume id ssize =>
    cases hget : m.getCo id with
    | none =>
      simp only [SCoMgr.resume_of_none hget, StackHeap.resume, hget]
      exact ⟨chain, spare, used, inv.record rfl, unchanged _⟩
    | some x =>
      obtain ⟨hx, rfl⟩ := inv.registry.getCo_iff.mp hget
      have off := inv.off_chain (legal x hget)
      obtain ⟨after, -, hsch, -⟩ := inv.resume hx off ssize
      dsimp only
      rw [resume_saves inv hx off]
      refine ⟨x :: chain, spare, used, after, fits.save fresh running ssize (inv.resume_setup hx off ssize) ?_⟩
      intro hmode
      rw [hsch]
      exact CoMachine.coResume_room (dynamic hmode) x ssize
  | yield expiretime ssize =>
    cases hget : m.getCo m.iRunningID with
    | none =>
      simp only [SCoMgr.yield_of_none hget, StackHeap.yield, hget]
      exact ⟨chain, spare, used, inv.record rfl, unchanged _⟩
    | some y =>
      rcases inv.runningId with hzero | ⟨x, hhead, hid⟩
      · rw [hzero, inv.registry.getCo_zero] at hget
        cases hget
      · obtain ⟨xs, rfl⟩ := List.head?_eq_some_iff.mp hhead
        obtain ⟨after, -, -, -, -, hsch, -⟩ := inv.yield hid expiretime ssize
        dsimp only
        rw [yield_saves inv hid]
        refine ⟨xs, spare, used, after, fits.save fresh running ssize (inv.yield_setup hid expiretime ssize) ?_⟩
        intro hmode
        rw [hsch]
        exact CoMachine.coYield_room (dynamic hmode) hrun ssize
  | ret =>
    cases chain with
    | nil =>
      have howner : m.sch.owner = none := inv.owner_eq
      simp only [SCoMgr.finish, StackHeap.finish, howner]
      exact ⟨[], spare, used, inv, fits⟩
    | cons x xs =>
      obtain ⟨before, after, split, inv', -⟩ := inv.finish
      obtain ⟨setup, rooms⟩ := inv.finish_rooms
      dsimp only
      rw [finish_frees inv]
      exact ⟨xs, _, _, inv', fits.free (inv.registry.rest_not_mem split) split setup rooms⟩
  | release id =>
    cases hget : m.getCo id with
    | none =>
      simp only [SCoMgr.release_of_none hget, StackHeap.release, hget]
      exact ⟨chain, spare, used, inv.record (SCoMgr.erase_of_dead inv hget), unchanged _⟩
    | some x =>
      obtain ⟨hx, rfl⟩ := inv.registry.getCo_iff.mp hget
      have off := inv.off_chain (legal x hget)
      obtain ⟨before, after, split, hret, inv', -⟩ := inv.release hx off
      obtain ⟨setup, rooms⟩ := inv.registry.release_rooms hx
      simp only [hret]
      rw [release_of_some hget]
      refine ⟨chain, _, _, inv', fits.free (inv.registry.rest_not_mem split) split ?_ fun _ => ?_⟩
      · exact ⟨setup.workMode, setup.size, setup.flag⟩
      · exact ⟨rooms.room_eq, rooms.tidy⟩
  | timeOut x => exact ⟨chain, spare, used, inv.markTimeOut x, fits.frame ⟨rfl, rfl, rfl⟩ fun _ => .refl _⟩

theorem initCoMgr_fits (fresh : AllocatesFresh allocfunc) (start : m.Initial) :
    (initCoMgr allocfunc m).Fits m [] := by
  obtain ⟨malloc, cap, unit, pool, iStackSize, iMode, firststack, secondstack, -, -, -, rfl⟩ := start
  have tidy : (CoMachine.create (decide (iMode = .dynamicStacksizeMalloc)) firststack secondstack).memory.Tidy := by
    refine ⟨fun _ => Nat.le_refl 0, ?_⟩
    rintro x second ⟨⟩
  have unheld : BlockLedger [] fun _ : StackOwner => (none : Option (Block α)) := BlockLedger.empty fun _ => rfl
  have vacant : Blocks (⟨[], none, none, none, fun _ => none, fun _ => none⟩ : StackHeap α) := by
    refine unheld.of_same fun i => ?_
    cases i <;> rfl
  have empty : ∀ x : Nat, (x : Int) ∉ ([] : List Int) := fun _ => List.not_mem_nil
  cases iMode with
  | fixedStacksizePool =>
    exact ⟨vacant, rfl, rfl, fun _ _ => ⟨rfl, rfl⟩, fun _ => ⟨rfl, rfl⟩, fun _ _ => rfl, fun _ _ => rfl,
      fun _ x hx => absurd hx (empty x), fun _ x hx => absurd hx (empty x), fun _ => tidy⟩
  | fixedStacksizeMalloc =>
    exact ⟨vacant, rfl, rfl, fun _ _ => ⟨rfl, rfl⟩, fun _ => ⟨rfl, rfl⟩, fun _ _ => rfl, fun _ _ => rfl,
      fun _ x hx => absurd hx (empty x), fun _ x hx => absurd hx (empty x), fun _ => tidy⟩
  | dynamicStacksizeMalloc =>
    refine ⟨?_, rfl, rfl, fun _ _ => ⟨rfl, rfl⟩, fun h => absurd rfl h, fun _ _ => rfl, fun _ _ => rfl,
      fun _ x hx => absurd hx (empty x), fun _ x hx => absurd hx (empty x), fun _ => tidy⟩
    let first := grant allocfunc [] firststack.length
    let second := grant allocfunc [.alloc first] secondstack.length
    have one : BlockLedger [.alloc first] (Function.update (fun _ => none) StackOwner.first (some first)) :=
      unheld.alloc .first rfl (fresh [] firststack.length trivial)
    have two : BlockLedger [.alloc second, .alloc first] _ :=
      one.alloc .second rfl (fresh [.alloc first] secondstack.length one.sound)
    refine two.of_same ?_
    intro i
    cases i <;> rfl

end StackHeap

variable {α : Type} [DecidableEq α] {allocfunc : List (HeapCall α) → Nat → α} {m₀ : SCoMgr} {events : List MgrEvent}

omit [DecidableEq α] in
theorem heapAt_succ {k : Nat} {e : MgrEvent} (he : events[k]? = some e) :
    heapAt allocfunc m₀ events (k + 1) = (heapAt allocfunc m₀ events k).step allocfunc (mgrAt m₀ events k) e := by
  simp only [heapAt, he]

theorem heapAt_fits (fresh : AllocatesFresh allocfunc) (start : m₀.Initial) (legal : LegalMgrRun m₀ events) (k : Nat) :
    ∃ chain spare used, (mgrAt m₀ events k).Inv chain spare used ∧
      (heapAt allocfunc m₀ events k).Fits (mgrAt m₀ events k) used := by
  induction k with
  | zero =>
    obtain ⟨spare, inv⟩ := start.inv
    rw [mgrAt, stateAt_zero]
    exact ⟨[], spare, [], inv, StackHeap.initCoMgr_fits fresh start⟩
  | succ k ih =>
    obtain ⟨chain, spare, used, inv, fits⟩ := ih
    cases he : events[k]? with
    | none =>
      have same : mgrAt m₀ events (k + 1) = mgrAt m₀ events k := stateAt_end he
      rw [same]
      simp only [heapAt, he]
      exact ⟨chain, spare, used, inv, fits⟩
    | some e =>
      rw [mgrAt_succ he, heapAt_succ he]
      exact fits.step inv fresh (legal k e he)

omit [DecidableEq α] in
theorem heapAt_shared (k : Nat) :
    (heapAt allocfunc m₀ events k).shared = (StackHeap.initCoMgr allocfunc m₀).shared := by
  induction k with
  | zero => rfl
  | succ k ih =>
    cases he : events[k]? with
    | none =>
      simp only [heapAt, he]
      exact ih
    | some e =>
      rw [heapAt_succ he, StackHeap.step_shared]
      exact ih

namespace StackHeap

variable {h : StackHeap α} {m : SCoMgr} {chain : List Nat} {spare used : List Int} {x : Nat}

/-- The block of a coroutine: its copy, or the stack that its context runs on. -/
def blockOf (h : StackHeap α) (x : Nat) : Option (Block α) := (h.stack x).or (h.ssSp x)

/-- What is outstanding are the shared stacks and the blocks of the coroutines in use. -/
theorem Fits.perm (fits : h.Fits m used) (inv : m.Inv chain spare used) :
    (outstanding h.calls).Perm (h.shared ++ (liveIds m.log).filterMap fun id => (m.getCo id).bind h.blockOf) := by
  let ownerOf : Int → StackOwner := fun p =>
    if m.workMode = .fixedStacksizeMalloc then .context p.toNat else .copy p.toNat
  have held : ∀ p, h.holder (ownerOf p) = h.blockOf p.toNat := by
    intro p
    by_cases malloced : m.workMode = .fixedStacksizeMalloc
    · have none := fits.copies (by simp [malloced]) p.toNat
      simp [ownerOf, malloced, holder, blockOf, none]
    · have none := fits.contexts malloced p.toNat
      simp [ownerOf, malloced, holder, blockOf, none]
  have inj : ∀ p ∈ used, ∀ q ∈ used, ownerOf p = ownerOf q → p = q := by
    intro p hp q hq heq
    have slot : p.toNat = q.toNat := by
      by_cases malloced : m.workMode = .fixedStacksizeMalloc
      · simpa [ownerOf, malloced] using heq
      · simpa [ownerOf, malloced] using heq
    rw [← inv.registry.casts hp, slot, inv.registry.casts hq]
  have nodup : (.first :: .second :: used.map ownerOf).Nodup := by
    have apart : ∀ p, ownerOf p ≠ .first ∧ ownerOf p ≠ .second := by
      intro p
      by_cases malloced : m.workMode = .fixedStacksizeMalloc <;> simp [ownerOf, malloced]
    have distinct := (List.nodup_append.mp inv.registry.repr.nodup).2.1.map_on inj
    simp [distinct, fun p => (apart p).1, fun p => (apart p).2]
  have all : ∀ i block, h.holder i = some block → i ∈ .first :: .second :: used.map ownerOf := by
    intro i block hi
    have inUse : ∀ y : Nat, h.stack y ≠ none ∨ h.ssSp y ≠ none → (y : Int) ∈ used := by
      intro y hy
      by_contra hno
      obtain ⟨hstack, hssSp⟩ := fits.spare y hno
      exact hy.elim (· hstack) (· hssSp)
    have listed : ∀ y : Nat, (y : Int) ∈ used → ownerOf y ∈ .first :: .second :: used.map ownerOf := by
      intro y hy
      simp only [List.mem_cons]
      exact .inr (.inr (List.mem_map_of_mem hy))
    cases i with
    | first => simp
    | second => simp
    | copy y =>
      have held : h.stack y ≠ none := fun none => by simp [holder, none] at hi
      have dynamic : m.workMode = .dynamicStacksizeMalloc := not_imp_comm.mp fits.copies fun none => held (none y)
      have owner : ownerOf y = .copy y := by simp [ownerOf, dynamic]
      rw [← owner]
      exact listed y (inUse y (.inl held))
    | context y =>
      have held : h.ssSp y ≠ none := fun none => by simp [holder, none] at hi
      have malloced : m.workMode = .fixedStacksizeMalloc := not_imp_comm.mp fits.contexts fun none => held (none y)
      have owner : ownerOf y = .context y := by simp [ownerOf, malloced]
      rw [← owner]
      exact listed y (inUse y (.inr held))
  have live : (liveIds m.log).filterMap (fun id => (m.getCo id).bind h.blockOf) =
      used.filterMap (h.holder ∘ ownerOf) := by
    rw [inv.live, List.filterMap_map]
    refine List.filterMap_congr fun p hp => ?_
    have hget : m.getCo (m.info p.toNat).iPoolID = some p.toNat :=
      inv.registry.getCo_iff.mpr ⟨by rw [inv.registry.casts hp]; exact hp, rfl⟩
    simp [hget, held]
  have both : h.shared = [StackOwner.first, .second].filterMap h.holder := by
    cases hfirst : h.firststack <;> cases hsecond : h.secondstack <;> simp [StackHeap.shared, holder, hfirst, hsecond]
  rw [live, both, ← List.filterMap_map, ← List.filterMap_append]
  exact fits.blocks.perm nodup all

end StackHeap

/-- No block is given back twice. What is outstanding are the two shared stacks, which `Destory` does not give
back either, and for each coroutine in use its own block, which its copy fits; whoever executes or waits is in
use. -/
theorem stack_blocks_balance (fresh : AllocatesFresh allocfunc) (start : m₀.Initial) (legal : LegalMgrRun m₀ events)
    (k : Nat) :
    let m := mgrAt m₀ events k
    let h := heapAt allocfunc m₀ events k
    HeapSound h.calls ∧
    h.shared = (StackHeap.initCoMgr allocfunc m₀).shared ∧
    (outstanding h.calls).Perm (h.shared ++ (liveIds m.log).filterMap fun id => (m.getCo id).bind h.blockOf) ∧
    (m.workMode = .fixedStacksizeMalloc → ∀ id ∈ liveIds m.log, ∃ block,
      (m.getCo id).bind h.blockOf = some block ∧ block.size = m.iDefaultStackSize) ∧
    (m.workMode = .dynamicStacksizeMalloc → ∀ id x, m.getCo id = some x →
      (h.blockOf x).elim 0 Block.size = (m.sch.co x).stackmaxsize ∧
      (m.sch.co x).stacksize ≤ (m.sch.co x).stackmaxsize) ∧
    (∀ x, OnChain (fun y => (m.sch.co y).parent) m.sch.pRunCo x → ∃ id ∈ liveIds m.log, m.getCo id = some x) ∧
    (h.destory m).calls = h.calls := by
  intro m h
  obtain ⟨chain, spare, used, inv, fits⟩ : ∃ chain spare used, m.Inv chain spare used ∧ h.Fits m used :=
    heapAt_fits fresh start legal k
  have slot : ∀ id ∈ liveIds m.log, ∃ x, m.getCo id = some x ∧ (x : Int) ∈ used := by
    intro id hid
    obtain ⟨x, hget⟩ := Option.ne_none_iff_exists'.mp (inv.getCo_iff_live.mpr hid)
    exact ⟨x, hget, (inv.registry.getCo_iff.mp hget).1⟩
  refine ⟨fits.blocks.sound, heapAt_shared k, fits.perm inv, ?_, ?_, ?_, ?_⟩
  · intro malloced id hid
    obtain ⟨x, hget, hx⟩ := slot id hid
    obtain ⟨block, held, size⟩ := fits.given malloced x hx
    have copy := fits.copies (by simp [malloced]) x
    exact ⟨block, by simp [hget, StackHeap.blockOf, copy, held], size⟩
  · intro dynamic id x hget
    have context := fits.contexts (by simp [dynamic]) x
    have sized := fits.sized dynamic x (inv.registry.getCo_iff.mp hget).1
    simp only [StackHeap.blockOf, context, Option.or_none]
    exact ⟨sized, (fits.tidy dynamic).bounded x⟩
  · intro x hx
    have hmem := inv.busy x ((onChain_iff_mem inv.chained.linked).mp hx)
    have hget : m.getCo (m.info x).iPoolID = some x := inv.registry.getCo_iff.mpr ⟨hmem, rfl⟩
    exact ⟨(m.info x).iPoolID, inv.getCo_iff_live.mp (by simp [hget]), hget⟩
  · simp [StackHeap.destory, fits.ctxSp]

/-- An allocator that answers with an address above all that are in use. -/
def bumpAlloc (calls : List (HeapCall Nat)) (_ : Nat) : Nat := ((outstanding calls).map Block.addr).sum + 1

theorem bumpAlloc_fresh : AllocatesFresh bumpAlloc := by
  intro calls size _ block hblock
  have hle := List.le_sum_of_mem (List.mem_map_of_mem (f := Block.addr) hblock)
  unfold bumpAlloc
  omega

/-- A manager with dynamic stacks and copies of four bytes at first. -/
def dynamicMgr : SCoMgr :=
  .initCoMgr ((objpoolInit (fun _ => true) 2 4096).2.getD ⟨0, 0, 0, 0, 0, 0, fun _ => ⟨0, 0, 0, 0⟩⟩) 4
    .dynamicStacksizeMalloc (List.replicate 16 0) (List.replicate 16 0)

theorem dynamicMgr_initial : dynamicMgr.Initial :=
  ⟨fun _ => true, 2, 4096, _, 4, .dynamicStacksizeMalloc, _, _, by decide, by decide, rfl, rfl⟩

/-- The first coroutine resumes the second with eight bytes on its stack; both finish. -/
def growingRun : List MgrEvent :=
  [.alloc, .alloc, .resume 2 0, .resume 3 8, .yield 5 2, .ret, .resume 3 0, .ret]

theorem stack_blocks_balance_growing :
    LegalMgrRun dynamicMgr growingRun ∧
    (outstanding (heapAt bumpAlloc dynamicMgr growingRun 4).calls).Perm [⟨1, 16⟩, ⟨2, 16⟩, ⟨8, 4⟩, ⟨12, 8⟩] ∧
    (outstanding (heapAt bumpAlloc dynamicMgr growingRun 8).calls).Perm [⟨1, 16⟩, ⟨2, 16⟩] := by
  have legal : LegalMgrRun dynamicMgr growingRun := legalMgrRun_of_seen (by decide +kernel)
  have four : (heapAt bumpAlloc dynamicMgr growingRun 4).shared ++
      (liveIds (mgrAt dynamicMgr growingRun 4).log).filterMap (fun id =>
        ((mgrAt dynamicMgr growingRun 4).getCo id).bind (heapAt bumpAlloc dynamicMgr growingRun 4).blockOf) =
      [⟨1, 16⟩, ⟨2, 16⟩, ⟨8, 4⟩, ⟨12, 8⟩] := by decide +kernel
  have eight : (heapAt bumpAlloc dynamicMgr growingRun 8).shared ++
      (liveIds (mgrAt dynamicMgr growingRun 8).log).filterMap (fun id =>
        ((mgrAt dynamicMgr growingRun 8).getCo id).bind (heapAt bumpAlloc dynamicMgr growingRun 8).blockOf) =
      [⟨1, 16⟩, ⟨2, 16⟩] := by decide +kernel
  have waiting := (stack_blocks_balance bumpAlloc_fresh dynamicMgr_initial legal 4).2.2.1
  have ended := (stack_blocks_balance bumpAlloc_fresh dynamicMgr_initial legal 8).2.2.1
  rw [four] at waiting
  rw [eight] at ended
  exact ⟨legal, waiting, ended⟩

end Wddlib
