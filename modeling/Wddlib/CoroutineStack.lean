import Wddlib.CoroutineChain
import Wddlib.CoMemory

namespace Wddlib

namespace Memory

variable {m : Memory} {x y ssize : Nat}

theorem topBytes_length {bytes : List UInt8} (h : ssize ≤ bytes.length) :
    (CoMachine.topBytes bytes ssize).length = ssize := by
  rw [CoMachine.topBytes, List.length_drop]
  omega

theorem topBytes_append (below top : List UInt8) : CoMachine.topBytes (below ++ top) top.length = top := by
  have hlength : (below ++ top).length - top.length = below.length := by
    rw [List.length_append]
    omega
  rw [CoMachine.topBytes, hlength, List.drop_left]

theorem setBuffer_buffer (m : Memory) (second other : Bool) (bytes : List UInt8) :
    (m.setBuffer second bytes).buffer other = if other = second then bytes else m.buffer other := by
  cases second <;> cases other <;> rfl

theorem setBuffer_copy (m : Memory) (second : Bool) (bytes : List UInt8) :
    (m.setBuffer second bytes).copy = m.copy ∧ (m.setBuffer second bytes).gaveUp = m.gaveUp ∧
      (m.setBuffer second bytes).started = m.started := by
  cases second <;> exact ⟨rfl, rfl, rfl⟩

/-- The copy of `x` has the bytes that `x` gave up control with, and they fit its stack. -/
def Saved (m : Memory) (x : Nat) : Prop :=
  ∃ bytes, m.gaveUp x = some bytes ∧ bytes.length = (m.copy x).stacksize ∧
    ((m.copy x).stack.getD []).take (m.copy x).stacksize = bytes ∧
    (m.copy x).stacksize ≤ (m.buffer (m.copy x).usesecondstack).length

theorem save_saved (fits : ssize ≤ (m.buffer (m.copy x).usesecondstack).length) : (m.save x ssize).Saved x := by
  have hlength := topBytes_length fits
  refine ⟨CoMachine.topBytes (m.buffer (m.copy x).usesecondstack) ssize, ?_, ?_, ?_, ?_⟩
  · simp [save]
  · simp [save, hlength]
  · simp only [save, Function.update_self, Option.getD_some]
    rw [List.take_append_of_le_length (by omega), List.take_of_length_le (by omega)]
  · simp only [save, Function.update_self]
    exact fits

theorem Saved.of_same {m' : Memory} (h : m.Saved x) (copy_eq : m'.copy x = m.copy x)
    (gaveUp_eq : m'.gaveUp x = m.gaveUp x)
    (length_eq : ∀ second, (m'.buffer second).length = (m.buffer second).length) : m'.Saved x := by
  obtain ⟨bytes, hgave, hlength, htake, hfits⟩ := h
  refine ⟨bytes, gaveUp_eq.trans hgave, ?_, ?_, ?_⟩
  · rw [copy_eq]
    exact hlength
  · rw [copy_eq]
    exact htake
  · rw [copy_eq, length_eq]
    exact hfits

theorem Saved.save_other (h : m.Saved y) (hne : y ≠ x) (ssize : Nat) : (m.save x ssize).Saved y :=
  h.of_same (Function.update_of_ne hne _ _) (Function.update_of_ne hne _ _) fun _ => rfl

theorem restore_length (h : m.Saved x) (second : Bool) :
    ((m.restore x).buffer second).length = (m.buffer second).length := by
  obtain ⟨bytes, -, hlength, htake, hfits⟩ := h
  simp only [restore, setBuffer_buffer, htake]
  split
  next heq =>
    rw [heq, List.length_append, List.length_take]
    omega
  next => rfl

/-- Restoring brings back the bytes that were there. -/
theorem restore_top (h : m.Saved x) :
    m.gaveUp x = some (CoMachine.topBytes ((m.restore x).buffer (m.copy x).usesecondstack) (m.copy x).stacksize) := by
  obtain ⟨bytes, hgave, hlength, htake, -⟩ := h
  rw [hgave]
  simp only [restore, setBuffer_buffer, if_true, htake]
  rw [← hlength, topBytes_append]

theorem restore_copy (m : Memory) (x : Nat) :
    (m.restore x).copy = m.copy ∧ (m.restore x).gaveUp = m.gaveUp ∧ (m.restore x).started = m.started :=
  setBuffer_copy _ _ _

theorem Saved.restore (h : m.Saved y) (hx : m.Saved x) : (m.restore x).Saved y := by
  obtain ⟨hcopy, hgave, -⟩ := restore_copy m x
  exact h.of_same (by rw [hcopy]) (by rw [hgave]) (restore_length hx)

/-- No copy is larger than its block, and nobody left the stack it was started on. -/
structure Tidy (m : Memory) : Prop where
  bounded : ∀ x, (m.copy x).stacksize ≤ (m.copy x).stackmaxsize
  kept : ∀ x second, m.started x = some second → (m.copy x).usesecondstack = second

theorem Tidy.save (h : m.Tidy) (x ssize : Nat) : (m.save x ssize).Tidy := by
  refine ⟨?_, ?_⟩
  · intro y
    by_cases hy : y = x
    · subst hy
      simp only [Memory.save, Function.update_self]
      exact Nat.le_max_right _ _
    · simp only [Memory.save, Function.update_of_ne hy]
      exact h.bounded y
  · intro y second hs
    by_cases hy : y = x
    · subst hy
      simp only [Memory.save, Function.update_self]
      exact h.kept y second hs
    · simp only [Memory.save, Function.update_of_ne hy]
      exact h.kept y second hs

theorem Tidy.setBuffer (h : m.Tidy) (second : Bool) (bytes : List UInt8) : (m.setBuffer second bytes).Tidy := by
  obtain ⟨hcopy, -, hstarted⟩ := setBuffer_copy m second bytes
  refine ⟨?_, ?_⟩
  · rw [hcopy]
    exact h.bounded
  · rw [hcopy, hstarted]
    exact h.kept

theorem Tidy.restore (h : m.Tidy) (x : Nat) : (m.restore x).Tidy := h.setBuffer _ _

theorem Tidy.start (h : m.Tidy) (x : Nat) (second : Bool) : (m.start x second).Tidy := by
  refine ⟨?_, ?_⟩
  · intro y
    by_cases hy : y = x
    · subst hy
      simp only [Memory.start, Function.update_self]
      exact h.bounded y
    · simp only [Memory.start, Function.update_of_ne hy]
      exact h.bounded y
  · intro y second' hs
    by_cases hy : y = x
    · subst hy
      simp only [Memory.start, Function.update_self] at hs ⊢
      exact Option.some.inj hs
    · simp only [Memory.start, Function.update_of_ne hy] at hs ⊢
      exact h.kept y second' hs

theorem Tidy.init (h : m.Tidy) (x : Nat) : (m.init x).Tidy := by
  refine ⟨?_, ?_⟩
  · intro y
    by_cases hy : y = x
    · subst hy
      simp [Memory.init]
    · simp only [Memory.init, Function.update_of_ne hy]
      exact h.bounded y
  · intro y second hs
    by_cases hy : y = x
    · subst hy
      simp [Memory.init] at hs
    · simp only [Memory.init, Function.update_of_ne hy] at hs ⊢
      exact h.kept y second hs

theorem Tidy.saveParent (h : m.Tidy) (p : Option Nat) (ssize : Nat) : (m.saveParent p ssize).Tidy := by
  cases p with
  | none => exact h
  | some p => exact h.save p ssize

theorem Tidy.restoreParent (h : m.Tidy) (p : Option Nat) : (m.restoreParent p).Tidy := by
  cases p with
  | none => exact h
  | some p => exact h.restore p

theorem Saved.saveParent (h : m.Saved y) {p : Option Nat} (hne : p ≠ some y) (ssize : Nat) :
    (m.saveParent p ssize).Saved y := by
  cases p with
  | none => exact h
  | some p =>
    refine h.save_other ?_ ssize
    rintro rfl
    exact hne rfl

theorem Saved.start (h : m.Saved y) (hne : y ≠ x) (second : Bool) : (m.start x second).Saved y :=
  h.of_same (Function.update_of_ne hne _ _) rfl fun _ => rfl

theorem Saved.init (h : m.Saved y) (hne : y ≠ x) : (m.init x).Saved y :=
  h.of_same (Function.update_of_ne hne _ _) rfl fun _ => rfl

theorem Saved.restoreParent (h : m.Saved y) {p : Option Nat} (hp : ∀ q, p = some q → m.Saved q) :
    (m.restoreParent p).Saved y := by
  cases p with
  | none => exact h
  | some p => exact h.restore (hp p rfl)

theorem Saved.setBuffer (h : m.Saved y) {second : Bool} {bytes : List UInt8}
    (same : bytes.length = (m.buffer second).length) : (m.setBuffer second bytes).Saved y := by
  obtain ⟨hcopy, hgave, -⟩ := setBuffer_copy m second bytes
  refine h.of_same (by rw [hcopy]) (by rw [hgave]) ?_
  intro other
  rw [setBuffer_buffer]
  split
  next heq => rw [heq, same]
  next => rfl

/-- The stack of `x` is as `x` left it. -/
def Intact (m : Memory) (x : Nat) : Prop :=
  m.gaveUp x = some (CoMachine.topBytes (m.buffer (m.copy x).usesecondstack) (m.copy x).stacksize)

theorem Saved.intact (h : m.Saved x) : (m.restore x).Intact x := by
  obtain ⟨hcopy, hgave, -⟩ := restore_copy m x
  rw [Intact, hcopy, hgave]
  exact restore_top h

end Memory

/-- What the executing code uses of its stack lies in it. -/
def CoEvent.Fits (s : CoMachine) : CoEvent → Prop
  | .resume _ ssize => ∀ r, s.pRunCo = some r → ssize ≤ (s.buffer (s.co r).usesecondstack).length
  | .yield ssize => ∀ r, s.pRunCo = some r → ssize ≤ (s.buffer (s.co r).usesecondstack).length
  | .write bytes => ∀ r, s.owner = some r → bytes.length = (s.buffer (s.co r).usesecondstack).length
  | _ => True

/-- A call or a return that moves control. -/
def CoEvent.Switches : CoEvent → Prop
  | .resume _ _ => True
  | .yield _ => True
  | .ret => True
  | _ => False

namespace CoMachine

variable {s : CoMachine} {chain xs : List Nat} {x ssize : Nat}

/-- Everybody who waits or was suspended has a copy of the stack it left. -/
structure StackInv (s : CoMachine) (chain : List Nat) : Prop where
  dynamic : s.isDynamicStack = true
  chained : s.control.ChainInv chain
  tidy : s.memory.Tidy
  saved : ∀ x, x ∈ chain.tail ∨ x ∉ chain ∧ s.control.status x = .suspend → s.memory.Saved x

/-- What is left behind when the running coroutine resumes another one. -/
theorem StackInv.saveParent (inv : s.StackInv chain)
    (fits : ∀ r, s.pRunCo = some r → ssize ≤ (s.buffer (s.co r).usesecondstack).length) {y : Nat}
    (hy : y ∈ chain ∨ y ∉ chain ∧ s.control.status y = .suspend) :
    (s.memory.saveParent s.pRunCo ssize).Saved y := by
  have hhead : s.pRunCo = chain.head? := inv.chained.head
  by_cases running : s.pRunCo = some y
  · rw [running]
    exact Memory.save_saved (fits y running)
  · refine Memory.Saved.saveParent (inv.saved y ?_) running ssize
    rcases hy with hmem | hoff
    · left
      cases chain with
      | nil => cases hmem
      | cons r rest =>
        rcases List.mem_cons.mp hmem with rfl | hmem
        · exact absurd hhead running
        · exact hmem
    · exact .inr hoff

theorem StackInv.resume (inv : s.StackInv chain) (legal : (CoEvent.resume x ssize).Legal s.control)
    (fits : (CoEvent.resume x ssize).Fits s) :
    (s.coResume x ssize).2.StackInv (x :: chain) ∧
      ((s.coResume x ssize).2.arrival ≠ .start → (s.coResume x ssize).2.memory.Intact x) := by
  have hx := inv.chained.legal_off_chain legal
  have hcontrol : (s.coResume x ssize).2.control.ChainInv (x :: chain) := by
    rw [control_coResume]
    exact inv.chained.resume legal
  have hmemory := memory_coResume inv.dynamic x ssize
  have harrival : (s.coResume x ssize).2.arrival = if s.control.status x = .ready then .start else .yield := by
    have h : (s.coResume x ssize).2.control.arrival = _ := congrArg Control.arrival (control_coResume s x ssize)
    exact h.trans (inv.chained.resume_arrival legal)
  have before : ∀ y, y ∈ (x :: chain).tail ∨
      y ∉ x :: chain ∧ (s.coResume x ssize).2.control.status y = .suspend →
      y ≠ x ∧ (s.memory.saveParent s.pRunCo ssize).Saved y := by
    intro y hy
    have hyx : y ≠ x := by
      rintro rfl
      rcases hy with hmem | ⟨hoff, -⟩
      · exact hx hmem
      · exact hoff (by simp)
    refine ⟨hyx, inv.saveParent fits ?_⟩
    rcases hy with hmem | ⟨hoff, hsuspend⟩
    · exact .inl hmem
    · have hoff' : y ∉ chain := fun h => hoff (by simp [h])
      rw [control_coResume, (inv.chained.resume_other legal hyx hoff').1] at hsuspend
      exact .inr ⟨hoff', hsuspend⟩
  have dynamic' := (coResume_isDynamicStack s x ssize).trans inv.dynamic
  have tidy := inv.tidy.saveParent s.pRunCo ssize
  rw [Control.link_status_of_ne (inv.chained.not_running hx)] at hmemory
  rcases legal with hready | ⟨hsuspend, -⟩
  · rw [hready] at hmemory
    refine ⟨⟨dynamic', hcontrol, ?_, ?_⟩, ?_⟩
    · rw [hmemory]
      exact tidy.start x _
    · intro y hy
      obtain ⟨hyx, hsaved⟩ := before y hy
      rw [hmemory]
      exact hsaved.start hyx _
    · intro started
      rw [harrival, if_pos hready] at started
      exact absurd rfl started
  · rw [hsuspend] at hmemory
    have hsaved := inv.saveParent fits (.inr ⟨hx, hsuspend⟩)
    refine ⟨⟨dynamic', hcontrol, ?_, ?_⟩, ?_⟩
    · rw [hmemory]
      exact tidy.restore x
    · intro y hy
      rw [hmemory]
      exact (before y hy).2.restore hsaved
    · intro _
      rw [hmemory]
      exact hsaved.intact

/-- The running coroutine leaves the chain; `m` is the memory with its copy. -/
theorem StackInv.switchBack (inv : s.StackInv (x :: xs)) {s' : CoMachine} {m : Memory} {status : CoState}
    {pending : Pending} (hstatus : status = .suspend ∨ status = .ended)
    (dynamic : s'.isDynamicStack = true)
    (control_eq : s'.control = (s.control.setStatus x status).switchBack x pending)
    (memory_eq : s'.memory = m.restoreParent (s.co x).parent) (tidy : m.Tidy)
    (left : status = .suspend → m.Saved x) (others : ∀ y, y ≠ x → s.memory.Saved y → m.Saved y) :
    s'.StackInv xs ∧ ∀ p, s'.owner = some p → s'.memory.Intact p := by
  have hx : x ∉ xs := (List.nodup_cons.mp inv.chained.nodup).1
  have hparent : (s.co x).parent = xs.head? := chain_start inv.chained.linked.2
  have hcontrol : s'.control.ChainInv xs := by
    rw [control_eq]
    exact inv.chained.switchBack hstatus pending
  have waiting : ∀ q, xs.head? = some q → m.Saved q := by
    intro q hq
    have hmem := List.mem_of_mem_head? hq
    refine others q ?_ (inv.saved q (.inl hmem))
    rintro rfl
    exact hx hmem
  rw [hparent] at memory_eq
  refine ⟨⟨dynamic, hcontrol, ?_, ?_⟩, ?_⟩
  · rw [memory_eq]
    exact tidy.restoreParent _
  · intro y hy
    rw [memory_eq]
    refine Memory.Saved.restoreParent ?_ waiting
    rcases hy with hmem | ⟨hoff, hsuspend⟩
    · have hyx : y ≠ x := by
        rintro rfl
        exact hx (List.mem_of_mem_tail hmem)
      exact others y hyx (inv.saved y (.inl (List.mem_of_mem_tail hmem)))
    · have hother : xs.head? ≠ some y := fun h => hoff (List.mem_of_mem_head? h)
      rw [control_eq, Control.switchBack_eq inv.chained] at hsuspend
      by_cases hyx : y = x
      · subst hyx
        refine left ?_
        cases hhead : xs.head? with
        | none => simpa [hhead] using hsuspend
        | some p =>
          have hne : y ≠ p := by
            rintro rfl
            exact hother hhead
          simpa [hhead, Function.update_of_ne hne] using hsuspend
      · refine others y hyx (inv.saved y (.inr ⟨by simp [hyx, hoff], ?_⟩))
        cases hhead : xs.head? with
        | none => simpa [hhead, Function.update_of_ne hyx] using hsuspend
        | some p =>
          have hne : y ≠ p := by
            rintro rfl
            exact hother hhead
          simpa [hhead, Function.update_of_ne hne, Function.update_of_ne hyx] using hsuspend
  · intro p hp
    have howner : s'.control.owner = xs.head? := by
      rw [control_eq, Control.switchBack_eq inv.chained]
    have hhead : xs.head? = some p := howner.symm.trans hp
    rw [memory_eq, hhead]
    exact (waiting p hhead).intact

theorem StackInv.yield (inv : s.StackInv (x :: xs)) (fits : (CoEvent.yield ssize).Fits s) :
    (s.coYield ssize).2.StackInv xs ∧ ∀ p, (s.coYield ssize).2.owner = some p →
      (s.coYield ssize).2.memory.Intact p := by
  have running : s.pRunCo = some x := inv.chained.head
  have hcontrol : (s.coYield ssize).2.control = (s.control.setStatus x .suspend).switchBack x .yield := by
    have hrun : s.control.pRunCo = some x := running
    rw [control_coYield, Control.yield, hrun]
  exact inv.switchBack (.inl rfl) ((coYield_isDynamicStack s ssize).trans inv.dynamic) hcontrol
    (memory_coYield inv.dynamic running ssize) (inv.tidy.save x ssize)
    (fun _ => Memory.save_saved (fits x running)) (fun _ hy saved => saved.save_other hy ssize)

theorem StackInv.ret (inv : s.StackInv (x :: xs)) :
    (s.process x).StackInv xs ∧ ∀ p, (s.process x).owner = some p → (s.process x).memory.Intact p := by
  refine inv.switchBack (.inr rfl) ((switchBack_isDynamicStack _ _ _).trans inv.dynamic) (control_process s x)
    (memory_process inv.dynamic x) inv.tidy ?_ (fun _ _ saved => saved)
  rintro ⟨⟩

theorem StackInv.init (inv : s.StackInv chain) (hx : x ∉ chain) (pStack : StackMem) (iStackSize : Nat) :
    (s.coInit x pStack iStackSize).StackInv chain := by
  refine ⟨inv.dynamic, ?_, ?_, ?_⟩
  · rw [control_coInit]
    exact inv.chained.init hx
  · rw [memory_coInit]
    exact inv.tidy.init x
  · intro y hy
    have hyx : y ≠ x := by
      rintro rfl
      rcases hy with hmem | ⟨-, hsuspend⟩
      · exact hx (List.mem_of_mem_tail hmem)
      · simp [control_coInit, Control.init, Control.setStatus] at hsuspend
    rw [memory_coInit]
    refine (inv.saved y ?_).init hyx
    simpa [control_coInit, Control.init, Control.setStatus, Function.update_of_ne hyx] using hy

theorem StackInv.write (inv : s.StackInv chain) {bytes : List UInt8} (fits : (CoEvent.write bytes).Fits s) :
    (s.writeStack bytes).StackInv chain := by
  cases executing : s.owner with
  | none =>
    have hsame : s.writeStack bytes = s := by simp [writeStack, executing]
    rw [hsame]
    exact inv
  | some x =>
    have hmemory := memory_writeStack inv.dynamic executing bytes
    refine ⟨?_, ?_, ?_, ?_⟩
    · have hstep := step_isDynamicStack s (.write bytes)
      have halive : s.lost = false := inv.chained.alive
      simp only [step, halive, Bool.false_eq_true, if_false] at hstep
      exact hstep.trans inv.dynamic
    · rw [control_writeStack]
      exact inv.chained
    · rw [hmemory]
      exact inv.tidy.setBuffer _ _
    · intro y hy
      rw [control_writeStack] at hy
      rw [hmemory]
      exact (inv.saved y hy).setBuffer (fits x executing)

/-- One event keeps the copies, and whoever gets control back finds its stack intact. -/
theorem StackInv.step (inv : s.StackInv chain) {e : CoEvent} (legal : e.Legal s.control) (fits : e.Fits s) :
    (s.step e).StackInv (Control.chainAfter chain e) ∧
      ∀ x, e.Switches → (s.step e).owner = some x → (s.step e).arrival ≠ .start → (s.step e).memory.Intact x := by
  have halive : s.lost = false := inv.chained.alive
  simp only [CoMachine.step, halive, Bool.false_eq_true, if_false]
  cases e with
  | init x pStack iStackSize =>
    refine ⟨inv.init (fun hx => legal ((onChain_iff_mem inv.chained.linked).mpr hx)) pStack iStackSize, ?_⟩
    rintro y ⟨⟩
  | resume x ssize =>
    obtain ⟨after, intact⟩ := inv.resume legal fits
    refine ⟨after, ?_⟩
    intro y _ howner started
    have hx : (s.coResume x ssize).2.owner = some x := after.chained.owner_eq
    obtain rfl := Option.some.inj (hx.symm.trans howner)
    exact intact started
  | yield ssize =>
    cases chain with
    | nil =>
      have hnone : s.pRunCo = none := inv.chained.head
      have howner : s.owner = none := inv.chained.executing.trans hnone
      simp only [coYield, hnone]
      refine ⟨inv, ?_⟩
      intro y _ hy
      rw [howner] at hy
      cases hy
    | cons x xs =>
      obtain ⟨after, intact⟩ := inv.yield fits
      exact ⟨after, fun y _ howner _ => intact y howner⟩
  | ret =>
    have howner : s.owner = chain.head? := inv.chained.owner_eq
    cases chain with
    | nil =>
      have hnone : s.owner = none := howner
      simp only [hnone]
      refine ⟨inv, ?_⟩
      rintro y - ⟨⟩
    | cons x xs =>
      have hsome : s.owner = some x := howner
      simp only [hsome]
      obtain ⟨after, intact⟩ := inv.ret
      exact ⟨after, fun y _ howner _ => intact y howner⟩
  | write bytes =>
    refine ⟨inv.write fits, ?_⟩
    rintro y ⟨⟩

def Stacked (s : CoMachine) : Prop := ∃ chain, s.StackInv chain

theorem create_stacked (firststack secondstack : List UInt8) : (create true firststack secondstack).Stacked := by
  refine ⟨[], rfl, Control.create_chainInv true firststack secondstack, ⟨fun _ => Nat.le_refl 0, ?_⟩, ?_⟩
  · rintro x second ⟨⟩
  · rintro x (hmem | ⟨-, ⟨⟩⟩)
    simp at hmem

end CoMachine

variable {firststack secondstack : List UInt8} {events : List CoEvent}

/-- What the code of the run uses of its stacks lies in them. -/
def FittingRun (firststack secondstack : List UInt8) (events : List CoEvent) : Prop :=
  ∀ k (e : CoEvent), events[k]? = some e → e.Fits (coAt true firststack secondstack events k)

instance CoEvent.decidableFits (s : CoMachine) (e : CoEvent) : Decidable (e.Fits s) :=
  match e with
  | .init _ _ _ => .isTrue trivial
  | .resume _ ssize =>
    inferInstanceAs (Decidable (∀ r ∈ s.pRunCo, ssize ≤ (s.buffer (s.co r).usesecondstack).length))
  | .yield ssize =>
    inferInstanceAs (Decidable (∀ r ∈ s.pRunCo, ssize ≤ (s.buffer (s.co r).usesecondstack).length))
  | .ret => .isTrue trivial
  | .write bytes =>
    inferInstanceAs (Decidable (∀ r ∈ s.owner, bytes.length = (s.buffer (s.co r).usesecondstack).length))

theorem fittingRun_iff : FittingRun firststack secondstack events ↔
    ∀ k : Fin events.length, (events.get k).Fits (coAt true firststack secondstack events k) :=
  forall_event_iff

theorem coAt_stacked (legal : LegalRun true firststack secondstack events)
    (fits : FittingRun firststack secondstack events) (k : Nat) :
    (coAt true firststack secondstack events k).Stacked := by
  refine stateAt_induct (CoMachine.create_stacked firststack secondstack) ?_ k
  rintro k e he ⟨chain, inv⟩
  exact ⟨_, (inv.step (legal k e he) (fits k e he)).1⟩

/-- Whoever gets control back finds on top of its shared stack the bytes that it left there; it stays
on the stack it was started on, and its copy fits its block. -/
theorem dynamic_stack_preserved (legal : LegalRun true firststack secondstack events)
    (fits : FittingRun firststack secondstack events) (k : Nat) :
    let s := coAt true firststack secondstack events k
    let s' := coAt true firststack secondstack events (k + 1)
    (∀ x, (s.co x).stacksize ≤ (s.co x).stackmaxsize) ∧
    (∀ x second, startedOn x s.log = some second → (s.co x).usesecondstack = second) ∧
    ∀ e x, events[k]? = some e → e.Switches → s'.owner = some x → s'.arrival ≠ .start →
      lastGaveUp s'.log x =
        some (CoMachine.topBytes (s'.buffer (s'.co x).usesecondstack) (s'.co x).stacksize) := by
  intro s s'
  obtain ⟨chain, inv⟩ : s.Stacked := coAt_stacked legal fits k
  refine ⟨inv.tidy.bounded, inv.tidy.kept, ?_⟩
  intro e x he switches howner started
  have hstep : s' = s.step e := coAt_succ he
  rw [hstep] at howner started ⊢
  exact (inv.step (legal k e he) (fits k e he)).2 x switches howner started

/-- Two coroutines use the first stack in turn; the first one finds its bytes again. -/
def sharedRun : List CoEvent :=
  [.init 0 .first 4, .init 1 .first 4, .resume 0 0, .write [1, 2, 3, 4], .yield 4, .resume 1 0,
    .write [5, 6, 7, 8], .yield 3, .resume 0 0]

theorem dynamic_stack_preserved_shared :
    LegalRun true [0, 0, 0, 0] [0, 0, 0, 0] sharedRun ∧ FittingRun [0, 0, 0, 0] [0, 0, 0, 0] sharedRun ∧
    (coAt true [0, 0, 0, 0] [0, 0, 0, 0] sharedRun 8).firststack = [5, 6, 7, 8] ∧
    (coAt true [0, 0, 0, 0] [0, 0, 0, 0] sharedRun 9).firststack = [1, 2, 3, 4] ∧
    lastGaveUp (coAt true [0, 0, 0, 0] [0, 0, 0, 0] sharedRun 9).log 0 =
      some (CoMachine.topBytes
        ((coAt true [0, 0, 0, 0] [0, 0, 0, 0] sharedRun 9).buffer
          ((coAt true [0, 0, 0, 0] [0, 0, 0, 0] sharedRun 9).co 0).usesecondstack)
        ((coAt true [0, 0, 0, 0] [0, 0, 0, 0] sharedRun 9).co 0).stacksize) := by
  have legal : LegalRun true [0, 0, 0, 0] [0, 0, 0, 0] sharedRun := legalRun_of_plain (by decide +kernel)
  have fits : FittingRun [0, 0, 0, 0] [0, 0, 0, 0] sharedRun := fittingRun_iff.mpr (by decide +kernel)
  refine ⟨legal, fits, by decide +kernel, by decide +kernel, ?_⟩
  exact (dynamic_stack_preserved legal fits 8).2.2 (.resume 0 0) 0 rfl trivial (by decide +kernel) (by decide +kernel)

end Wddlib
