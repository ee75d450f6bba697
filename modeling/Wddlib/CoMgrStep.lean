import Wddlib.CoMgrInvariant

namespace Wddlib

theorem erase_map_of_apart {α : Type} {f : α → Int} {before after : List α} {a : α} (apart : ∀ b ∈ before, f b ≠ f a) :
    ((before ++ a :: after).map f).erase (f a) = (before ++ after).map f := by
  have hnot : f a ∉ before.map f := by
    intro hmem
    obtain ⟨b, hb, heq⟩ := List.mem_map.mp hmem
    exact apart b hb heq
  rw [List.map_append, List.map_cons, List.erase_append_right _ hnot, List.erase_cons_head, List.map_append]

namespace SCoMgr

variable {m m' : SCoMgr} {chain xs : List Nat} {free used : List Int} {x y : Nat} {id : Int}

/-- The coroutine `x` is off the chain and about to be released. -/
structure Leaving (m : SCoMgr) (x : Nat) (chain : List Nat) (free used : List Int) : Prop where
  registry : m.Registry free used
  chained : m.sch.control.ChainInv chain
  busy : ∀ y ∈ chain, (y : Int) ∈ used
  mem : (x : Int) ∈ used
  off : x ∉ chain
  idle : ∀ y : Nat, (y : Int) ∈ used → y ∉ chain → y ≠ x → m.sch.control.Resumable y
  resting : ∀ y : Nat, (y : Int) ∈ used → y ∉ chain → y ≠ x → (m.sch.co y).status = .suspend →
    m.frame (some y) = some (.yield y)
  frames : ∀ call ∈ callsOf chain, m.frame call.1 = some (.resume (m.info call.2).iPoolID call.2)
  runningId : m.iRunningID = 0 ∨ ∃ y, chain.head? = some y ∧ m.iRunningID = (m.info y).iPoolID
  live : liveIds m.log = (used.map fun p => (m.info p.toNat).iPoolID).erase (m.info x).iPoolID

theorem Leaving.release (h : m.Leaving x chain free used) :
    ∃ before after, used = before ++ (x : Int) :: after ∧ (m.release (m.info x).iPoolID).1 = 0 ∧
      (m.release (m.info x).iPoolID).2.Inv chain (free ++ [(x : Int)]) (before ++ after) ∧
      (m.release (m.info x).iPoolID).2.log = m.log ∧
      (m.release (m.info x).iPoolID).2.pool.capacity = m.pool.capacity ∧
      ∀ i, ((m.release (m.info x).iPoolID).2.pool.idx i).accumulate = (m.pool.idx i).accumulate := by
  obtain ⟨before, after, pool', hused, heq, registry, hacc, hcap⟩ := h.registry.release h.mem
  have hcontrol : (m.freeStack x).control = m.sch.control := freeStack_control m x
  have hnodup : (before ++ (x : Int) :: after).Nodup := by
    rw [← hused]
    exact (List.nodup_append.mp h.registry.repr.nodup).2.1
  have hnot : (x : Int) ∉ before ++ after := (List.nodup_middle.mp hnodup |> List.nodup_cons.mp).1
  have kept : ∀ p ∈ before ++ after, p ∈ used := by
    intro p hp
    rw [hused]
    rcases List.mem_append.mp hp with hp | hp
    · exact List.mem_append.mpr (.inl hp)
    · exact List.mem_append.mpr (.inr (List.mem_cons_of_mem _ hp))
  have other : ∀ y : Nat, (y : Int) ∈ before ++ after → y ≠ x := by
    rintro y hy rfl
    exact hnot hy
  rw [heq] at registry ⊢
  refine ⟨before, after, hused, rfl, ⟨registry, ?_, ?_, ?_, ?_, h.frames, h.runningId, ?_⟩, rfl, hcap, hacc⟩
  · simp only [hcontrol]
    exact h.chained
  · intro y hy
    have hmem := h.busy y hy
    have hyx : (y : Int) ≠ x := by
      intro heq
      exact h.off (Int.ofNat.inj heq ▸ hy)
    rw [hused] at hmem
    simpa [hyx] using hmem
  · intro y hy hoff
    simp only [hcontrol]
    exact h.idle y (kept _ hy) hoff (other y hy)
  · intro y hy hoff hsuspend
    have hstatus : (m.freeStack x).control.status y = .suspend := hsuspend
    rw [hcontrol] at hstatus
    exact h.resting y (kept _ hy) hoff (other y hy) hstatus
  · simp only [h.live, hused]
    have apart : ∀ p ∈ before, (m.info p.toNat).iPoolID ≠ (m.info x).iPoolID := by
      intro p hp heq
      have hmem := kept p (List.mem_append.mpr (.inl hp))
      have hcast : ((p.toNat : Nat) : Int) = p := h.registry.casts hmem
      have hxp := h.registry.id_inj (by rw [hcast]; exact hmem) h.mem heq
      rw [← hxp, hcast] at hnot
      exact hnot (List.mem_append.mpr (.inl hp))
    exact @erase_map_of_apart Int (fun p => (m.info p.toNat).iPoolID) before after x apart

theorem release_record (m : SCoMgr) (id : Int) (entry : MgrLog) :
    (m.record entry).release id = ((m.release id).1, (m.release id).2.record entry) := by
  have hget : (m.record entry).getCo id = m.getCo id := rfl
  simp only [release, hget]
  cases m.getCo id with
  | none => rfl
  | some x => rfl

/-- `Release` of a coroutine off the chain. -/
theorem Inv.release (h : m.Inv chain free used) (hx : (x : Int) ∈ used) (off : x ∉ chain) :
    ∃ before after, used = before ++ (x : Int) :: after ∧ (m.release (m.info x).iPoolID).1 = 0 ∧
      ((m.release (m.info x).iPoolID).2.record (.released (m.info x).iPoolID 0)).Inv chain
        (free ++ [(x : Int)]) (before ++ after) ∧
      (m.release (m.info x).iPoolID).2.pool.capacity = m.pool.capacity ∧
      ∀ i, ((m.release (m.info x).iPoolID).2.pool.idx i).accumulate = (m.pool.idx i).accumulate := by
  have leaving : (m.record (.released (m.info x).iPoolID 0)).Leaving x chain free used := by
    refine ⟨h.registry.frame rfl fun _ => rfl, h.chained, h.busy, hx, off, ?_, ?_, h.frames, h.runningId, ?_⟩
    · intro y hy hoff _
      exact h.idle y hy hoff
    · intro y hy hoff _
      exact h.resting y hy hoff
    · simp only [SCoMgr.record, liveIds, h.live]
  obtain ⟨before, after, hused, hret, inv, -, hcap, hacc⟩ := leaving.release
  have hid : ((m.record (.released (m.info x).iPoolID 0)).info x).iPoolID = (m.info x).iPoolID := rfl
  rw [hid, release_record] at hret inv hcap hacc
  exact ⟨before, after, hused, hret, inv, hcap, hacc⟩

/-- Control comes back to the `Resume` call that ran `x`. -/
theorem goOn_back {caller : Option Nat} (arrival : m.sch.arrival = .resume x) (owner : m.sch.owner = caller)
    (frame : m.frame caller = some (.resume id x)) :
    m.goOn = resumeReturn { m with frame := Function.update m.frame caller none } caller id x := by
  simp only [goOn, arrival, owner, frame]

/-- The schedule `sch` once the running coroutine `x` has given control back to the one behind it. -/
structure GivenBack (m : SCoMgr) (sch : CoMachine) (x : Nat) (xs : List Nat) (status : CoState) (pending : Pending) :
    Prop where
  chained : sch.control.ChainInv xs
  arrival : sch.arrival = .resume x
  owner : sch.owner = xs.head?
  status : (sch.co x).status = status
  ctx : sch.control.ctx (some x) = some ⟨some x, pending⟩
  other : ∀ y, y ≠ x → y ∉ xs → sch.control.status y = m.sch.control.status y ∧
    sch.control.ctx (some y) = m.sch.control.ctx (some y)

theorem Inv.givenBack (h : m.Inv (x :: xs) free used) {sch : CoMachine} {status : CoState} {pending : Pending}
    (hstatus : status = .suspend ∨ status = .ended)
    (control_eq : sch.control = (m.sch.control.setStatus x status).switchBack x pending) :
    m.GivenBack sch x xs status pending := by
  have chained : sch.control.ChainInv xs := by
    rw [control_eq]
    exact h.chained.switchBack hstatus pending
  obtain ⟨-, -, harrival⟩ := @Control.ChainInv.gives_back _ xs x h.chained status pending
  obtain ⟨hself, hctx⟩ := h.chained.switchBack_self status pending
  rw [← control_eq] at harrival hself hctx
  refine ⟨chained, harrival, chained.owner_eq, hself, hctx, ?_⟩
  intro y hyx hoff
  rw [control_eq]
  exact h.chained.switchBack_other status pending hyx fun hhead => hoff (List.mem_of_mem_head? hhead)

theorem Inv.coYield_back (h : m.Inv (x :: xs) free used) (ssize : Nat) :
    m.sch.coYield ssize = (none, (m.sch.coYield ssize).2) ∧
      m.GivenBack (m.sch.coYield ssize).2 x xs .suspend .yield := by
  have hrun : m.sch.pRunCo = some x := h.chained.head
  refine ⟨?_, h.givenBack (.inl rfl) ?_⟩
  · simp only [CoMachine.coYield, hrun]
  · have hhead : m.sch.control.pRunCo = some x := hrun
    rw [CoMachine.control_coYield]
    simp only [Control.yield, hhead]

theorem Inv.process_back (h : m.Inv (x :: xs) free used) : m.GivenBack (m.sch.process x) x xs .ended .finished :=
  h.givenBack (.inr rfl) (CoMachine.control_process m.sch x)

theorem GivenBack.idle {sch : CoMachine} {status : CoState} {pending : Pending}
    (back : m.GivenBack sch x xs status pending) (h : m.Inv (x :: xs) free used) (hy : (y : Int) ∈ used) (hoff : y ∉ xs)
    (hyx : y ≠ x) : sch.control.Resumable y := by
  obtain ⟨status_eq, ctx_eq⟩ := back.other y hyx hoff
  unfold Control.Resumable
  rw [status_eq, ctx_eq]
  exact h.idle y hy (by simp [hyx, hoff])

section Frames

variable {frame : Option Nat → Option MgrFrame} (same : ∀ c, c ≠ some x → frame c = m.frame c)

include same

/-- The `Resume` call that ran `x` goes on; the others go on waiting. -/
theorem Inv.frame_caller (h : m.Inv (x :: xs) free used) : frame xs.head? = some (.resume (m.info x).iPoolID x) := by
  rw [same]
  · exact h.frames (xs.head?, x) (by simp [callsOf])
  · intro hhead
    exact (List.nodup_cons.mp h.chained.nodup).1 (List.mem_of_mem_head? hhead)

theorem Inv.frames_tail (h : m.Inv (x :: xs) free used) {call : Option Nat × Nat} (hcall : call ∈ callsOf xs) :
    Function.update frame xs.head? none call.1 = some (.resume (m.info call.2).iPoolID call.2) := by
  obtain ⟨hx, hnodup⟩ := List.nodup_cons.mp h.chained.nodup
  rw [Function.update_of_ne (callsOf_caller_head hnodup hcall), same _ (callsOf_caller_off hcall hx)]
  exact h.frames call (List.mem_cons_of_mem _ hcall)

theorem GivenBack.resting {sch : CoMachine} {status : CoState} {pending : Pending}
    (back : m.GivenBack sch x xs status pending) (h : m.Inv (x :: xs) free used) (hy : (y : Int) ∈ used) (hoff : y ∉ xs)
    (hyx : y ≠ x) (hsuspend : (sch.co y).status = .suspend) :
    Function.update frame xs.head? none (some y) = some (.yield y) := by
  have hyhead : some y ≠ xs.head? := fun heq => hoff (List.mem_of_mem_head? heq.symm)
  rw [Function.update_of_ne hyhead, same _ fun heq => hyx (Option.some.inj heq)]
  exact h.resting y hy (by simp [hyx, hoff]) ((back.other y hyx hoff).1.symm.trans hsuspend)

end Frames

theorem Inv.yield_eq (h : m.Inv (x :: xs) free used) (running : m.iRunningID = (m.info x).iPoolID)
    (expiretime : Int) (ssize : Nat) :
    m.yield expiretime ssize =
      { m with
        iRunningID := 0
        sch := (m.sch.coYield ssize).2
        info := Function.update m.info x { m.info x with tExpireTime := expiretime, isTimeOut := false }
        frame := Function.update (Function.update m.frame (some x) (some (.yield x))) xs.head? none
        log := .resumed xs.head? (m.info x).iPoolID (m.info x).iPoolID :: m.log } := by
  have hget : m.getCo m.iRunningID = some x := h.registry.getCo_iff.mpr ⟨h.busy x (by simp), running⟩
  have howner : m.sch.owner = some x := h.owner_eq
  obtain ⟨hpair, back⟩ := h.coYield_back ssize
  have hsch : (m.modifyInfo x fun i => { i with tExpireTime := expiretime, isTimeOut := false }).sch.coYield ssize =
      (none, (m.sch.coYield ssize).2) := hpair
  have hframe := h.frame_caller fun c hc => Function.update_of_ne hc (some (.yield x)) m.frame
  have hnotEnded : ¬ ((m.sch.coYield ssize).2.co x).status = .ended := by simp [back.status]
  simp only [SCoMgr.yield, hget, hsch, howner]
  rw [goOn_back back.arrival back.owner hframe]
  simp only [resumeReturn, hnotEnded, if_false]
  rfl

/-- The running coroutine yields: the `Resume` call that ran it returns its id. -/
theorem Inv.yield (h : m.Inv (x :: xs) free used) (running : m.iRunningID = (m.info x).iPoolID)
    (expiretime : Int) (ssize : Nat) :
    (m.yield expiretime ssize).Inv xs free used ∧
      (m.yield expiretime ssize).log = .resumed xs.head? (m.info x).iPoolID (m.info x).iPoolID :: m.log ∧
      (m.yield expiretime ssize).iRunningID = 0 ∧ (m.yield expiretime ssize).pool = m.pool ∧
      (m.yield expiretime ssize).info =
        Function.update m.info x { m.info x with tExpireTime := expiretime, isTimeOut := false } ∧
      (m.yield expiretime ssize).sch = (m.sch.coYield ssize).2 ∧
      ((m.yield expiretime ssize).sch.co x).status = .suspend := by
  obtain ⟨-, back⟩ := h.coYield_back ssize
  have same : ∀ c, c ≠ some x → Function.update m.frame (some x) (some (.yield x)) c = m.frame c :=
    fun c hc => Function.update_of_ne hc _ _
  have hid : ∀ y : Nat,
      (Function.update m.info x { m.info x with tExpireTime := expiretime, isTimeOut := false } y).iPoolID =
        (m.info y).iPoolID := by
    intro y
    by_cases hyx : y = x
    · subst hyx
      rw [Function.update_self]
    · rw [Function.update_of_ne hyx]
  rw [h.yield_eq running expiretime ssize]
  refine ⟨?_, rfl, rfl, rfl, rfl, rfl, back.status⟩
  refine ⟨h.registry.frame rfl hid, back.chained, ?_, ?_, ?_, ?_, .inl rfl, ?_⟩
  · intro y hy
    exact h.busy y (List.mem_cons_of_mem _ hy)
  · intro y hy hoff
    by_cases hyx : y = x
    · subst hyx
      exact .inr ⟨back.status, back.ctx⟩
    · exact back.idle h hy hoff hyx
  · intro y hy hoff hsuspend
    by_cases hyx : y = x
    · subst hyx
      have hyhead : some y ≠ xs.head? := fun heq => hoff (List.mem_of_mem_head? heq.symm)
      simp only [Function.update_of_ne hyhead]
      exact Function.update_self _ _ _
    · exact back.resting same h hy hoff hyx hsuspend
  · intro call hcall
    simp only [hid]
    exact h.frames_tail same hcall
  · simp only [liveIds, h.live, hid]

/-- The manager when the function of `x` has returned, before `Resume` releases the coroutine. -/
def left (m : SCoMgr) (x : Nat) (caller : Option Nat) : SCoMgr :=
  { m with
    iRunningID := 0
    sch := m.sch.process x
    frame := Function.update m.frame caller none
    log := .finished (m.info x).iPoolID :: m.log }

theorem Inv.finish_eq (h : m.Inv (x :: xs) free used) :
    m.finish = ((m.left x xs.head?).release (m.info x).iPoolID).2.record
      (.resumed xs.head? (m.info x).iPoolID 0) := by
  have howner : m.sch.owner = some x := h.owner_eq
  have back := h.process_back
  have hended : ((m.sch.process x).co x).status = .ended := back.status
  simp only [SCoMgr.finish, howner]
  refine (goOn_back ?_ ?_ ?_ : _ = resumeReturn _ xs.head? (m.info x).iPoolID x).trans ?_
  · exact back.arrival
  · exact back.owner
  · exact h.frame_caller fun _ _ => rfl
  · simp only [resumeReturn, hended, if_true]
    rfl

theorem Inv.left_leaving (h : m.Inv (x :: xs) free used) : (m.left x xs.head?).Leaving x xs free used := by
  have back := h.process_back
  refine ⟨h.registry.frame rfl fun _ => rfl, back.chained, ?_, h.busy x (by simp),
    (List.nodup_cons.mp h.chained.nodup).1, ?_, ?_, ?_, .inl rfl, ?_⟩
  · intro y hy
    exact h.busy y (List.mem_cons_of_mem _ hy)
  · intro y hy hoff hyx
    exact back.idle h hy hoff hyx
  · intro y hy hoff hyx hsuspend
    exact back.resting (fun _ _ => rfl) h hy hoff hyx hsuspend
  · intro call hcall
    exact h.frames_tail (fun _ _ => rfl) hcall
  · simp only [left, liveIds, h.live]

/-- The function of the running coroutine returns: the `Resume` call that ran it releases it and
returns 0. -/
theorem Inv.finish (h : m.Inv (x :: xs) free used) :
    ∃ before after, used = before ++ (x : Int) :: after ∧
      m.finish.Inv xs (free ++ [(x : Int)]) (before ++ after) ∧
      m.finish.log = .resumed xs.head? (m.info x).iPoolID 0 :: .finished (m.info x).iPoolID :: m.log ∧
      m.finish.iRunningID = 0 ∧ m.finish.info = m.info ∧ m.finish.sch.log = (m.sch.process x).log ∧
      m.finish.pool.capacity = m.pool.capacity ∧
      ∀ i, (m.finish.pool.idx i).accumulate = (m.pool.idx i).accumulate := by
  have leaving := h.left_leaving
  obtain ⟨before, after, hused, -, inv, hlog, hcap, hacc⟩ := leaving.release
  obtain ⟨-, -, pool', -, released, -⟩ := leaving.registry.release leaving.mem
  have hid : ((m.left x xs.head?).info x).iPoolID = (m.info x).iPoolID := rfl
  rw [hid] at inv hlog hcap hacc released
  rw [h.finish_eq]
  refine ⟨before, after, hused, inv.record rfl, ?_, ?_, ?_, ?_, hcap, hacc⟩
  · exact congrArg _ hlog
  · rw [released]
    rfl
  · rw [released]
    rfl
  · rw [released]
    exact freeStack_log _ _

theorem coResume_none {s : CoMachine} {ssize : Nat} (alone : s.pRunCo ≠ some x) (h : s.control.Resumable x) :
    (s.coResume x ssize).1 = none := by
  have status_eq : ((s.linkParent x ssize).co x).status = s.control.status x := by
    have hlink : ((s.linkParent x ssize).co x).status = (s.control.link x).status x := by
      rw [← CoMachine.control_linkParent s x ssize]
      rfl
    exact hlink.trans (Control.link_status_of_ne alone)
  rcases h with hready | ⟨hsuspend, -⟩
  · simp only [CoMachine.coResume, status_eq, hready]
  · simp only [CoMachine.coResume, status_eq, hsuspend]

/-- Where control arrives, the call that waits there goes on, or the function starts. -/
theorem goOn_arrives (m : SCoMgr) (h : m.sch.arrival = .start ∨ m.sch.arrival = .yield) :
    m.goOn = m ∨ ∃ ret, m.goOn =
      { m with frame := Function.update m.frame m.sch.owner none, log := .yielded m.sch.owner ret :: m.log } := by
  rcases h with hstart | hyield
  · left
    simp only [goOn, hstart]
  · simp only [goOn, hyield]
    cases m.frame m.sch.owner with
    | none => exact .inl rfl
    | some f =>
      cases f with
      | resume id x => exact .inl rfl
      | yield x => exact .inr ⟨_, rfl⟩

/-- The manager when `Resume` has given control to `x`. -/
def given (m : SCoMgr) (x ssize : Nat) : SCoMgr :=
  { m with
    iRunningID := (m.info x).iPoolID
    sch := (m.sch.coResume x ssize).2
    frame := Function.update m.frame m.sch.owner (some (.resume (m.info x).iPoolID x)) }

theorem resume_eq_given (hget : m.getCo (m.info x).iPoolID = some x) {ssize : Nat}
    (hnone : (m.sch.coResume x ssize).1 = none) : m.resume (m.info x).iPoolID ssize = (m.given x ssize).goOn := by
  have hpair : m.sch.coResume x ssize = (none, (m.sch.coResume x ssize).2) := Prod.ext hnone rfl
  simp only [SCoMgr.resume, hget]
  rw [hpair]
  rfl

theorem Inv.resume_eq (h : m.Inv chain free used) (hx : (x : Int) ∈ used) (off : x ∉ chain) (ssize : Nat) :
    m.resume (m.info x).iPoolID ssize = (m.given x ssize).goOn :=
  resume_eq_given (h.registry.getCo_iff.mpr ⟨hx, rfl⟩) (coResume_none (h.chained.not_running off) (h.idle x hx off))

theorem Inv.given (h : m.Inv chain free used) (hx : (x : Int) ∈ used) (off : x ∉ chain) (ssize : Nat) :
    (m.given x ssize).Inv (x :: chain) free used := by
  have resumable := h.idle x hx off
  have hcontrol : (m.given x ssize).sch.control = m.sch.control.resume x := CoMachine.control_coResume _ _ _
  refine ⟨h.registry.frame rfl fun _ => rfl, ?_, ?_, ?_, ?_, ?_, .inr ⟨x, rfl, rfl⟩, h.live⟩
  · rw [hcontrol]
    exact h.chained.resume resumable
  · intro y hy
    rcases List.mem_cons.mp hy with rfl | hy
    · exact hx
    · exact h.busy y hy
  · intro y hy hoff
    obtain ⟨hyx, hoff⟩ := not_or.mp (mt List.mem_cons.mpr hoff)
    rw [hcontrol]
    exact h.chained.resume_resumable resumable hyx hoff (h.idle y hy hoff)
  · intro y hy hoff hsuspend
    obtain ⟨hyx, hoff⟩ := not_or.mp (mt List.mem_cons.mpr hoff)
    have after : (m.given x ssize).sch.control.status y = .suspend := hsuspend
    rw [hcontrol, (h.chained.resume_other resumable hyx hoff).1] at after
    have hyowner : some y ≠ m.sch.owner := by
      rw [h.owner_eq]
      exact fun heq => hoff (List.mem_of_mem_head? heq.symm)
    simp only [SCoMgr.given, Function.update_of_ne hyowner]
    exact h.resting y hy hoff after
  · intro call hcall
    simp only [SCoMgr.given]
    rcases List.mem_cons.mp hcall with rfl | hcall
    · rw [← h.owner_eq]
      exact Function.update_self _ _ _
    · have hcaller : call.1 ≠ m.sch.owner := by
        rw [h.owner_eq]
        exact callsOf_caller_head h.chained.nodup hcall
      rw [Function.update_of_ne hcaller]
      exact h.frames call hcall

/-- The frame of the running coroutine is not read: no call of it waits. -/
theorem Inv.dropFrame (h : m.Inv (x :: xs) free used) :
    Inv { m with frame := Function.update m.frame (some x) none } (x :: xs) free used := by
  refine ⟨h.registry.frame rfl fun _ => rfl, h.chained, h.busy, h.idle, ?_, ?_, h.runningId, h.live⟩
  · intro y hy hoff hsuspend
    have hyx : some y ≠ some x := by
      rintro ⟨⟩
      exact hoff (by simp)
    simp only [Function.update_of_ne hyx]
    exact h.resting y hy hoff hsuspend
  · intro call hcall
    have hcaller : call.1 ≠ some x := callsOf_caller_head h.chained.nodup hcall
    simp only [Function.update_of_ne hcaller]
    exact h.frames call hcall

/-- `Resume` of a coroutine off the chain gives control to it. -/
theorem Inv.resume (h : m.Inv chain free used) (hx : (x : Int) ∈ used) (off : x ∉ chain) (ssize : Nat) :
    (m.resume (m.info x).iPoolID ssize).Inv (x :: chain) free used ∧
      (m.resume (m.info x).iPoolID ssize).iRunningID = (m.info x).iPoolID ∧
      (m.resume (m.info x).iPoolID ssize).sch = (m.sch.coResume x ssize).2 ∧
      (m.resume (m.info x).iPoolID ssize).info = m.info ∧
      (m.resume (m.info x).iPoolID ssize).pool = m.pool ∧
      ((m.resume (m.info x).iPoolID ssize).log = m.log ∨
        ∃ ret, (m.resume (m.info x).iPoolID ssize).log = .yielded (some x) ret :: m.log) := by
  have inv := h.given hx off ssize
  have howner : (m.given x ssize).sch.owner = some x := inv.owner_eq
  have arrives : (m.given x ssize).sch.arrival = .start ∨ (m.given x ssize).sch.arrival = .yield := by
    have heq : (m.given x ssize).sch.arrival = _ :=
      (congrArg Control.arrival (CoMachine.control_coResume m.sch x ssize)).trans
        (h.chained.resume_arrival (h.idle x hx off))
    rw [heq]
    split
    · exact .inl rfl
    · exact .inr rfl
  rw [h.resume_eq hx off ssize]
  rcases goOn_arrives (m.given x ssize) arrives with hsame | ⟨ret, hret⟩
  · rw [hsame]
    exact ⟨inv, rfl, rfl, rfl, rfl, .inl rfl⟩
  · rw [howner] at hret
    rw [hret]
    exact ⟨inv.dropFrame.record rfl, rfl, rfl, rfl, rfl, .inr ⟨ret, rfl⟩⟩

end SCoMgr

end Wddlib
