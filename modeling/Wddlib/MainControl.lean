import Wddlib.CoroutineChain

namespace Wddlib

namespace Control

/-- `x` waits in its own `co_yield`. -/
def Parked (c : Control) (x : Nat) : Prop := c.status x = .suspend ∧ c.ctx (some x) = some ⟨some x, .yield⟩

/-- A context under `k` is that of the coroutine `k`, which has yielded or ended. -/
def Own (c : Control) (k : Option Nat) : Prop :=
  ∀ saved, c.ctx k = some saved →
    ∃ z, k = some z ∧ saved.owner = some z ∧ (saved.pending = .yield ∨ saved.pending = .finished)

/-- Who has yielded waits, or was initialised anew. -/
def Rested (c : Control) : Prop :=
  ∀ z, c.ctx (some z) = some ⟨some z, .yield⟩ → c.status z = .suspend ∨ c.status z = .ready

/-- The code outside of all coroutines executes. `pRunCo` may have been left behind by a `co_resume`
that failed. -/
structure Outside (c : Control) : Prop where
  alive : c.lost = false
  owner : c.owner = none
  own : ∀ k, c.Own k
  rested : c.Rested
  idle : ∀ z, c.pRunCo = some z → c.ctx (some z) ≠ some ⟨some z, .yield⟩

/-- Coroutine `x` executes and was resumed from outside of all coroutines. -/
structure Inside (c : Control) (x : Nat) : Prop where
  alive : c.lost = false
  owner : c.owner = some x
  running : c.pRunCo = some x
  gone : c.ctx (some x) = none
  apart : c.parent x ≠ some x
  back : c.ctx (c.parent x) = some ⟨none, .resume x⟩
  own : ∀ k, k ≠ c.parent x → c.Own k
  rested : c.Rested

variable {c : Control} {x y z : Nat}

theorem Inside.parked_ne (h : c.Inside x) (parked : c.Parked y) : y ≠ x := by
  rintro rfl
  have hgone := h.gone
  rw [parked.2] at hgone
  cases hgone

theorem create_outside (isDynamicStack : Bool) (firststack secondstack : List UInt8) :
    (CoMachine.create isDynamicStack firststack secondstack).control.Outside := by
  refine ⟨rfl, rfl, ?_, ?_, ?_⟩
  · rintro k saved ⟨⟩
  · rintro z ⟨⟩
  · rintro z ⟨⟩

theorem Rested.init (h : c.Rested) (x : Nat) : (c.init x).Rested := by
  intro z hz
  by_cases hzx : z = x
  · subst hzx
    exact .inr (Function.update_self _ _ _)
  · have hold := h z hz
    simp only [Control.init, setStatus, Function.update_of_ne hzx]
    exact hold

theorem Outside.init (h : c.Outside) (x : Nat) : (c.init x).Outside :=
  ⟨h.alive, h.owner, h.own, h.rested.init x, h.idle⟩

theorem Inside.init (h : c.Inside x) (y : Nat) : (c.init y).Inside x :=
  ⟨h.alive, h.owner, h.running, h.gone, h.apart, h.back, h.own, h.rested.init y⟩

theorem parked_of_init (parked : (c.init x).Parked y) : y ≠ x ∧ c.Parked y := by
  obtain ⟨hstatus, hctx⟩ := parked
  have hyx : y ≠ x := by
    rintro rfl
    simp [Control.init, setStatus] at hstatus
  simp only [Control.init, setStatus, Function.update_of_ne hyx] at hstatus
  exact ⟨hyx, hstatus, hctx⟩

/-- Linking makes no one wait who has yielded: what `pRunCo` names has not. -/
theorem Outside.waitingStatus (h : c.Outside) (hz : c.ctx (some z) = some ⟨some z, .yield⟩) :
    c.waitingStatus z = c.status z :=
  waitingStatus_of_ne fun hrun => h.idle z hrun hz

theorem swap_pRunCo (c : Control) (src dst : Option Nat) (pending : Pending) :
    (c.swap src dst pending).pRunCo = c.pRunCo := by
  unfold swap
  dsimp only
  split
  · rfl
  · rfl

theorem resume_pRunCo (c : Control) (x : Nat) : (c.resume x).pRunCo = some x := by
  unfold resume
  split
  · simp only [switchTo, swap_pRunCo, makecontext, setStatus, link_eq]
  · simp only [switchTo, swap_pRunCo, setStatus, link_eq]
  · simp only [link_eq]

/-- `co_resume` that returns -2 has moved `pRunCo` all the same. -/
theorem Outside.resume_refused (h : c.Outside) (ready : (c.link x).status x ≠ .ready)
    (suspend : (c.link x).status x ≠ .suspend) :
    (c.resume x).Outside ∧ ∀ y, (c.resume x).Parked y → c.Parked y := by
  have heq : c.resume x = c.link x := by
    unfold resume
    split
    next hready => exact absurd hready ready
    next hsuspend => exact absurd hsuspend suspend
    next => rfl
  rw [heq, link_eq]
  rw [link_eq] at ready suspend
  dsimp only at ready suspend
  refine ⟨⟨h.alive, h.owner, h.own, ?_, ?_⟩, ?_⟩
  · intro z hz
    change c.waitingStatus z = .suspend ∨ c.waitingStatus z = .ready
    rw [h.waitingStatus hz]
    exact h.rested z hz
  · intro z hz hctx
    obtain rfl := Option.some.inj hz
    have hstatus := h.rested x hctx
    rw [← h.waitingStatus hctx] at hstatus
    exact hstatus.elim suspend ready
  · rintro y ⟨hstatus, hctx⟩
    change c.waitingStatus y = .suspend at hstatus
    rw [h.waitingStatus hctx] at hstatus
    exact ⟨hstatus, hctx⟩

/-- What `co_resume` leads to when it gives control away. -/
inductive Handed (c : Control) (x : Nat) (c' : Control) : Prop
  | lost (lost : c'.lost = true) (place : c'.owner = none ∨ c'.arrival = .finished)
  | back (outside : c'.Outside) (arrival : c'.arrival = .resume x)
  | started (inside : c'.Inside x) (arrival : c'.arrival = .start)
  | woken (parked : c.Parked x) (alone : c.pRunCo ≠ some x) (inside : c'.Inside x) (arrival : c'.arrival = .yield)

/-- A switch to `x` leaves those who have yielded as they were. -/
theorem Outside.switch_rest (h : c.Outside) {ctx : Option Nat → Option SavedCtx} {status : Nat → CoState}
    (hctx : ∀ z, ctx (some z) = some ⟨some z, .yield⟩ → z ≠ x ∧ c.ctx (some z) = some ⟨some z, .yield⟩)
    (hstatus : ∀ z, z ≠ x → status z = c.waitingStatus z) :
    (∀ z, ctx (some z) = some ⟨some z, .yield⟩ → status z = .suspend ∨ status z = .ready) ∧
      ∀ y, status y = .suspend ∧ ctx (some y) = some ⟨some y, .yield⟩ → c.Parked y := by
  have same : ∀ z, ctx (some z) = some ⟨some z, .yield⟩ → status z = c.status z := by
    intro z hz
    obtain ⟨hzx, hold⟩ := hctx z hz
    rw [hstatus z hzx, h.waitingStatus hold]
  refine ⟨?_, ?_⟩
  · intro z hz
    rw [same z hz]
    exact h.rested z (hctx z hz).2
  · rintro y ⟨hsuspend, hy⟩
    rw [same y hy] at hsuspend
    exact ⟨hsuspend, (hctx y hy).2⟩

/-- Control goes to a coroutine that is ready or has yielded. -/
theorem Outside.resume_inside (h : c.Outside) (alone : c.pRunCo ≠ some x)
    (legal : c.status x = .ready ∨ c.status x = .suspend ∧ c.ctx (some x) = some ⟨some x, .yield⟩) :
    (c.resume x).Inside x ∧ ∀ y, (c.resume x).Parked y → c.Parked y := by
  rw [resume_eq alone legal]
  have hother : ∀ z, Function.update (Function.update c.ctx c.pRunCo (some ⟨c.owner, .resume x⟩)) (some x) none
      (some z) = some ⟨some z, .yield⟩ → z ≠ x ∧ c.ctx (some z) = some ⟨some z, .yield⟩ := by
    intro z hz
    obtain ⟨hzx, hz⟩ := update_none_eq_some.mp hz
    have hzp : some z ≠ c.pRunCo := by
      intro heq
      rw [heq, Function.update_self] at hz
      cases congrArg SavedCtx.pending (Option.some.inj hz)
    rw [Function.update_of_ne hzp] at hz
    exact ⟨fun heq => hzx (congrArg some heq), hz⟩
  obtain ⟨rested, parked⟩ := h.switch_rest hother fun z hzx => Function.update_of_ne hzx .run c.waitingStatus
  refine ⟨⟨rfl, rfl, rfl, Function.update_self _ _ _, ?_, ?_, ?_, rested⟩, parked⟩
  · simp only [Function.update_self]
    exact alone
  · simp only [Function.update_self]
    rw [Function.update_of_ne alone, Function.update_self, h.owner]
  · intro k hk saved hsaved
    simp only [Function.update_self] at hk
    obtain ⟨-, hsaved⟩ := update_none_eq_some.mp hsaved
    rw [Function.update_of_ne hk] at hsaved
    exact h.own k saved hsaved

/-- A coroutine that `pRunCo` was left at is resumed into the context that was saved right before: its
caller goes on at once. -/
theorem Outside.resume_stale (h : c.Outside) (stale : c.pRunCo = some x) :
    (c.resume x).Outside ∧ (c.resume x).arrival = .resume x ∧ ∀ y, (c.resume x).Parked y → c.Parked y := by
  have heq : c.resume x =
      { c with
        pRunCo := some x
        status := Function.update c.waitingStatus x .run
        parent := Function.update c.parent x (some x)
        ctx := Function.update c.ctx (some x) none
        owner := c.owner
        arrival := .resume x
        calls := CoMachine.callsAfter ((c.owner, x) :: c.calls) ⟨c.owner, .resume x⟩
        lost := false
        resumer := Function.update c.resumer x (some c.owner)
        active := Function.update c.active x true } := by
    have hstatus : (c.link x).status x = .suspend := by
      rw [link_eq]
      simp only [Control.waitingStatus, stale, Function.update_self]
    unfold resume
    rw [hstatus]
    simp only [switchTo, link_eq, setStatus, stale, Function.update_self]
    refine (swap_of_some (?_ : _ = some ⟨c.owner, .resume x⟩)).trans ?_
    · simp only [Function.update_self]
    · simp only [Function.update_idem]
      rfl
  rw [heq]
  have hother : ∀ z, Function.update c.ctx (some x) none (some z) = some ⟨some z, .yield⟩ →
      z ≠ x ∧ c.ctx (some z) = some ⟨some z, .yield⟩ := by
    intro z hz
    obtain ⟨hzx, hz⟩ := update_none_eq_some.mp hz
    exact ⟨fun heq => hzx (congrArg some heq), hz⟩
  obtain ⟨rested, parked⟩ := h.switch_rest hother fun z hzx => Function.update_of_ne hzx .run c.waitingStatus
  refine ⟨⟨rfl, h.owner, ?_, rested, ?_⟩, rfl, parked⟩
  · intro k saved hsaved
    exact h.own k saved (update_none_eq_some.mp hsaved).2
  · intro z hz hctx
    exact (hother z hctx).1 (Option.some.inj hz).symm

/-- A coroutine that waits without having yielded has no context to go on in. -/
theorem Outside.resume_lost (h : c.Outside) (alone : c.pRunCo ≠ some x) (suspend : c.status x = .suspend)
    (other : c.ctx (some x) ≠ some ⟨some x, .yield⟩) :
    (c.resume x).lost = true ∧ ((c.resume x).owner = none ∨ (c.resume x).arrival = .finished) := by
  unfold resume
  rw [link_status_of_ne alone, suspend]
  simp only [switchTo, link_eq, setStatus, Function.update_self]
  cases hctx : c.ctx (some x) with
  | none =>
    have hload : Function.update c.ctx c.pRunCo (some ⟨c.owner, .resume x⟩) (some x) = none := by
      rw [Function.update_of_ne (Ne.symm alone), hctx]
    simp only [swap, hload]
    exact ⟨trivial, .inl h.owner⟩
  | some saved =>
    obtain ⟨z, hz, howner, hpending⟩ := h.own (some x) saved hctx
    have hload : Function.update c.ctx c.pRunCo (some ⟨c.owner, .resume x⟩) (some x) = some saved := by
      rw [Function.update_of_ne (Ne.symm alone), hctx]
    have hfinished : saved.pending = .finished := by
      refine hpending.resolve_left fun hyield => other ?_
      rw [hctx, hz, ← howner, ← hyield]
    simp only [swap, hload, hfinished]
    exact ⟨rfl, .inr trivial⟩

theorem Outside.resume_given (h : c.Outside) (hs : (c.link x).status x = .ready ∨ (c.link x).status x = .suspend) :
    c.Handed x (c.resume x) ∧ ((c.resume x).lost = false → ∀ y, (c.resume x).Parked y → c.Parked y) := by
  by_cases alone : c.pRunCo = some x
  · obtain ⟨outside, arrival, parked⟩ := h.resume_stale alone
    exact ⟨.back outside arrival, fun _ => parked⟩
  · rw [link_status_of_ne alone] at hs
    rcases hs with ready | suspend
    · obtain ⟨inside, parked⟩ := h.resume_inside alone (.inl ready)
      refine ⟨.started inside ?_, fun _ => parked⟩
      rw [resume_eq alone (.inl ready)]
      simp only [ready, if_true]
    · by_cases hctx : c.ctx (some x) = some ⟨some x, .yield⟩
      · obtain ⟨inside, parked⟩ := h.resume_inside alone (.inr ⟨suspend, hctx⟩)
        refine ⟨.woken ⟨suspend, hctx⟩ alone inside ?_, fun _ => parked⟩
        rw [resume_eq alone (.inr ⟨suspend, hctx⟩)]
        simp only [suspend, reduceCtorEq, if_false]
      · obtain ⟨lost, place⟩ := h.resume_lost alone suspend hctx
        refine ⟨.lost lost place, fun alive => ?_⟩
        rw [lost] at alive
        cases alive

/-- The executing coroutine gives control back to the code outside. -/
theorem Inside.switchBack (h : c.Inside x) {status : CoState} {pending : Pending}
    (how : status = .suspend ∧ pending = .yield ∨ status = .ended ∧ pending = .finished) :
    ((c.setStatus x status).switchBack x pending).Outside ∧
      ((c.setStatus x status).switchBack x pending).arrival = .resume x ∧
      ∀ y, ((c.setStatus x status).switchBack x pending).Parked y → y = x ∧ pending = .yield ∨ y ≠ x ∧ c.Parked y := by
  rw [switchBack_to_saved rfl h.owner h.apart h.back]
  have hother : ∀ k s, Function.update (Function.update c.ctx (some x) (some ⟨some x, pending⟩)) (c.parent x) none
      k = some s → k ≠ c.parent x ∧ (k = some x ∧ s = ⟨some x, pending⟩ ∨ k ≠ some x ∧ c.ctx k = some s) := by
    intro k s hk
    obtain ⟨hkp, hk⟩ := update_none_eq_some.mp hk
    refine ⟨hkp, ?_⟩
    by_cases hkx : k = some x
    · rw [hkx, Function.update_self] at hk
      exact .inl ⟨hkx, (Option.some.inj hk).symm⟩
    · rw [Function.update_of_ne hkx] at hk
      exact .inr ⟨hkx, hk⟩
  have hstatus : ∀ z, some z ≠ c.parent x →
      runningStatus (Function.update c.status x status) (c.parent x) z = Function.update c.status x status z := by
    intro z hz
    cases hp : c.parent x with
    | none => rfl
    | some p =>
      have hzp : z ≠ p := by
        rintro rfl
        exact hz hp.symm
      exact Function.update_of_ne hzp _ _
  refine ⟨⟨rfl, rfl, ?_, ?_, ?_⟩, rfl, ?_⟩
  · intro k saved hsaved
    obtain ⟨hkp, ⟨rfl, rfl⟩ | ⟨hkx, hold⟩⟩ := hother k saved hsaved
    · refine ⟨x, rfl, rfl, ?_⟩
      rcases how with ⟨-, rfl⟩ | ⟨-, rfl⟩
      · exact .inl rfl
      · exact .inr rfl
    · exact h.own k hkp saved hold
  · intro z hz
    obtain ⟨hzp, ⟨hzx, hself⟩ | ⟨hzx, hold⟩⟩ := hother _ _ hz
    · obtain rfl := Option.some.inj hzx
      simp only [hstatus z hzp, Function.update_self]
      rcases how with ⟨rfl, -⟩ | ⟨-, rfl⟩
      · exact .inl rfl
      · cases hself
    · have hne : z ≠ x := fun heq => hzx (congrArg some heq)
      simp only [hstatus z hzp, Function.update_of_ne hne]
      exact h.rested z hold
  · intro z hz hctx
    exact (hother _ _ hctx).1 hz.symm
  · rintro y ⟨hsuspend, hctx⟩
    obtain ⟨hyp, ⟨hyx, hself⟩ | ⟨hyx, hold⟩⟩ := hother _ _ hctx
    · exact .inl ⟨Option.some.inj hyx, (congrArg SavedCtx.pending hself).symm⟩
    · have hne : y ≠ x := fun heq => hyx (congrArg some heq)
      simp only [hstatus y hyp, Function.update_of_ne hne] at hsuspend
      exact .inr ⟨hne, hsuspend, hold⟩

end Control

/-- `co_resume` gives control away exactly to a coroutine that it finds ready or suspended. -/
theorem CoMachine.coResume_eq_none_iff (s : CoMachine) (x ssize : Nat) :
    (s.coResume x ssize).1 = none ↔ (s.control.link x).status x = .ready ∨ (s.control.link x).status x = .suspend := by
  have status_eq : ((s.linkParent x ssize).co x).status = (s.control.link x).status x := by
    rw [← control_linkParent s x ssize]
    rfl
  simp only [coResume, status_eq]
  cases (s.control.link x).status x with
  | ready => simp
  | suspend => simp
  | none => simp
  | run => simp
  | ended => simp

end Wddlib
