import Wddlib.CoMgrRun

namespace Wddlib

/-- The manager knows which coroutine is executing. -/
def SCoMgr.Coherent (m : SCoMgr) : Prop :=
  (m.sch.owner = none → m.iRunningID = 0 ∧ m.sch.pRunCo = none) ∧
    ∀ x, m.sch.owner = some x → m.iRunningID = (m.info x).iPoolID ∧ m.sch.pRunCo = some x

/-- The executing coroutine gives control back. -/
def MgrEvent.GivesBack : MgrEvent → Prop
  | .ret => True
  | .yield _ _ => True
  | _ => False

instance MgrEvent.decidableGivesBack (e : MgrEvent) : Decidable e.GivesBack :=
  match e with
  | .ret => isTrue trivial
  | .yield _ _ => isTrue trivial
  | .alloc => isFalse id
  | .resume _ _ => isFalse id
  | .release _ => isFalse id
  | .timeOut _ => isFalse id

/-- No coroutine that was resumed by another one yields or returns. -/
def GivesBackOutside (m₀ : SCoMgr) (events : List MgrEvent) : Prop :=
  ∀ k e x, events[k]? = some e → e.GivesBack → (mgrAt m₀ events k).sch.owner = some x →
    ((mgrAt m₀ events k).sch.co x).parent = none

namespace SCoMgr

variable {m m' : SCoMgr} {chain chain' xs : List Nat} {free used : List Int} {x : Nat} {e : MgrEvent}

/-- The id that `m_iRunningID` should have. -/
def expectedId (m : SCoMgr) (chain : List Nat) : Int :=
  match chain with
  | [] => 0
  | x :: _ => (m.info x).iPoolID

theorem Inv.coherent_iff (h : m.Inv chain free used) : m.Coherent ↔ m.iRunningID = m.expectedId chain := by
  have hrun : m.sch.pRunCo = chain.head? := h.chained.head
  unfold Coherent
  rw [h.owner_eq, hrun]
  cases chain with
  | nil => simp [expectedId]
  | cons x xs => simp [expectedId]

theorem Inv.parent_eq (h : m.Inv (x :: xs) free used) : (m.sch.co x).parent = xs.head? :=
  chain_start h.chained.linked.2

/-- Giving control back to the code outside of all coroutines keeps `m_iRunningID` right, and so does
everything else. -/
theorem Inv.expected_step (h : m.Inv chain free used) (moved : Moved m chain used e m' chain')
    (before : m.iRunningID = m.expectedId chain) (outside : e.GivesBack → chain.tail = []) :
    m'.iRunningID = m'.expectedId chain' := by
  cases moved with
  | full => exact before
  | @allocated p x pool' slot head fresh range room id_eq eq capacity accumulate =>
    obtain ⟨-, hrunning, -, hinfo, -⟩ := initCo_fields { m with pool := pool' } m.alloc.1 x
    rw [← eq] at hrunning hinfo
    change m.alloc.2.iRunningID = m.alloc.2.expectedId chain
    cases chain with
    | nil => exact hrunning.trans before
    | cons y ys =>
      have hyx : y ≠ x := by
        rintro rfl
        exact fresh (slot ▸ h.busy y (by simp))
      rw [hrunning]
      refine before.trans ?_
      simp only [expectedId, hinfo, Function.update_of_ne hyx]
  | refused dead => exact before
  | @resumed x ssize mem off =>
    obtain ⟨-, hrunning, -, hinfo, -⟩ := h.resume mem off ssize
    rw [hrunning]
    simp only [expectedId, hinfo]
  | stayed dead => exact before
  | @yielded x xs expiretime ssize split running =>
    subst split
    obtain rfl : chain' = [] := outside trivial
    exact (h.yield running expiretime ssize).2.2.1
  | outside none => exact before
  | @finished x xs split =>
    subst split
    obtain rfl : chain' = [] := outside trivial
    obtain ⟨-, -, -, -, -, hzero, -⟩ := h.finish
    exact hzero
  | unknown dead => exact before
  | @released x mem off =>
    obtain ⟨-, -, pool', -, hrel, -⟩ := h.registry.release mem
    rw [hrel]
    exact before
  | @marked x =>
    cases chain with
    | nil => exact before
    | cons y ys => exact before.trans (m.markTimeOut_id x y).symm

/-- Whoever gives control back leaves 0 behind. -/
theorem Inv.gives_back (h : m.Inv (x :: xs) free used) (moved : Moved m (x :: xs) used e m' chain')
    (gives : e.GivesBack) (running : m.iRunningID = (m.info x).iPoolID) : chain' = xs ∧ m'.iRunningID = 0 := by
  cases moved with
  | full => exact gives.elim
  | allocated => exact gives.elim
  | refused => exact gives.elim
  | resumed => exact gives.elim
  | @stayed expiretime ssize dead =>
    rw [h.registry.getCo_iff.mpr ⟨h.busy x (by simp), running⟩] at dead
    cases dead
  | @yielded y ys expiretime ssize split running' =>
    obtain ⟨rfl, rfl⟩ := List.cons.inj split
    exact ⟨rfl, (h.yield running expiretime ssize).2.2.1⟩
  | outside none => cases none
  | @finished y ys split =>
    obtain ⟨rfl, rfl⟩ := List.cons.inj split
    obtain ⟨-, -, -, -, -, hzero, -⟩ := h.finish
    exact ⟨rfl, hzero⟩
  | unknown => exact gives.elim
  | released => exact gives.elim
  | marked => exact gives.elim

end SCoMgr

variable {m₀ : SCoMgr} {events : List MgrEvent}

theorem mgrAt_expected (start : m₀.Initial) (legal : LegalMgrRun m₀ events) (outside : GivesBackOutside m₀ events)
    (k : Nat) :
    ∃ chain free used, (mgrAt m₀ events k).Inv chain free used ∧
      (mgrAt m₀ events k).iRunningID = (mgrAt m₀ events k).expectedId chain := by
  induction k with
  | zero =>
    obtain ⟨free, inv⟩ := start.inv
    refine ⟨[], free, [], inv, ?_⟩
    rcases inv.runningId with hzero | ⟨x, ⟨⟩, -⟩
    exact hzero
  | succ k ih =>
    obtain ⟨chain, free, used, inv, before⟩ := ih
    cases he : events[k]? with
    | none =>
      have hsame : mgrAt m₀ events (k + 1) = mgrAt m₀ events k := stateAt_end he
      rw [hsame]
      exact ⟨chain, free, used, inv, before⟩
    | some e =>
      obtain ⟨chain', free', used', moved, inv'⟩ := inv.step (legal k e he)
      rw [mgrAt_succ he]
      refine ⟨chain', free', used', inv', inv.expected_step moved before ?_⟩
      intro gives
      cases chain with
      | nil => rfl
      | cons x xs =>
        have hparent := outside k e x he gives inv.owner_eq
        rw [inv.parent_eq, List.head?_eq_none_iff] at hparent
        exact hparent

/-- The manager knows the executing coroutine in every state of a run, and every `Yield` suspends the
coroutine that calls it, if and only if no coroutine that was resumed by another one yields or
returns. -/
theorem running_id_coherent_iff (start : m₀.Initial) (legal : LegalMgrRun m₀ events) :
    ((∀ k, (mgrAt m₀ events k).Coherent) ∧
      ∀ k x expiretime ssize, events[k]? = some (.yield expiretime ssize) →
        (mgrAt m₀ events k).sch.owner = some x →
          ((mgrAt m₀ events (k + 1)).sch.co x).status = .suspend ∧
            (mgrAt m₀ events (k + 1)).sch.owner ≠ some x) ↔
      GivesBackOutside m₀ events := by
  constructor
  · rintro ⟨coherent, -⟩ k e x he gives howner
    obtain ⟨chain, free, used, inv⟩ := mgrAt_ordered start legal k
    obtain ⟨chain', free', used', moved, inv'⟩ := inv.step (legal k e he)
    have after := coherent (k + 1)
    rw [mgrAt_succ he, inv'.coherent_iff] at after
    obtain ⟨xs, rfl⟩ : ∃ xs, chain = x :: xs := by
      rw [inv.owner_eq] at howner
      exact List.head?_eq_some_iff.mp howner
    have running : (mgrAt m₀ events k).iRunningID = ((mgrAt m₀ events k).info x).iPoolID :=
      inv.coherent_iff.mp (coherent k)
    obtain ⟨rfl, hzero⟩ := inv.gives_back moved gives running
    rw [inv.parent_eq]
    cases chain' with
    | nil => rfl
    | cons y ys =>
      have hpos := inv'.registry.id_pos (inv'.busy y (by simp))
      have heq : ((mgrAt m₀ events k).step e).iRunningID = (((mgrAt m₀ events k).step e).info y).iPoolID := after
      omega
  · intro outside
    refine ⟨?_, ?_⟩
    · intro k
      obtain ⟨chain, free, used, inv, expected⟩ := mgrAt_expected start legal outside k
      exact inv.coherent_iff.mpr expected
    · intro k x expiretime ssize he howner
      obtain ⟨chain, free, used, inv, expected⟩ := mgrAt_expected start legal outside k
      obtain ⟨xs, rfl⟩ : ∃ xs, chain = x :: xs := by
        rw [inv.owner_eq] at howner
        exact List.head?_eq_some_iff.mp howner
      obtain ⟨inv', -, -, -, -, -, hstatus⟩ := inv.yield expected expiretime ssize
      rw [mgrAt_succ he, inv.step_yield]
      refine ⟨hstatus, ?_⟩
      rw [inv'.owner_eq]
      intro hhead
      exact (List.nodup_cons.mp inv.chained.nodup).1 (List.mem_of_mem_head? hhead)

/-- The executing coroutine, if there is one, has no parent. -/
def SCoMgr.seenOutside (m : SCoMgr) : Bool := m.sch.owner.all fun x => decide ((m.sch.co x).parent = none)

theorem givesBackOutside_of_seen
    (h : ∀ k : Fin events.length, decide ((events.get k).GivesBack) → (mgrAt m₀ events k).seenOutside = true) :
    GivesBackOutside m₀ events := by
  have each : ∀ k (e : MgrEvent), events[k]? = some e → decide e.GivesBack →
      (mgrAt m₀ events k).seenOutside = true :=
    forall_event_iff.mpr h
  intro k e x he gives howner
  have seen := each k e he (decide_eq_true gives)
  simp only [SCoMgr.seenOutside, howner, Option.all_some, decide_eq_true_eq] at seen
  exact seen

/-- The first coroutine resumes the second, which yields; then the first one yields. -/
def resumingRun : List MgrEvent := [.alloc, .alloc, .resume 2 0, .resume 3 0, .yield 5 0, .yield 6 0]

theorem running_id_lost :
    LegalMgrRun smallMgr resumingRun ∧ (mgrAt smallMgr resumingRun 5).sch.owner = some 0 ∧
    ((mgrAt smallMgr resumingRun 5).info 0).iPoolID = 2 ∧ (mgrAt smallMgr resumingRun 5).iRunningID = 0 ∧
    (mgrAt smallMgr resumingRun 6).sch.owner = some 0 ∧
    ((mgrAt smallMgr resumingRun 6).sch.co 0).status = .run ∧
    (mgrAt smallMgr resumingRun 6).log.head? = some (.yielded (some 0) (-1)) ∧
    ¬ (mgrAt smallMgr resumingRun 5).Coherent := by
  refine ⟨legalMgrRun_of_seen (by decide +kernel), by decide +kernel, by decide +kernel, by decide +kernel,
    by decide +kernel, by decide +kernel, by decide +kernel, ?_⟩
  intro coherent
  have hid := (coherent.2 0 (by decide +kernel)).1
  exact absurd hid (by decide +kernel)

/-- Both coroutines are resumed from outside, in turn. -/
def alternatingRun : List MgrEvent :=
  [.alloc, .alloc, .resume 2 0, .yield 5 0, .resume 3 0, .yield 5 0, .resume 2 0, .ret]

theorem running_id_coherent_iff_alternating :
    LegalMgrRun smallMgr alternatingRun ∧ ∀ k, (mgrAt smallMgr alternatingRun k).Coherent := by
  have legal : LegalMgrRun smallMgr alternatingRun := legalMgrRun_of_seen (by decide +kernel)
  refine ⟨legal, ((running_id_coherent_iff smallMgr_initial legal).mpr ?_).1⟩
  exact givesBackOutside_of_seen (by decide +kernel)

end Wddlib
