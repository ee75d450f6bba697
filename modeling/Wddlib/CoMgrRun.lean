import Wddlib.CoMgrStep
import Wddlib.ObjPoolRun

namespace Wddlib

/-- `Resume` and `Release` are not called for a coroutine that runs or waits for one it resumed. -/
def MgrEvent.Legal (m : SCoMgr) : MgrEvent → Prop
  | .resume id _ => ∀ x, m.getCo id = some x → ¬ OnChain (fun y => (m.sch.co y).parent) m.sch.pRunCo x
  | .release id => ∀ x, m.getCo id = some x → ¬ OnChain (fun y => (m.sch.co y).parent) m.sch.pRunCo x
  | _ => True

namespace SCoMgr

variable {m m₀ : SCoMgr} {chain xs : List Nat} {free used : List Int} {x : Nat} {id : Int} {events : List MgrEvent}

theorem Inv.getCo_iff_live (h : m.Inv chain free used) : m.getCo id ≠ none ↔ id ∈ liveIds m.log := by
  rw [h.live, List.mem_map]
  constructor
  · intro hne
    obtain ⟨x, hget⟩ := Option.ne_none_iff_exists'.mp hne
    obtain ⟨hx, rfl⟩ := h.registry.getCo_iff.mp hget
    exact ⟨x, hx, rfl⟩
  · rintro ⟨p, hp, rfl⟩
    have hget : m.getCo (m.info p.toNat).iPoolID = some p.toNat :=
      h.registry.getCo_iff.mpr ⟨by rw [h.registry.casts hp]; exact hp, rfl⟩
    rw [hget]
    simp

theorem Inv.live_nodup (h : m.Inv chain free used) : (liveIds m.log).Nodup := by
  rw [h.live]
  refine List.Nodup.map_on ?_ (List.nodup_append.mp h.registry.repr.nodup).2.1
  intro p hp q hq heq
  have hpq := h.registry.id_inj (by rw [h.registry.casts hp]; exact hp) (by rw [h.registry.casts hq]; exact hq) heq
  rw [← h.registry.casts hp, hpq, h.registry.casts hq]

theorem Inv.off_chain (h : m.Inv chain free used) (off : ¬ OnChain (fun y => (m.sch.co y).parent) m.sch.pRunCo x) :
    x ∉ chain := fun hx => off ((onChain_iff_mem h.chained.linked).mpr hx)

theorem resume_of_none (hget : m.getCo id = none) (ssize : Nat) :
    m.resume id ssize = m.record (.resumed m.sch.owner id (-1)) := by
  simp only [resume, hget]

theorem yield_of_none (hget : m.getCo m.iRunningID = none) (expiretime : Int) (ssize : Nat) :
    m.yield expiretime ssize = m.record (.yielded m.sch.owner (-1)) := by
  simp only [yield, hget]

theorem markTimeOut_id (m : SCoMgr) (x y : Nat) : ((m.markTimeOut x).info y).iPoolID = (m.info y).iPoolID := by
  by_cases hyx : y = x
  · subst hyx
    simp [markTimeOut, modifyInfo]
  · simp [markTimeOut, modifyInfo, Function.update_of_ne hyx]

theorem Inv.markTimeOut (h : m.Inv chain free used) (x : Nat) : (m.markTimeOut x).Inv chain free used := by
  have hid := m.markTimeOut_id x
  refine ⟨h.registry.frame rfl hid, h.chained, h.busy, h.idle, h.resting, ?_, ?_, ?_⟩
  · intro call hcall
    rw [hid]
    exact h.frames call hcall
  · rcases h.runningId with hzero | ⟨y, hhead, hy⟩
    · exact .inl hzero
    · refine .inr ⟨y, hhead, ?_⟩
      rw [hid]
      exact hy
  · simp only [hid]
    exact h.live

/-- Everything a step can do to a manager whose chain is `chain`. -/
inductive Moved (m : SCoMgr) (chain : List Nat) (used : List Int) : MgrEvent → SCoMgr → List Nat → Prop
  | full : Moved m chain used .alloc (m.record (.allocated (-1))) chain
  | allocated {p : Int} {x : Nat} {pool' : TObjPool} (slot : p = x) (head : m.pool.freeHead = p)
      (fresh : p ∉ used) (range : p < m.pool.capacity) (room : m.pool.usedCount < m.pool.capacity)
      (id_eq : m.alloc.1 = m.pool.capacity * nextGeneration m.pool.capacity (m.pool.idx p).accumulate p + p)
      (eq : m.alloc.2 = initCo { m with pool := pool' } m.alloc.1 x) (capacity : pool'.capacity = m.pool.capacity)
      (accumulate : ∀ i, (pool'.idx i).accumulate =
        if i = p then nextGeneration m.pool.capacity (m.pool.idx p).accumulate p else (m.pool.idx i).accumulate) :
      Moved m chain used .alloc (m.alloc.2.record (.allocated m.alloc.1)) chain
  | refused {id : Int} {ssize : Nat} (dead : m.getCo id = none) :
      Moved m chain used (.resume id ssize) (m.record (.resumed m.sch.owner id (-1))) chain
  | resumed {x : Nat} {ssize : Nat} (mem : (x : Int) ∈ used) (off : x ∉ chain) :
      Moved m chain used (.resume (m.info x).iPoolID ssize) (m.resume (m.info x).iPoolID ssize) (x :: chain)
  | stayed {expiretime : Int} {ssize : Nat} (dead : m.getCo m.iRunningID = none) :
      Moved m chain used (.yield expiretime ssize) (m.record (.yielded m.sch.owner (-1))) chain
  | yielded {x : Nat} {xs : List Nat} {expiretime : Int} {ssize : Nat} (split : chain = x :: xs)
      (running : m.iRunningID = (m.info x).iPoolID) :
      Moved m chain used (.yield expiretime ssize) (m.yield expiretime ssize) xs
  | outside (none : chain = []) : Moved m chain used .ret m chain
  | finished {x : Nat} {xs : List Nat} (split : chain = x :: xs) : Moved m chain used .ret m.finish xs
  | unknown {id : Int} (dead : m.getCo id = none) :
      Moved m chain used (.release id) (m.record (.released id (-1))) chain
  | released {x : Nat} (mem : (x : Int) ∈ used) (off : x ∉ chain) :
      Moved m chain used (.release (m.info x).iPoolID)
        ((m.release (m.info x).iPoolID).2.record (.released (m.info x).iPoolID 0)) chain
  | marked {x : Nat} : Moved m chain used (.timeOut x) (m.markTimeOut x) chain

theorem erase_of_dead (h : m.Inv chain free used) (dead : m.getCo id = none) :
    (liveIds m.log).erase id = liveIds m.log := by
  refine List.erase_of_not_mem ?_
  rw [← h.getCo_iff_live]
  simp [dead]

theorem Inv.step (h : m.Inv chain free used) {e : MgrEvent} (legal : e.Legal m) :
    ∃ chain' free' used', Moved m chain used e (m.step e) chain' ∧ (m.step e).Inv chain' free' used' := by
  have alive : m.sch.lost = false := h.chained.alive
  unfold SCoMgr.step
  rw [alive]
  simp only [Bool.false_eq_true, if_false]
  cases e with
  | alloc =>
    rcases h.alloc with ⟨hret, hsame, rfl⟩ | ⟨p, rest, x, pool', rfl, hslot, hid, heq, hacc, hcap, inv⟩
    · simp only [hret, hsame]
      exact ⟨chain, [], used, .full, h.record rfl⟩
    · have hlen := h.registry.repr.length_eq
      have hcount := h.registry.repr.usedCount
      have hpos := h.registry.bounds.capacity_pos
      have hrange := ((h.registry.repr.slots p).mp (by simp)).2
      have hfresh : p ∉ used := fun hmem => (List.nodup_append.mp h.registry.repr.nodup).2.2 p (by simp) p hmem rfl
      refine ⟨chain, rest, p :: used, .allocated hslot h.registry.repr.freeNext.1 hfresh hrange ?_ hid heq hcap hacc,
        inv⟩
      simp only [List.length_cons] at hlen
      omega
  | resume id ssize =>
    cases hget : m.getCo id with
    | none =>
      simp only [resume_of_none hget]
      exact ⟨chain, free, used, .refused hget, h.record rfl⟩
    | some x =>
      obtain ⟨hx, rfl⟩ := h.registry.getCo_iff.mp hget
      have off := h.off_chain (legal x hget)
      exact ⟨x :: chain, free, used, .resumed hx off, (h.resume hx off ssize).1⟩
  | yield expiretime ssize =>
    cases hget : m.getCo m.iRunningID with
    | none =>
      simp only [yield_of_none hget]
      exact ⟨chain, free, used, .stayed hget, h.record rfl⟩
    | some y =>
      rcases h.runningId with hzero | ⟨x, hhead, hid⟩
      · rw [hzero, h.registry.getCo_zero] at hget
        cases hget
      · obtain ⟨xs, rfl⟩ := List.head?_eq_some_iff.mp hhead
        exact ⟨xs, free, used, .yielded rfl hid, (h.yield hid expiretime ssize).1⟩
  | ret =>
    cases chain with
    | nil =>
      have howner : m.sch.owner = none := h.owner_eq
      simp only [SCoMgr.finish, howner]
      exact ⟨[], free, used, .outside rfl, h⟩
    | cons x xs =>
      obtain ⟨before, after, -, inv, -⟩ := h.finish
      exact ⟨xs, _, _, .finished rfl, inv⟩
  | release id =>
    cases hget : m.getCo id with
    | none =>
      simp only [release_of_none hget]
      refine ⟨chain, free, used, .unknown hget, h.record ?_⟩
      exact erase_of_dead h hget
    | some x =>
      obtain ⟨hx, rfl⟩ := h.registry.getCo_iff.mp hget
      have off := h.off_chain (legal x hget)
      obtain ⟨before, after, -, hret, inv, -⟩ := h.release hx off
      simp only [hret]
      exact ⟨chain, _, _, .released hx off, inv⟩
  | timeOut x => exact ⟨chain, free, used, .marked, h.markTimeOut x⟩

theorem Inv.step_yield (h : m.Inv chain free used) (expiretime : Int) (ssize : Nat) :
    m.step (.yield expiretime ssize) = m.yield expiretime ssize := by
  have alive : m.sch.lost = false := h.chained.alive
  simp only [SCoMgr.step, alive, Bool.false_eq_true, if_false]

theorem Inv.step_ret (h : m.Inv chain free used) : m.step .ret = m.finish := by
  have alive : m.sch.lost = false := h.chained.alive
  simp only [SCoMgr.step, alive, Bool.false_eq_true, if_false]

/-- A manager as `InitCoMgr` leaves it. -/
def Initial (m : SCoMgr) : Prop :=
  ∃ malloc cap unit pool iStackSize iMode firststack secondstack, 1 ≤ cap ∧ cap ≤ 1073741824 ∧
    objpoolInit malloc cap unit = (0, some pool) ∧ m = initCoMgr pool iStackSize iMode firststack secondstack

theorem Initial.inv (start : m.Initial) : ∃ free, m.Inv [] free [] := by
  obtain ⟨malloc, cap, unit, pool, iStackSize, iMode, firststack, secondstack, hpos, hle, hinit, rfl⟩ := start
  obtain ⟨hrepr, hbounds, -, -⟩ := objpoolInit_spec hpos hle hinit
  refine ⟨_, ⟨⟨hrepr, hbounds, ?_, ?_⟩, Control.create_chainInv _ _ _, ?_, ?_, ?_, ?_, .inl rfl, rfl⟩⟩
  · rintro x ⟨⟩
  · rintro x ⟨⟩
  · rintro x ⟨⟩
  · rintro x ⟨⟩
  · rintro x ⟨⟩
  · rintro call ⟨⟩

end SCoMgr

/-- The manager after the first `k` events. -/
def mgrAt (m₀ : SCoMgr) (events : List MgrEvent) (k : Nat) : SCoMgr := stateAt SCoMgr.step m₀ events k

def LegalMgrRun (m₀ : SCoMgr) (events : List MgrEvent) : Prop :=
  ∀ k e, events[k]? = some e → MgrEvent.Legal (mgrAt m₀ events k) e

/-- Some chain, free slots and used slots fit the state. -/
def SCoMgr.Ordered (m : SCoMgr) : Prop := ∃ chain free used, m.Inv chain free used

variable {m₀ : SCoMgr} {events : List MgrEvent}

theorem mgrAt_succ {k : Nat} {e : MgrEvent} (h : events[k]? = some e) :
    mgrAt m₀ events (k + 1) = (mgrAt m₀ events k).step e :=
  stateAt_succ h

theorem mgrAt_ordered (start : m₀.Initial) (legal : LegalMgrRun m₀ events) (k : Nat) : (mgrAt m₀ events k).Ordered := by
  have ordered : m₀.Ordered := by
    obtain ⟨free, inv⟩ := start.inv
    exact ⟨[], free, [], inv⟩
  refine stateAt_induct ordered ?_ k
  rintro k e he ⟨chain, free, used, inv⟩
  obtain ⟨chain', free', used', -, inv'⟩ := inv.step (legal k e he)
  exact ⟨chain', free', used', inv'⟩

/-- The coroutine of `id`, if there is one, is found to be off the chain. -/
def SCoMgr.seenOff (m : SCoMgr) (id : Int) : Bool :=
  match m.getCo id, climb (fun y => (m.sch.co y).parent) m.sch.calls.length m.sch.pRunCo with
  | some x, some chain => decide (x ∉ chain)
  | some _, none => false
  | none, _ => true

def MgrEvent.seenLegal (m : SCoMgr) : MgrEvent → Bool
  | .resume id _ => m.seenOff id
  | .release id => m.seenOff id
  | _ => true

theorem SCoMgr.off_of_seenOff {m : SCoMgr} {id : Int} {x : Nat} (h : m.seenOff id = true) (hget : m.getCo id = some x) :
    ¬ OnChain (fun y => (m.sch.co y).parent) m.sch.pRunCo x := by
  unfold SCoMgr.seenOff at h
  rw [hget] at h
  split at h
  next x' chain hx hclimb =>
    obtain rfl := Option.some.inj hx
    rw [onChain_iff_mem (climb_chain hclimb)]
    exact of_decide_eq_true h
  next => cases h
  next _ hx => cases hx

theorem legalMgrRun_of_seen
    (h : ∀ k : Fin events.length, (events.get k).seenLegal (mgrAt m₀ events k) = true) : LegalMgrRun m₀ events := by
  have each : ∀ k (e : MgrEvent), events[k]? = some e → e.seenLegal (mgrAt m₀ events k) = true :=
    forall_event_iff.mpr h
  intro k e he
  have seen := each k e he
  cases e with
  | resume id ssize =>
    intro x hget
    exact SCoMgr.off_of_seenOff seen hget
  | release id =>
    intro x hget
    exact SCoMgr.off_of_seenOff seen hget
  | alloc => trivial
  | yield expiretime ssize => trivial
  | ret => trivial
  | timeOut x => trivial

/-- A manager with room for two coroutines. -/
def smallMgr : SCoMgr :=
  .initCoMgr ((objpoolInit (fun _ => true) 2 4096).2.getD ⟨0, 0, 0, 0, 0, 0, fun _ => ⟨0, 0, 0, 0⟩⟩) 64
    .fixedStacksizeMalloc [] []

theorem smallMgr_initial : smallMgr.Initial :=
  ⟨fun _ => true, 2, 4096, _, 64, .fixedStacksizeMalloc, [], [], by decide, by decide, rfl, rfl⟩

end Wddlib
