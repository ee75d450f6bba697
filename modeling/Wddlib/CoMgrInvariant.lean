import Wddlib.CoMgr
import Wddlib.CoroutineChain
import Wddlib.ObjPoolOps

namespace Wddlib

/-- The ids that have been allocated and whose coroutines have neither finished nor been released. -/
def liveIds : List MgrLog → List Int
  | [] => []
  | .allocated id :: log => if 0 ≤ id then id :: liveIds log else liveIds log
  | .finished id :: log => (liveIds log).erase id
  | .released id _ :: log => (liveIds log).erase id
  | _ :: log => liveIds log

/-- `x` is ready or suspended by its own `co_yield`. -/
def Control.Resumable (c : Control) (x : Nat) : Prop :=
  c.status x = .ready ∨ c.status x = .suspend ∧ c.ctx (some x) = some ⟨some x, .yield⟩

instance Control.decidableResumable (c : Control) (x : Nat) : Decidable (c.Resumable x) :=
  inferInstanceAs (Decidable (c.status x = .ready ∨ c.status x = .suspend ∧ c.ctx (some x) = some ⟨some x, .yield⟩))

namespace Control

variable {c : Control} {chain xs : List Nat} {x y : Nat}

theorem init_resumable (h : y = x ∨ c.Resumable y) : (c.init x).Resumable y := by
  by_cases hyx : y = x
  · subst hyx
    exact .inl (Function.update_self _ _ _)
  · have old := h.resolve_left hyx
    unfold Resumable at old ⊢
    simp only [init, setStatus, Function.update_of_ne hyx]
    exact old

theorem ChainInv.resume_resumable (inv : c.ChainInv chain) (hx : c.Resumable x) (hyx : y ≠ x) (hy : y ∉ chain)
    (h : c.Resumable y) : (c.resume x).Resumable y := by
  obtain ⟨status_eq, ctx_eq⟩ := inv.resume_other hx hyx hy
  unfold Resumable at h ⊢
  rw [status_eq, ctx_eq]
  exact h

end Control

namespace SCoMgr

variable {m m' : SCoMgr} {chain xs : List Nat} {free used : List Int} {x y : Nat} {id : Int}

/-- The coroutines of a manager are the used slots of its pool, under their handles. -/
structure Registry (m : SCoMgr) (free used : List Int) : Prop where
  repr : PoolRepr m.pool free used
  bounds : PoolBounds m.pool
  born : ∀ x : Nat, (x : Int) ∈ used → 1 ≤ (m.pool.idx x).accumulate
  poolId : ∀ x : Nat, (x : Int) ∈ used → (m.info x).iPoolID = m.pool.capacity * (m.pool.idx x).accumulate + x

theorem Registry.casts (h : m.Registry free used) {p : Int} (hp : p ∈ used) : ((p.toNat : Nat) : Int) = p :=
  Int.toNat_of_nonneg (h.repr.used_range hp).1

theorem Registry.getCo_iff (h : m.Registry free used) :
    m.getCo id = some x ↔ (x : Int) ∈ used ∧ id = (m.info x).iPoolID := by
  unfold getCo
  constructor
  · intro hget
    obtain ⟨ptr, hptr, hslot⟩ := Option.map_eq_some_iff.mp hget
    have handle : IsHandle m.pool used (id.tmod m.pool.capacity) id := by
      by_contra hno
      rw [objpoolGet_of_not_handle h.repr h.bounds hno] at hptr
      cases hptr
    rw [objpoolGet_of_handle h.repr h.bounds handle] at hptr
    obtain rfl := Option.some.inj hptr
    have hx : (x : Int) = id.tmod m.pool.capacity := by
      rw [← hslot]
      exact h.casts handle.1
    rw [← hx] at handle
    exact ⟨handle.1, handle.2.trans (h.poolId x handle.1).symm⟩
  · rintro ⟨hx, rfl⟩
    have handle : IsHandle m.pool used x (m.info x).iPoolID := ⟨hx, h.poolId x hx⟩
    rw [objpoolGet_of_handle h.repr h.bounds handle]
    simp [TObjPool.objAt]

theorem Registry.capacity_le_id (h : m.Registry free used) (hx : (x : Int) ∈ used) :
    m.pool.capacity ≤ (m.info x).iPoolID := by
  have hpos := h.bounds.capacity_pos
  have hborn := h.born x hx
  rw [h.poolId x hx]
  nlinarith

theorem Registry.id_pos (h : m.Registry free used) (hx : (x : Int) ∈ used) : 0 < (m.info x).iPoolID := by
  have hle := h.capacity_le_id hx
  have hpos := h.bounds.capacity_pos
  omega

/-- A slot is known by its id. -/
theorem Registry.id_inj (h : m.Registry free used) (hx : (x : Int) ∈ used) (hy : (y : Int) ∈ used)
    (heq : (m.info x).iPoolID = (m.info y).iPoolID) : x = y := by
  have hget : m.getCo (m.info x).iPoolID = some x := h.getCo_iff.mpr ⟨hx, rfl⟩
  have hget' : m.getCo (m.info x).iPoolID = some y := h.getCo_iff.mpr ⟨hy, heq⟩
  exact Option.some.inj (hget.symm.trans hget')

theorem Registry.getCo_zero (h : m.Registry free used) : m.getCo 0 = none := by
  cases hget : m.getCo 0 with
  | none => rfl
  | some x =>
    obtain ⟨hx, hid⟩ := h.getCo_iff.mp hget
    have hpos := h.id_pos hx
    omega

/-- What the registry does not read may change. -/
theorem Registry.frame (h : m.Registry free used) (hpool : m'.pool = m.pool)
    (hid : ∀ x : Nat, (m'.info x).iPoolID = (m.info x).iPoolID) : m'.Registry free used := by
  refine ⟨?_, ?_, ?_, ?_⟩
  · rw [hpool]
    exact h.repr
  · rw [hpool]
    exact h.bounds
  · rw [hpool]
    exact h.born
  · intro x hx
    rw [hpool, hid]
    exact h.poolId x hx

theorem Registry.release (h : m.Registry free used) (hx : (x : Int) ∈ used) :
    ∃ before after pool', used = before ++ (x : Int) :: after ∧
      m.release (m.info x).iPoolID = (0, { m with sch := m.freeStack x, pool := pool' }) ∧
      (m.release (m.info x).iPoolID).2.Registry (free ++ [(x : Int)]) (before ++ after) ∧
      (∀ i, (pool'.idx i).accumulate = (m.pool.idx i).accumulate) ∧ pool'.capacity = m.pool.capacity := by
  obtain ⟨before, after, hused, hrepr, hbounds, hcap, -, hacc⟩ := freeRelink_spec h.repr h.bounds hx
  have handle : IsHandle m.pool used x (m.info x).iPoolID := ⟨hx, h.poolId x hx⟩
  have heq : m.release (m.info x).iPoolID = (0, { m with sch := m.freeStack x, pool := freeRelink m.pool x }) := by
    simp only [SCoMgr.release, h.getCo_iff.mpr ⟨hx, rfl⟩, objpoolFree_of_handle h.repr h.bounds handle]
  have kept : ∀ y : Nat, (y : Int) ∈ before ++ after → (y : Int) ∈ used := by
    intro y hy
    rw [hused]
    rcases List.mem_append.mp hy with hy | hy
    · exact List.mem_append.mpr (.inl hy)
    · exact List.mem_append.mpr (.inr (List.mem_cons_of_mem _ hy))
  refine ⟨before, after, _, hused, heq, ?_, hacc, hcap⟩
  rw [heq]
  refine ⟨hrepr, hbounds, ?_, ?_⟩
  · intro y hy
    rw [hacc]
    exact h.born y (kept y hy)
  · intro y hy
    rw [hacc, hcap]
    exact h.poolId y (kept y hy)

theorem release_of_none (hget : m.getCo id = none) : m.release id = (-1, m) := by
  simp only [release, hget]

theorem Registry.alloc_full (h : m.Registry [] used) : m.alloc = (-1, m) := by
  simp [alloc, objpoolAlloc_full h.repr h.bounds, errObjpoolFull]

theorem initCo_fields (m : SCoMgr) (iIdx : Int) (x : Nat) :
    (m.initCo iIdx x).frame = m.frame ∧ (m.initCo iIdx x).iRunningID = m.iRunningID ∧
      (m.initCo iIdx x).log = m.log ∧
      (m.initCo iIdx x).info = Function.update m.info x ⟨iIdx, 0, false⟩ ∧ (m.initCo iIdx x).pool = m.pool := by
  unfold initCo
  simp only
  split <;> exact ⟨rfl, rfl, rfl, rfl, rfl⟩

/-- `Alloc` takes the first free slot, under an id that no coroutine has. -/
theorem Registry.alloc {p : Int} (h : m.Registry (p :: free) used) :
    ∃ x pool', p = (x : Nat) ∧
      m.alloc = (m.pool.capacity * nextGeneration m.pool.capacity (m.pool.idx p).accumulate p + p,
        initCo { m with pool := pool' } m.alloc.1 x) ∧
      m.alloc.2.Registry free (p :: used) ∧ (x : Int) ∉ used ∧ pool'.capacity = m.pool.capacity ∧
      (∀ i, (pool'.idx i).accumulate = if i = p then nextGeneration m.pool.capacity (m.pool.idx p).accumulate p
        else (m.pool.idx i).accumulate) := by
  obtain ⟨pool', halloc, hrepr, hbounds, hcap, -, hacc⟩ := objpoolAlloc_spec h.repr h.bounds
  obtain ⟨hp0, hpc⟩ := (h.repr.slots p).mp (by simp)
  obtain ⟨x, rfl⟩ := Int.eq_ofNat_of_zero_le hp0
  obtain ⟨hgen, hlt⟩ := nextGeneration_bounds h.bounds.capacity_pos h.bounds.capacity_le hpc
    (h.bounds.generation x hp0 hpc).1
  have hx : (x : Int) ∉ used := by
    intro hmem
    exact (List.nodup_append.mp h.repr.nodup).2.2 x (by simp) x hmem rfl
  have hpos := h.bounds.capacity_pos
  generalize hid : m.pool.capacity * nextGeneration m.pool.capacity (m.pool.idx x).accumulate x + x = iIdx at halloc
  have nonneg : ¬ iIdx < 0 := by nlinarith
  have handle : IsHandle pool' ((x : Int) :: used) x iIdx := by
    refine ⟨by simp, ?_⟩
    rw [hacc, hcap, if_pos rfl, hid]
  have hget : getCo { m with pool := pool' } iIdx = some x := by
    simp [getCo, objpoolGet_of_handle hrepr hbounds handle, TObjPool.objAt]
  have heq : m.alloc = (iIdx, initCo { m with pool := pool' } iIdx x) := by
    simp only [SCoMgr.alloc, halloc, nonneg, if_false, hget]
  obtain ⟨-, -, -, hinfo, hpool⟩ := initCo_fields { m with pool := pool' } iIdx x
  refine ⟨x, pool', rfl, ?_, ?_, hx, hcap, hacc⟩
  · rw [heq]
  · rw [heq]
    refine ⟨?_, ?_, ?_, ?_⟩
    · rw [hpool]
      exact hrepr
    · rw [hpool]
      exact hbounds
    · intro y hy
      rw [hpool, hacc]
      split
      · exact hgen
      next hne => exact h.born y ((List.mem_cons.mp hy).resolve_left hne)
    · intro y hy
      rw [hpool, hinfo, hacc, hcap]
      by_cases hyx : y = x
      · subst hyx
        simp [hid]
      · have hne : (y : Int) ≠ x := fun h => hyx (Int.ofNat.inj h)
        rw [Function.update_of_ne hyx, if_neg hne]
        exact h.poolId y ((List.mem_cons.mp hy).resolve_left hne)

@[simp] theorem freeStack_control (m : SCoMgr) (x : Nat) : (m.freeStack x).control = m.sch.control := by
  unfold freeStack
  split
  · split
    · exact CoMachine.control_modifyCo rfl rfl
    · rfl
  · split
    · exact CoMachine.control_modifyCo rfl rfl
    · rfl
  · rfl

theorem freeStack_log (m : SCoMgr) (x : Nat) : (m.freeStack x).log = m.sch.log := by
  unfold freeStack
  split
  · split <;> rfl
  · split <;> rfl
  · rfl

theorem initCo_control (m : SCoMgr) (iIdx : Int) (x : Nat) :
    (m.initCo iIdx x).sch.control = m.sch.control.init x := by
  unfold initCo
  simp only
  split
  · exact (CoMachine.control_modifyCo rfl rfl).trans (CoMachine.control_coInit _ _ _ _)
  · exact CoMachine.control_coInit _ _ _ _

/-- The state of a manager whose coroutines `chain`, the running one first, wait for each other. -/
structure Inv (m : SCoMgr) (chain : List Nat) (free used : List Int) : Prop where
  registry : m.Registry free used
  chained : m.sch.control.ChainInv chain
  busy : ∀ x ∈ chain, (x : Int) ∈ used
  idle : ∀ x : Nat, (x : Int) ∈ used → x ∉ chain → m.sch.control.Resumable x
  resting : ∀ x : Nat, (x : Int) ∈ used → x ∉ chain → (m.sch.co x).status = .suspend →
    m.frame (some x) = some (.yield x)
  frames : ∀ call ∈ callsOf chain, m.frame call.1 = some (.resume (m.info call.2).iPoolID call.2)
  runningId : m.iRunningID = 0 ∨ ∃ x, chain.head? = some x ∧ m.iRunningID = (m.info x).iPoolID
  live : liveIds m.log = used.map fun p => (m.info p.toNat).iPoolID

theorem Inv.record (h : m.Inv chain free used) {entry : MgrLog} (same : liveIds (entry :: m.log) = liveIds m.log) :
    (m.record entry).Inv chain free used :=
  ⟨h.registry.frame rfl fun _ => rfl, h.chained, h.busy, h.idle, h.resting, h.frames, h.runningId,
    same.trans h.live⟩

theorem Inv.owner_eq (h : m.Inv chain free used) : m.sch.owner = chain.head? :=
  h.chained.owner_eq

/-- A coroutine that was not in use is made in the slot `x`: the coroutines of the chain are others, and they keep their
ids and their frames. -/
theorem Inv.enter (h : m.Inv chain free used) {m' : SCoMgr} {rest : List Int} (hx : (x : Int) ∉ used)
    (registry : m'.Registry rest ((x : Int) :: used)) (hcontrol : m'.sch.control = m.sch.control.init x)
    (hframe : m'.frame = m.frame) (hrunning : m'.iRunningID = m.iRunningID)
    (hid : ∀ y, y ≠ x → (m'.info y).iPoolID = (m.info y).iPoolID)
    (hlive : liveIds m'.log = (m'.info x).iPoolID :: liveIds m.log) : m'.Inv chain rest ((x : Int) :: used) := by
  have hne : ∀ y : Nat, (y : Int) ∈ used → y ≠ x := by
    rintro y hy rfl
    exact hx hy
  have hchain : x ∉ chain := fun hmem => hx (h.busy x hmem)
  refine ⟨registry, ?_, ?_, ?_, ?_, ?_, ?_, ?_⟩
  · rw [hcontrol]
    exact h.chained.init hchain
  · intro y hy
    exact List.mem_cons_of_mem _ (h.busy y hy)
  · intro y hy hoff
    rw [hcontrol]
    refine Control.init_resumable ?_
    rcases List.mem_cons.mp hy with heq | hy
    · exact .inl (Int.ofNat.inj heq)
    · exact .inr (h.idle y hy hoff)
  · intro y hy hoff hsuspend
    have hstatus : m'.sch.control.status y = .suspend := hsuspend
    rw [hcontrol] at hstatus
    rw [hframe]
    by_cases hyx : y = x
    · subst hyx
      simp [Control.init, Control.setStatus] at hstatus
    · simp only [Control.init, Control.setStatus, Function.update_of_ne hyx] at hstatus
      have hused : (y : Int) ∈ used := (List.mem_cons.mp hy).resolve_left fun heq => hyx (Int.ofNat.inj heq)
      exact h.resting y hused hoff hstatus
  · intro call hcall
    rw [hframe, hid _ (hne _ (h.busy _ (callsOf_target hcall)))]
    exact h.frames call hcall
  · rw [hrunning]
    rcases h.runningId with hzero | ⟨y, hhead, hy⟩
    · exact .inl hzero
    · refine .inr ⟨y, hhead, ?_⟩
      rw [hid y (hne y (h.busy y (List.mem_of_mem_head? hhead)))]
      exact hy
  · rw [hlive, h.live, List.map_cons, Int.toNat_natCast]
    congr 1
    refine List.map_congr_left fun p hp => ?_
    have hpx : p.toNat ≠ x := hne p.toNat (by rw [h.registry.casts hp]; exact hp)
    exact (hid _ hpx).symm

/-- The coroutines of a chain wait under their own ids: allocating a slot does not touch them. -/
theorem Inv.alloc (h : m.Inv chain free used) :
    (m.alloc.1 = -1 ∧ m.alloc.2 = m ∧ free = []) ∨
    ∃ p rest x pool', free = p :: rest ∧ p = (x : Nat) ∧
      m.alloc.1 = m.pool.capacity * nextGeneration m.pool.capacity (m.pool.idx p).accumulate p + p ∧
      m.alloc.2 = initCo { m with pool := pool' } m.alloc.1 x ∧
      (∀ i, (pool'.idx i).accumulate = if i = p then nextGeneration m.pool.capacity (m.pool.idx p).accumulate p
        else (m.pool.idx i).accumulate) ∧ pool'.capacity = m.pool.capacity ∧
      (m.alloc.2.record (.allocated m.alloc.1)).Inv chain rest (p :: used) := by
  cases free with
  | nil =>
    rw [h.registry.alloc_full]
    exact .inl ⟨rfl, rfl, rfl⟩
  | cons p rest =>
    obtain ⟨x, pool', rfl, heq, registry, hx, hcap, hacc⟩ := h.registry.alloc
    have hfst : m.alloc.1 = m.pool.capacity * nextGeneration m.pool.capacity (m.pool.idx x).accumulate x + x :=
      congrArg Prod.fst heq
    have hsnd : m.alloc.2 = initCo { m with pool := pool' } m.alloc.1 x := congrArg Prod.snd heq
    obtain ⟨hframe, hrunning, hlog, hinfo, -⟩ := initCo_fields { m with pool := pool' } m.alloc.1 x
    have hcontrol : m.alloc.2.sch.control = m.sch.control.init x := by
      rw [hsnd]
      exact initCo_control _ _ _
    rw [← hsnd] at hframe hrunning hlog hinfo
    have hself : (m.alloc.2.info x).iPoolID = m.alloc.1 := by rw [hinfo, Function.update_self]
    have nonneg : 0 ≤ m.alloc.1 := by
      have hpos := registry.id_pos (x := x) (by simp)
      rw [hself] at hpos
      exact Int.le_of_lt hpos
    refine .inr ⟨x, rest, x, pool', rfl, rfl, hfst, hsnd, hacc, hcap, ?_⟩
    refine h.enter hx (registry.frame rfl fun _ => rfl) hcontrol hframe hrunning ?_ ?_
    · intro y hy
      change (m.alloc.2.info y).iPoolID = (m.info y).iPoolID
      rw [hinfo, Function.update_of_ne hy]
    · change liveIds (.allocated m.alloc.1 :: m.alloc.2.log) = (m.alloc.2.info x).iPoolID :: liveIds m.log
      rw [hself, hlog]
      simp only [liveIds, nonneg, if_true]

end SCoMgr

end Wddlib
