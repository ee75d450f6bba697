import Wddlib.ObjPoolTravel

namespace Wddlib

open TObjPool

section Init

variable {malloc : Nat → Bool} {cap unit : Nat} {pool : TObjPool}

theorem objpoolInit_fields (hpos : 1 ≤ cap) (hle : cap ≤ 1073741824)
    (h : objpoolInit malloc cap unit = (0, some pool)) :
    pool.capacity = cap ∧ pool.freeHead = 0 ∧ pool.usedCount = 0 ∧ pool.usedHead = -1 ∧
      pool.freeTail = cap - 1 ∧ ∀ i : Int, 0 ≤ i → i < cap →
        pool.idx i = ⟨if i = cap - 1 then -1 else i + 1, i - 1, 0, 0⟩ := by
  simp only [objpoolInit] at h
  split at h
  next =>
    obtain ⟨-, hp⟩ := Prod.mk.inj h
    cases Option.some.inj hp
    have hc : int32 (cap : Int) = cap := int32_eq_self (by omega) (by omega)
    have ht : int32 ((cap : Int) - 1) = cap - 1 := int32_eq_self (by omega) (by omega)
    simp only [hc, ht, true_and]
    intro i hi hi'
    by_cases he : i = cap - 1
    · subst he
      simp [initIdx, int32_eq_self (show -2147483648 ≤ (cap : Int) - 1 - 1 by omega) (by omega)]
    · simp [initIdx, he, int32_eq_self (show -2147483648 ≤ i - 1 by omega) (by omega),
        int32_eq_self (show -2147483648 ≤ i + 1 by omega) (by omega)]
  next => simp at h

theorem initIdx_walk_next {next : Int → Int}
    (hnext : ∀ i : Int, 0 ≤ i → i < cap → next i = if i = cap - 1 then -1 else i + 1) (n k : Nat)
    (hk : k + n = cap) :
    Walk next (-1) (if n = 0 then -1 else k) ((List.range' k n).map Int.ofNat) := by
  induction n generalizing k with
  | zero => simp [Walk]
  | succ n ih =>
    refine ⟨by simp, by simp, ?_⟩
    change Walk next (-1) (next (k : Int)) _
    have hih := ih (k + 1) (by omega)
    rw [hnext k (by omega) (by omega)]
    by_cases hz : n = 0
    · simpa [hz, show (k : Int) = cap - 1 by omega] using hih
    · simpa [hz, show ¬ (k : Int) = cap - 1 by omega] using hih

theorem initIdx_walk_prev {prev : Int → Int} (hprev : ∀ i : Int, 0 ≤ i → i < cap → prev i = i - 1) (k : Nat)
    (hk : k ≤ cap) : Walk prev (-1) ((k : Int) - 1) ((List.range k).map Int.ofNat).reverse := by
  induction k with
  | zero => simp [Walk]
  | succ k ih =>
    rw [List.range_succ, List.map_append, List.reverse_append]
    refine ⟨by simp, by simp, ?_⟩
    change Walk prev (-1) (prev (k : Int)) _
    rw [hprev k (by omega) (by omega)]
    exact ih (by omega)

theorem objpoolInit_spec (hpos : 1 ≤ cap) (hle : cap ≤ 1073741824)
    (h : objpoolInit malloc cap unit = (0, some pool)) :
    PoolRepr pool ((List.range cap).map Int.ofNat) [] ∧ PoolBounds pool ∧ pool.capacity = cap ∧
      ∀ i : Int, 0 ≤ i → i < cap → (pool.idx i).accumulate = 0 := by
  obtain ⟨hcap, hfh, hcount, huh, hft, hidx⟩ := objpoolInit_fields hpos hle h
  have hlast : ((List.range cap).map Int.ofNat).getLast?.getD (-1) = (cap : Int) - 1 := by
    obtain ⟨n, rfl⟩ := Nat.exists_eq_succ_of_ne_zero (by omega : cap ≠ 0)
    simp [List.range_succ]
  have hmem : ∀ p : Int, p ∈ (List.range cap).map Int.ofNat ↔ 0 ≤ p ∧ p < cap := by
    intro p
    simp only [List.mem_map, List.mem_range]
    constructor
    · rintro ⟨n, hn, rfl⟩
      exact ⟨by simp, by simpa using hn⟩
    · rintro ⟨h0, hc⟩
      exact ⟨p.toNat, by omega, by simp [h0]⟩
  have hinit : ∀ i : Int, 0 ≤ i → i < cap → (pool.idx i).accumulate = 0 := by
    intro i hi hi'
    rw [hidx i hi hi']
  refine ⟨⟨?_, ?_, by simp [Walk, huh], by simp [Walk], by rw [hlast, hft], ?_, ?_, ?_, by simp [hcount]⟩,
    ⟨by omega, by omega, ?_⟩, hcap, hinit⟩
  · have hnext : ∀ i : Int, 0 ≤ i → i < cap → pool.next i = if i = cap - 1 then -1 else i + 1 := by
      intro i hi hi'
      simp [TObjPool.next, hidx i hi hi']
    have hw := initIdx_walk_next hnext cap 0 (by omega)
    rw [hfh]
    simpa [show cap ≠ 0 by omega, List.range_eq_range'] using hw
  · rw [hlast]
    exact initIdx_walk_prev (fun i hi hi' => by simp [TObjPool.prev, hidx i hi hi']) cap le_rfl
  · simpa using (List.nodup_range (n := cap)).map Int.ofNat_injective
  · intro p
    rw [hcap, List.append_nil]
    exact hmem p
  · intro p hp hp'
    rw [hcap] at hp'
    simp [hidx p hp hp']
  · intro p hp hp'
    rw [hcap] at hp' ⊢
    rw [hinit p hp hp']
    omega

end Init

inductive PoolCall where
  | alloc
  | free (id : Int)
  | freeBypos (pos : Int)
  deriving DecidableEq, Repr

/-- The returned code and the pool afterwards. -/
def PoolCall.apply (pool : TObjPool) : PoolCall → Int × TObjPool
  | .alloc => objpoolAlloc pool
  | .free id => objpoolFree pool id
  | .freeBypos pos => objpoolFreeBypos pool pos

/-- A call or a whole traversal, whose callback has a state of type `σ` of its own. -/
inductive PoolOp (σ : Type) where
  | call (c : PoolCall)
  | travelUsed (travel : σ → Option ObjPtr → TravelRet × σ) (arg : σ)

def PoolOp.apply {σ : Type} (pool : TObjPool) : PoolOp σ → Option TObjPool
  | .call c => some (c.apply pool).2
  | .travelUsed travel arg => (objpoolTravelUsed travel pool arg).map Prod.fst

def poolRun {σ : Type} (pool : TObjPool) (ops : List (PoolOp σ)) : Option TObjPool :=
  ops.foldlM PoolOp.apply pool

/-- Everything a single call can do to a represented pool. -/
theorem poolCall_cases {pool : TObjPool} {free used : List Int} (h : PoolRepr pool free used)
    (b : PoolBounds pool) (c : PoolCall) :
    (∃ x rest pool', c = .alloc ∧ free = x :: rest ∧ PoolRepr pool' rest (x :: used) ∧
      PoolBounds pool' ∧ pool'.capacity = pool.capacity ∧
      c.apply pool = (pool.capacity * nextGeneration pool.capacity (pool.idx x).accumulate x + x, pool') ∧
      ∀ i, (pool'.idx i).accumulate = if i = x then nextGeneration pool.capacity (pool.idx x).accumulate x
        else (pool.idx i).accumulate) ∨
    (∃ p before after pool', (c = .freeBypos p ∨ ∃ id, c = .free id ∧ IsHandle pool used p id) ∧
      used = before ++ p :: after ∧ PoolRepr pool' (free ++ [p]) (before ++ after) ∧
      PoolBounds pool' ∧ pool'.capacity = pool.capacity ∧ c.apply pool = (0, pool') ∧
      ∀ i, (pool'.idx i).accumulate = (pool.idx i).accumulate) ∨
    (∃ code, code < 0 ∧ c.apply pool = (code, pool)) := by
  cases c with
  | alloc =>
    cases free with
    | nil =>
      exact Or.inr (Or.inr ⟨errObjpoolFull, by decide, by simp [PoolCall.apply, objpoolAlloc_full h b]⟩)
    | cons x rest =>
      obtain ⟨pool', heq, hrepr, hb, hcap, -, hacc⟩ := objpoolAlloc_spec h b
      exact Or.inl ⟨x, rest, pool', rfl, rfl, hrepr, hb, hcap, heq, hacc⟩
  | free id =>
    by_cases hid : IsHandle pool used (id.tmod pool.capacity) id
    · obtain ⟨before, after, hused, hrepr, hb, hcap, -, hacc⟩ := freeRelink_spec h b hid.1
      exact Or.inr (Or.inl ⟨_, before, after, _, Or.inr ⟨id, rfl, hid⟩, hused, hrepr, hb, hcap,
        by simp [PoolCall.apply, objpoolFree_of_handle h b hid], hacc⟩)
    · exact Or.inr (Or.inr ⟨errObjpoolLogicerror, by decide,
        by simp [PoolCall.apply, objpoolFree_of_not_handle h b hid]⟩)
  | freeBypos pos =>
    by_cases hp : pos ∈ used
    · obtain ⟨before, after, hused, hrepr, hb, hcap, -, hacc⟩ := freeRelink_spec h b hp
      exact Or.inr (Or.inl ⟨pos, before, after, _, Or.inl rfl, hused, hrepr, hb, hcap,
        by simp [PoolCall.apply, objpoolFreeBypos_of_used h b hp], hacc⟩)
    · exact Or.inr (Or.inr ⟨errObjpoolLogicerror, by decide,
        by simp [PoolCall.apply, objpoolFreeBypos_of_not_used h b hp]⟩)

theorem poolOp_repr {σ : Type} {pool : TObjPool} {free used : List Int} (h : PoolRepr pool free used)
    (b : PoolBounds pool) (op : PoolOp σ) :
    ∃ pool' free' used', op.apply pool = some pool' ∧ PoolRepr pool' free' used' ∧ PoolBounds pool' ∧
      pool'.capacity = pool.capacity := by
  cases op with
  | call c =>
    obtain ⟨x, rest, pool', -, -, hrepr, hb, hcap, heq, -⟩ | ⟨p, before, after, pool', -, -, hrepr, hb, hcap, heq, -⟩ |
      ⟨code, -, heq⟩ := poolCall_cases h b c
    · exact ⟨pool', _, _, by simp [PoolOp.apply, heq], hrepr, hb, hcap⟩
    · exact ⟨pool', _, _, by simp [PoolOp.apply, heq], hrepr, hb, hcap⟩
    · exact ⟨pool, free, used, by simp [PoolOp.apply, heq], h, b, rfl⟩
  | travelUsed travel arg =>
    obtain ⟨pool', hrun, hrepr, hb, hcap⟩ := objpoolTravelUsed_spec travel h b arg
    exact ⟨pool', _, _, by simp [PoolOp.apply, hrun], hrepr, hb, hcap⟩

theorem poolRun_repr {σ : Type} {pool : TObjPool} {free used : List Int} (h : PoolRepr pool free used)
    (b : PoolBounds pool) (ops : List (PoolOp σ)) :
    ∃ pool' free' used', poolRun pool ops = some pool' ∧ PoolRepr pool' free' used' ∧
      PoolBounds pool' ∧ pool'.capacity = pool.capacity := by
  induction ops generalizing pool free used with
  | nil => exact ⟨pool, free, used, rfl, h, b, rfl⟩
  | cons op ops ih =>
    obtain ⟨pool₁, free₁, used₁, hop, h₁, b₁, hcap₁⟩ := poolOp_repr h b op
    obtain ⟨pool₂, free₂, used₂, hrun, h₂, b₂, hcap₂⟩ := ih h₁ b₁
    refine ⟨pool₂, free₂, used₂, ?_, h₂, b₂, hcap₂.trans hcap₁⟩
    simpa [poolRun, List.foldlM_cons, hop] using hrun

/-- Every pool reached from `objpool_init` represents a queue of free slots and a stack of used
ones; an allocation moves the front of the queue to the top of the stack, a release moves a slot
from the stack to the end of the queue. -/
theorem objpool_run_represents_queue {σ : Type} {malloc : Nat → Bool} {cap unit : Nat} {pool₀ : TObjPool}
    (hpos : 1 ≤ cap) (hle : cap ≤ 1073741824) (hinit : objpoolInit malloc cap unit = (0, some pool₀))
    (ops : List (PoolOp σ)) :
    ∃ pool free used, poolRun pool₀ ops = some pool ∧ pool.capacity = cap ∧ PoolRepr pool free used ∧
      (∀ id pool', objpoolAlloc pool = (id, pool') → 0 ≤ id →
        ∃ rest, free = id % cap :: rest ∧ PoolRepr pool' rest (id % cap :: used)) ∧
      (∀ id pool', objpoolFree pool id = (0, pool') →
        ∃ before after, used = before ++ id % cap :: after ∧
          PoolRepr pool' (free ++ [id % cap]) (before ++ after)) ∧
      (∀ pos pool', objpoolFreeBypos pool pos = (0, pool') →
        ∃ before after, used = before ++ pos :: after ∧
          PoolRepr pool' (free ++ [pos]) (before ++ after)) := by
  obtain ⟨h₀, b₀, hcap₀, -⟩ := objpoolInit_spec hpos hle hinit
  obtain ⟨pool, free, used, hrun, h, b, hcap⟩ := poolRun_repr h₀ b₀ ops
  rw [hcap₀] at hcap
  refine ⟨pool, free, used, hrun, hcap, h, ?_, ?_, ?_⟩
  · intro id pool' halloc hid
    cases free with
    | nil =>
      rw [objpoolAlloc_full h b] at halloc
      have he := (Prod.mk.inj halloc).1
      simp only [errObjpoolFull] at he
      omega
    | cons x rest =>
      obtain ⟨pool₁, heq, hrepr, -⟩ := objpoolAlloc_spec h b
      obtain ⟨hid', rfl⟩ := Prod.mk.inj (heq.symm.trans halloc)
      obtain ⟨hx0, hxc⟩ := (h.slots x).mp (by simp)
      have hmod : id % cap = x := by rw [← hid', ← hcap, handle_emod hx0 hxc]
      exact ⟨rest, by rw [hmod], by rw [hmod]; exact hrepr⟩
  · intro id pool' hfree
    by_cases hid : IsHandle pool used (id.tmod pool.capacity) id
    · obtain ⟨before, after, hused, hrepr, -⟩ := freeRelink_spec h b hid.1
      obtain ⟨-, rfl⟩ := Prod.mk.inj ((objpoolFree_of_handle h b hid).symm.trans hfree)
      rw [← hcap, hid.emod_eq h]
      exact ⟨before, after, hused, hrepr⟩
    · rw [objpoolFree_of_not_handle h b hid] at hfree
      simp [errObjpoolLogicerror] at hfree
  · intro pos pool' hfree
    by_cases hp : pos ∈ used
    · obtain ⟨before, after, hused, hrepr, -⟩ := freeRelink_spec h b hp
      obtain ⟨-, rfl⟩ := Prod.mk.inj ((objpoolFreeBypos_of_used h b hp).symm.trans hfree)
      exact ⟨before, after, hused, hrepr⟩
    · rw [objpoolFreeBypos_of_not_used h b hp] at hfree
      simp [errObjpoolLogicerror] at hfree

theorem objpool_run_represents_queue_two :
    ∃ pool₀, objpoolInit (fun _ => true) 2 4 = (0, some pool₀) ∧ ∃ pool free used,
      poolRun pool₀ ([.call .alloc, .call .alloc, .call (.free 2), .call (.free 77)] : List (PoolOp Unit)) = some pool ∧
      PoolRepr pool free used ∧ free = [0] ∧ used = [1] ∧
      PoolRepr (objpoolAlloc pool).2 [] [0, 1] ∧ PoolRepr (objpoolFree pool 3).2 [0, 1] [] := by
  refine ⟨_, rfl, ?_⟩
  obtain ⟨pool, free, used, hrun, hcap, hrepr, alloc, release, -⟩ :=
    @objpool_run_represents_queue Unit (fun _ => true) 2 4 _ (by decide) (by decide) rfl
      [.call .alloc, .call .alloc, .call (.free 2), .call (.free 77)]
  have results : ((objpoolAlloc pool).1, (objpoolFree pool 3).1) = (4, 0) := by
    have computed := congrArg
      (fun o => o.map fun pool : TObjPool => ((objpoolAlloc pool).1, (objpoolFree pool 3).1)) hrun
    exact Option.some.inj (computed.symm.trans (by decide +kernel))
  obtain ⟨hid, hret⟩ := Prod.mk.inj results
  obtain ⟨rest, rfl, allocated⟩ := alloc 4 (objpoolAlloc pool).2 (Prod.ext hid rfl) (by decide)
  obtain ⟨before, after, rfl, released⟩ := release 3 (objpoolFree pool 3).2 (Prod.ext hret rfl)
  have hlen := hrepr.length_eq
  rw [hcap] at hlen
  simp only [List.length_cons, List.length_append] at hlen
  obtain rfl := List.length_eq_zero_iff.mp (show rest.length = 0 by omega)
  obtain rfl := List.length_eq_zero_iff.mp (show before.length = 0 by omega)
  obtain rfl := List.length_eq_zero_iff.mp (show after.length = 0 by omega)
  exact ⟨pool, _, _, hrun, hrepr, rfl, rfl, allocated, released⟩

end Wddlib
