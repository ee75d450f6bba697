import Wddlib.ObjPoolRun
import Mathlib.Data.List.Basic

namespace Wddlib

open TObjPool

/-- A run of calls, keeping every call with the code it returned. -/
def callTrace (pool : TObjPool) : List PoolCall → List (PoolCall × Int) × TObjPool
  | [] => ([], pool)
  | c :: calls =>
    let later := callTrace (c.apply pool).2 calls
    ((c, (c.apply pool).1) :: later.1, later.2)

/-- How one call changes the handle under which slot `p` is allocated, read off its arguments and
its result only. -/
def handleAfter (c p : Int) (current : Option Int) : PoolCall × Int → Option Int
  | (.alloc, ret) => if 0 ≤ ret ∧ ret % c = p then some ret else current
  | (.free id, ret) => if ret = 0 ∧ id % c = p then none else current
  | (.freeBypos pos, ret) => if ret = 0 ∧ pos = p then none else current

/-- The value returned by the most recent allocation of slot `p`, unless it was freed since. -/
def currentHandle (c p : Int) (trace : List (PoolCall × Int)) : Option Int :=
  trace.foldl (handleAfter c p) none

def allocatedId (c p : Int) : PoolCall × Int → Option Int
  | (.alloc, ret) => if 0 ≤ ret ∧ ret % c = p then some ret else none
  | _ => none

/-- The ids handed out for slot `p`, in order. -/
def slotIds (c p : Int) (trace : List (PoolCall × Int)) : List Int :=
  trace.filterMap (allocatedId c p)

/-- The number of distinct ids of slot `p`. -/
def idPeriod (c p : Int) : Nat := ((2147483647 - p) / c).toNat

/-- The `k`-th id of slot `p`. -/
def slotId (c p : Int) (k : Nat) : Int := c * ((k % idPeriod c p : Nat) + 1) + p

theorem idPeriod_pos {c p : Int} (hc : 1 ≤ c) (hc' : c ≤ 1073741824) (hp' : p < c) :
    0 < idPeriod c p := by
  have h : 1 ≤ (2147483647 - p) / c := (Int.le_ediv_iff_mul_le (by omega)).mpr (by omega)
  unfold idPeriod
  omega

/-- A generation fits the handle range exactly up to the period. -/
theorem generation_fits_iff {c p : Int} (hc : 1 ≤ c) (hc' : c ≤ 1073741824) (hp' : p < c) (n : Nat) :
    c * (n : Int) + p < 2147483648 ↔ n ≤ idPeriod c p := by
  have h : (n : Int) ≤ (2147483647 - p) / c ↔ (n : Int) * c ≤ 2147483647 - p :=
    Int.le_ediv_iff_mul_le (by omega)
  have hnn : 0 ≤ (2147483647 - p) / c := Int.ediv_nonneg (by omega) (by omega)
  rw [Int.mul_comm]
  unfold idPeriod
  omega

/-- After `n` allocations a slot stores generation 0 if `n = 0`, and the generation of id `n - 1`
otherwise. -/
def slotGeneration (c p : Int) (n : Nat) : Int :=
  if n = 0 then 0 else ((n - 1) % idPeriod c p : Nat) + 1

theorem nextGeneration_slotGeneration {c p : Int} (hc : 1 ≤ c) (hc' : c ≤ 1073741824) (hp : p < c)
    (n : Nat) : nextGeneration c (slotGeneration c p n) p = slotGeneration c p (n + 1) := by
  have hN := idPeriod_pos hc hc' hp
  have fits := generation_fits_iff hc hc' hp
  unfold nextGeneration
  cases n with
  | zero =>
    have h1 := (fits 1).mpr hN
    simp only [slotGeneration, if_true]
    rw [if_pos (by simpa using h1)]
    simp
  | succ m =>
    have hlt := Nat.mod_lt m hN
    have hmod : (m + 1) % idPeriod c p = (m % idPeriod c p + 1) % idPeriod c p := by simp
    have hfit := fits (m % idPeriod c p + 2)
    have hcast : ((m % idPeriod c p + 2 : Nat) : Int) = ((m % idPeriod c p : Nat) : Int) + 1 + 1 := by
      push_cast
      omega
    rw [hcast] at hfit
    simp only [slotGeneration, Nat.add_one_ne_zero, if_false, Nat.add_sub_cancel, hfit, hmod]
    split
    next inside => rw [Nat.mod_eq_of_lt (by omega : m % idPeriod c p + 1 < idPeriod c p)]; push_cast; rfl
    next outside => rw [show m % idPeriod c p + 1 = idPeriod c p by omega, Nat.mod_self]; rfl

/-- What the trace of a run says about each slot, against what the pool stores. -/
def TraceInv (pool : TObjPool) (used : List Int) (trace : List (PoolCall × Int)) : Prop :=
  ∀ p, 0 ≤ p → p < pool.capacity →
    currentHandle pool.capacity p trace =
      (if p ∈ used then some (pool.capacity * (pool.idx p).accumulate + p) else none) ∧
    (pool.idx p).accumulate = slotGeneration pool.capacity p (slotIds pool.capacity p trace).length ∧
    slotIds pool.capacity p trace =
      (List.range (slotIds pool.capacity p trace).length).map (slotId pool.capacity p)

theorem currentHandle_snoc (c p : Int) (trace : List (PoolCall × Int)) (e : PoolCall × Int) :
    currentHandle c p (trace ++ [e]) = handleAfter c p (currentHandle c p trace) e := by
  simp [currentHandle]

theorem slotIds_append (c p : Int) (t₁ t₂ : List (PoolCall × Int)) :
    slotIds c p (t₁ ++ t₂) = slotIds c p t₁ ++ slotIds c p t₂ := by
  simp [slotIds]

section Step

variable {pool pool' : TObjPool} {free used : List Int} {trace : List (PoolCall × Int)}

theorem TraceInv.fail (inv : TraceInv pool used trace) {c : PoolCall} {code : Int} (neg : code < 0) :
    TraceInv pool used (trace ++ [(c, code)]) := by
  intro p hp hp'
  have hh : handleAfter pool.capacity p (currentHandle pool.capacity p trace) (c, code) =
      currentHandle pool.capacity p trace := by
    cases c <;> simp [handleAfter] <;> omega
  have hs : slotIds pool.capacity p [(c, code)] = [] := by
    cases c <;> simp [slotIds, allocatedId]
    omega
  rw [currentHandle_snoc, slotIds_append, hh, hs, List.append_nil]
  exact inv p hp hp'

theorem TraceInv.alloc (inv : TraceInv pool used trace) (b : PoolBounds pool) {x : Int}
    (hx0 : 0 ≤ x) (hxc : x < pool.capacity) (hcap : pool'.capacity = pool.capacity)
    (hacc : ∀ i, (pool'.idx i).accumulate =
      if i = x then nextGeneration pool.capacity (pool.idx x).accumulate x else (pool.idx i).accumulate) :
    TraceInv pool' (x :: used)
      (trace ++ [(.alloc, pool.capacity * nextGeneration pool.capacity (pool.idx x).accumulate x + x)]) := by
  intro p hp hp'
  rw [hcap] at hp' ⊢
  obtain ⟨hhandle, hgen, hids⟩ := inv p hp hp'
  obtain ⟨hg1, hgb⟩ := nextGeneration_bounds b.capacity_pos b.capacity_le hxc (b.generation x hx0 hxc).1
  have hret : 0 ≤ pool.capacity * nextGeneration pool.capacity (pool.idx x).accumulate x + x := by
    have := Int.mul_nonneg (show 0 ≤ pool.capacity by have := b.capacity_pos; omega)
      (Int.le_trans Int.one_nonneg hg1)
    omega
  rw [currentHandle_snoc, slotIds_append, hacc]
  simp only [handleAfter, handle_emod hx0 hxc, hret, true_and]
  by_cases he : x = p
  · subst he
    have hnext := nextGeneration_slotGeneration b.capacity_pos b.capacity_le hxc
      (slotIds pool.capacity x trace).length
    rw [← hgen] at hnext
    have hs : slotIds pool.capacity x
        [(.alloc, pool.capacity * nextGeneration pool.capacity (pool.idx x).accumulate x + x)] =
        [slotId pool.capacity x (slotIds pool.capacity x trace).length] := by
      simp [slotIds, allocatedId, handle_emod hx0 hxc, hret]
      simp [hnext, slotGeneration, slotId, slotIds]
    refine ⟨by simp, ?_, ?_⟩
    · rw [hs]
      simp [hnext]
    · rw [hs, List.length_append, List.length_singleton, List.range_succ, List.map_append, ← hids]
      rfl
  · have hs : slotIds pool.capacity p
        [(.alloc, pool.capacity * nextGeneration pool.capacity (pool.idx x).accumulate x + x)] = [] := by
      simp [slotIds, allocatedId, handle_emod hx0 hxc, he]
    rw [hs, List.append_nil]
    simp only [he, if_false, show ¬ p = x from fun e => he e.symm, List.mem_cons, false_or]
    exact ⟨hhandle, hgen, hids⟩

theorem TraceInv.release (inv : TraceInv pool used trace) (h : PoolRepr pool free used)
    {x : Int} {before after : List Int} {c : PoolCall} (hused : used = before ++ x :: after)
    (hc : c = .freeBypos x ∨ ∃ id, c = .free id ∧ IsHandle pool used x id)
    (hcap : pool'.capacity = pool.capacity)
    (hacc : ∀ i, (pool'.idx i).accumulate = (pool.idx i).accumulate) :
    TraceInv pool' (before ++ after) (trace ++ [(c, 0)]) := by
  intro p hp hp'
  rw [hcap] at hp' ⊢
  obtain ⟨hhandle, hgen, hids⟩ := inv p hp hp'
  have hs : slotIds pool.capacity p [(c, 0)] = [] := by
    obtain rfl | ⟨id, rfl, -⟩ := hc <;> simp [slotIds, allocatedId]
  have hh : handleAfter pool.capacity p (currentHandle pool.capacity p trace) (c, 0) =
      if x = p then none else currentHandle pool.capacity p trace := by
    obtain rfl | ⟨id, rfl, hid⟩ := hc
    · simp [handleAfter]
    · simp [handleAfter, hid.emod_eq h]
  have hx : x ∉ before ++ after := (hused ▸ h).used_notMem.2
  rw [currentHandle_snoc, slotIds_append, hs, List.append_nil, hh, hacc]
  refine ⟨?_, hgen, hids⟩
  by_cases he : x = p
  · subst he
    rw [if_pos rfl, if_neg hx]
  · have hmem : p ∈ used ↔ p ∈ before ++ after := by
      rw [hused]
      simp [show ¬ p = x from fun e => he e.symm]
    rw [if_neg he, hhandle]
    simp only [hmem]

theorem poolCall_traceInv (h : PoolRepr pool free used) (b : PoolBounds pool)
    (inv : TraceInv pool used trace) (c : PoolCall) :
    ∃ free' used', PoolRepr (c.apply pool).2 free' used' ∧ PoolBounds (c.apply pool).2 ∧
      (c.apply pool).2.capacity = pool.capacity ∧
      TraceInv (c.apply pool).2 used' (trace ++ [(c, (c.apply pool).1)]) := by
  obtain ⟨x, rest, pool', rfl, hfree, hrepr, hb, hcap, heq, hacc⟩ |
    ⟨x, before, after, pool', hc, hused, hrepr, hb, hcap, heq, hacc⟩ | ⟨code, hneg, heq⟩ :=
    poolCall_cases h b c
  · obtain ⟨hx0, hxc⟩ := (h.slots x).mp (by simp [hfree])
    rw [heq]
    exact ⟨rest, x :: used, hrepr, hb, hcap, inv.alloc b hx0 hxc hcap hacc⟩
  · rw [heq]
    exact ⟨_, _, hrepr, hb, hcap, inv.release h hused hc hcap hacc⟩
  · rw [heq]
    exact ⟨free, used, h, b, rfl, inv.fail hneg⟩

theorem callTrace_inv (h : PoolRepr pool free used) (b : PoolBounds pool)
    (inv : TraceInv pool used trace) (calls : List PoolCall) :
    ∃ free' used', PoolRepr (callTrace pool calls).2 free' used' ∧ PoolBounds (callTrace pool calls).2 ∧
      (callTrace pool calls).2.capacity = pool.capacity ∧
      TraceInv (callTrace pool calls).2 used' (trace ++ (callTrace pool calls).1) := by
  induction calls generalizing pool free used trace with
  | nil => exact ⟨free, used, h, b, rfl, by simpa [callTrace] using inv⟩
  | cons c calls ih =>
    obtain ⟨free₁, used₁, h₁, b₁, hcap₁, inv₁⟩ := poolCall_traceInv h b inv c
    obtain ⟨free₂, used₂, h₂, b₂, hcap₂, inv₂⟩ := ih h₁ b₁ inv₁
    exact ⟨free₂, used₂, h₂, b₂, hcap₂.trans hcap₁, by simpa [callTrace] using inv₂⟩

end Step

theorem callTrace_append (pool : TObjPool) (calls₁ calls₂ : List PoolCall) :
    callTrace pool (calls₁ ++ calls₂) =
      ((callTrace pool calls₁).1 ++ (callTrace (callTrace pool calls₁).2 calls₂).1,
        (callTrace (callTrace pool calls₁).2 calls₂).2) := by
  induction calls₁ generalizing pool with
  | nil => rfl
  | cons c calls ih => simp [callTrace, ih]

theorem callTrace_snoc (pool : TObjPool) (calls : List PoolCall) (call : PoolCall) :
    (callTrace pool (calls ++ [call])).1 =
      (callTrace pool calls).1 ++ [(call, (call.apply (callTrace pool calls).2).1)] := by
  simp [callTrace_append, callTrace]

theorem handleAfter_some {c p id : Int} {current : Option Int} {e : PoolCall × Int}
    (h : handleAfter c p current e = some id) : current = some id ∨ allocatedId c p e = some id := by
  obtain ⟨call, ret⟩ := e
  cases call <;> simp only [handleAfter, allocatedId] at h ⊢ <;> split at h <;> simp_all

theorem handleAfter_of_allocated {c p id : Int} {current : Option Int} {e : PoolCall × Int}
    (h : allocatedId c p e = some id) : handleAfter c p current e = some id := by
  obtain ⟨call, ret⟩ := e
  cases call with
  | alloc =>
    simp only [allocatedId] at h
    split at h
    next hret => simpa [handleAfter, hret] using h
    next => simp at h
  | free _ => simp [allocatedId] at h
  | freeBypos _ => simp [allocatedId] at h

/-- A handle is always one of the ids handed out for its slot. -/
theorem currentHandle_mem {c p id : Int} {trace : List (PoolCall × Int)}
    (h : currentHandle c p trace = some id) : id ∈ slotIds c p trace := by
  induction trace using List.reverseRecOn with
  | nil => simp [currentHandle] at h
  | append_singleton trace e ih =>
    rw [currentHandle_snoc] at h
    rw [slotIds_append]
    rcases handleAfter_some h with old | new
    · exact List.mem_append_left _ (ih old)
    · exact List.mem_append_right _ (by simp [slotIds, new])

/-- A freed slot has no handle as long as it is not allocated again. -/
theorem currentHandle_none_of_no_alloc {c p : Int} {t₁ t₂ : List (PoolCall × Int)}
    (h : currentHandle c p t₁ = none) (none_allocated : slotIds c p t₂ = []) :
    currentHandle c p (t₁ ++ t₂) = none := by
  induction t₂ using List.reverseRecOn with
  | nil => simpa using h
  | append_singleton t₂ e ih =>
    rw [slotIds_append, List.append_eq_nil_iff] at none_allocated
    rw [← List.append_assoc, currentHandle_snoc]
    cases hh : handleAfter c p (currentHandle c p (t₁ ++ t₂)) e with
    | none => rfl
    | some id =>
      rcases handleAfter_some hh with old | new
      · rw [ih none_allocated.1] at old
        simp at old
      · simp [slotIds, new] at none_allocated

theorem slotId_inj {c p : Int} (hc : 1 ≤ c) {j k : Nat} (h : slotId c p j = slotId c p k) :
    j % idPeriod c p = k % idPeriod c p := by
  unfold slotId at h
  have hmul : c * (((j % idPeriod c p : Nat) : Int) + 1) = c * (((k % idPeriod c p : Nat) : Int) + 1) := by
    omega
  have := Int.eq_of_mul_eq_mul_left (by omega) hmul
  omega

section Handles

variable {pool : TObjPool} {free used : List Int} {trace : List (PoolCall × Int)}

theorem currentHandle_iff_isHandle (h : PoolRepr pool free used) (b : PoolBounds pool)
    (inv : TraceInv pool used trace) (id : Int) :
    currentHandle pool.capacity (id % pool.capacity) trace = some id ↔
      IsHandle pool used (id.tmod pool.capacity) id := by
  have hpos := b.capacity_pos
  constructor
  · intro hh
    have hp0 := Int.emod_nonneg id (show pool.capacity ≠ 0 by omega)
    have hpc := Int.emod_lt_of_pos id (show 0 < pool.capacity by omega)
    rw [(inv _ hp0 hpc).1] at hh
    split at hh
    next hm =>
      have hid : IsHandle pool used (id % pool.capacity) id := ⟨hm, (Option.some.inj hh).symm⟩
      have hn := (b.handle hp0 hpc).1
      rw [Int.tmod_eq_emod_of_nonneg (by rw [hid.2]; omega)]
      exact hid
    next => simp at hh
  · intro hid
    obtain ⟨hp0, hpc, -⟩ := h.used_range hid.1
    have hmod := hid.emod_eq h
    rw [hmod, (inv _ hp0 hpc).1, if_pos hid.1]
    exact congrArg some hid.2.symm

theorem currentHandle_eq_slotId (inv : TraceInv pool used trace) {p id : Int} (hp : 0 ≤ p)
    (hp' : p < pool.capacity) (hh : currentHandle pool.capacity p trace = some id) :
    0 < (slotIds pool.capacity p trace).length ∧
      id = slotId pool.capacity p ((slotIds pool.capacity p trace).length - 1) := by
  have hpos := List.length_pos_of_mem (currentHandle_mem hh)
  obtain ⟨hhandle, hgen, -⟩ := inv p hp hp'
  rw [hhandle] at hh
  split at hh
  next =>
    refine ⟨hpos, ?_⟩
    rw [← Option.some.inj hh, hgen, slotGeneration, if_neg (by omega), slotId]
  next => simp at hh

theorem currentHandle_emod (inv : TraceInv pool used trace) {p id : Int} (hp : 0 ≤ p)
    (hp' : p < pool.capacity) (hh : currentHandle pool.capacity p trace = some id) :
    id % pool.capacity = p := by
  rw [(currentHandle_eq_slotId inv hp hp' hh).2, slotId, handle_emod hp hp']

theorem objpoolAlloc_ge_capacity (h : PoolRepr pool free used) (b : PoolBounds pool)
    (room : pool.usedCount < pool.capacity) : pool.capacity ≤ (objpoolAlloc pool).1 := by
  have hpos := b.capacity_pos
  cases free with
  | nil =>
    have hlen := h.length_eq
    have hcount := h.usedCount
    simp only [List.length_nil] at hlen
    omega
  | cons x free =>
    obtain ⟨hx0, hxc⟩ := (h.slots x).mp (by simp)
    obtain ⟨hg1, -⟩ := nextGeneration_bounds hpos b.capacity_le hxc (b.generation x hx0 hxc).1
    obtain ⟨pool', heq, -⟩ := objpoolAlloc_spec h b
    rw [heq]
    change pool.capacity ≤ pool.capacity * _ + x
    nlinarith

/-- After a release the id stays dead until the slot was allocated a whole period more. -/
theorem freed_id_stays_dead {pool₁ : TObjPool} {used₁ : List Int} {t₁ t₂ : List (PoolCall × Int)}
    {e : PoolCall × Int} {p id : Int} (b : PoolBounds pool) (hcap : pool₁.capacity = pool.capacity)
    (inv₁ : TraceInv pool₁ used₁ t₁) (inv : TraceInv pool used (t₁ ++ [e] ++ t₂)) (hp : 0 ≤ p)
    (hp' : p < pool.capacity) (live : currentHandle pool.capacity p t₁ = some id)
    (freed : currentHandle pool.capacity p (t₁ ++ [e]) = none)
    (few : (slotIds pool.capacity p t₂).length < idPeriod pool.capacity p) :
    currentHandle pool.capacity p (t₁ ++ [e] ++ t₂) ≠ some id := by
  intro again
  rw [← hcap] at live
  obtain ⟨hpos₁, hid₁⟩ := currentHandle_eq_slotId inv₁ hp (hcap ▸ hp') live
  obtain ⟨-, hid⟩ := currentHandle_eq_slotId inv hp hp' again
  rw [hcap] at hpos₁ hid₁ live
  have he : slotIds pool.capacity p [e] = [] := by
    cases hal : allocatedId pool.capacity p e with
    | none => simp [slotIds, hal]
    | some r =>
      rw [currentHandle_snoc, handleAfter_of_allocated hal] at freed
      simp at freed
  have hlen : (slotIds pool.capacity p (t₁ ++ [e] ++ t₂)).length =
      (slotIds pool.capacity p t₁).length + (slotIds pool.capacity p t₂).length := by
    rw [slotIds_append, slotIds_append, he, List.append_nil, List.length_append]
  have hm : 0 < (slotIds pool.capacity p t₂).length := by
    rcases Nat.eq_zero_or_pos (slotIds pool.capacity p t₂).length with hz | hz
    · rw [currentHandle_none_of_no_alloc freed (List.length_eq_zero_iff.mp hz)] at again
      simp at again
    · exact hz
  have heq := slotId_inj b.capacity_pos (hid₁.symm.trans hid)
  rw [hlen, show (slotIds pool.capacity p t₁).length + (slotIds pool.capacity p t₂).length - 1 =
    ((slotIds pool.capacity p t₁).length - 1) + (slotIds pool.capacity p t₂).length by omega] at heq
  have hdvd := (Nat.modEq_iff_dvd' (by omega)).mp heq
  rw [Nat.add_sub_cancel_left] at hdvd
  have := Nat.le_of_dvd hm hdvd
  omega

theorem objpoolGet_currentHandle (h : PoolRepr pool free used) (b : PoolBounds pool)
    (inv : TraceInv pool used trace) (id : Int) :
    (objpoolGet pool id ≠ none ↔ currentHandle pool.capacity (id % pool.capacity) trace = some id) ∧
      (objpoolGet pool id ≠ none → objpoolGet pool id = some (pool.objAt (id % pool.capacity))) := by
  rw [currentHandle_iff_isHandle h b inv]
  by_cases hid : IsHandle pool used (id.tmod pool.capacity) id
  · simp [objpoolGet_of_handle h b hid, hid, hid.emod_eq h]
  · simp [objpoolGet_of_not_handle h b hid, hid]

theorem objpoolFree_currentHandle (h : PoolRepr pool free used) (b : PoolBounds pool)
    (inv : TraceInv pool used trace) (id : Int) :
    ((objpoolFree pool id).1 = 0 ↔ currentHandle pool.capacity (id % pool.capacity) trace = some id) ∧
      ((objpoolFree pool id).1 ≠ 0 → (objpoolFree pool id).1 < 0 ∧ (objpoolFree pool id).2 = pool) := by
  rw [currentHandle_iff_isHandle h b inv]
  by_cases hid : IsHandle pool used (id.tmod pool.capacity) id
  · simp [objpoolFree_of_handle h b hid, hid]
  · simp [objpoolFree_of_not_handle h b hid, hid, errObjpoolLogicerror]

end Handles

theorem callTrace_init {malloc : Nat → Bool} {cap unit : Nat} {pool₀ : TObjPool} (hpos : 1 ≤ cap)
    (hle : cap ≤ 1073741824) (hinit : objpoolInit malloc cap unit = (0, some pool₀)) (calls : List PoolCall) :
    ∃ free used, PoolRepr (callTrace pool₀ calls).2 free used ∧ PoolBounds (callTrace pool₀ calls).2 ∧
      (callTrace pool₀ calls).2.capacity = cap ∧
      TraceInv (callTrace pool₀ calls).2 used (callTrace pool₀ calls).1 := by
  obtain ⟨h₀, b₀, hcap₀, hacc₀⟩ := objpoolInit_spec hpos hle hinit
  have inv₀ : TraceInv pool₀ [] [] := by
    intro p hp hp'
    rw [hcap₀] at hp'
    simp [currentHandle, slotIds, slotGeneration, hacc₀ p hp hp']
  obtain ⟨free, used, h, b, hcap, inv⟩ := callTrace_inv h₀ b₀ inv₀ calls
  exact ⟨free, used, h, b, hcap.trans hcap₀, by simpa using inv⟩

/-- Handles are safe over every run of calls: `objpool_get` and `objpool_free` accept an id exactly
while it is the one its slot was last allocated under, and the ids of a slot cycle through all the
non-negative `int` values of its residue class from the capacity up. -/
theorem objpool_handles_safe {malloc : Nat → Bool} {cap unit : Nat} {pool₀ : TObjPool}
    (hpos : 1 ≤ cap) (hle : cap ≤ 1073741824) (hinit : objpoolInit malloc cap unit = (0, some pool₀))
    (calls : List PoolCall) :
    let trace := (callTrace pool₀ calls).1
    let pool := (callTrace pool₀ calls).2
    (∀ id : Int, (objpoolGet pool id ≠ none ↔ currentHandle cap (id % cap) trace = some id) ∧
      (objpoolGet pool id ≠ none → objpoolGet pool id = some (pool.objAt (id % cap)))) ∧
    (∀ id : Int, ((objpoolFree pool id).1 = 0 ↔ currentHandle cap (id % cap) trace = some id) ∧
      ((objpoolFree pool id).1 ≠ 0 → (objpoolFree pool id).1 < 0 ∧ (objpoolFree pool id).2 = pool)) ∧
    (pool.usedCount < pool.capacity → cap ≤ (objpoolAlloc pool).1) ∧
    (∀ p q id id' : Int, 0 ≤ p → p < cap → 0 ≤ q → q < cap → currentHandle cap p trace = some id →
      currentHandle cap q trace = some id' → p ≠ q → id ≠ id' ∧ id % cap = p ∧ id' % cap = q) ∧
    (∀ p : Int, 0 ≤ p → p < cap →
      slotIds cap p trace = (List.range (slotIds cap p trace).length).map (slotId cap p)) ∧
    (∀ calls₁ call calls₂, calls = calls₁ ++ [call] ++ calls₂ → ∀ p id : Int, 0 ≤ p → p < cap →
      currentHandle cap p (callTrace pool₀ calls₁).1 = some id →
      currentHandle cap p (callTrace pool₀ (calls₁ ++ [call])).1 = none →
      (slotIds cap p (callTrace (callTrace pool₀ (calls₁ ++ [call])).2 calls₂).1).length <
        ((2147483647 - p) / cap).toNat →
      objpoolGet pool id = none ∧ (objpoolFree pool id).1 < 0) := by
  obtain ⟨free, used, h, b, hcap, inv⟩ := callTrace_init hpos hle hinit calls
  have get := objpoolGet_currentHandle h b inv
  have release := objpoolFree_currentHandle h b inv
  rw [hcap] at get release
  refine ⟨get, release, ?_, ?_, ?_, ?_⟩
  · intro room
    rw [← hcap]
    exact objpoolAlloc_ge_capacity h b room
  · intro p q id id' hp hp' hq hq' hlive hlive' hne
    rw [← hcap] at hp' hq' hlive hlive' ⊢
    have hidp := currentHandle_emod inv hp hp' hlive
    have hidq := currentHandle_emod inv hq hq' hlive'
    refine ⟨?_, hidp, hidq⟩
    rintro rfl
    exact hne (hidp.symm.trans hidq)
  · intro p hp hp'
    rw [← hcap] at hp' ⊢
    exact (inv p hp hp').2.2
  · intro calls₁ call calls₂ hcalls p id hp hp' hlive hfreed hfew
    obtain ⟨free₁, used₁, h₁, b₁, hcap₁, inv₁⟩ := callTrace_init hpos hle hinit calls₁
    have hidp := currentHandle_emod inv₁ hp (by rw [hcap₁]; exact hp') (by rw [hcap₁]; exact hlive)
    rw [hcap₁] at hidp
    have htrace : (callTrace pool₀ calls).1 = (callTrace pool₀ (calls₁ ++ [call])).1 ++
        (callTrace (callTrace pool₀ (calls₁ ++ [call])).2 calls₂).1 := by
      rw [hcalls, callTrace_append pool₀ (calls₁ ++ [call])]
    rw [callTrace_snoc] at hfreed htrace
    have dead : currentHandle cap (id % cap) (callTrace pool₀ calls).1 ≠ some id := by
      rw [htrace] at inv ⊢
      rw [hidp]
      rw [← hcap] at hp' hlive hfreed hfew ⊢
      exact freed_id_stays_dead b (hcap₁.trans hcap.symm) inv₁ inv hp hp' hlive hfreed hfew
    refine ⟨?_, ((release id).2 fun freed => dead ((release id).1.mp freed)).1⟩
    by_contra live
    exact dead ((get id).1.mp live)

theorem objpool_handles_safe_two :
    ∃ pool₀, objpoolInit (fun _ => true) 2 4 = (0, some pool₀) ∧
      ∀ id : Int, (objpoolGet (callTrace pool₀ [.alloc, .alloc, .free 2, .alloc]).2 id ≠ none ↔
        currentHandle 2 (id % 2) (callTrace pool₀ [.alloc, .alloc, .free 2, .alloc]).1 = some id) := by
  refine ⟨_, rfl, ?_⟩
  intro id
  exact ((@objpool_handles_safe (fun _ => true) 2 4 _ (by decide) (by decide) rfl
    [.alloc, .alloc, .free 2, .alloc]).1 id).1

end Wddlib
