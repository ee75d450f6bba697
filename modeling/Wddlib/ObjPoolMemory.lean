import Wddlib.ObjPool

namespace Wddlib

/-- The bytes that `objpool_init` asks `malloc` for: the size as an `int`, and that as a `size_t`. -/
def mallocRequest (iMax iUnit : Nat) : Nat :=
  (int32 (getPoolMemSize iUnit iMax) % 18446744073709551616).toNat

/-- What the header, the index array and the objects take up. -/
def poolBytes (iMax iUnit : Nat) : Nat := 40 + iMax * (16 + iUnit)

/-- The block holds the whole pool, and every object is found where its slot is. -/
structure FitsBlock (iMax iUnit : Nat) (pool : TObjPool) : Prop where
  size : poolBytes iMax iUnit ≤ mallocRequest iMax iUnit
  offset : ∀ p, p < iMax → (pool.objAt p).offset = p * iUnit
  inside : ∀ p, p < iMax → ((40 + iMax * 16 : Nat) : Int) + (pool.objAt p).offset + iUnit ≤ mallocRequest iMax iUnit

section Memory

variable {malloc : Nat → Bool} {iMax iUnit : Nat} {pool : TObjPool}

theorem objpoolInit_served (h : objpoolInit malloc iMax iUnit = (0, some pool)) :
    malloc (mallocRequest iMax iUnit) = true ∧ pool.unitSize = int32 iUnit := by
  simp only [objpoolInit] at h
  split at h
  next served =>
    cases Option.some.inj (Prod.mk.inj h).2
    exact ⟨served, rfl⟩
  next => simp at h

theorem objpoolInit_of_served (served : malloc (mallocRequest iMax iUnit) = true) :
    ∃ pool, objpoolInit malloc iMax iUnit = (0, some pool) := by
  simp only [mallocRequest] at served
  simp only [objpoolInit, served, if_true]
  exact ⟨_, rfl⟩

theorem getPoolMemSize_eq (iMax iUnit : Nat) :
    getPoolMemSize iUnit iMax = poolBytes iMax iUnit % 18446744073709551616 := by
  rw [getPoolMemSize, poolBytes, Nat.mul_comm iMax, Nat.add_comm 16, Nat.add_comm 40]

/-- What is left of the size on its way through `int`. -/
theorem mallocRequest_cases (iMax iUnit : Nat) :
    (poolBytes iMax iUnit % 4294967296 < 2147483648 ∧
      mallocRequest iMax iUnit = poolBytes iMax iUnit % 4294967296) ∨
    (2147483648 ≤ poolBytes iMax iUnit % 4294967296 ∧
      mallocRequest iMax iUnit = 18446744069414584320 + poolBytes iMax iUnit % 4294967296) := by
  have hmod : (poolBytes iMax iUnit % 18446744073709551616) % 4294967296 = poolBytes iMax iUnit % 4294967296 :=
    Nat.mod_mod_of_dvd _ (by decide)
  unfold mallocRequest int32
  rw [getPoolMemSize_eq]
  split <;> omega

theorem int32_mul_int32 (m n : Int) : int32 (m * int32 n) = int32 (m * n) := by
  have hcong : (m * int32 n) % 4294967296 = (m * n) % 4294967296 := by
    have hn : int32 n % 4294967296 = n % 4294967296 := by
      unfold int32
      split <;> omega
    rw [Int.mul_emod, hn, ← Int.mul_emod]
  unfold int32 at hcong ⊢
  rw [hcong]

theorem objAt_offset_eq_iff (hunit : pool.unitSize = int32 iUnit) (p : Nat) :
    (pool.objAt p).offset = p * iUnit ↔ p * iUnit < 2147483648 := by
  have hoffset : (pool.objAt p).offset = int32 ((p * iUnit : Nat) : Int) := by
    rw [TObjPool.objAt, hunit, int32_mul_int32]
    push_cast
    rfl
  rw [hoffset]
  constructor
  · intro h
    unfold int32 at h
    split at h <;> push_cast at h <;> omega
  · intro h
    rw [int32_eq_self (by omega) (by omega)]
    push_cast
    rfl

theorem mul_unit_le {p : Nat} (hp : p < iMax) : p * iUnit + iUnit ≤ iMax * iUnit := by
  rw [← Nat.succ_mul]
  exact Nat.mul_le_mul_right iUnit hp

theorem fitsBlock_iff (hunit : pool.unitSize = int32 iUnit) (hpos : 1 ≤ iMax) :
    FitsBlock iMax iUnit pool ↔
      poolBytes iMax iUnit ≤ mallocRequest iMax iUnit ∧ (iMax - 1) * iUnit < 2147483648 := by
  constructor
  · intro fits
    exact ⟨fits.size, (objAt_offset_eq_iff hunit _).mp (fits.offset (iMax - 1) (by omega))⟩
  · rintro ⟨hsize, hlast⟩
    have hoffset : ∀ p, p < iMax → (pool.objAt p).offset = p * iUnit := by
      intro p hp
      refine (objAt_offset_eq_iff hunit p).mpr (lt_of_le_of_lt ?_ hlast)
      exact Nat.mul_le_mul_right iUnit (by omega)
    refine ⟨hsize, hoffset, ?_⟩
    intro p hp
    have hend : p * iUnit + iUnit ≤ iMax * iUnit := mul_unit_le hp
    rw [hoffset p hp]
    rw [poolBytes, Nat.mul_add] at hsize
    push_cast at hend hsize ⊢
    omega

/-- A pool that `objpool_init` hands out fits its block exactly when its size is an `int`, or else
when `malloc` refuses the request, or serves one that is close to the whole address space because
the `int` is negative. -/
theorem objpool_memory_fits_iff (malloc : Nat → Bool) (iUnit : Nat) (hpos : 1 ≤ iMax) :
    (∀ pool, objpoolInit malloc iMax iUnit = (0, some pool) → FitsBlock iMax iUnit pool) ↔
      poolBytes iMax iUnit < 2147483648 ∨ malloc (mallocRequest iMax iUnit) = false ∨
        (2147483648 ≤ poolBytes iMax iUnit % 4294967296 ∧
          poolBytes iMax iUnit ≤ 18446744069414584320 + poolBytes iMax iUnit % 4294967296 ∧
          (iMax - 1) * iUnit < 2147483648) := by
  have hrequest := mallocRequest_cases iMax iUnit
  constructor
  · intro all
    cases served : malloc (mallocRequest iMax iUnit) with
    | false => exact .inr (.inl rfl)
    | true =>
      obtain ⟨pool, hinit⟩ := objpoolInit_of_served served
      obtain ⟨-, hunit⟩ := objpoolInit_served hinit
      obtain ⟨hsize, hlast⟩ := (fitsBlock_iff hunit hpos).mp (all pool hinit)
      rcases hrequest with ⟨hlow, heq⟩ | ⟨hhigh, heq⟩
      · exact .inl (by omega)
      · exact .inr (.inr ⟨hhigh, by omega, hlast⟩)
  · intro fits pool hinit
    obtain ⟨served, hunit⟩ := objpoolInit_served hinit
    refine (fitsBlock_iff hunit hpos).mpr ?_
    rcases fits with small | refused | ⟨hhigh, hsize, hlast⟩
    · have hend : (iMax - 1) * iUnit + iUnit ≤ iMax * iUnit := mul_unit_le (by omega)
      rw [Nat.mod_eq_of_lt (by omega)] at hrequest
      refine ⟨by omega, ?_⟩
      rw [poolBytes, Nat.mul_add] at small
      omega
    · rw [served] at refused
      cases refused
    · exact ⟨by omega, hlast⟩

end Memory

theorem objpool_memory_fits_iff_small :
    ∃ pool, objpoolInit (fun _ => true) 1000 4096 = (0, some pool) ∧ FitsBlock 1000 4096 pool := by
  refine ⟨_, rfl, ?_⟩
  exact (objpool_memory_fits_iff (fun _ => true) 4096 (by decide)).mpr (.inl (by decide)) _ rfl

/-- 65536 units of 64 KiB: the size of 4 GiB and 1 MiB is a request of 1 MiB. -/
theorem objpool_memory_wraps :
    mallocRequest 65536 65536 = 1048616 ∧ poolBytes 65536 65536 = 4296015912 ∧
      ∃ pool, objpoolInit (fun n => decide (n ≤ 1073741824)) 65536 65536 = (0, some pool) ∧
        ¬ FitsBlock 65536 65536 pool := by
  refine ⟨by decide, by decide, _, rfl, ?_⟩
  intro fits
  exact absurd fits.size (by decide)

end Wddlib
