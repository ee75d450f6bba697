import Wddlib.ExpireLedger

namespace Wddlib

namespace SCoMgr

variable {m m' : SCoMgr} {free used : List Int} {x y : Nat} {id : Int}

/-- The coroutine in slot `x` is there, under the id it has. -/
def Live (m : SCoMgr) (x : Nat) : Prop := m.getCo (m.info x).iPoolID = some x

/-- 0, or an id that was given out and belongs to no coroutine any more. -/
def Spent (m : SCoMgr) (id : Int) : Prop :=
  id = 0 ∨ m.getCo id = none ∧ ∃ x : Nat, (x : Int) < m.pool.capacity ∧ id % m.pool.capacity = x ∧
    id ≤ m.pool.capacity * (m.pool.idx x).accumulate + x

theorem Registry.getCo_slot (h : m.Registry free used) (hget : m.getCo id = some x) :
    (x : Int) < m.pool.capacity ∧ id % m.pool.capacity = x ∧
      id = m.pool.capacity * (m.pool.idx x).accumulate + x := by
  obtain ⟨hx, hid⟩ := h.getCo_iff.mp hget
  obtain ⟨hx0, hxc, -⟩ := h.repr.used_range hx
  rw [h.poolId x hx] at hid
  exact ⟨hxc, by rw [hid, handle_emod hx0 hxc], hid⟩

theorem Kept.slot_of_live (h : m.Kept) (live : m.Live x) : (m.info x).iPoolID % m.pool.capacity = x := by
  obtain ⟨free, used, ledger⟩ := h
  exact (ledger.registry.getCo_slot live).2.1

/-- `m'` follows `m` with control, the coroutines' fields and their calls as they were, and no new
coroutine. -/
structure Trails (m m' : SCoMgr) : Prop where
  follows : m.Follows m'
  control : m'.sch.control = m.sch.control
  info : m'.info = m.info
  frames : ∀ y, m'.frame (some y) = m.frame (some y)
  getCo : ∀ id y, m'.getCo id = some y → m.getCo id = some y

theorem Trails.trans (h : m.Trails m') {m'' : SCoMgr} (h' : m'.Trails m'') : m.Trails m'' :=
  ⟨h.follows.trans h'.follows, h'.control.trans h.control, h'.info.trans h.info,
    fun y => (h'.frames y).trans (h.frames y), fun id y hget => h.getCo id y (h'.getCo id y hget)⟩

theorem Kept.trails_record (h : m.Kept) (entry : MgrLog) : m.Trails (m.record entry) :=
  ⟨h.record entry, rfl, rfl, fun _ => rfl, fun _ _ hget => hget⟩

/-- A release takes away one coroutine. -/
theorem Kept.getCo_release (h : m.Kept) (hget : m.getCo id = some x) {id' : Int}
    (hget' : (m.release id).2.getCo id' = some y) : m.getCo id' = some y ∧ y ≠ x := by
  obtain ⟨free, used, ledger⟩ := h
  obtain ⟨hx, rfl⟩ := ledger.registry.getCo_iff.mp hget
  obtain ⟨before, after, pool', hused, -, registry, -⟩ := ledger.registry.release hx
  obtain ⟨hy, hid⟩ := registry.getCo_iff.mp hget'
  rw [release_info] at hid
  have hnodup : ((x : Int) :: (before ++ after)).Nodup := by
    rw [← List.nodup_middle, ← hused]
    exact (List.nodup_append.mp ledger.registry.repr.nodup).2.1
  have hmem : (y : Int) ∈ used := by
    rw [hused]
    exact List.perm_middle.mem_iff.mpr (List.mem_cons_of_mem _ hy)
  refine ⟨ledger.registry.getCo_iff.mpr ⟨hmem, hid⟩, ?_⟩
  rintro rfl
  exact (List.nodup_cons.mp hnodup).1 hy

theorem Kept.trails_release (h : m.Kept) (id : Int) : m.Trails (m.release id).2 := by
  have follows := h.release id
  have hinfo := release_info m id
  cases hget : m.getCo id with
  | none =>
    rw [release_of_none hget] at follows ⊢
    exact ⟨follows, rfl, rfl, fun _ => rfl, fun _ _ hget => hget⟩
  | some x =>
    refine ⟨follows, ?_, hinfo, ?_, fun id' y hget' => (h.getCo_release hget hget').1⟩
    · simp only [SCoMgr.release, hget]
      exact freeStack_control m x
    · intro y
      simp only [SCoMgr.release, hget]

theorem Trails.none (h : m.Trails m') (hget : m.getCo id = none) : m'.getCo id = none := by
  cases hget' : m'.getCo id with
  | none => rfl
  | some y =>
    rw [h.getCo id y hget'] at hget
    cases hget

theorem Spent.trails (h : m.Spent id) (trails : m.Trails m') : m'.Spent id := by
  rcases h with rfl | ⟨hget, x, hx, hslot, hold⟩
  · exact .inl rfl
  · refine .inr ⟨trails.none hget, x, ?_⟩
    rw [trails.follows.capacity, trails.follows.accumulate]
    exact ⟨hx, hslot, hold⟩

theorem Spent.getCo_none (h : m.Spent id) (kept : m.Kept) : m.getCo id = none := by
  rcases h with rfl | ⟨hget, -⟩
  · obtain ⟨free, used, ledger⟩ := kept
    exact ledger.registry.getCo_zero
  · exact hget

/-- An id is spent by the release of its coroutine. -/
theorem Kept.spent_release (h : m.Kept) (hget : m.getCo id = some x) : (m.release id).2.Spent id := by
  have follows := h.release id
  have gone : (m.release id).2.getCo id = none := by
    cases hget' : (m.release id).2.getCo id with
    | none => rfl
    | some y =>
      obtain ⟨hold, hne⟩ := h.getCo_release hget hget'
      exact absurd (Option.some.inj (hold.symm.trans hget)) hne
  obtain ⟨free, used, ledger⟩ := h
  obtain ⟨hx, hslot, hid⟩ := ledger.registry.getCo_slot hget
  refine .inr ⟨gone, x, ?_⟩
  rw [follows.capacity, follows.accumulate]
  exact ⟨hx, hslot, Int.le_of_eq hid⟩

/-- The next `Alloc` counts its slot to a generation whose id is an `int`. -/
def Fits (m : SCoMgr) : Prop :=
  m.pool.usedCount < m.pool.capacity →
    m.pool.capacity * ((m.pool.idx m.pool.freeHead).accumulate + 1) + m.pool.freeHead < 2147483648

/-- A spent id stays spent while ids do not wrap: the ids of its slot are ahead of it. -/
theorem Spent.alloc (h : m.Spent id) (kept : m.Kept) (fits : m.Fits) : m.alloc.2.Spent id := by
  obtain ⟨free, used, ledger⟩ := kept
  rcases ledger.alloc with full | ⟨x, pool', hx, hrange, heq, -, hcap, hacc, hself, hhead, hroom, rest, ledger'⟩
  · rw [full]
    exact h
  · rcases h with rfl | ⟨hget, z, hz, hslot, hold⟩
    · exact .inl rfl
    · obtain ⟨-, -, -, hinfo, hpool⟩ := initCo_fields { m with pool := pool' } m.alloc.1 x
      rw [← heq] at hinfo hpool
      have hcapacity : m.alloc.2.pool.capacity = m.pool.capacity := by rw [hpool]; exact hcap
      have hpos := ledger.registry.bounds.capacity_pos
      have next : (m.alloc.2.pool.idx x).accumulate = (m.pool.idx x).accumulate + 1 := by
        have hfits := fits hroom
        rw [hhead] at hfits
        rw [hpool]
        exact hself.trans (if_pos hfits)
      have same : ∀ y : Nat, y ≠ x → (m.alloc.2.pool.idx y).accumulate = (m.pool.idx y).accumulate := by
        intro y hyx
        rw [hpool]
        exact hacc y fun heq => hyx (Int.ofNat.inj heq)
      refine .inr ⟨?_, z, ?_⟩
      · cases hget' : m.alloc.2.getCo id with
        | none => rfl
        | some y =>
          obtain ⟨-, hyslot, hyid⟩ := ledger'.registry.getCo_slot hget'
          rw [hcapacity] at hyslot hyid
          obtain rfl : y = z := Int.ofNat.inj (hyslot.symm.trans hslot)
          by_cases hyx : y = x
          · subst hyx
            rw [next] at hyid
            nlinarith
          · rw [same y hyx] at hyid
            obtain ⟨hmem, hyid'⟩ := ledger'.registry.getCo_iff.mp hget'
            rw [hinfo, Function.update_of_ne hyx] at hyid'
            have hused := (List.mem_cons.mp hmem).resolve_left fun heq => hyx (Int.ofNat.inj heq)
            rw [ledger.registry.getCo_iff.mpr ⟨hused, hyid'⟩] at hget
            cases hget
      · rw [hcapacity]
        refine ⟨hz, hslot, ?_⟩
        by_cases hzx : z = x
        · subst hzx
          rw [next]
          nlinarith
        · rw [same z hzx]
          exact hold

theorem release_rest (m : SCoMgr) (id : Int) :
    (m.release id).2.log = m.log ∧ (m.release id).2.iRunningID = m.iRunningID ∧ (m.release id).2.frame = m.frame := by
  unfold release
  split
  · exact ⟨rfl, rfl, rfl⟩
  · exact ⟨rfl, rfl, rfl⟩

theorem release_control (m : SCoMgr) (id : Int) : (m.release id).2.sch.control = m.sch.control := by
  unfold release
  split
  · rfl
  next x _ => exact freeStack_control m x

theorem resumeReturn_log (m : SCoMgr) (caller : Option Nat) (id : Int) (x : Nat) :
    ∃ ret, (m.resumeReturn caller id x).log = .resumed caller id ret :: m.log := by
  unfold resumeReturn
  dsimp only
  split
  · refine ⟨0, ?_⟩
    simp only [record, (release_rest _ id).1]
  · exact ⟨id, rfl⟩

theorem goOn_control (m : SCoMgr) : m.goOn.sch.control = m.sch.control := by
  unfold goOn
  dsimp only
  split
  · unfold resumeReturn
    dsimp only
    split
    · exact release_control _ _
    · rfl
  · rfl
  · rfl

theorem goOn_arrival_ne (arrival : m.sch.arrival = .resume x) : m.goOn.sch.arrival ≠ .yield := by
  have hsame : m.goOn.sch.arrival = m.sch.arrival := congrArg Control.arrival m.goOn_control
  rw [hsame, arrival]
  simp

/-- Where the code outside waits in a `Resume`, a switch to anything but a `Yield` lets none return. -/
theorem goOn_log (frame : m.frame none = some (.resume id x)) (place : m.sch.owner = none ∨ m.sch.arrival ≠ .yield) :
    ∃ entries, m.goOn.log = entries ++ m.log ∧ ∀ caller ret, .yielded caller ret ∉ entries := by
  unfold goOn
  dsimp only
  split
  next iPoolID pCo _ _ =>
    obtain ⟨ret, hlog⟩ :=
      resumeReturn_log { m with frame := Function.update m.frame m.sch.owner none } m.sch.owner iPoolID pCo
    exact ⟨[_], hlog, by simp⟩
  next pCo harrival hframe =>
    rcases place with howner | hother
    · rw [howner, frame] at hframe
      cases hframe
    · exact absurd harrival hother
  · exact ⟨[], rfl, by simp⟩

/-- The `Yield` call that the executing coroutine is in returns. -/
theorem goOn_yield (owner : m.sch.owner = some x) (arrival : m.sch.arrival = .yield)
    (frame : m.frame (some x) = some (.yield x)) :
    m.goOn =
      { m with
        frame := Function.update m.frame (some x) none
        log := .yielded (some x) (if (m.info x).isTimeOut then yieldTimeout else 0) :: m.log } := by
  simp only [SCoMgr.goOn, owner, arrival, frame]
  rfl

/-- The `Resume` call of the code outside returns. -/
theorem Kept.goOn_outside (h : m.Kept) (owner : m.sch.owner = none) (arrival : m.sch.arrival = .resume y)
    (frame : m.frame none = some (.resume id x)) : m.Trails m.goOn ∧ m.goOn.iRunningID = 0 := by
  have back : m.Trails { m with iRunningID := 0, frame := Function.update m.frame none none } := by
    refine ⟨h.same rfl fun _ => rfl, rfl, rfl, fun y => ?_, fun _ _ hget => hget⟩
    simp only [Function.update_of_ne (Option.some_ne_none y)]
  simp only [SCoMgr.goOn, owner, arrival, frame, resumeReturn]
  split
  · have released := back.follows.kept.trails_release id
    refine ⟨back.trans (released.trans (released.follows.kept.trails_record _)), ?_⟩
    exact (release_rest _ id).2.1
  · exact ⟨back.trans (back.follows.kept.trails_record _), rfl⟩

end SCoMgr

end Wddlib
