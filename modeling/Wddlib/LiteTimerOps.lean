import Wddlib.LiteTimerInvariant
import Mathlib.Data.List.Perm.Subperm

namespace Wddlib

/-- The active timers of a manager as a map from ids to expire times and data. -/
def LiteTimerMgr.timerMap {β : Type} (mgr : LiteTimerMgr β) (id : Int) : Option (Int × β) :=
  (mgr.timerHeap.find? fun timer => timer.id == id).bind fun timer =>
    (mgr.getTimerArg id).map fun arg => (timer.expireTime, (mgr.args arg.slot).buf)

section Entries

variable {β : Type} {pool : TObjPool} {n i j m : Nat} {bufs : Int → β} {mgr : LiteTimerMgr β}
  {a : Nat → Int × Int} {id t : Int}

theorem TimerCells.id_inj {placed : Nat → Prop} (h : TimerCells pool n bufs placed mgr a) (hi : i < n)
    (hj : j < n) (same : (a i).1 = (a j).1) : i = j := by
  by_contra hne
  apply h.apart i j hi hj hne
  rw [same]

theorem TimerCells.mem_update (h : TimerCells pool n bufs (fun _ => True) mgr a) (hm : m < n) (t : Int)
    (e : Int × Int) :
    (∃ j, j < n ∧ Function.update a m ((a m).1, t) j = e) ↔
      e = ((a m).1, t) ∨ e.1 ≠ (a m).1 ∧ ∃ j, j < n ∧ a j = e := by
  constructor
  · rintro ⟨j, hj, rfl⟩
    by_cases hjm : j = m
    · subst hjm
      simp
    · right
      simp only [Function.update_of_ne hjm]
      exact ⟨fun same => hjm (h.id_inj hj hm same), j, hj, rfl⟩
  · rintro (rfl | ⟨hne, j, hj, rfl⟩)
    · exact ⟨m, hm, by simp⟩
    · have hjm : j ≠ m := fun e => hne (by rw [e])
      exact ⟨j, hj, by simp [hjm]⟩

theorem mem_snoc (a : Nat → Int × Int) (n : Nat) (new e : Int × Int) :
    (∃ j, j < n + 1 ∧ Function.update a n new j = e) ↔ e = new ∨ ∃ j, j < n ∧ a j = e := by
  constructor
  · rintro ⟨j, hj, rfl⟩
    by_cases hjn : j = n
    · subst hjn
      simp
    · rw [Function.update_of_ne hjn]
      exact Or.inr ⟨j, by omega, rfl⟩
  · rintro (rfl | ⟨j, hj, rfl⟩)
    · exact ⟨n, by omega, by simp⟩
    · exact ⟨j, by omega, by simp [show j ≠ n by omega]⟩

theorem TimerCells.mem_pop (h : TimerCells pool n bufs (fun _ => True) mgr a) (hn : 0 < n) (e : Int × Int) :
    (∃ j, j < n - 1 ∧ a j = e) ↔ e.1 ≠ (a (n - 1)).1 ∧ ∃ j, j < n ∧ a j = e := by
  constructor
  · rintro ⟨j, hj, rfl⟩
    refine ⟨?_, j, by omega, rfl⟩
    intro same
    have := h.id_inj (show j < n by omega) (by omega) same
    omega
  · rintro ⟨hne, j, hj, rfl⟩
    have hjn : j ≠ n - 1 := fun e => hne (by rw [e])
    exact ⟨j, by omega, rfl⟩

theorem TimerCells.getTimerIdxByID (h : TimerCells pool n bufs (fun _ => True) mgr a) (hi : i < n) :
    mgr.getTimerIdxByID (a i).1 = i := by
  obtain ⟨p, hp⟩ := Option.ne_none_iff_exists'.mp (h.live i hi)
  simp only [LiteTimerMgr.getTimerIdxByID, h.argPool, hp]
  rw [objpoolGet_slot hp]
  exact h.back i hi trivial

theorem TimerCells.payloads (h : TimerCells pool n bufs (fun _ => True) mgr a) :
    mgr.timerHeap.map LiteTimer.payload = (List.range n).map a := by
  apply List.ext_getElem
  · simp [h.size]
  · intro i hi _
    have hin : i < n := by simpa [h.size] using hi
    have hcell := h.cell i hin trivial
    simpa [LiteTimerMgr.timerAt, h.size, hin] using hcell

theorem TimerCells.mem_payloads (h : TimerCells pool n bufs (fun _ => True) mgr a) (e : Int × Int) :
    e ∈ mgr.timerHeap.map LiteTimer.payload ↔ ∃ i, i < n ∧ a i = e := by
  simp [h.payloads]

theorem TimerCells.ids (h : TimerCells pool n bufs (fun _ => True) mgr a) :
    mgr.timerHeap.map LiteTimer.id = (List.range n).map fun i => (a i).1 := by
  have hmap := congrArg (List.map Prod.fst) h.payloads
  rw [List.map_map, List.map_map] at hmap
  exact hmap

theorem TimerCells.ids_nodup (h : TimerCells pool n bufs (fun _ => True) mgr a) :
    (mgr.timerHeap.map LiteTimer.id).Nodup := by
  rw [h.ids]
  refine List.Nodup.map_on ?_ List.nodup_range
  intro i hi j hj same
  exact h.id_inj (List.mem_range.mp hi) (List.mem_range.mp hj) same

theorem TimerCells.mem_timerHeap (h : TimerCells pool n bufs (fun _ => True) mgr a) (id : Int) :
    id ∈ mgr.timerHeap.map LiteTimer.id ↔ ∃ i, i < n ∧ (a i).1 = id := by
  simp [h.ids]

theorem TimerCells.find_timer (h : TimerCells pool n bufs (fun _ => True) mgr a) {timer : LiteTimer}
    (found : mgr.timerHeap.find? (fun timer => timer.id == id) = some timer) :
    ∃ i, i < n ∧ a i = (id, timer.expireTime) := by
  have hid : timer.id = id := by simpa using List.find?_some found
  obtain ⟨i, hi, rfl⟩ := List.mem_iff_getElem.mp (List.mem_of_find?_eq_some found)
  have hin : i < n := by
    rw [← h.size]
    exact hi
  refine ⟨i, hin, ?_⟩
  rw [← h.cell i hin trivial, ← hid]
  simp [LiteTimerMgr.timerAt, LiteTimer.payload, hi]

theorem TimerCells.timerArg_buf (h : TimerCells pool n bufs (fun _ => True) mgr a) (hi : i < n) :
    (mgr.getTimerArg (a i).1).map (fun arg => (mgr.args arg.slot).buf) =
      some (bufs ((a i).1.tmod pool.capacity)) := by
  obtain ⟨p, hp⟩ := Option.ne_none_iff_exists'.mp (h.live i hi)
  simp only [LiteTimerMgr.getTimerArg, h.argPool, Option.bind_some, hp, Option.map_some]
  rw [objpoolGet_slot hp]
  exact congrArg some (h.buf _)

theorem TimerCells.timerMap_eq_some (h : TimerCells pool n bufs (fun _ => True) mgr a) (buf : β) :
    mgr.timerMap id = some (t, buf) ↔ (∃ i, i < n ∧ a i = (id, t)) ∧ bufs (id.tmod pool.capacity) = buf := by
  unfold LiteTimerMgr.timerMap
  cases hfind : mgr.timerHeap.find? (fun timer => timer.id == id) with
  | none =>
    simp only [Option.bind_none, reduceCtorEq, false_iff]
    rintro ⟨⟨i, hi, hai⟩, -⟩
    have hmem := (h.mem_timerHeap id).mpr ⟨i, hi, by rw [hai]⟩
    obtain ⟨timer, hmem, hid⟩ := List.mem_map.mp hmem
    have hnone := List.find?_eq_none.mp hfind timer hmem
    simp [hid] at hnone
  | some timer =>
    obtain ⟨i, hi, hai⟩ := h.find_timer hfind
    have hobj := h.timerArg_buf hi
    rw [hai] at hobj
    obtain ⟨arg, harg, hbuf⟩ := Option.map_eq_some_iff.mp hobj
    simp only [Option.bind_some, harg, Option.map_some, Option.some.injEq, Prod.mk.injEq, hbuf]
    constructor
    · rintro ⟨rfl, rfl⟩
      exact ⟨⟨i, hi, hai⟩, rfl⟩
    · rintro ⟨⟨j, hj, haj⟩, rfl⟩
      have hij := h.id_inj hj hi (by rw [haj, hai])
      subst hij
      rw [hai] at haj
      exact ⟨(Prod.mk.inj haj).2, rfl⟩

theorem TimerCells.timerMap_ext (h : TimerCells pool n bufs (fun _ => True) mgr a)
    {map : Int → Option (Int × β)}
    (same : ∀ id t buf, map id = some (t, buf) ↔
      (∃ i, i < n ∧ a i = (id, t)) ∧ bufs (id.tmod pool.capacity) = buf) : mgr.timerMap = map := by
  funext id
  apply Option.ext
  rintro ⟨t, buf⟩
  exact (h.timerMap_eq_some buf).trans (same id t buf).symm

end Entries

section Inv

variable {β : Type} {pool : TObjPool} {free used : List Int} {mgr mgr' : LiteTimerMgr β}
  {a b : Nat → Int × Int} {i : Nat} {id t : Int}

theorem TimerSync.size (h : TimerSync mgr pool free used a) : mgr.timerHeap.length = used.length :=
  h.cells.size

/-- The heap holds as many ids as the pool has live handles, so it holds all of them. -/
theorem TimerSync.mem_iff_live (h : TimerSync mgr pool free used a) (id : Int) :
    (∃ i, i < used.length ∧ (a i).1 = id) ↔ objpoolGet pool id ≠ none := by
  constructor
  · rintro ⟨i, hi, rfl⟩
    exact h.cells.live i hi
  · intro live
    have handle : ∀ i, i < used.length → IsHandle pool used ((a i).1.tmod pool.capacity) (a i).1 :=
      fun i hi => (live_iff h.repr h.bounds _).mp (h.cells.live i hi)
    have hid := (live_iff h.repr h.bounds id).mp live
    have nodup : ((List.range used.length).map fun i => (a i).1.tmod pool.capacity).Nodup := by
      refine List.Nodup.map_on ?_ List.nodup_range
      intro i hi j hj same
      by_contra hne
      exact h.cells.apart i j (List.mem_range.mp hi) (List.mem_range.mp hj) hne same
    have sub : ((List.range used.length).map fun i => (a i).1.tmod pool.capacity) ⊆ used := by
      intro p hp
      obtain ⟨i, hi, rfl⟩ := List.mem_map.mp hp
      exact (handle i (List.mem_range.mp hi)).1
    have perm := (nodup.subperm sub).perm_of_length_le (by simp)
    obtain ⟨i, hi, hslot⟩ := List.mem_map.mp (perm.mem_iff.mpr hid.1)
    have hi := List.mem_range.mp hi
    refine ⟨i, hi, ?_⟩
    rw [(handle i hi).2, hslot]
    exact hid.2.symm

theorem TimerSync.getTimerIdxByID_stale (h : TimerSync mgr pool free used a) (stale : objpoolGet pool id = none) :
    mgr.getTimerIdxByID id = -2 := by
  simp [LiteTimerMgr.getTimerIdxByID, h.cells.argPool, stale]

theorem TimerSync.timerMap_eq_none (h : TimerSync mgr pool free used a) :
    mgr.timerMap id = none ↔ objpoolGet pool id = none := by
  rw [← not_iff_not, ← ne_eq, ← ne_eq, ← h.mem_iff_live]
  constructor
  · intro hne
    obtain ⟨⟨t, buf⟩, he⟩ := Option.ne_none_iff_exists'.mp hne
    obtain ⟨⟨i, hi, hai⟩, -⟩ := (h.cells.timerMap_eq_some buf).mp he
    exact ⟨i, hi, by rw [hai]⟩
  · rintro ⟨i, hi, rfl⟩
    have he := (h.cells.timerMap_eq_some _).mpr ⟨⟨i, hi, rfl⟩, rfl⟩
    simp [he]

/-- The expire times of a manager in step are those of its map. -/
theorem TimerSync.inv (h : TimerSync mgr pool free used a)
    (positive : ∀ id t buf, mgr.timerMap id = some (t, buf) → 0 < t) : TimerInv mgr pool free used a := by
  refine ⟨h, ?_⟩
  intro i hi
  exact positive (a i).1 (a i).2 _ ((h.cells.timerMap_eq_some _).mpr ⟨⟨i, hi, rfl⟩, rfl⟩)

theorem TimerInv.map_positive (h : TimerInv mgr pool free used a) {buf : β} (entry : mgr.timerMap id = some (t, buf)) :
    0 < t := by
  obtain ⟨⟨i, hi, hai⟩, -⟩ := (h.cells.timerMap_eq_some buf).mp entry
  have hpos := h.positive i hi
  rw [hai] at hpos
  exact hpos

/-- A timer that was moved to the back of the heap is popped and its handle released. -/
theorem TimerSync.remove (h : TimerSync mgr pool free used a) (hi : i < used.length)
    (cells : TimerCells pool used.length (fun slot => (mgr.args slot).buf) (fun _ => True) mgr' b)
    (ordered : HeapOrdered Prod.snd b (used.length - 1)) (last : (b (used.length - 1)).1 = (a i).1)
    (entries : ∀ e : Int × Int, e.1 ≠ (a i).1 →
      ((∃ j, j < used.length ∧ b j = e) ↔ ∃ j, j < used.length ∧ a j = e)) :
    ∃ pool' free' used', objpoolFree pool (a i).1 = (0, pool') ∧ pool'.capacity = pool.capacity ∧
      TimerSync { mgr'.popBack with timerArgPool := some pool' } pool' free' used' b ∧
      LiteTimerMgr.timerMap { mgr'.popBack with timerArgPool := some pool' } =
        Function.update mgr.timerMap (a i).1 none := by
  obtain ⟨pool', free', used', hfree, hrepr, hbounds, hcap, hlen, hlive⟩ :=
    objpoolFree_live h.repr h.bounds (h.cells.live i hi)
  have kept : ∀ e : Int × Int, (∃ j, j < used.length - 1 ∧ b j = e) ↔
      e.1 ≠ (a i).1 ∧ ∃ j, j < used.length ∧ a j = e := by
    intro e
    rw [cells.mem_pop (by omega), last]
    constructor
    · rintro ⟨hne, he⟩
      exact ⟨hne, (entries e hne).mp he⟩
    · rintro ⟨hne, he⟩
      exact ⟨hne, (entries e hne).mpr he⟩
  have live : ∀ j, j < used.length - 1 → objpoolGet pool' (b j).1 ≠ none := by
    intro j hj
    have apart := cells.apart j (used.length - 1) (by omega) (by omega) (by omega)
    rw [last] at apart
    exact hlive _ (cells.live j (by omega)) apart
  have popped := cells.pop.withPool hcap live
  refine ⟨pool', free', used', hfree, hcap, ⟨hrepr, hbounds, ?_, ?_⟩, ?_⟩
  · rw [hlen]
    exact popped.ownBufs
  · rw [hlen]
    exact ordered
  · apply popped.timerMap_ext
    intro id t buf
    rw [kept, hcap]
    by_cases e : id = (a i).1
    · simp [e]
    · simpa [e] using h.cells.timerMap_eq_some buf

theorem TimerSync.stopTimer_eq (h : TimerSync mgr pool free used a) (hi : i < used.length) {bufs : Int → β}
    (cells : TimerCells pool used.length bufs (fun _ => True) (mgr.moveToBack i) b) :
    mgr.stopTimer (a i).1 =
      (0, { (mgr.moveToBack i).popBack with timerArgPool := some (objpoolFree pool (a i).1).2 }) := by
  have size := h.size
  have stopped : mgr.stopTimerById (a i).1 = (0, (mgr.moveToBack i).popBack) := by
    simp only [LiteTimerMgr.stopTimerById, h.cells.getTimerIdxByID hi]
    rw [if_neg (by omega)]
  have pooled : (mgr.moveToBack i).popBack.timerArgPool = some pool := cells.argPool
  simp only [LiteTimerMgr.stopTimer, h.cells.argPool, stopped, pooled, Option.map_some]
  rfl

theorem stopTimer_live (h : TimerSync mgr pool free used a) (hi : i < used.length)
    (hits : i = 0 ∨ 0 < (a 0).2) :
    ∃ mgr' pool' free' used' b, mgr.stopTimer (a i).1 = (0, mgr') ∧ pool'.capacity = pool.capacity ∧
      TimerSync mgr' pool' free' used' b ∧ mgr'.timerMap = Function.update mgr.timerMap (a i).1 none := by
  obtain ⟨b, cells, ordered, perm, last⟩ := moveToBack_spec h.cells hi h.ordered hits
  have entries : ∀ e : Int × Int, e.1 ≠ (a i).1 →
      ((∃ j, j < used.length ∧ b j = e) ↔ ∃ j, j < used.length ∧ a j = e) := by
    intro e hne
    rw [perm.mem_iff, h.cells.mem_update hi]
    constructor
    · rintro (rfl | ⟨-, he⟩)
      · exact absurd rfl hne
      · exact he
    · exact fun he => Or.inr ⟨hne, he⟩
  obtain ⟨pool', free', used', hfree, hcap, hinv, hmap⟩ := h.remove hi cells ordered (by rw [last]) entries
  refine ⟨_, pool', free', used', b, ?_, hcap, hinv, hmap⟩
  rw [h.stopTimer_eq hi cells, hfree]

theorem stopTimer_stale (h : TimerSync mgr pool free used a) (stale : objpoolGet pool id = none) :
    mgr.stopTimer id = (-2, mgr) := by
  simp [LiteTimerMgr.stopTimer, LiteTimerMgr.stopTimerById, h.cells.argPool, h.getTimerIdxByID_stale stale]

theorem tickOneExpireTimer_due (h : TimerSync mgr pool free used a) {now : Int} (hpos : 0 < used.length)
    (due : (a 0).2 ≤ now) (arg : β) :
    ∃ mgr' pool' free' used' b, mgr.tickOneExpireTimer now arg =
        ((a 0).1, mgr', (mgr.args ((a 0).1.tmod pool.capacity)).buf) ∧ 0 ≤ (a 0).1 ∧
      pool'.capacity = pool.capacity ∧ TimerSync mgr' pool' free' used' b ∧
      mgr'.timerMap = Function.update mgr.timerMap (a 0).1 none := by
  obtain ⟨b, cells, perm, last, ordered⟩ := popHeap_rule (timerCells_rule pool used.length _)
    LiteTimer.less_iff hpos h.cells
  obtain ⟨pool', free', used', hfree, hcap, hinv, hmap⟩ :=
    h.remove hpos cells (ordered h.ordered.sinking) (by rw [last]) (fun e _ => perm.mem_iff e)
  have nonneg := live_nonneg h.repr h.bounds (h.cells.live 0 hpos)
  refine ⟨_, pool', free', used', b, ?_, nonneg, hcap, hinv, hmap⟩
  have size := h.size
  have root : (mgr.timerAt 0).id = (a 0).1 ∧ (mgr.timerAt 0).expireTime = (a 0).2 :=
    Prod.mk.inj (h.cells.cell 0 hpos trivial)
  have ticked : mgr.tickOneExpireTimerId now =
      ((a 0).1, (popHeap LiteTimerMgr.cells LiteTimer.less mgr used.length).popBack) := by
    simp only [LiteTimerMgr.tickOneExpireTimerId, root.1, root.2, size]
    rw [if_pos ⟨by omega, due⟩]
  obtain ⟨p, hp⟩ := Option.ne_none_iff_exists'.mp (h.cells.live 0 hpos)
  have pooled : (popHeap LiteTimerMgr.cells LiteTimer.less mgr used.length).popBack.timerArgPool = some pool :=
    cells.argPool
  have arg : LiteTimerMgr.getTimerArg (popHeap LiteTimerMgr.cells LiteTimer.less mgr used.length).popBack
      (a 0).1 = some p := by
    simp [LiteTimerMgr.getTimerArg, pooled, hp]
  simp only [LiteTimerMgr.tickOneExpireTimer, h.cells.argPool, ticked, if_neg (not_lt.mpr nonneg), arg,
    pooled, Option.map_some, hfree]
  rw [objpoolGet_slot hp]
  exact congrArg _ (congrArg _ (cells.buf _))

theorem tickOneExpireTimer_idle (h : TimerSync mgr pool free used a) {now : Int}
    (idle : ∀ i, i < used.length → now < (a i).2) (arg : β) :
    mgr.tickOneExpireTimer now arg = (-1, mgr, arg) := by
  have size := h.size
  have none : mgr.tickOneExpireTimerId now = (-1, mgr) := by
    unfold LiteTimerMgr.tickOneExpireTimerId
    rw [if_neg]
    rintro ⟨hne, due⟩
    have hpos : 0 < used.length := by omega
    have root : (mgr.timerAt 0).expireTime = (a 0).2 := congrArg Prod.snd (h.cells.cell 0 hpos trivial)
    have := idle 0 hpos
    omega
  simp [LiteTimerMgr.tickOneExpireTimer, h.cells.argPool, none]

theorem TimerSync.updateTimer_eq (h : TimerSync mgr pool free used a) (hi : i < used.length) (ht : t ≠ 0)
    {bufs : Int → β} (cells : TimerCells pool used.length bufs (fun _ => True) (mgr.moveToBack i) b) :
    mgr.updateTimer (a i).1 t = (0, pushHeap LiteTimerMgr.cells LiteTimer.less
      ((mgr.moveToBack i).setExpireTime (used.length - 1) t) used.length) := by
  have size := h.size
  have rekeyed := cells.setExpire (show used.length - 1 < used.length by omega) t
  simp only [LiteTimerMgr.updateTimer, LiteTimerMgr.updateTimerById, h.cells.getTimerIdxByID hi,
    h.cells.argPool, cells.size, rekeyed.size]
  rw [if_neg (by simp; omega), if_neg (show ¬ ((i : Int) < 0 ∨ mgr.timerHeap.length < 1 ∨ t = 0) by omega)]
  rfl

theorem updateTimer_live (h : TimerSync mgr pool free used a) (hi : i < used.length)
    (hits : i = 0 ∨ 0 < (a 0).2) (ht : t ≠ 0) :
    ∃ mgr' b, mgr.updateTimer (a i).1 t = (0, mgr') ∧ TimerSync mgr' pool free used b ∧
      mgr'.timerMap = Function.update mgr.timerMap (a i).1
        (some (t, (mgr.args ((a i).1.tmod pool.capacity)).buf)) := by
  obtain ⟨b, cells, ordered, perm, last⟩ := moveToBack_spec h.cells hi h.ordered hits
  have hlast : used.length - 1 < used.length := by omega
  have rekeyed := cells.setExpire hlast t
  have rising := ordered.rising_last ((b (used.length - 1)).1, t)
  rw [Nat.sub_add_cancel (show 1 ≤ used.length by omega)] at rising
  obtain ⟨b', cells', perm', ordered', -⟩ := pushHeap_rule (timerCells_rule pool used.length _)
    LiteTimer.less_iff (Nat.le_refl _) (show 0 < used.length by omega) (Nat.le_refl _) rekeyed
  have entries : ∀ e : Int × Int, (∃ j, j < used.length ∧ b' j = e) ↔
      e = ((a i).1, t) ∨ e.1 ≠ (a i).1 ∧ ∃ j, j < used.length ∧ a j = e := by
    intro e
    rw [perm'.mem_iff, cells.mem_update hlast, perm.mem_iff, h.cells.mem_update hi, last]
    constructor
    · rintro (he | ⟨hne, he | he⟩)
      · exact Or.inl he
      · exact absurd (congrArg Prod.fst he) hne
      · exact Or.inr he
    · rintro (he | he)
      · exact Or.inl he
      · exact Or.inr ⟨he.1, Or.inr he⟩
  refine ⟨_, b', h.updateTimer_eq hi ht cells, ⟨h.repr, h.bounds, cells'.ownBufs, ordered' rising⟩, ?_⟩
  apply cells'.timerMap_ext
  intro id t' buf
  rw [entries]
  by_cases e : id = (a i).1
  · simp [e, eq_comm]
  · simpa [e] using h.cells.timerMap_eq_some buf

theorem updateTimer_stale (h : TimerSync mgr pool free used a) (stale : objpoolGet pool id = none) (t : Int) :
    ∃ code, code < 0 ∧ mgr.updateTimer id t = (code, mgr) := by
  unfold LiteTimerMgr.updateTimer
  split
  next => exact ⟨-1, by decide, rfl⟩
  next =>
    have rejected : mgr.updateTimerById id t = (-1, mgr) := by
      simp [LiteTimerMgr.updateTimerById, h.getTimerIdxByID_stale stale]
    exact ⟨-2, by decide, by simp [rejected]⟩

theorem startTimer_full (h : TimerSync mgr pool [] used a) (ht : t ≠ 0) (buf : β) :
    mgr.startTimer t buf = (-2, mgr) := by
  simp only [LiteTimerMgr.startTimer, h.cells.argPool, objpoolAlloc_full h.repr h.bounds, errObjpoolFull, ht]
  simp [← h.cells.argPool]

/-- The manager when `StartTimer` calls `std::push_heap`. -/
def LiteTimerMgr.pushed (mgr : LiteTimerMgr β) (pool' : TObjPool) (x id t : Int) (buf : β) : LiteTimerMgr β :=
  (LiteTimerMgr.setTimerIdxById
    { timerHeap := mgr.timerHeap ++ [⟨id, mgr.timerHeap.length, t⟩]
      timerArgPool := some pool'
      args := Function.update mgr.args x { mgr.args x with buf := buf } } id mgr.timerHeap.length).2

theorem startTimer_eq {pool' : TObjPool} (hpool : mgr.timerArgPool = some pool) (ht : t ≠ 0)
    (halloc : objpoolAlloc pool = (id, pool')) (nonneg : 0 ≤ id) (live : objpoolGet pool' id ≠ none)
    (buf : β) :
    mgr.startTimer t buf = (0, pushHeap LiteTimerMgr.cells LiteTimer.less
      (mgr.pushed pool' (id.tmod pool'.capacity) id t buf)
      (mgr.pushed pool' (id.tmod pool'.capacity) id t buf).timerHeap.length) := by
  obtain ⟨p, hp⟩ := Option.ne_none_iff_exists'.mp live
  simp only [LiteTimerMgr.startTimer, hpool, if_neg ht, halloc,
    if_neg (show ¬ 0 > id by omega), hp, LiteTimerMgr.startTimerById]
  rw [if_neg (by decide), objpoolGet_slot hp]
  rfl

theorem startTimer_room {x : Int} (h : TimerSync mgr pool (x :: free) used a) (ht : t ≠ 0) (buf : β) :
    ∃ id mgr' pool' b, mgr.startTimer t buf = (0, mgr') ∧ 0 ≤ id ∧ mgr.timerMap id = none ∧
      pool'.capacity = pool.capacity ∧ TimerSync mgr' pool' free (x :: used) b ∧
      mgr'.timerMap = Function.update mgr.timerMap id (some (t, buf)) := by
  obtain ⟨id, pool', halloc, hrepr, hbounds, hcap, slot, live, old⟩ := objpoolAlloc_live h.repr h.bounds
  have nonneg := live_nonneg hrepr hbounds live
  have apart : ∀ i, i < used.length → (a i).1.tmod pool.capacity ≠ x :=
    fun i hi => (old _ (h.cells.live i hi)).2
  have fresh : ∀ i, i < used.length → (a i).1 ≠ id := by
    intro i hi he
    exact apart i hi (by rw [he, slot])
  have pushed : TimerCells pool' (used.length + 1) (Function.update (fun slot => (mgr.args slot).buf) x buf)
      (fun _ => True) (mgr.pushed pool' x id t buf) (Function.update a used.length (id, t)) := by
    have written := (h.cells.withPool hcap (fun i hi => (old _ (h.cells.live i hi)).1)).writeBuf x buf
    simp only [LiteTimerMgr.pushed, h.size]
    exact written.push live (by rw [hcap, slot]; exact apart)
  obtain ⟨b, cells, perm, ordered, -⟩ := pushHeap_rule (timerCells_rule pool' (used.length + 1) _)
    LiteTimer.less_iff (Nat.le_refl _) (Nat.succ_pos _) (Nat.le_refl _) pushed
  have ordered := ordered (h.ordered.rising_last (id, t))
  have entries : ∀ e : Int × Int, (∃ j, j < used.length + 1 ∧ b j = e) ↔
      e = (id, t) ∨ ∃ j, j < used.length ∧ a j = e := by
    intro e
    rw [perm.mem_iff, mem_snoc]
  have absent : mgr.timerMap id = none := by
    rw [h.timerMap_eq_none]
    by_contra hlive
    obtain ⟨i, hi, hai⟩ := (h.mem_iff_live id).mpr hlive
    exact fresh i hi hai
  have started := startTimer_eq h.cells.argPool ht halloc nonneg live buf
  rw [hcap, slot, pushed.size] at started
  refine ⟨id, _, pool', b, started, nonneg, absent, hcap, ⟨hrepr, hbounds, cells.ownBufs, ordered⟩, ?_⟩
  apply cells.timerMap_ext
  intro id' t' buf'
  rw [entries, hcap]
  have before := @TimerCells.timerMap_eq_some _ _ _ _ _ _ id' t' h.cells buf'
  by_cases hs : id'.tmod pool.capacity = x
  · have none : ¬ ∃ j, j < used.length ∧ a j = (id', t') := by
      rintro ⟨j, hj, haj⟩
      exact apart j hj (by rw [haj, hs])
    by_cases e : id' = id
    · simp [e, slot, e ▸ none, eq_comm]
    · simp [e, none, before]
  · have e : id' ≠ id := fun e => hs (by rw [e, slot])
    simp [e, hs, before]

end Inv

end Wddlib
