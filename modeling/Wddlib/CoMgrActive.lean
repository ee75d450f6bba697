import Wddlib.CoMgrSweepRun
import Wddlib.CoMgrTrail

namespace Wddlib

theorem filter_mem_self {α : Type} [DecidableEq α] (xs : List α) : (xs.filter fun a => decide (a ∈ xs)) = xs :=
  List.filter_eq_self.mpr fun _ ha => decide_eq_true ha

theorem filter_mem_middle {α : Type} [DecidableEq α] {before after : List α} {a : α}
    (nodup : (before ++ a :: after).Nodup) :
    ((before ++ a :: after).filter fun b => decide (b ∈ before ++ after)) = before ++ after := by
  have hnot : a ∉ before ++ after := (List.nodup_cons.mp (List.nodup_middle.mp nodup)).1
  rw [List.filter_append, List.filter_cons_of_neg (by simpa using hnot)]
  congr 1
  · exact List.filter_eq_self.mpr fun b hb => decide_eq_true (List.mem_append.mpr (.inl hb))
  · exact List.filter_eq_self.mpr fun b hb => decide_eq_true (List.mem_append.mpr (.inr hb))

/-- In a list without repetitions what stands behind an entry is known. -/
theorem behind_unique {α : Type} {before before' after after' : List α} {a : α}
    (nodup : (before ++ a :: after).Nodup) (same : before ++ a :: after = before' ++ a :: after') : after = after' := by
  have hnot : a ∉ before ++ after := (List.nodup_cons.mp (List.nodup_middle.mp nodup)).1
  have front : a ∉ before := fun hmem => hnot (List.mem_append.mpr (.inl hmem))
  have behind : a ∉ after := fun hmem => hnot (List.mem_append.mpr (.inr hmem))
  exact ((List.append_cons_inj_of_notMem front behind).mp same).2.2

namespace SCoMgr

variable {m m' : SCoMgr} {chain : List Nat} {free used before : List Int} {x y : Nat} {events : List MgrEvent}
  {f : SCoMgr → Int → List MgrEvent} {xs : List Nat} {live : Nat → Bool} {fuel : Nat} {i : Int}

/-- Every slot has an id of its own, or none yet. -/
def Stamped (m : SCoMgr) : Prop :=
  ∀ x : Nat, (x : Int) < m.pool.capacity → (m.info x).iPoolID = 0 ∨ (m.info x).iPoolID % m.pool.capacity = x

/-- What a step leaves: the coroutines that were there and still are keep their order, new ones stand in front. -/
structure Reorders (m : SCoMgr) (used : List Int) (m' : SCoMgr) (used' : List Int) : Prop where
  capacity : m'.pool.capacity = m.pool.capacity
  stamped : m.Stamped → m'.Stamped
  order : ∃ news, used' = news ++ used.filter fun p => decide (p ∈ used')
  calls : calledIds m'.log = calledIds m.log

theorem Stamped.same (h : m.Stamped) (capacity : m'.pool.capacity = m.pool.capacity)
    (hid : ∀ y, (m'.info y).iPoolID = (m.info y).iPoolID) : m'.Stamped := by
  intro y hy
  rw [capacity] at hy ⊢
  rw [hid]
  exact h y hy

theorem Reorders.same (capacity : m'.pool.capacity = m.pool.capacity)
    (hid : ∀ y, (m'.info y).iPoolID = (m.info y).iPoolID) (calls : calledIds m'.log = calledIds m.log) :
    m.Reorders used m' used :=
  ⟨capacity, fun h => h.same capacity hid, ⟨[], (filter_mem_self used).symm⟩, calls⟩

theorem Reorders.removed {before after : List Int} {p : Int} (nodup : used.Nodup) (split : used = before ++ p :: after)
    (capacity : m'.pool.capacity = m.pool.capacity) (hid : ∀ y, (m'.info y).iPoolID = (m.info y).iPoolID)
    (calls : calledIds m'.log = calledIds m.log) : m.Reorders used m' (before ++ after) := by
  subst split
  exact ⟨capacity, fun h => h.same capacity hid, ⟨[], (filter_mem_middle nodup).symm⟩, calls⟩

theorem Inv.reorders_alloc (h : m.Inv chain free used) :
    ∃ free' used', (m.step .alloc).Inv chain free' used' ∧ m.Reorders used (m.step .alloc) used' := by
  simp only [step_alive h.chained.alive]
  rcases h.alloc with ⟨hret, hsame, rfl⟩ | ⟨p, rest, z, pool', rfl, rfl, hid, heq, -, hcap, inv⟩
  · rw [hret, hsame]
    exact ⟨[], used, h.record rfl, .same rfl (fun _ => rfl) rfl⟩
  · refine ⟨rest, z :: used, inv, ?_⟩
    obtain ⟨-, -, hlog, hinfo, hpool⟩ := initCo_fields { m with pool := pool' } m.alloc.1 z
    rw [← heq] at hlog hinfo hpool
    have capacity : (m.alloc.2.record (.allocated m.alloc.1)).pool.capacity = m.pool.capacity :=
      (congrArg TObjPool.capacity hpool).trans hcap
    refine ⟨capacity, ?_, ⟨[(z : Int)], ?_⟩, ?_⟩
    · intro stamped y hy
      rw [capacity] at hy ⊢
      change (m.alloc.2.info y).iPoolID = 0 ∨ (m.alloc.2.info y).iPoolID % m.pool.capacity = y
      rw [hinfo]
      by_cases hyz : y = z
      · subst hyz
        rw [Function.update_self, hid]
        exact .inr (handle_emod (by omega) hy)
      · rw [Function.update_of_ne hyz]
        exact stamped y hy
    · refine congrArg ((z : Int) :: ·) (List.filter_eq_self.mpr fun p hp => ?_).symm
      exact decide_eq_true (List.mem_cons_of_mem _ hp)
    · change calledIds (.allocated m.alloc.1 :: m.alloc.2.log) = _
      rw [hlog]
      rfl

theorem calls_released (m : SCoMgr) (id : Int) :
    calledIds (m.record (.released id 0)).log = calledIds m.log := rfl

theorem Inv.reorders (h : m.Inv chain free used) {e : MgrEvent} (legal : e.Legal m) :
    ∃ chain' free' used', (m.step e).Inv chain' free' used' ∧ m.Reorders used (m.step e) used' := by
  have nodup : used.Nodup := (List.nodup_append.mp h.registry.repr.nodup).2.1
  cases e with
  | alloc => exact ⟨chain, h.reorders_alloc⟩
  | resume id ssize =>
    simp only [step_alive h.chained.alive]
    cases hget : m.getCo id with
    | none =>
      simp only [resume_of_none hget]
      exact ⟨chain, free, used, h.record rfl, .same rfl (fun _ => rfl) rfl⟩
    | some x =>
      obtain ⟨hx, rfl⟩ := h.registry.getCo_iff.mp hget
      obtain ⟨inv, -, -, hinfo, hpool, hlog⟩ := h.resume hx (h.off_chain (legal x hget)) ssize
      refine ⟨x :: chain, free, used, inv, .same (congrArg _ hpool) (fun y => by rw [hinfo]) ?_⟩
      rcases hlog with hlog | ⟨ret, hlog⟩
      · rw [hlog]
      · rw [hlog]
        rfl
  | yield expiretime ssize =>
    simp only [step_alive h.chained.alive]
    cases hget : m.getCo m.iRunningID with
    | none =>
      simp only [yield_of_none hget]
      exact ⟨chain, free, used, h.record rfl, .same rfl (fun _ => rfl) rfl⟩
    | some y =>
      rcases h.runningId with hzero | ⟨x, hhead, hid⟩
      · rw [hzero, h.registry.getCo_zero] at hget
        cases hget
      · obtain ⟨xs, rfl⟩ := List.head?_eq_some_iff.mp hhead
        obtain ⟨inv, hlog, -, hpool, hinfo, -⟩ := h.yield hid expiretime ssize
        refine ⟨xs, free, used, inv, .same (congrArg _ hpool) ?_ (by rw [hlog]; rfl)⟩
        intro z
        rw [hinfo]
        by_cases hzx : z = x
        · subst hzx
          rw [Function.update_self]
        · rw [Function.update_of_ne hzx]
  | ret =>
    simp only [step_alive h.chained.alive]
    cases chain with
    | nil =>
      have howner : m.sch.owner = none := h.owner_eq
      simp only [SCoMgr.finish, howner]
      exact ⟨[], free, used, h, .same rfl (fun _ => rfl) rfl⟩
    | cons x xs =>
      obtain ⟨before, after, hused, inv, hlog, -, hinfo, -, hcap, -⟩ := h.finish
      exact ⟨xs, _, _, inv, .removed nodup hused hcap (fun y => by rw [hinfo]) (by rw [hlog]; rfl)⟩
  | release id =>
    simp only [step_alive h.chained.alive]
    cases hget : m.getCo id with
    | none =>
      simp only [release_of_none hget]
      exact ⟨chain, free, used, h.record (erase_of_dead h hget), .same rfl (fun _ => rfl) rfl⟩
    | some x =>
      obtain ⟨hx, rfl⟩ := h.registry.getCo_iff.mp hget
      obtain ⟨before, after, hused, hret, inv, hcap, -⟩ := h.release hx (h.off_chain (legal x hget))
      simp only [hret]
      refine ⟨chain, _, _, inv, .removed nodup hused hcap (fun y => ?_) ?_⟩
      · exact congrArg CoInfo.iPoolID (congrFun (release_info m _) y)
      · exact (calls_released _ _).trans (congrArg calledIds (release_rest m _).1)
  | timeOut x =>
    simp only [step_alive h.chained.alive]
    exact ⟨chain, free, used, h.markTimeOut x, .same rfl (fun y => markTimeOut_id m x y) rfl⟩

theorem legalMgrRun_nil : LegalMgrRun m [] := by
  rintro k e ⟨⟩

theorem legalMgrRun_cons {e : MgrEvent} :
    LegalMgrRun m (e :: events) ↔ e.Legal m ∧ LegalMgrRun (m.step e) events := by
  constructor
  · intro h
    exact ⟨h 0 e rfl, fun k e' he' => h (k + 1) e' he'⟩
  · rintro ⟨first, rest⟩ k e' he'
    cases k with
    | zero =>
      obtain rfl := Option.some.inj he'
      exact first
    | succ k => exact rest k e' he'

theorem liveThrough_mem (h : m.liveThrough events y = true) : y ∈ m.slots := by
  cases events with
  | nil => exact of_decide_eq_true h
  | cons e events => exact of_decide_eq_true (Bool.and_eq_true_iff.mp h).1

/-- After a legal run the coroutines that have been there throughout stand in their old order, behind those that
came. -/
theorem Inv.reorders_run (h : m.Inv chain free used) (legal : LegalMgrRun m events) :
    ∃ chain' free' news,
      (events.foldl SCoMgr.step m).Inv chain' free' (news ++ used.filter fun p => m.liveThrough events p.toNat) ∧
      (events.foldl SCoMgr.step m).pool.capacity = m.pool.capacity ∧
      (m.Stamped → (events.foldl SCoMgr.step m).Stamped) ∧
      calledIds (events.foldl SCoMgr.step m).log = calledIds m.log := by
  have mem : ∀ {m : SCoMgr} {chain free used}, m.Inv chain free used → ∀ p ∈ used, p.toNat ∈ m.slots := by
    intro m chain free used h p hp
    rw [h.mem_slots, h.registry.casts hp]
    exact hp
  induction events generalizing m chain free used with
  | nil =>
    refine ⟨chain, free, [], ?_, rfl, id, rfl⟩
    have all : (used.filter fun p => m.liveThrough [] p.toNat) = used :=
      List.filter_eq_self.mpr fun p hp => decide_eq_true (mem h p hp)
    rw [all]
    exact h
  | cons e events ih =>
    obtain ⟨legal₁, legal'⟩ := legalMgrRun_cons.mp legal
    obtain ⟨chain₁, free₁, used₁, inv₁, reorders⟩ := h.reorders legal₁
    obtain ⟨chain', free', news', inv', capacity', stamped', calls'⟩ := ih inv₁ legal'
    obtain ⟨news, horder⟩ := reorders.order
    refine ⟨chain', free', news' ++ news.filter (fun p => (m.step e).liveThrough events p.toNat), ?_,
      capacity'.trans reorders.capacity, fun stamped => stamped' (reorders.stamped stamped),
      calls'.trans reorders.calls⟩
    have through : ∀ p ∈ used, m.liveThrough (e :: events) p.toNat =
        ((m.step e).liveThrough events p.toNat && decide (p ∈ used₁)) := by
      intro p hp
      have hmem := mem h p hp
      have hcast := h.registry.casts hp
      simp only [liveThrough, hmem, decide_true, Bool.true_and]
      cases hlive : (m.step e).liveThrough events p.toNat with
      | false => rfl
      | true =>
        have hused := inv₁.mem_slots.mp (liveThrough_mem hlive)
        rw [hcast] at hused
        simp [hused]
    have hfilter : (used.filter fun p => m.liveThrough (e :: events) p.toNat) =
        (used.filter fun p => decide (p ∈ used₁)).filter fun p => (m.step e).liveThrough events p.toNat := by
      rw [List.filter_filter]
      exact List.filter_congr through
    rw [hfilter, List.append_assoc, ← List.filter_append, ← horder]
    exact inv'

theorem Inv.outside_chain (h : m.Inv chain free used) (outside : m.sch.owner = none) : chain = [] := by
  rw [h.owner_eq] at outside
  exact List.head?_eq_none_iff.mp outside

/-- A call of the function leaves a manager outside of all coroutines, where those that stayed live stand in their
old order. -/
theorem Inv.funVisit (h : m.Inv [] free used) (legal : LegalFun f) (x : Nat) :
    ∃ free' news, (m.funVisit f x).Inv [] free' (news ++ used.filter fun p => m.stillLive f x (fun _ => true) p.toNat) ∧
      (m.funVisit f x).pool.capacity = m.pool.capacity ∧ (m.Stamped → (m.funVisit f x).Stamped) ∧
      calledIds (m.funVisit f x).log = (m.info x).iPoolID :: calledIds m.log := by
  have called : (m.record (.called (m.info x).iPoolID)).Inv [] free used := h.record rfl
  obtain ⟨run, outside⟩ := legal _ (m.info x).iPoolID ⟨_, _, _, called⟩ h.owner_eq
  obtain ⟨chain', free', news, inv, capacity, stamped, calls⟩ := called.reorders_run run
  obtain rfl := inv.outside_chain outside
  refine ⟨free', news, ?_, capacity, stamped, calls⟩
  simpa only [SCoMgr.funVisit, stillLive, Bool.true_and] using inv

/-- The same for the coroutines that a sweep has before it. -/
theorem Inv.funVisit_rest (h : m.Inv [] free (before ++ (xs.filter live).map Nat.cast)) (legal : LegalFun f) (x : Nat) :
    ∃ free' before', (m.funVisit f x).Inv [] free' (before' ++ (xs.filter (m.stillLive f x live)).map Nat.cast) := by
  obtain ⟨free', news, inv, -⟩ := h.funVisit legal x
  refine ⟨free', news ++ before.filter fun p => m.stillLive f x (fun _ => true) p.toNat, ?_⟩
  have rest : ((xs.filter live).map (Nat.cast : Nat → Int)).filter (fun p => m.stillLive f x (fun _ => true) p.toNat) =
      (xs.filter (m.stillLive f x live)).map Nat.cast := by
    rw [List.filter_map, List.filter_filter]
    congr 1
    refine List.filter_congr fun y _ => ?_
    simp only [stillLive, Function.comp_apply, Int.toNat_natCast, Bool.true_and, Bool.and_comm]
  rw [List.filter_append, rest, ← List.append_assoc] at inv
  exact inv

/-- The link of a slot, on whichever list it stands, is the next one that the sweep is to meet if and only if the
slot leads there; with no coroutine left it does not matter. -/
theorem Inv.leadsTo_iff (h : m.Inv [] free (before ++ xs.map Nat.cast)) (hx : (x : Int) < m.pool.capacity) :
    m.LeadsTo x xs ↔
      (m.pool.idx x).nextIdx = (xs.map (Nat.cast : Nat → Int)).head?.getD (-1) ∨ m.slots = [] := by
  have hslots := h.slots_eq
  have hnodup := h.registry.repr.nodup
  have nonneg : ∀ p ∈ free ++ (before ++ xs.map Nat.cast), 0 ≤ p := fun p hp => h.registry.repr.nonneg hp
  constructor
  · rintro (⟨front, hfront⟩ | ⟨rfl, htail | hgone⟩)
    · left
      have hused : before ++ xs.map Nat.cast = front.map Nat.cast ++ (x : Int) :: xs.map Nat.cast := by
        rw [← hslots, hfront, List.map_append, List.map_cons]
      have hwalk := h.registry.repr.usedNext
      rw [hused] at hwalk
      exact walk_link hwalk
    · left
      have hlast : free.getLast? = some (x : Int) := by
        rw [h.registry.repr.freeTail] at htail
        exact (getD_eq_iff_some (Int.natCast_nonneg x)).mp htail.symm
      obtain ⟨front, rfl⟩ := List.getLast?_eq_some_iff.mp hlast
      exact walk_link h.registry.repr.freeNext
    · exact .inr hgone
  · rintro (hnext | hgone)
    · have hmem : (x : Int) ∈ free ++ (before ++ xs.map Nat.cast) :=
        (h.registry.repr.slots x).mpr ⟨Int.natCast_nonneg x, hx⟩
      rcases List.mem_append.mp hmem with hfree | hused
      · -- a free slot is not followed by a used one: it is the last
        obtain ⟨front, behind, rfl⟩ := List.append_of_mem hfree
        have hlink : (m.pool.idx x).nextIdx = behind.head?.getD (-1) := walk_link h.registry.repr.freeNext
        rw [hlink] at hnext
        cases behind with
        | cons b behind =>
          have hb : 0 ≤ b := nonneg b (by simp)
          have hhead : (xs.map (Nat.cast : Nat → Int)).head? = some b := (getD_eq_iff_some hb).mp hnext
          have hb' : b ∈ before ++ xs.map Nat.cast := List.mem_append.mpr (.inr (List.mem_of_mem_head? hhead))
          exact (h.registry.repr.disjoint (by simp) hb').elim
        | nil =>
          cases xs with
          | cons y xs =>
            simp only [List.head?_nil, Option.getD_none, List.map_cons, List.head?_cons, Option.getD_some] at hnext
            omega
          | nil =>
            refine .inr ⟨rfl, .inl ?_⟩
            rw [h.registry.repr.freeTail]
            simp
      · obtain ⟨front, behind, hsplit⟩ := List.append_of_mem hused
        have hwalk := h.registry.repr.usedNext
        rw [hsplit] at hwalk
        have hlink : (m.pool.idx x).nextIdx = behind.head?.getD (-1) := walk_link hwalk
        rw [hlink] at hnext
        have hbehind : behind = xs.map Nat.cast := by
          cases xs with
          | nil =>
            cases behind with
            | nil => rfl
            | cons b behind =>
              have hb : 0 ≤ b := nonneg b (by rw [hsplit]; simp)
              simp only [List.head?_cons, Option.getD_some, List.map_nil, List.head?_nil, Option.getD_none] at hnext
              omega
          | cons y xs =>
            have hhead : behind.head? = some (y : Int) := (getD_eq_iff_some (Int.natCast_nonneg y)).mp hnext.symm
            obtain ⟨rest, rfl⟩ := List.head?_eq_some_iff.mp hhead
            have hused' := (List.nodup_append.mp hnodup).2.1
            have same : before ++ (y : Int) :: xs.map Nat.cast = (front ++ [(x : Int)]) ++ (y : Int) :: rest := by
              simpa using hsplit
            exact congrArg ((y : Int) :: ·) (behind_unique hused' same).symm
        refine .inl ⟨front.map Int.toNat, ?_⟩
        have hback : m.slots = (before ++ xs.map (Nat.cast : Nat → Int)).map Int.toNat := by
          rw [← hslots, List.map_map]
          exact (List.map_id _).symm
        rw [hback, hsplit, hbehind]
        simp [List.map_map, Function.comp_def]
    · right
      rw [hgone] at hslots
      have hempty : before ++ xs.map (Nat.cast : Nat → Int) = [] := hslots.symm
      exact ⟨List.map_eq_nil_iff.mp (List.append_eq_nil_iff.mp hempty).2, .inr hgone⟩

/-- The loop of `ProcessAllActiveFun` at the link `i`. -/
def funLoop (f : SCoMgr → Int → List MgrEvent) (fuel : Nat) (m : SCoMgr) (i : Int) : Option SCoMgr :=
  travelOwnLoop pool setPool (fnProcessfun f) fuel m i

theorem funLoop_end (m : SCoMgr) : funLoop f (fuel + 1) m (-1) = some m := by simp [funLoop, travelOwnLoop]

theorem funLoop_budget (run : funLoop f fuel m i = some m') : ∃ n, fuel = n + 1 := by
  cases fuel with
  | zero => cases run
  | succ fuel => exact ⟨fuel, rfl⟩

theorem funLoop_null (hi : i ≠ -1) (hget : objpoolGetBypos m.pool i = none) :
    funLoop f (fuel + 1) m i = funLoop f fuel m (m.pool.idx i).nextIdx := by
  simp only [funLoop, travelOwnLoop, hi, if_false, hget, fnProcessfun]

theorem funLoop_call (hget : objpoolGetBypos m.pool x = some (m.pool.objAt x)) :
    funLoop f (fuel + 1) m x = funLoop f fuel (m.funVisit f x) ((m.funVisit f x).pool.idx x).nextIdx := by
  have hx : ¬ (x : Int) = -1 := by omega
  have hslot : (m.pool.objAt x).slot.toNat = x := rfl
  simp only [funLoop, travelOwnLoop, hx, if_false, hget, fnProcessfun, hslot]

/-- Of no pool in use the loop sees only null pointers: it runs through the free list. -/
theorem funLoop_gone (gone : m.pool.usedCount = 0) {rest : List Int} (walk : Walk m.pool.next (-1) i rest) :
    ∃ fuel, funLoop f fuel m i = some m := by
  induction rest generalizing i with
  | nil =>
    obtain rfl : i = -1 := walk
    exact ⟨1, funLoop_end m⟩
  | cons p rest ih =>
    obtain ⟨rfl, hi, walk⟩ := walk
    obtain ⟨fuel, hrun⟩ := ih walk
    have hget : objpoolGetBypos m.pool i = none := by
      rw [objpoolGetBypos, if_pos (.inr (.inr (by omega)))]
    exact ⟨fuel + 1, (funLoop_null hi hget).trans hrun⟩

theorem Inv.usedCount_pos (h : m.Inv chain free used) (hne : used ≠ []) : 0 < m.pool.usedCount := by
  have hpos := List.length_pos_iff.mpr hne
  rw [h.registry.repr.usedCount]
  omega

/-- The loop only adds calls. -/
theorem Inv.funLoop_extends (h : m.Inv [] free used) (legal : LegalFun f) (run : funLoop f fuel m i = some m') :
    ∃ more, calledIds m'.log = more ++ calledIds m.log := by
  induction fuel generalizing m free used i with
  | zero => cases run
  | succ fuel ih =>
    by_cases hi : i = -1
    · subst hi
      rw [funLoop_end] at run
      cases run
      exact ⟨[], rfl⟩
    · cases hget : objpoolGetBypos m.pool i with
      | none =>
        rw [funLoop_null hi hget] at run
        exact ih h run
      | some p =>
        have range : 0 ≤ i := by
          by_contra hneg
          rw [objpoolGetBypos, if_pos (.inr (.inl (by omega)))] at hget
          cases hget
        obtain ⟨x, rfl⟩ := Int.eq_ofNat_of_zero_le range
        have hobj : objpoolGetBypos m.pool x = some (m.pool.objAt x) := by
          unfold objpoolGetBypos at hget ⊢
          split at hget
          · cases hget
          next hok => rw [if_neg hok]
        rw [funLoop_call hobj] at run
        obtain ⟨free', news, inv, -, -, calls⟩ := h.funVisit legal x
        obtain ⟨more, hmore⟩ := ih inv run
        exact ⟨more ++ [(m.info x).iPoolID], by rw [hmore, calls, List.append_assoc]; rfl⟩

theorem liveCalls_eq_nil (none : xs.filter live = []) : liveCalls f xs live m = [] := by
  induction xs with
  | nil => rfl
  | cons x xs ih =>
    cases hx : live x with
    | true => simp [hx] at none
    | false =>
      rw [List.filter_cons_of_neg (by simp [hx])] at none
      simp only [liveCalls, hx, Bool.false_eq_true, if_false]
      exact ih none

theorem findsNext_of_nil (none : xs.filter live = []) : FindsNext f xs live m := by
  induction xs with
  | nil => trivial
  | cons x xs ih =>
    cases hx : live x with
    | true => simp [hx] at none
    | false =>
      rw [List.filter_cons_of_neg (by simp [hx])] at none
      simp only [FindsNext, hx, Bool.false_eq_true, if_false]
      exact ih none

/-- The first call is for the first one that is still live. -/
theorem liveCalls_head {y : Nat} {ys : List Nat} (first : xs.filter live = y :: ys) :
    ∃ rest, liveCalls f xs live m = (m.info y).iPoolID :: rest := by
  induction xs with
  | nil => cases first
  | cons x xs ih =>
    cases hx : live x with
    | true =>
      rw [List.filter_cons_of_pos hx] at first
      obtain ⟨rfl, -⟩ := List.cons.inj first
      exact ⟨liveCalls f xs (m.stillLive f x live) (m.funVisit f x), by simp only [liveCalls, hx, if_true]⟩
    | false =>
      rw [List.filter_cons_of_neg (by simp [hx])] at first
      simp only [liveCalls, hx, Bool.false_eq_true, if_false]
      exact ih first

section Turn

variable (h : m.Inv [] free (before ++ (x :: xs.filter live).map Nat.cast)) (legal : LegalFun f)

include h in
theorem Inv.funLoop_first :
    funLoop f (fuel + 1) m (((x :: xs.filter live).map (Nat.cast : Nat → Int)).head?.getD (-1)) =
      funLoop f fuel (m.funVisit f x) ((m.funVisit f x).pool.idx x).nextIdx :=
  funLoop_call (objpoolGetBypos_of_used h.registry.repr (by simp))

include h legal in
/-- The loop has called `f` for `x`: the rest is before it, and the link of `x` is the next one or no one is left
anywhere, if and only if the slot of `x` leads on. -/
theorem Inv.funVisit_turn :
    ∃ free' before', (m.funVisit f x).Inv [] free' (before' ++ (xs.filter (m.stillLive f x live)).map Nat.cast) ∧
      (m.Stamped → (m.funVisit f x).Stamped) ∧
      calledIds (m.funVisit f x).log = (m.info x).iPoolID :: calledIds m.log ∧
      ((m.funVisit f x).LeadsTo x (xs.filter (m.stillLive f x live)) ↔
        ((m.funVisit f x).pool.idx x).nextIdx =
          ((xs.filter (m.stillLive f x live)).map (Nat.cast : Nat → Int)).head?.getD (-1) ∨
        (m.funVisit f x).slots = []) := by
  have hrange : (x : Int) < m.pool.capacity := (h.registry.repr.used_range (by simp)).2.1
  have passed : m.Inv [] free ((before ++ [(x : Int)]) ++ (xs.filter live).map Nat.cast) := by simpa using h
  obtain ⟨-, -, -, capacity, stamped, calls⟩ := h.funVisit legal x
  obtain ⟨free', before', inv⟩ := passed.funVisit_rest legal x
  rw [← capacity] at hrange
  exact ⟨free', before', inv, stamped, calls, inv.leadsTo_iff hrange⟩

end Turn

/-- The slot of a coroutine that the call leaves live leads on. -/
theorem Inv.leadsTo_of_live (h : m.Inv [] free (before ++ ((x :: xs).filter live).map Nat.cast)) (legal : LegalFun f)
    (stays : m.stillLive f x live x = true) :
    (m.funVisit f x).LeadsTo x (xs.filter (m.stillLive f x live)) := by
  obtain ⟨free', before', inv⟩ := h.funVisit_rest legal x
  rw [List.filter_cons_of_pos stays] at inv
  obtain ⟨front, back, hslots, -, hback⟩ := List.map_eq_append_iff.mp inv.slots_eq
  have same := List.map_injective_iff.mpr Nat.cast_injective hback
  exact .inl ⟨front, by rw [hslots, same]⟩

theorem Inv.findsNext_of_spares (h : m.Inv [] free (before ++ (xs.filter live).map Nat.cast)) (legal : LegalFun f)
    (spares : SparesOwn f) : FindsNext f xs live m := by
  induction xs generalizing m free before live with
  | nil => trivial
  | cons x xs ih =>
    cases hx : live x with
    | false =>
      have hfilter : (x :: xs).filter live = xs.filter live := List.filter_cons_of_neg (by simp [hx])
      simp only [FindsNext, hx, Bool.false_eq_true, if_false]
      exact ih (hfilter ▸ h)
    | true =>
      have hmem : x ∈ m.slots := h.mem_slots.mpr (by simp [hx])
      have stays : m.stillLive f x live x = true := by
        have spared := spares m x ⟨_, _, _, h⟩ h.owner_eq hmem
        simpa only [stillLive, hx, Bool.true_and] using spared
      simp only [FindsNext, hx, if_true]
      refine ⟨h.leadsTo_of_live legal stays, ?_⟩
      rw [List.filter_cons_of_pos hx] at h
      obtain ⟨free', before', inv, -⟩ := h.funVisit_turn legal
      exact ih inv

theorem Inv.gone_iff (h : m.Inv [] free used) : m.slots = [] ↔ used = [] := by
  rw [← h.slots_eq, List.map_eq_nil_iff]

theorem Inv.usedCount_zero (h : m.Inv [] free used) (gone : m.slots = []) : m.pool.usedCount = 0 := by
  rw [h.registry.repr.usedCount, h.gone_iff.mp gone]
  rfl

/-- With no coroutine anywhere the loop ends from any slot. -/
theorem Inv.funLoop_gone (h : m.Inv [] free used) (gone : m.slots = []) (hx : (x : Int) < m.pool.capacity) :
    ∃ fuel, funLoop f fuel m (m.pool.idx x).nextIdx = some m := by
  have hmem : (x : Int) ∈ free ++ used := (h.registry.repr.slots x).mpr ⟨Int.natCast_nonneg x, hx⟩
  rw [h.gone_iff.mp gone, List.append_nil] at hmem
  obtain ⟨front, behind, rfl⟩ := List.append_of_mem hmem
  have hwalk := h.registry.repr.freeNext
  rw [List.append_cons] at hwalk
  have hlink : (m.pool.idx x).nextIdx = behind.head?.getD (-1) := walk_link h.registry.repr.freeNext
  rw [hlink]
  exact SCoMgr.funLoop_gone (h.usedCount_zero gone) (walk_tail_of_append hwalk)

/-- Where every slot leads on, the loop makes the calls that it is to make. -/
theorem Inv.funLoop_covers (h : m.Inv [] free (before ++ (xs.filter live).map Nat.cast)) (legal : LegalFun f)
    (finds : FindsNext f xs live m) :
    ∃ fuel m', funLoop f fuel m (((xs.filter live).map (Nat.cast : Nat → Int)).head?.getD (-1)) = some m' ∧
      calledIds m'.log = (liveCalls f xs live m).reverse ++ calledIds m.log := by
  induction xs generalizing m free before live with
  | nil => exact ⟨1, m, funLoop_end m, rfl⟩
  | cons x xs ih =>
    cases hx : live x with
    | false =>
      have hfilter : (x :: xs).filter live = xs.filter live := List.filter_cons_of_neg (by simp [hx])
      simp only [FindsNext, liveCalls, hx, Bool.false_eq_true, if_false, hfilter] at h finds ⊢
      exact ih h finds
    | true =>
      rw [List.filter_cons_of_pos hx] at h ⊢
      simp only [FindsNext, hx, if_true] at finds
      simp only [liveCalls, hx, if_true, List.reverse_cons, List.append_assoc, List.singleton_append]
      obtain ⟨free', before', inv, -, calls, leads⟩ := h.funVisit_turn legal
      rcases leads.mp finds.1 with hnext | gone
      · obtain ⟨fuel, m', hrun, hcalls⟩ := ih inv finds.2
        exact ⟨fuel + 1, m', h.funLoop_first.trans (hnext ▸ hrun), by rw [hcalls, calls]⟩
      · have none : xs.filter (m.stillLive f x live) = [] := by
          have hempty := inv.gone_iff.mp gone
          exact List.map_eq_nil_iff.mp (List.append_eq_nil_iff.mp hempty).2
        obtain ⟨-, -, -, capacity, -⟩ := h.funVisit legal x
        have hrange : (x : Int) < (m.funVisit f x).pool.capacity := by
          rw [capacity]
          exact (h.registry.repr.used_range (by simp)).2.1
        obtain ⟨fuel, hrun⟩ := inv.funLoop_gone gone hrange
        refine ⟨fuel + 1, _, h.funLoop_first.trans hrun, ?_⟩
        rw [liveCalls_eq_nil none, calls]
        rfl

/-- Two slots do not have one id. -/
theorem Stamped.ids_ne (stamped : m.Stamped) (h : m.Inv [] free used) {y : Nat} (hy : (y : Int) ∈ used)
    (hx : (x : Int) < m.pool.capacity) (hxy : x ≠ y) : (m.info x).iPoolID ≠ (m.info y).iPoolID := by
  intro heq
  have hpos := h.registry.id_pos hy
  have hyc := (h.registry.repr.used_range hy).2.1
  rcases stamped x hx with hzero | hmod
  · omega
  · rcases stamped y hyc with hzero | hmod'
    · omega
    · rw [heq, hmod'] at hmod
      exact hxy (Int.ofNat.inj hmod).symm

/-- The loop at a slot `i` where it is not to go next makes other calls. -/
theorem Inv.funLoop_astray (h : m.Inv [] free (before ++ (xs.filter live).map Nat.cast)) (legal : LegalFun f)
    (stamped : m.Stamped) (hi : 0 ≤ i ∧ i < m.pool.capacity ∨ i = -1)
    (astray : i ≠ ((xs.filter live).map (Nat.cast : Nat → Int)).head?.getD (-1)) (some_used : m.slots ≠ [])
    (run : funLoop f fuel m i = some m') :
    calledIds m'.log ≠ (liveCalls f xs live m).reverse ++ calledIds m.log := by
  intro hcalls
  obtain ⟨fuel, rfl⟩ := funLoop_budget run
  rcases hi with ⟨hi0, hic⟩ | rfl
  · obtain ⟨x, rfl⟩ := Int.eq_ofNat_of_zero_le hi0
    have hpos : 0 < m.pool.usedCount := h.usedCount_pos fun hempty => some_used (h.gone_iff.mpr hempty)
    have hget : objpoolGetBypos m.pool x = some (m.pool.objAt x) := by
      rw [objpoolGetBypos, if_neg (by omega)]
    rw [funLoop_call hget] at run
    obtain ⟨free', news, inv, -, -, calls⟩ := h.funVisit legal x
    obtain ⟨more, hmore⟩ := inv.funLoop_extends legal run
    rw [hmore, calls, List.append_cons, List.append_left_inj] at hcalls
    have hreverse : liveCalls f xs live m = (m.info x).iPoolID :: more.reverse := by
      rw [← List.reverse_reverse (liveCalls f xs live m), ← hcalls]
      simp
    cases hfilter : xs.filter live with
    | nil =>
      rw [liveCalls_eq_nil hfilter] at hreverse
      cases hreverse
    | cons y ys =>
      obtain ⟨rest, hfirst⟩ := liveCalls_head (f := f) (m := m) hfilter
      rw [hfirst] at hreverse
      have hxy : x ≠ y := by
        rintro rfl
        exact astray (by simp [hfilter])
      exact stamped.ids_ne h (by simp [hfilter]) hic hxy (List.cons.inj hreverse).1.symm
  · rw [funLoop_end] at run
    obtain rfl := Option.some.inj run
    have hnil : liveCalls f xs live m = [] := by
      have hlen := congrArg List.length hcalls
      rw [List.length_append, List.length_reverse] at hlen
      exact List.length_eq_zero_iff.mp (by omega)
    cases hfilter : xs.filter live with
    | nil => exact astray (by simp [hfilter])
    | cons y ys =>
      obtain ⟨rest, hfirst⟩ := liveCalls_head (f := f) (m := m) hfilter
      rw [hfirst] at hnil
      cases hnil

theorem Inv.link_range (h : m.Inv [] free used) (hx : (x : Int) < m.pool.capacity) :
    0 ≤ (m.pool.idx x).nextIdx ∧ (m.pool.idx x).nextIdx < m.pool.capacity ∨ (m.pool.idx x).nextIdx = -1 := by
  have hmem : (x : Int) ∈ free ++ used := (h.registry.repr.slots x).mpr ⟨Int.natCast_nonneg x, hx⟩
  have range : ∀ {p : Int}, p ∈ free ++ used → 0 ≤ p ∧ p < m.pool.capacity := fun hp =>
    (h.registry.repr.slots _).mp hp
  rcases List.mem_append.mp hmem with hfree | hused
  · exact (walk_link_mem h.registry.repr.freeNext hfree).imp_left fun hp => range (List.mem_append.mpr (.inl hp))
  · exact (walk_link_mem h.registry.repr.usedNext hused).imp_left fun hp => range (List.mem_append.mpr (.inr hp))

/-- A sweep that makes the calls that it is to make found every slot to lead on. -/
theorem Inv.findsNext_of_covers (h : m.Inv [] free (before ++ (xs.filter live).map Nat.cast)) (legal : LegalFun f)
    (stamped : m.Stamped)
    (run : funLoop f fuel m (((xs.filter live).map (Nat.cast : Nat → Int)).head?.getD (-1)) = some m')
    (calls : calledIds m'.log = (liveCalls f xs live m).reverse ++ calledIds m.log) : FindsNext f xs live m := by
  induction xs generalizing m free before live fuel with
  | nil => trivial
  | cons x xs ih =>
    cases hx : live x with
    | false =>
      have hfilter : (x :: xs).filter live = xs.filter live := List.filter_cons_of_neg (by simp [hx])
      simp only [FindsNext, liveCalls, hx, Bool.false_eq_true, if_false, hfilter] at h run calls ⊢
      exact ih h stamped run calls
    | true =>
      rw [List.filter_cons_of_pos hx] at h run
      obtain ⟨fuel, rfl⟩ := funLoop_budget run
      rw [h.funLoop_first] at run
      simp only [FindsNext, hx, if_true]
      simp only [liveCalls, hx, if_true, List.reverse_cons, List.append_assoc, List.singleton_append] at calls
      obtain ⟨free', before', inv, stamped', calls', leads⟩ := h.funVisit_turn legal
      rw [← calls'] at calls
      by_cases hnext : ((m.funVisit f x).pool.idx x).nextIdx =
          ((xs.filter (m.stillLive f x live)).map (Nat.cast : Nat → Int)).head?.getD (-1)
      · rw [hnext] at run
        exact ⟨leads.mpr (.inl hnext), ih inv (stamped' stamped) run calls⟩
      · by_cases gone : (m.funVisit f x).slots = []
        · refine ⟨leads.mpr (.inr gone), findsNext_of_nil ?_⟩
          have hempty := inv.gone_iff.mp gone
          exact List.map_eq_nil_iff.mp (List.append_eq_nil_iff.mp hempty).2
        · obtain ⟨-, -, -, capacity, -⟩ := h.funVisit legal x
          have hrange : (x : Int) < (m.funVisit f x).pool.capacity := by
            rw [capacity]
            exact (h.registry.repr.used_range (by simp)).2.1
          exact absurd calls (inv.funLoop_astray legal (stamped' stamped) (inv.link_range hrange) hnext gone run)

theorem Inv.all_slots (h : m.Inv [] free used) :
    m.Inv [] free ([] ++ (m.slots.filter fun _ => true).map Nat.cast) := by
  have all : m.slots.filter (fun _ => true) = m.slots := List.filter_eq_self.mpr fun _ _ => rfl
  rw [all, h.slots_eq]
  exact h

/-- The calls that `ProcessAllActiveFun` makes are those for the coroutines still live when they are reached, if
and only if after each of these calls its slot leads to the next one. -/
theorem Inv.processAllActiveFun (h : m.Inv [] free used) (stamped : m.Stamped) (legal : LegalFun f) :
    (∃ fuel m', m.processAllActiveFun fuel f = some m' ∧
      calledIds m'.log = (liveCalls f m.slots (fun _ => true) m).reverse ++ calledIds m.log) ↔
      FindsNext f m.slots (fun _ => true) m := by
  have all : m.slots.filter (fun _ => true) = m.slots := List.filter_eq_self.mpr fun _ _ => rfl
  have whole := h.all_slots
  have hhead : ((m.slots.filter fun _ => true).map (Nat.cast : Nat → Int)).head?.getD (-1) = m.pool.usedHead := by
    rw [all, h.slots_eq]
    exact (walk_head_eq h.registry.repr.usedNext).symm
  constructor
  · rintro ⟨fuel, m', hrun, calls⟩
    exact whole.findsNext_of_covers legal stamped ((congrArg (funLoop f fuel m) hhead).trans hrun) calls
  · intro finds
    obtain ⟨fuel, m', hrun, calls⟩ := whole.funLoop_covers legal finds
    exact ⟨fuel, m', (congrArg (funLoop f fuel m) hhead).symm.trans hrun, calls⟩

theorem Initial.stamped (start : m.Initial) : m.Stamped := by
  obtain ⟨malloc, cap, unit, pool, iStackSize, iMode, firststack, secondstack, -, -, -, rfl⟩ := start
  exact fun _ _ => .inl rfl

theorem Inv.no_chain (h : m.Inv [] free used) (x : Nat) : ¬ OnChain (fun y => (m.sch.co y).parent) m.sch.pRunCo x := by
  intro on
  exact absurd ((onChain_iff_mem h.chained.linked).mp on) (by simp)

theorem Inv.runs_none (h : m.Inv [] free used) : m.getCo m.iRunningID = none := by
  rcases h.runningId with hzero | ⟨x, hhead, -⟩
  · rw [hzero]
    exact h.registry.getCo_zero
  · cases hhead

/-- `f` releases its coroutine. -/
def releaseOwn (_ : SCoMgr) (id : Int) : List MgrEvent := [.release id]

theorem legalFun_releaseOwn : LegalFun releaseOwn := by
  rintro m id ⟨chain, free, used, h⟩ outside
  obtain rfl := h.outside_chain outside
  refine ⟨legalMgrRun_cons.mpr ⟨fun x _ => h.no_chain x, legalMgrRun_nil⟩, ?_⟩
  change (m.step (.release id)).sch.owner = none
  simp only [step_alive h.chained.alive]
  cases hget : m.getCo id with
  | none =>
    simp only [release_of_none hget]
    exact outside
  | some x =>
    obtain ⟨hx, rfl⟩ := h.registry.getCo_iff.mp hget
    obtain ⟨before, after, -, -, inv, -⟩ := h.release hx (by simp)
    exact inv.owner_eq

/-- `f` resumes its coroutine, which yields until `expiretime`, or returns. -/
def resumeOwn (ending : Option Int) (_ : SCoMgr) (id : Int) : List MgrEvent :=
  [.resume id 0, (Turn.mk 0 ending 0).last]

theorem legalFun_resumeOwn (ending : Option Int) : LegalFun (resumeOwn ending) := by
  rintro m id ⟨chain, free, used, h⟩ outside
  obtain rfl := h.outside_chain outside
  have first : (MgrEvent.resume id 0).Legal m := fun x _ => h.no_chain x
  have second : ∀ m' : SCoMgr, (Turn.mk 0 ending 0).last.Legal m' := by
    intro m'
    cases ending <;> trivial
  refine ⟨legalMgrRun_cons.mpr ⟨first, legalMgrRun_cons.mpr ⟨second _, legalMgrRun_nil⟩⟩, ?_⟩
  change ((m.step (.resume id 0)).step (Turn.mk 0 ending 0).last).sch.owner = none
  have hstep : m.step (.resume id 0) = m.resume id 0 := step_alive h.chained.alive _
  rw [hstep]
  cases hget : m.getCo id with
  | none =>
    -- no coroutine runs: a `Yield` fails, and there is no function to return from
    rw [resume_of_none hget]
    have refused : (m.record (.resumed m.sch.owner id (-1))).Inv [] free used := h.record rfl
    have howner : (m.record (.resumed m.sch.owner id (-1))).sch.owner = none := outside
    cases ending with
    | none =>
      refine (congrArg (fun m => m.sch.owner) refused.step_ret).trans ?_
      simp only [SCoMgr.finish, howner]
    | some expiretime =>
      refine (congrArg (fun m => m.sch.owner) (refused.step_yield expiretime 0)).trans ?_
      simp only [yield_of_none refused.runs_none]
      exact howner
  | some x =>
    obtain ⟨hx, rfl⟩ := h.registry.getCo_iff.mp hget
    obtain ⟨inv, running, -, hinfo, -⟩ := h.resume hx (by simp) 0
    cases ending with
    | none =>
      obtain ⟨before, after, -, inv', -⟩ := inv.finish
      exact (congrArg (fun m => m.sch.owner) inv.step_ret).trans inv'.owner_eq
    | some expiretime =>
      have same := congrArg CoInfo.iPoolID (congrFun hinfo x)
      have yielded := (inv.yield (running.trans same.symm) expiretime 0).1
      exact (congrArg (fun m => m.sch.owner) (inv.step_yield expiretime 0)).trans yielded.owner_eq

end SCoMgr

variable {m₀ : SCoMgr} {events : List MgrEvent}

theorem mgrAt_stamped (start : m₀.Initial) (legal : LegalMgrRun m₀ events) (k : Nat) : (mgrAt m₀ events k).Stamped := by
  refine stateAt_induct start.stamped ?_ k
  intro k e he stamped
  obtain ⟨chain, free, used, inv⟩ := mgrAt_ordered start legal k
  obtain ⟨_, _, _, -, reorders⟩ := inv.reorders (legal k e he)
  exact reorders.stamped stamped

/-- What a sweep from outside of all coroutines reaches. `ProcessAllExpire` stops behind the first coroutine that
it runs to its end, because the slot of that one then ends the free list; `ProcessAllActiveFun` goes wherever the
link of a slot leads once the function has been called for it, and that is right as long as the function leaves its
coroutine live. -/
theorem sweep_complete_iff (start : m₀.Initial) (legal : LegalMgrRun m₀ events) (k : Nat)
    (outside : (mgrAt m₀ events k).sch.owner = none) :
    let m := mgrAt m₀ events k
    (∀ x, x ∈ m.slots ↔ ∃ id, m.getCo id = some x) ∧
    (∀ tNow turn, ∃ m', m.processAllExpire tNow turn = some m' ∧
      ((∀ x, m.Expired tNow x → (outsideResumes m'.sch.log).count x = (outsideResumes m.sch.log).count x + 1) ↔
        ∀ before x after, m.slots = before ++ x :: after → (m.info x).tExpireTime ≤ tNow →
          (turn x).ending = none → ∀ y ∈ after, ¬ m.Expired tNow y)) ∧
    ∀ f, SCoMgr.LegalFun f →
      ((∃ fuel m', m.processAllActiveFun fuel f = some m' ∧
        calledIds m'.log = (SCoMgr.liveCalls f m.slots (fun _ => true) m).reverse ++ calledIds m.log) ↔
        SCoMgr.FindsNext f m.slots (fun _ => true) m) ∧
      (SCoMgr.SparesOwn f → SCoMgr.FindsNext f m.slots (fun _ => true) m) := by
  intro m
  obtain ⟨chain, free, used, inv⟩ : m.Ordered := mgrAt_ordered start legal k
  obtain rfl := inv.outside_chain outside
  have stamped : m.Stamped := mgrAt_stamped start legal k
  refine ⟨?_, inv.processAllExpire, fun f legal =>
    ⟨inv.processAllActiveFun stamped legal, inv.all_slots.findsNext_of_spares legal⟩⟩
  intro x
  rw [inv.mem_slots]
  constructor
  · intro hx
    exact ⟨(m.info x).iPoolID, inv.registry.getCo_iff.mpr ⟨hx, rfl⟩⟩
  · rintro ⟨id, hget⟩
    exact (inv.registry.getCo_iff.mp hget).1

/-- Two coroutines yield until time 5. -/
def waitingRun : List MgrEvent := [.alloc, .alloc, .resume 2 0, .yield 5 0, .resume 3 0, .yield 5 0]

/-- The coroutine of slot 1 returns, or is released, and that of slot 0 is not met. -/
theorem sweep_stops_early :
    LegalMgrRun smallMgr waitingRun ∧ (mgrAt smallMgr waitingRun 6).slots = [1, 0] ∧
    (mgrAt smallMgr waitingRun 6).Expired 10 0 ∧ (mgrAt smallMgr waitingRun 6).Expired 10 1 ∧
    outsideResumes (mgrAt smallMgr waitingRun 6).sch.log = [1, 0] ∧
    ((mgrAt smallMgr waitingRun 6).processAllExpire 10 fun _ => ⟨0, none, 0⟩).map
      (fun m' => outsideResumes m'.sch.log) = some [1, 1, 0] ∧
    calledIds (mgrAt smallMgr waitingRun 6).log = [] ∧
    ∀ f ∈ [SCoMgr.resumeOwn none, SCoMgr.releaseOwn], SCoMgr.LegalFun f ∧
      SCoMgr.liveCalls f [1, 0] (fun _ => true) (mgrAt smallMgr waitingRun 6) = [3, 2] ∧
      ((mgrAt smallMgr waitingRun 6).processAllActiveFun 3 f).map (fun m' => calledIds m'.log) = some [3] := by
  refine ⟨legalMgrRun_of_seen (by decide +kernel), by decide +kernel, ⟨?_, ?_, ?_⟩, ⟨?_, ?_, ?_⟩, ?_, ?_, ?_, ?_⟩
  case refine_10 =>
    simp only [List.forall_mem_cons, List.not_mem_nil, false_implies, implies_true, and_true]
    exact ⟨⟨SCoMgr.legalFun_resumeOwn none, by decide +kernel, by decide +kernel⟩,
      SCoMgr.legalFun_releaseOwn, by decide +kernel, by decide +kernel⟩
  all_goals decide +kernel

theorem sweep_complete_iff_waiting :
    LegalMgrRun smallMgr waitingRun ∧ (mgrAt smallMgr waitingRun 6).sch.owner = none ∧
    (∃ m', (mgrAt smallMgr waitingRun 6).processAllExpire 10 (fun _ => ⟨0, some 20, 0⟩) = some m' ∧
      ∀ x, (mgrAt smallMgr waitingRun 6).Expired 10 x →
        (outsideResumes m'.sch.log).count x = (outsideResumes (mgrAt smallMgr waitingRun 6).sch.log).count x + 1) ∧
    (∃ fuel m', (mgrAt smallMgr waitingRun 6).processAllActiveFun fuel (SCoMgr.resumeOwn (some 20)) = some m' ∧
      calledIds m'.log = [2, 3]) ∧
    ¬ ∃ fuel m', (mgrAt smallMgr waitingRun 6).processAllActiveFun fuel SCoMgr.releaseOwn = some m' ∧
      calledIds m'.log = [2, 3] := by
  have legal : LegalMgrRun smallMgr waitingRun := legalMgrRun_of_seen (by decide +kernel)
  have outside : (mgrAt smallMgr waitingRun 6).sch.owner = none := by decide +kernel
  obtain ⟨-, expire, active⟩ := sweep_complete_iff smallMgr_initial legal 6 outside
  obtain ⟨m', hrun, all_iff⟩ := expire 10 (fun _ => ⟨0, some 20, 0⟩)
  have resumed := (active _ (SCoMgr.legalFun_resumeOwn (some 20))).1
  have released := (active _ SCoMgr.legalFun_releaseOwn).1
  have hslots : (mgrAt smallMgr waitingRun 6).slots = [1, 0] := by decide +kernel
  have hnone : calledIds (mgrAt smallMgr waitingRun 6).log = [] := by decide +kernel
  rw [hslots, hnone, List.append_nil] at resumed released
  refine ⟨legal, outside, ⟨m', hrun, all_iff.mpr ?_⟩, ?_, ?_⟩
  · rintro before x after - - ⟨⟩
  · have hcalls : SCoMgr.liveCalls (SCoMgr.resumeOwn (some 20)) [1, 0] (fun _ => true)
        (mgrAt smallMgr waitingRun 6) = [3, 2] := by decide +kernel
    rw [hcalls] at resumed
    refine resumed.mpr ?_
    have first : [0].filter ((mgrAt smallMgr waitingRun 6).stillLive (SCoMgr.resumeOwn (some 20)) 1 fun _ => true) =
        [0] := by decide +kernel
    have still : (mgrAt smallMgr waitingRun 6).stillLive (SCoMgr.resumeOwn (some 20)) 1 (fun _ => true) 0 = true := by
      decide +kernel
    simp only [SCoMgr.FindsNext, if_true, first, still, List.filter_nil, and_true]
    exact ⟨.inl ⟨[], by decide +kernel⟩, .inl ⟨[1], by decide +kernel⟩⟩
  · have hcalls : SCoMgr.liveCalls SCoMgr.releaseOwn [1, 0] (fun _ => true) (mgrAt smallMgr waitingRun 6) = [3, 2] := by
      decide +kernel
    rw [hcalls] at released
    refine mt released.mp ?_
    have first : [0].filter ((mgrAt smallMgr waitingRun 6).stillLive SCoMgr.releaseOwn 1 fun _ => true) = [0] := by
      decide +kernel
    have after : ((mgrAt smallMgr waitingRun 6).funVisit SCoMgr.releaseOwn 1).slots = [0] := by decide +kernel
    simp only [SCoMgr.FindsNext, if_true, first, SCoMgr.LeadsTo, after]
    rintro ⟨⟨front, hfront⟩ | ⟨⟨⟩, -⟩, -⟩
    have hmem : 1 ∈ [0] := by
      rw [hfront]
      simp
    simp at hmem

end Wddlib
