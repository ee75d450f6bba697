import Wddlib.CoMgrTurn

namespace Wddlib

/-- What a sweep reaches of a list: everything up to the first that it loses. -/
def reached (drops : Nat → Bool) : List Nat → List Nat
  | [] => []
  | x :: xs => if drops x then [x] else x :: reached drops xs

theorem reached_sublist (drops : Nat → Bool) (xs : List Nat) : List.Sublist (reached drops xs) xs := by
  induction xs with
  | nil => exact List.Sublist.slnil
  | cons x xs ih =>
    unfold reached
    split
    · exact (List.nil_sublist xs).cons_cons x
    · exact ih.cons_cons x

theorem reached_congr {drops drops' : Nat → Bool} {xs : List Nat} (same : ∀ x ∈ xs, drops' x = drops x) :
    reached drops' xs = reached drops xs := by
  induction xs with
  | nil => rfl
  | cons x xs ih =>
    simp only [reached, same x (by simp), ih fun y hy => same y (by simp [hy])]

/-- Everything asked for is reached if and only if nothing asked for stands behind what is lost. -/
theorem reached_all_iff {drops : Nat → Bool} {asked : Nat → Prop} {xs : List Nat} (nodup : xs.Nodup) :
    (∀ y ∈ xs, asked y → y ∈ reached drops xs) ↔
      ∀ before x after, xs = before ++ x :: after → drops x = true → ∀ y ∈ after, ¬ asked y := by
  induction xs with
  | nil =>
    constructor
    · rintro - before x after hsplit
      simp at hsplit
    · rintro - y ⟨⟩
  | cons z xs ih =>
    obtain ⟨hz, nodup'⟩ := List.nodup_cons.mp nodup
    cases hdrop : drops z with
    | true =>
      simp only [reached, hdrop, if_true, List.mem_singleton]
      constructor
      · intro all before x after hsplit _ y hy hasked
        have hmem : y ∈ xs := by
          cases before with
          | nil =>
            obtain ⟨-, rfl⟩ := List.cons.inj hsplit
            exact hy
          | cons b before =>
            obtain ⟨-, rfl⟩ := List.cons.inj hsplit
            exact List.mem_append.mpr (.inr (List.mem_cons_of_mem _ hy))
        have heq := all y (List.mem_cons_of_mem _ hmem) hasked
        exact hz (heq ▸ hmem)
      · intro none y hy hasked
        rcases List.mem_cons.mp hy with rfl | hy
        · rfl
        · exact absurd hasked (none [] z xs rfl hdrop y hy)
    | false =>
      simp only [reached, hdrop, Bool.false_eq_true, if_false]
      constructor
      · intro all before x after hsplit hx y hy hasked
        cases before with
        | nil =>
          obtain ⟨rfl, -⟩ := List.cons.inj hsplit
          rw [hdrop] at hx
          cases hx
        | cons b before =>
          obtain ⟨rfl, hsplit'⟩ := List.cons.inj hsplit
          refine (ih nodup').mp ?_ before x after hsplit' hx y hy hasked
          intro w hw hasked'
          refine (List.mem_cons.mp (all w (List.mem_cons_of_mem _ hw) hasked')).resolve_left ?_
          rintro rfl
          exact hz hw
      · intro none y hy hasked
        rcases List.mem_cons.mp hy with rfl | hy
        · exact List.mem_cons_self
        · refine List.mem_cons_of_mem _ ((ih nodup').mpr ?_ y hy hasked)
          intro before x after hsplit hx
          exact none (z :: before) x after (by rw [hsplit]; rfl) hx

namespace SCoMgr

variable {m : SCoMgr} {free used before : List Int} {x : Nat} {τ : Type}

/-- What a callback does to the coroutine it is called for: that one keeps its place in the used list
or becomes the last free slot, the others keep what the sweep knows about them, and the callback
leaves a mark in a trace. -/
structure Visits (visit : SCoMgr → Nat → SCoMgr) (drops : CoInfo → Nat → Bool) (trace : SCoMgr → List τ)
    (mark : CoInfo → Nat → Option τ) : Prop where
  keeps : ∀ {m : SCoMgr} {free before rest : List Int} {x : Nat}, m.Inv [] free (before ++ (x : Int) :: rest) →
    drops (m.info x) x = false → ∃ news free', (visit m x).Inv [] free' (news ++ (before ++ (x : Int) :: rest))
  leaves : ∀ {m : SCoMgr} {free before rest : List Int} {x : Nat}, m.Inv [] free (before ++ (x : Int) :: rest) →
    drops (m.info x) x = true → ∃ free' used', (visit m x).Inv [] (free' ++ [(x : Int)]) used'
  other : ∀ {m : SCoMgr} {free before rest : List Int} {x y : Nat}, m.Inv [] free (before ++ (x : Int) :: rest) →
    (y : Int) ∈ before ++ (x : Int) :: rest → y ≠ x → (visit m x).info y = m.info y
  traces : ∀ {m : SCoMgr} {free before rest : List Int} {x : Nat}, m.Inv [] free (before ++ (x : Int) :: rest) →
    trace (visit m x) = (mark (m.info x) x).toList ++ trace m

/-- The loop meets the used list in its order until it loses its place. -/
theorem travelOwnLoop_visits {visit : SCoMgr → Nat → SCoMgr} {drops : CoInfo → Nat → Bool}
    {trace : SCoMgr → List τ} {mark : CoInfo → Nat → Option τ} (spec : Visits visit drops trace mark)
    {travel : SCoMgr → Option ObjPtr → TravelRet × SCoMgr}
    (callback : ∀ m p, travel m (some p) = (.doThing, visit m p.slot.toNat)) {rest : List Nat}
    (h : m.Inv [] free (before ++ rest.map Nat.cast)) {fuel : Nat} (enough : rest.length < fuel) :
    ∃ m', travelOwnLoop pool setPool travel fuel m ((rest.map (Nat.cast : Nat → Int)).head?.getD (-1)) = some m' ∧
      trace m' = ((reached (fun x => drops (m.info x) x) rest).reverse.filterMap fun x => mark (m.info x) x) ++
        trace m := by
  induction rest generalizing m free before fuel with
  | nil =>
    obtain ⟨fuel, rfl⟩ := Nat.exists_eq_succ_of_ne_zero (by omega : fuel ≠ 0)
    exact ⟨m, by simp [travelOwnLoop], by simp [reached]⟩
  | cons x xs ih =>
    obtain ⟨fuel, rfl⟩ := Nat.exists_eq_succ_of_ne_zero (by omega : fuel ≠ 0)
    have hsplit : m.Inv [] free (before ++ (x : Int) :: xs.map Nat.cast) := h
    have hx : (x : Int) ∈ before ++ (x : Int) :: xs.map Nat.cast := by simp
    have hget : objpoolGetBypos m.pool x = some (m.pool.objAt x) := objpoolGetBypos_of_used h.registry.repr hx
    have hslot : (m.pool.objAt x).slot.toNat = x := rfl
    have hne : ¬ (x : Int) = -1 := by omega
    have htraces := spec.traces hsplit
    simp only [travelOwnLoop, List.map_cons, List.head?_cons, Option.getD_some, hne, if_false, hget, callback, hslot]
    cases hdrop : drops (m.info x) x with
    | true =>
      obtain ⟨free', used', inv⟩ := spec.leaves hsplit hdrop
      have hnext : ((visit m x).pool.idx x).nextIdx = -1 := walk_link inv.registry.repr.freeNext
      obtain ⟨fuel, rfl⟩ := Nat.exists_eq_succ_of_ne_zero (by simp at enough; omega : fuel ≠ 0)
      refine ⟨visit m x, by simp [travelOwnLoop, hnext], ?_⟩
      rw [htraces]
      cases hmark : mark (m.info x) x <;> simp [reached, hdrop, hmark]
    | false =>
      obtain ⟨news, free', inv⟩ := spec.keeps hsplit hdrop
      have hwhole : (visit m x).Inv [] free' ((news ++ before) ++ (x : Int) :: xs.map Nat.cast) := by
        simpa using inv
      have hnext : ((visit m x).pool.idx x).nextIdx = (xs.map (Nat.cast : Nat → Int)).head?.getD (-1) :=
        walk_link hwhole.registry.repr.usedNext
      have hrest : (visit m x).Inv [] free' ((news ++ before ++ [(x : Int)]) ++ xs.map Nat.cast) := by
        simpa using inv
      obtain ⟨m', hrun, htrace⟩ := ih hrest (by simpa using enough)
      have hnodup : ((before ++ (x : Int) :: xs.map Nat.cast)).Nodup :=
        (List.nodup_append.mp h.registry.repr.nodup).2.1
      have hnot : x ∉ xs := by
        intro hmem
        have hfront := (List.nodup_cons.mp (List.nodup_append.mp hnodup).2.1).1
        exact hfront (List.mem_map.mpr ⟨x, hmem, rfl⟩)
      have same : ∀ y ∈ xs, (visit m x).info y = m.info y := by
        intro y hy
        refine spec.other hsplit ?_ ?_
        · exact List.mem_append.mpr (.inr (List.mem_cons_of_mem _ (List.mem_map.mpr ⟨y, hy, rfl⟩)))
        · rintro rfl
          exact hnot hy
      rw [hnext]
      refine ⟨m', hrun, ?_⟩
      have hreached : reached (fun y => drops ((visit m x).info y) y) xs = reached (fun y => drops (m.info y) y) xs :=
        reached_congr fun y hy => by simp only [same y hy]
      have hmarks :
          ((reached (fun y => drops (m.info y) y) xs).reverse.filterMap fun y => mark ((visit m x).info y) y) =
            (reached (fun y => drops (m.info y) y) xs).reverse.filterMap fun y => mark (m.info y) y := by
        refine List.filterMap_congr fun y hy => ?_
        have hmem := (reached_sublist _ _).subset (List.mem_reverse.mp hy)
        rw [same y hmem]
      rw [htrace, hreached, hmarks, htraces]
      cases hmark : mark (m.info x) x <;> simp [reached, hdrop, hmark]

theorem Inv.slots_eq {chain : List Nat} (h : m.Inv chain free used) : m.slots.map (Nat.cast : Nat → Int) = used := by
  rw [slots, TObjPool.usedSlots_eq h.registry.repr, List.map_map]
  conv_rhs => rw [← List.map_id used]
  exact List.map_congr_left fun p hp => h.registry.casts hp

theorem Inv.mem_slots {chain : List Nat} (h : m.Inv chain free used) : x ∈ m.slots ↔ (x : Int) ∈ used := by
  rw [← h.slots_eq, List.mem_map_of_injective Nat.cast_injective]

theorem Inv.slots_nodup {chain : List Nat} (h : m.Inv chain free used) : m.slots.Nodup := by
  refine List.Nodup.of_map (Nat.cast : Nat → Int) ?_
  rw [h.slots_eq]
  exact (List.nodup_append.mp h.registry.repr.nodup).2.1

/-- A whole sweep: the marks it leaves are those of the coroutines that it reaches. -/
theorem Inv.travelUsed (h : m.Inv [] free used) {visit : SCoMgr → Nat → SCoMgr} {drops : CoInfo → Nat → Bool}
    {trace : SCoMgr → List τ} {mark : CoInfo → Nat → Option τ} (spec : Visits visit drops trace mark)
    {travel : SCoMgr → Option ObjPtr → TravelRet × SCoMgr}
    (callback : ∀ m p, travel m (some p) = (.doThing, visit m p.slot.toNat)) :
    ∃ m', m.travelUsed travel = some m' ∧
      trace m' = ((reached (fun x => drops (m.info x) x) m.slots).reverse.filterMap fun x => mark (m.info x) x) ++
        trace m := by
  have hall : m.Inv [] free ([] ++ m.slots.map Nat.cast) := by
    rw [List.nil_append, h.slots_eq]
    exact h
  have hlen : m.slots.length < m.pool.usedCount.toNat + 1 := by
    have hcount := h.registry.repr.usedCount
    have hmap := congrArg List.length h.slots_eq
    rw [List.length_map] at hmap
    omega
  obtain ⟨m', hrun, htrace⟩ := travelOwnLoop_visits spec callback hall hlen
  rw [h.slots_eq, ← walk_head_eq h.registry.repr.usedNext] at hrun
  exact ⟨m', hrun, htrace⟩

section Callbacks

variable (tNow : Int) (turn : Nat → Turn)

def expireVisit (m : SCoMgr) (x : Nat) : SCoMgr :=
  if (m.info x).tExpireTime ≤ tNow then (m.markTimeOut x).resumeTurn x (turn x) else m

def expireDrops (info : CoInfo) (x : Nat) : Bool := decide (info.tExpireTime ≤ tNow) && (turn x).ending.isNone

def expireMark (info : CoInfo) (x : Nat) : Option Nat := if info.tExpireTime ≤ tNow then some x else none

theorem expire_visits : Visits (expireVisit tNow turn) (expireDrops tNow turn) (fun m => outsideResumes m.sch.log)
    (expireMark tNow) := by
  refine ⟨?_, ?_, ?_, ?_⟩
  · intro m free before rest x h keeps
    unfold expireVisit
    split
    next due =>
      refine ((h.markTimeOut x).resumeTurn (turn x)).1 ?_
      intro hnone
      simp [expireDrops, due, hnone] at keeps
    next => exact ⟨[], free, h⟩
  · intro m free before rest x h leaves
    simp only [expireDrops, Bool.and_eq_true, decide_eq_true_eq, Option.isNone_iff_eq_none] at leaves
    unfold expireVisit
    rw [if_pos leaves.1]
    exact ((h.markTimeOut x).resumeTurn (turn x)).2.1 leaves.2
  · intro m free before rest x y h hy hyx
    unfold expireVisit
    split
    next =>
      rw [((h.markTimeOut x).resumeTurn (turn x)).2.2.1 y hy hyx]
      exact Function.update_of_ne hyx _ _
    next => rfl
  · intro m free before rest x h
    unfold expireVisit expireMark
    split
    next => exact ((h.markTimeOut x).resumeTurn (turn x)).2.2.2
    next => rfl

end Callbacks

/-- The coroutine is suspended in `Yield` and its time has come. -/
def Expired (m : SCoMgr) (tNow : Int) (x : Nat) : Prop :=
  x ∈ m.slots ∧ (m.sch.co x).status = .suspend ∧ (m.info x).tExpireTime ≤ tNow

end SCoMgr

theorem count_succ_iff {α : Type} [DecidableEq α] {marks old : List α} {a : α} (nodup : marks.Nodup) :
    (marks ++ old).count a = old.count a + 1 ↔ a ∈ marks := by
  rw [List.count_append]
  constructor
  · intro hcount
    exact List.count_pos_iff.mp (by omega)
  · intro hmem
    rw [List.count_eq_one_of_mem nodup hmem]
    omega

namespace SCoMgr

variable {m : SCoMgr} {free used : List Int}

/-- `ProcessAllExpire` resumes every expired coroutine exactly once if and only if none of them stands
behind a coroutine that the sweep resumes and that returns. -/
theorem Inv.processAllExpire (h : m.Inv [] free used) (tNow : Int) (turn : Nat → Turn) :
    ∃ m', m.processAllExpire tNow turn = some m' ∧
      ((∀ x, m.Expired tNow x → (outsideResumes m'.sch.log).count x = (outsideResumes m.sch.log).count x + 1) ↔
        ∀ before x after, m.slots = before ++ x :: after → (m.info x).tExpireTime ≤ tNow →
          (turn x).ending = none → ∀ y ∈ after, ¬ m.Expired tNow y) := by
  have callback : ∀ (m : SCoMgr) p, fnProcessExpire tNow turn m (some p) =
      (.doThing, expireVisit tNow turn m p.slot.toNat) := by
    intro m p
    unfold fnProcessExpire expireVisit
    simp only
    split <;> rfl
  obtain ⟨m', hrun, htrace⟩ := h.travelUsed (expire_visits tNow turn) callback
  refine ⟨m', hrun, ?_⟩
  have hnodup : (reached (fun x => expireDrops tNow turn (m.info x) x) m.slots).reverse.Nodup :=
    List.nodup_reverse.mpr ((reached_sublist _ _).nodup h.slots_nodup)
  have hmarks : ((reached (fun x => expireDrops tNow turn (m.info x) x) m.slots).reverse.filterMap
      fun x => expireMark tNow (m.info x) x).Nodup := by
    refine hnodup.filterMap ?_
    intro x y z hx hy
    simp only [expireMark, Option.mem_def, Option.ite_none_right_eq_some, Option.some.injEq] at hx hy
    exact hx.2.trans hy.2.symm
  have resumed_iff : ∀ x, m.Expired tNow x →
      ((outsideResumes m'.sch.log).count x = (outsideResumes m.sch.log).count x + 1 ↔
        x ∈ reached (fun x => expireDrops tNow turn (m.info x) x) m.slots) := by
    intro x expired
    rw [htrace, count_succ_iff hmarks, List.mem_filterMap]
    constructor
    · rintro ⟨y, hy, hmark⟩
      simp only [expireMark, Option.ite_none_right_eq_some, Option.some.injEq] at hmark
      rw [← hmark.2]
      exact List.mem_reverse.mp hy
    · intro hmem
      exact ⟨x, List.mem_reverse.mpr hmem, by simp [expireMark, expired.2.2]⟩
  have all_iff := @reached_all_iff (fun x => expireDrops tNow turn (m.info x) x) (m.Expired tNow) m.slots h.slots_nodup
  refine Iff.trans ?_ (all_iff.trans ?_)
  · constructor
    · intro all y _ expired
      exact (resumed_iff y expired).mp (all y expired)
    · intro all x expired
      exact (resumed_iff x expired).mpr (all x expired.1 expired)
  · simp only [expireDrops, Bool.and_eq_true, decide_eq_true_eq, Option.isNone_iff_eq_none, and_imp]

end SCoMgr

end Wddlib
