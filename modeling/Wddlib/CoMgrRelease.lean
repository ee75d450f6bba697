import Wddlib.CoMgrRun

namespace Wddlib

/-- The coroutine of `id` has finished or was released. -/
def EndedIn (log : List MgrLog) (id : Int) : Prop := .finished id ∈ log ∨ .released id 0 ∈ log

theorem mem_liveIds {log : List MgrLog} {id : Int} (h : id ∈ liveIds log) : .allocated id ∈ log ∧ 0 ≤ id := by
  induction log with
  | nil => cases h
  | cons entry log ih =>
    have older : id ∈ liveIds log → .allocated id ∈ entry :: log ∧ 0 ≤ id := by
      intro hmem
      exact ⟨List.mem_cons_of_mem _ (ih hmem).1, (ih hmem).2⟩
    cases entry with
    | allocated ret =>
      simp only [liveIds] at h
      split at h
      next nonneg =>
        rcases List.mem_cons.mp h with rfl | h
        · exact ⟨by simp, nonneg⟩
        · exact older h
      next => exact older h
    | resumed caller id' ret => exact older h
    | yielded caller ret => exact older h
    | finished id' => exact older (List.mem_of_mem_erase h)
    | released id' ret => exact older (List.mem_of_mem_erase h)
    | called id' => exact older h

/-- No `Alloc` of the run counts a slot beyond the last generation whose id is an `int`. -/
def NoWrap (m₀ : SCoMgr) (events : List MgrEvent) : Prop :=
  ∀ k, events[k]? = some .alloc →
    let pool := (mgrAt m₀ events k).pool
    pool.usedCount < pool.capacity →
      pool.capacity * ((pool.idx pool.freeHead).accumulate + 1) + pool.freeHead < 2147483648

namespace SCoMgr

variable {m m' m₀ : SCoMgr} {chain chain' : List Nat} {free used : List Int} {x : Nat} {id : Int} {e : MgrEvent}

/-- What is known about the ids of the past: none is ahead of its slot, and what has ended is not
live. -/
structure Past (m : SCoMgr) : Prop where
  aged : ∀ id, .allocated id ∈ m.log → 0 ≤ id →
    id ≤ m.pool.capacity * (m.pool.idx (id % m.pool.capacity)).accumulate + id % m.pool.capacity
  gone : ∀ id, EndedIn m.log id → .allocated id ∈ m.log ∧ 0 ≤ id ∧ id ∉ liveIds m.log

/-- An entry about neither an allocation nor an end. -/
def Quiet (entry : MgrLog) : Prop :=
  (∀ id, entry = .allocated id → id < 0) ∧ (∀ id, entry ≠ .finished id) ∧ (∀ id, entry ≠ .released id 0) ∧
    ∀ log, liveIds (entry :: log) ⊆ liveIds log

theorem quiet_resumed (caller : Option Nat) (id ret : Int) : Quiet (.resumed caller id ret) :=
  ⟨fun _ h => (nomatch h), fun _ h => (nomatch h), fun _ h => (nomatch h), fun log => List.Subset.refl (liveIds log)⟩

theorem quiet_yielded (caller : Option Nat) (ret : Int) : Quiet (.yielded caller ret) :=
  ⟨fun _ h => (nomatch h), fun _ h => (nomatch h), fun _ h => (nomatch h), fun log => List.Subset.refl (liveIds log)⟩

theorem quiet_full : Quiet (.allocated (-1)) := by
  refine ⟨?_, fun _ h => (nomatch h), fun _ h => (nomatch h), fun log => List.Subset.refl (liveIds log)⟩
  rintro id ⟨⟩
  decide

theorem quiet_unknown (id : Int) : Quiet (.released id (-1)) := by
  refine ⟨fun _ h => (nomatch h), fun _ h => (nomatch h), ?_, ?_⟩
  · rintro id' ⟨⟩
  · intro log
    exact List.erase_subset

theorem Past.quiet (h : m.Past) (hcap : m'.pool.capacity = m.pool.capacity)
    (hacc : ∀ i, (m'.pool.idx i).accumulate = (m.pool.idx i).accumulate)
    (hlog : m'.log = m.log ∨ ∃ entry, Quiet entry ∧ m'.log = entry :: m.log) : m'.Past := by
  have allocated_iff : ∀ id, 0 ≤ id → (.allocated id ∈ m'.log ↔ .allocated id ∈ m.log) := by
    intro id nonneg
    rcases hlog with hsame | ⟨entry, quiet, hcons⟩
    · rw [hsame]
    · rw [hcons, List.mem_cons, or_iff_right]
      intro heq
      have hneg := quiet.1 id heq.symm
      omega
  have ended : ∀ id, EndedIn m'.log id → EndedIn m.log id := by
    intro id
    rcases hlog with hsame | ⟨entry, quiet, hcons⟩
    · rw [hsame]
      exact fun h => h
    · rw [hcons]
      rintro (hmem | hmem)
      · exact .inl ((List.mem_cons.mp hmem).resolve_left fun heq => quiet.2.1 id heq.symm)
      · exact .inr ((List.mem_cons.mp hmem).resolve_left fun heq => quiet.2.2.1 id heq.symm)
  have live : liveIds m'.log ⊆ liveIds m.log := by
    rcases hlog with hsame | ⟨entry, quiet, hcons⟩
    · rw [hsame]
      exact List.Subset.refl _
    · rw [hcons]
      exact quiet.2.2.2 m.log
  refine ⟨?_, ?_⟩
  · intro id hmem nonneg
    rw [hcap, hacc]
    exact h.aged id ((allocated_iff id nonneg).mp hmem) nonneg
  · intro id hended
    obtain ⟨hmem, nonneg, dead⟩ := h.gone id (ended id hended)
    exact ⟨(allocated_iff id nonneg).mpr hmem, nonneg, fun hlive => dead (live hlive)⟩

/-- A live coroutine finishes or is released. -/
theorem Past.ends (h : m.Past) (nodup : (liveIds m.log).Nodup) (live : id ∈ liveIds m.log)
    {entry : MgrLog} (hentry : entry = .finished id ∨ entry = .released id 0) : (m.record entry).Past := by
  have hlive : liveIds (entry :: m.log) = (liveIds m.log).erase id := by
    rcases hentry with rfl | rfl
    · rfl
    · rfl
  have allocated_iff : ∀ id', .allocated id' ∈ entry :: m.log ↔ .allocated id' ∈ m.log := by
    intro id'
    rw [List.mem_cons, or_iff_right]
    rcases hentry with rfl | rfl
    · rintro ⟨⟩
    · rintro ⟨⟩
  refine ⟨?_, ?_⟩
  · intro id' hmem nonneg
    exact h.aged id' ((allocated_iff id').mp hmem) nonneg
  · intro id' hended
    have split : EndedIn m.log id' ∨ id' = id := by
      rcases hended with hmem | hmem
      · rcases List.mem_cons.mp hmem with heq | hmem
        · rcases hentry with rfl | rfl
          · exact .inr (MgrLog.finished.inj heq)
          · cases heq
        · exact .inl (.inl hmem)
      · rcases List.mem_cons.mp hmem with heq | hmem
        · rcases hentry with rfl | rfl
          · cases heq
          · exact .inr (MgrLog.released.inj heq).1
        · exact .inl (.inr hmem)
    change .allocated id' ∈ entry :: m.log ∧ 0 ≤ id' ∧ id' ∉ liveIds (entry :: m.log)
    rw [allocated_iff, hlive]
    rcases split with hended | rfl
    · obtain ⟨hmem, nonneg, dead⟩ := h.gone id' hended
      exact ⟨hmem, nonneg, fun hlive => dead (List.mem_of_mem_erase hlive)⟩
    · obtain ⟨hmem, nonneg⟩ := mem_liveIds live
      exact ⟨hmem, nonneg, nodup.not_mem_erase⟩

/-- The id of an allocation that does not wrap is ahead of all ids that its slot had. -/
theorem Past.allocated (h : m.Past) {p : Int} {pool' : TObjPool} (hp0 : 0 ≤ p) (hpc : p < m.pool.capacity)
    (hborn : 0 ≤ (m.pool.idx p).accumulate)
    (fits : m.pool.capacity * ((m.pool.idx p).accumulate + 1) + p < 2147483648)
    (hpool : m'.pool = pool') (hcap : pool'.capacity = m.pool.capacity)
    (hid : id = m.pool.capacity * nextGeneration m.pool.capacity (m.pool.idx p).accumulate p + p)
    (hacc : ∀ i, (pool'.idx i).accumulate =
      if i = p then nextGeneration m.pool.capacity (m.pool.idx p).accumulate p else (m.pool.idx i).accumulate)
    (hlog : m'.log = .allocated id :: m.log) : m'.Past := by
  have hgen : nextGeneration m.pool.capacity (m.pool.idx p).accumulate p = (m.pool.idx p).accumulate + 1 := if_pos fits
  rw [hgen] at hid hacc
  have hmod : id % m.pool.capacity = p := by rw [hid, handle_emod hp0 hpc]
  have hlarger : m.pool.capacity * (m.pool.idx p).accumulate + p < id := by
    rw [hid]
    nlinarith
  have fresh : .allocated id ∉ m.log := by
    intro hmem
    have nonneg : 0 ≤ id := by nlinarith
    have haged := h.aged id hmem nonneg
    rw [hmod] at haged
    omega
  refine ⟨?_, ?_⟩
  · intro id' hmem nonneg
    rw [hpool, hcap, hacc]
    rw [hlog] at hmem
    rcases List.mem_cons.mp hmem with heq | hmem
    · obtain rfl := MgrLog.allocated.inj heq
      rw [hmod, if_pos rfl, hid]
    · have haged := h.aged id' hmem nonneg
      split
      next hslot =>
        rw [hslot] at haged ⊢
        nlinarith
      next => exact haged
  · intro id' hended
    have before : EndedIn m.log id' := by
      rw [hlog] at hended
      rcases hended with hmem | hmem
      · exact .inl ((List.mem_cons.mp hmem).resolve_left (by rintro ⟨⟩))
      · exact .inr ((List.mem_cons.mp hmem).resolve_left (by rintro ⟨⟩))
    obtain ⟨hmem, nonneg, dead⟩ := h.gone id' before
    rw [hlog]
    refine ⟨List.mem_cons_of_mem _ hmem, nonneg, ?_⟩
    intro hlive
    simp only [liveIds] at hlive
    split at hlive
    next =>
      rcases List.mem_cons.mp hlive with rfl | hlive
      · exact fresh hmem
      · exact dead hlive
    next => exact dead hlive

/-- Every step of a run without wrapped ids keeps the past. -/
theorem Past.step (h : m.Past) (inv : m.Inv chain free used) (moved : Moved m chain used e m' chain')
    (fits : e = .alloc → m.pool.usedCount < m.pool.capacity →
      m.pool.capacity * ((m.pool.idx m.pool.freeHead).accumulate + 1) + m.pool.freeHead < 2147483648) : m'.Past := by
  cases moved with
  | full => exact h.quiet rfl (fun _ => rfl) (.inr ⟨_, quiet_full, rfl⟩)
  | @allocated p x pool' slot head fresh range room id_eq eq capacity accumulate =>
    have fits' := fits rfl room
    rw [head] at fits'
    have hp0 : 0 ≤ p := by omega
    obtain ⟨-, -, hlog, -, hpool⟩ := initCo_fields { m with pool := pool' } m.alloc.1 x
    rw [← eq] at hlog hpool
    refine h.allocated hp0 range (inv.registry.bounds.generation p hp0 range).1 fits' hpool capacity id_eq
      accumulate ?_
    exact congrArg (.allocated m.alloc.1 :: ·) hlog
  | refused dead => exact h.quiet rfl (fun _ => rfl) (.inr ⟨_, quiet_resumed _ _ _, rfl⟩)
  | @resumed x ssize mem off =>
    obtain ⟨-, -, -, -, hpool, hlog⟩ := inv.resume mem off ssize
    refine h.quiet (by rw [hpool]) (fun _ => by rw [hpool]) ?_
    rcases hlog with hlog | ⟨ret, hlog⟩
    · exact .inl hlog
    · exact .inr ⟨_, quiet_yielded _ _, hlog⟩
  | stayed dead => exact h.quiet rfl (fun _ => rfl) (.inr ⟨_, quiet_yielded _ _, rfl⟩)
  | @yielded x xs expiretime ssize split running =>
    subst split
    obtain ⟨-, hlog, -, hpool, -⟩ := inv.yield running expiretime ssize
    exact h.quiet (by rw [hpool]) (fun _ => by rw [hpool]) (.inr ⟨_, quiet_resumed _ _ _, hlog⟩)
  | outside none => exact h
  | @finished x xs split =>
    subst split
    obtain ⟨before, after, -, -, hlog, -, -, -, hcap, hacc⟩ := inv.finish
    have live : (m.info x).iPoolID ∈ liveIds m.log := by
      rw [← inv.getCo_iff_live, inv.registry.getCo_iff.mpr ⟨inv.busy x (by simp), rfl⟩]
      simp
    exact (h.ends inv.live_nodup live (.inl rfl)).quiet hcap hacc (.inr ⟨_, quiet_resumed _ _ _, hlog⟩)
  | unknown dead => exact h.quiet rfl (fun _ => rfl) (.inr ⟨_, quiet_unknown _, rfl⟩)
  | @released x mem off =>
    obtain ⟨before, after, -, -, -, hcap, hacc⟩ := inv.release mem off
    have live : (m.info x).iPoolID ∈ liveIds m.log := by
      rw [← inv.getCo_iff_live, inv.registry.getCo_iff.mpr ⟨mem, rfl⟩]
      simp
    refine (h.ends inv.live_nodup live (.inr rfl)).quiet hcap hacc (.inl ?_)
    obtain ⟨-, -, pool', -, hrel, -⟩ := inv.registry.release mem
    rw [hrel]
    rfl
  | marked => exact h.quiet rfl (fun _ => rfl) (.inl rfl)

end SCoMgr

variable {m₀ : SCoMgr} {events : List MgrEvent}

theorem mgrAt_past (start : m₀.Initial) (legal : LegalMgrRun m₀ events) (unwrapped : NoWrap m₀ events) (k : Nat) :
    (mgrAt m₀ events k).Past := by
  have first : m₀.Past := by
    obtain ⟨malloc, cap, unit, pool, iStackSize, iMode, firststack, secondstack, -, -, -, rfl⟩ := start
    refine ⟨?_, ?_⟩
    · rintro id ⟨⟩
    · rintro id (⟨⟨⟩⟩ | ⟨⟨⟩⟩)
  refine stateAt_induct first ?_ k
  intro k e he past
  obtain ⟨chain, free, used, inv⟩ := mgrAt_ordered start legal k
  obtain ⟨chain', free', used', moved, -⟩ := inv.step (legal k e he)
  refine past.step inv moved ?_
  rintro rfl
  exact unwrapped k he

/-- A coroutine is known to its manager from the `Alloc` that returned its id until its function has
returned, when the `Resume` call that ran it returns 0, or until it is released. -/
theorem coMgr_releases_once (start : m₀.Initial) (legal : LegalMgrRun m₀ events) (unwrapped : NoWrap m₀ events)
    (k : Nat) :
    let m := mgrAt m₀ events k
    let m' := mgrAt m₀ events (k + 1)
    (∀ id, m.getCo id ≠ none ↔ id ∈ liveIds m.log) ∧ (liveIds m.log).Nodup ∧
    m.geCoCount = (liveIds m.log).length ∧
    (∀ id, EndedIn m.log id → id ∉ liveIds m.log) ∧
    (∀ id ssize, id ∉ liveIds m.log →
      m.resume id ssize = m.record (.resumed m.sch.owner id (-1)) ∧ m.release id = (-1, m)) ∧
    (∀ x, events[k]? = some .ret → m.sch.owner = some x →
      ∃ caller, lastResumer m.sch.log x = some caller ∧
        m'.log = .resumed caller (m.info x).iPoolID 0 :: .finished (m.info x).iPoolID :: m.log) ∧
    (∀ x expiretime ssize, events[k]? = some (.yield expiretime ssize) → m.sch.owner = some x →
      m' = m.record (.yielded (some x) (-1)) ∨
      (m'.sch.co x).status = .suspend ∧ 0 < (m.info x).iPoolID ∧
        ∃ caller, lastResumer m.sch.log x = some caller ∧
          m'.log = .resumed caller (m.info x).iPoolID (m.info x).iPoolID :: m.log) := by
  intro m m'
  obtain ⟨chain, free, used, inv⟩ : m.Ordered := mgrAt_ordered start legal k
  have past : m.Past := mgrAt_past start legal unwrapped k
  have split : ∀ x, m.sch.owner = some x → ∃ xs, chain = x :: xs := by
    intro x howner
    rw [inv.owner_eq] at howner
    exact List.head?_eq_some_iff.mp howner
  have resumer : ∀ x xs, chain = x :: xs → lastResumer m.sch.log x = some xs.head? := by
    rintro x xs rfl
    exact inv.chained.resumer (xs.head?, x) (by simp [callsOf])
  refine ⟨fun id => inv.getCo_iff_live, inv.live_nodup, ?_, fun id ended => (past.gone id ended).2.2, ?_, ?_, ?_⟩
  · rw [inv.live, List.length_map]
    exact inv.registry.repr.usedCount
  · intro id ssize dead
    have hget : m.getCo id = none := by
      rw [← inv.getCo_iff_live] at dead
      exact not_not.mp dead
    exact ⟨SCoMgr.resume_of_none hget ssize, SCoMgr.release_of_none hget⟩
  · intro x he howner
    obtain ⟨xs, rfl⟩ := split x howner
    obtain ⟨before, after, -, -, hlog, -⟩ := inv.finish
    have hstep : m' = m.finish := (mgrAt_succ he).trans inv.step_ret
    rw [hstep]
    exact ⟨xs.head?, resumer x xs rfl, hlog⟩
  · intro x expiretime ssize he howner
    obtain ⟨xs, rfl⟩ := split x howner
    have hstep : m' = m.yield expiretime ssize := (mgrAt_succ he).trans (inv.step_yield expiretime ssize)
    rw [hstep]
    rcases inv.runningId with hzero | ⟨y, hhead, hid⟩
    · left
      rw [SCoMgr.yield_of_none, howner]
      rw [hzero]
      exact inv.registry.getCo_zero
    · right
      obtain rfl := Option.some.inj hhead
      obtain ⟨-, hlog, -, -, -, -, hstatus⟩ := inv.yield hid expiretime ssize
      exact ⟨hstatus, inv.registry.id_pos (inv.busy x (by simp)), xs.head?, resumer x xs rfl, hlog⟩

/-- The first coroutine resumes the second, which yields, and finishes; the second is resumed again
and finishes too. -/
def pairRun : List MgrEvent :=
  [.alloc, .alloc, .resume 2 0, .resume 3 0, .yield 5 0, .ret, .resume 3 0, .ret, .resume 2 0, .release 3]

theorem coMgr_releases_once_pair :
    LegalMgrRun smallMgr pairRun ∧ NoWrap smallMgr pairRun ∧ liveIds (mgrAt smallMgr pairRun 5).log = [3, 2] ∧
    (mgrAt smallMgr pairRun 6).log = .resumed none 2 0 :: .finished 2 :: (mgrAt smallMgr pairRun 5).log ∧
    (mgrAt smallMgr pairRun 8).geCoCount = 0 ∧ (mgrAt smallMgr pairRun 8).getCo 2 = none := by
  have legal : LegalMgrRun smallMgr pairRun := legalMgrRun_of_seen (by decide +kernel)
  have unwrapped : NoWrap smallMgr pairRun := by
    intro k he
    match k with
    | 0 => decide +kernel
    | 1 => decide +kernel
    | 2 | 3 | 4 | 5 | 6 | 7 | 8 | 9 => cases he
    | k + 10 => cases he
  have hcount := (coMgr_releases_once smallMgr_initial legal unwrapped 8).2.2.1
  have hget := (coMgr_releases_once smallMgr_initial legal unwrapped 8).1 2
  refine ⟨legal, unwrapped, by decide +kernel, by decide +kernel, ?_, ?_⟩
  · exact hcount.trans (by decide +kernel)
  · by_contra live
    exact absurd (hget.mp live) (by decide +kernel)

end Wddlib
