import Wddlib.CoMgrSweep

namespace Wddlib

namespace TObjPool

theorem follow_of_walk {pool : TObjPool} {head : Int} {xs : List Int} (h : Walk pool.next (-1) head xs) :
    usedSlots.follow pool xs.length head = xs := by
  induction xs generalizing head with
  | nil => rfl
  | cons x xs ih =>
    obtain ⟨rfl, hne, rest⟩ := h
    simp only [List.length_cons, usedSlots.follow, hne, if_false]
    exact congrArg (head :: ·) (ih rest)

theorem usedSlots_eq {pool : TObjPool} {free used : List Int} (h : PoolRepr pool free used) :
    pool.usedSlots = used := by
  have hcount : pool.usedCount.toNat = used.length := by
    rw [h.usedCount]
    rfl
  rw [usedSlots, hcount]
  exact follow_of_walk h.usedNext

end TObjPool

namespace CoMachine

variable (s : CoMachine) (x : Nat)

@[simp] theorem coSwapcontext_log (src dst : Option Nat) (pending : Pending) :
    (s.coSwapcontext src dst pending).log = s.log := by
  unfold coSwapcontext
  simp only
  split <;> rfl

@[simp] theorem restoreStack_log : (s.restoreStack x).log = s.log := by
  unfold restoreStack setBuffer
  simp only
  split <;> rfl

theorem outside_saveStack (ssize : Nat) : outsideResumes (s.saveStack x ssize).log = outsideResumes s.log := by
  unfold saveStack
  simp only
  split <;> rfl

theorem outside_ite (dynamic : Bool) {s s' : CoMachine} (h : outsideResumes s'.log = outsideResumes s.log) :
    outsideResumes (if dynamic then s' else s).log = outsideResumes s.log := by
  cases dynamic with
  | true => exact h
  | false => rfl

theorem outside_linkParent (ssize : Nat) : outsideResumes (s.linkParent x ssize).log = outsideResumes s.log := by
  unfold linkParent
  simp only
  split
  · rfl
  · exact outside_ite _ (outside_saveStack _ _ _)

theorem outside_switchTo {s : CoMachine} (howner : s.owner = none) :
    outsideResumes (s.switchTo x).log = x :: outsideResumes s.log := by
  rw [switchTo, coSwapcontext_log, howner]
  rfl

theorem linkParent_owner (ssize : Nat) : (s.linkParent x ssize).owner = s.owner := by
  have hcontrol := congrArg Control.owner (control_linkParent s x ssize)
  rw [Control.link_eq] at hcontrol
  exact hcontrol

/-- `co_resume` from outside of all coroutines. -/
theorem outside_coResume {ssize : Nat} (howner : s.owner = none) (accepted : (s.coResume x ssize).1 = none) :
    outsideResumes (s.coResume x ssize).2.log = x :: outsideResumes s.log := by
  have hlinked : (s.linkParent x ssize).owner = none := (linkParent_owner s x ssize).trans howner
  have started : outsideResumes ((s.linkParent x ssize).startCo x).log = x :: outsideResumes s.log := by
    unfold startCo
    refine (outside_switchTo _ ?_).trans (congrArg (x :: ·) ?_)
    · split <;> exact hlinked
    · split <;> exact outside_linkParent s x ssize
  have continued : outsideResumes ((s.linkParent x ssize).continueCo x).log = x :: outsideResumes s.log := by
    unfold continueCo
    refine (outside_switchTo _ ?_).trans (congrArg (x :: ·) ?_)
    · split
      · exact (congrArg Control.owner (control_restoreStack ((s.linkParent x ssize).setStatus x .run) x)).trans hlinked
      · exact hlinked
    · refine (outside_ite _ ?_).trans (outside_linkParent s x ssize)
      rw [restoreStack_log]
  unfold coResume at accepted ⊢
  simp only at accepted ⊢
  split at accepted
  · exact started
  · exact continued
  · cases accepted

theorem outside_switchBack (pending : Pending) :
    outsideResumes (s.switchBack x pending).log = outsideResumes s.log := by
  unfold switchBack
  simp only
  split
  · rw [coSwapcontext_log]
  · rw [coSwapcontext_log]
    refine (outside_ite _ ?_).trans rfl
    rw [restoreStack_log]

theorem outside_coYield (ssize : Nat) : outsideResumes (s.coYield ssize).2.log = outsideResumes s.log := by
  unfold coYield
  split
  · rfl
  · refine (outside_switchBack _ _ _).trans ?_
    exact outside_ite _ (outside_saveStack _ _ _)

theorem outside_process : outsideResumes (s.process x).log = outsideResumes s.log :=
  outside_switchBack _ _ _

end CoMachine

namespace SCoMgr

variable {m : SCoMgr} {free used before rest : List Int} {x : Nat}

theorem outside_initCo (m : SCoMgr) (iIdx : Int) (x : Nat) :
    outsideResumes (m.initCo iIdx x).sch.log = outsideResumes m.sch.log := by
  unfold initCo
  simp only
  split <;> rfl

/-- A coroutine that runs alone allocates others: they stand in front of the used list. -/
theorem Inv.allocs (h : m.Inv [x] free used) (running : m.iRunningID = (m.info x).iPoolID) (n : Nat) :
    let m' := (List.replicate n MgrEvent.alloc).foldl SCoMgr.step m
    ∃ news free', m'.Inv [x] free' (news ++ used) ∧ m'.iRunningID = (m'.info x).iPoolID ∧
      (∀ y : Nat, (y : Int) ∈ used → m'.info y = m.info y) ∧
      outsideResumes m'.sch.log = outsideResumes m.sch.log := by
  induction n generalizing m free used with
  | zero => exact ⟨[], free, h, running, fun _ _ => rfl, rfl⟩
  | succ n ih =>
    have hstep : m.step .alloc = m.alloc.2.record (.allocated m.alloc.1) := by
      have alive : m.sch.lost = false := h.chained.alive
      simp only [SCoMgr.step, alive, Bool.false_eq_true, if_false]
    simp only [List.replicate_succ, List.foldl_cons, hstep]
    have hx := h.busy x (by simp)
    rcases h.alloc with ⟨hret, hsame, rfl⟩ | ⟨p, free₁, z, pool', rfl, hslot, -, heq, -, -, inv⟩
    · have recorded : (m.record (.allocated (-1))).Inv [x] [] used := h.record rfl
      rw [hret, hsame]
      exact ih recorded running
    · obtain ⟨-, hrunning, -, hinfo, -⟩ := initCo_fields { m with pool := pool' } m.alloc.1 z
      have houtside := outside_initCo { m with pool := pool' } m.alloc.1 z
      rw [← heq] at hrunning hinfo houtside
      have hnot : p ∉ used := fun hmem => (List.nodup_append.mp h.registry.repr.nodup).2.2 p (by simp) p hmem rfl
      have kept : ∀ y : Nat, (y : Int) ∈ used → m.alloc.2.info y = m.info y := by
        intro y hy
        have hyz : y ≠ z := by
          rintro rfl
          exact hnot (hslot ▸ hy)
        rw [hinfo, Function.update_of_ne hyz]
      have running₁ : m.alloc.2.iRunningID = (m.alloc.2.info x).iPoolID := by
        rw [hrunning, kept x hx]
        exact running
      obtain ⟨news, free', inv', running', info', outside'⟩ := ih inv running₁
      refine ⟨news ++ [p], free', by simpa using inv', running', ?_, outside'.trans houtside⟩
      intro y hy
      rw [info' y (List.mem_cons_of_mem _ hy)]
      exact kept y hy

/-- A coroutine is resumed from outside and takes its turn: it stays in its place of the used list, or
it becomes the last free slot. -/
theorem Inv.resumeTurn (h : m.Inv [] free (before ++ (x : Int) :: rest)) (turn : Turn) :
    (turn.ending ≠ none → ∃ news free', (m.resumeTurn x turn).Inv [] free' (news ++ (before ++ (x : Int) :: rest))) ∧
    (turn.ending = none → ∃ free' used', (m.resumeTurn x turn).Inv [] (free' ++ [(x : Int)]) used') ∧
    (∀ y : Nat, (y : Int) ∈ before ++ (x : Int) :: rest → y ≠ x → (m.resumeTurn x turn).info y = m.info y) ∧
    outsideResumes (m.resumeTurn x turn).sch.log = x :: outsideResumes m.sch.log := by
  have hx : (x : Int) ∈ before ++ (x : Int) :: rest := by simp
  have hstep : m.step (.resume (m.info x).iPoolID 0) = m.resume (m.info x).iPoolID 0 := by
    have alive : m.sch.lost = false := h.chained.alive
    simp only [SCoMgr.step, alive, Bool.false_eq_true, if_false]
  obtain ⟨inv₁, running₁, hsch, hinfo, -⟩ := h.resume hx (by simp) 0
  have resumable := h.idle x hx (by simp)
  have alone : m.sch.control.pRunCo ≠ some x := h.chained.not_running (by simp)
  have outside₁ : outsideResumes (m.resume (m.info x).iPoolID 0).sch.log = x :: outsideResumes m.sch.log := by
    rw [hsch]
    exact CoMachine.outside_coResume _ _ h.owner_eq (coResume_none alone resumable)
  have running₂ : (m.resume (m.info x).iPoolID 0).iRunningID = ((m.resume (m.info x).iPoolID 0).info x).iPoolID := by
    rw [running₁, hinfo]
  obtain ⟨news, free₂, inv₂, running₃, info₂, outside₂⟩ := inv₁.allocs running₂ turn.allocs
  have heq : m.resumeTurn x turn =
      ((List.replicate turn.allocs MgrEvent.alloc).foldl SCoMgr.step (m.resume (m.info x).iPoolID 0)).step
        turn.last := by
    have howner : (m.resume (m.info x).iPoolID 0).sch.owner = some x := inv₁.owner_eq
    simp only [SCoMgr.resumeTurn, hstep, howner, if_true]
  rw [heq]
  generalize (List.replicate turn.allocs MgrEvent.alloc).foldl SCoMgr.step (m.resume (m.info x).iPoolID 0) = m₂ at *
  have info₃ : ∀ y : Nat, (y : Int) ∈ before ++ (x : Int) :: rest → m₂.info y = m.info y := by
    intro y hy
    rw [info₂ y hy, hinfo]
  cases hending : turn.ending with
  | some expiretime =>
    obtain ⟨inv₃, -, -, -, hinfo₃, hsch₃, -⟩ := inv₂.yield running₃ expiretime turn.ssize
    have hlast : m₂.step turn.last = m₂.yield expiretime turn.ssize := by
      simp only [Turn.last, hending]
      exact inv₂.step_yield expiretime turn.ssize
    rw [hlast]
    refine ⟨fun _ => ⟨news, free₂, inv₃⟩, fun hnone => absurd hnone (by simp), ?_, ?_⟩
    · intro y hy hyx
      rw [hinfo₃, Function.update_of_ne hyx]
      exact info₃ y hy
    · rw [hsch₃, CoMachine.outside_coYield]
      exact outside₂.trans outside₁
  | none =>
    obtain ⟨before₃, after₃, -, inv₃, -, -, hinfo₃, hsch₃, -⟩ := inv₂.finish
    have hlast : m₂.step turn.last = m₂.finish := by
      simp only [Turn.last, hending]
      exact inv₂.step_ret
    rw [hlast]
    refine ⟨fun hsome => absurd rfl hsome, fun _ => ⟨free₂, _, inv₃⟩, ?_, ?_⟩
    · intro y hy _
      rw [hinfo₃]
      exact info₃ y hy
    · rw [hsch₃, CoMachine.outside_process]
      exact outside₂.trans outside₁

end SCoMgr

end Wddlib
