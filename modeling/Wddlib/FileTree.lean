import Mathlib.Data.List.Infix
import Mathlib.Logic.Function.Basic

namespace Wddlib

universe u

inductive FileErrno where
  | enoent
  | eexist
  | enotdir
  | eisdir
  | eacces
  deriving DecidableEq, Repr

inductive FileKind where
  | file
  | dir
  deriving DecidableEq, Repr

/-- Files and directories by the names on their path, the innermost first. In a directory that it `may`
use a process makes entries, a file that it may use it opens. -/
structure FileTree (ν : Type u) where
  kind : List ν → Option FileKind
  may : List ν → Bool

namespace FileTree

variable {ν : Type u} {t : FileTree ν} {key dir k : List ν} {name : ν}

/-- The way from the root to a directory. -/
def walk (t : FileTree ν) : List ν → Except FileErrno Unit
  | [] => .ok ()
  | name :: dir =>
    match t.walk dir with
    | .error e => .error e
    | .ok () =>
      match t.kind (name :: dir) with
      | none => .error .enoent
      | some .file => .error .enotdir
      | some .dir => .ok ()

/-- Everything but the root lies in a directory. -/
structure Rooted (t : FileTree ν) : Prop where
  root : t.kind [] = some .dir
  parent : ∀ name dir, t.kind (name :: dir) ≠ none → t.kind dir = some .dir

/-- The innermost part of a path that is there. -/
def nearest (t : FileTree ν) : List ν → List ν
  | [] => []
  | name :: dir => if t.kind (name :: dir) ≠ none then name :: dir else t.nearest dir

/-- What is missing of a path may be made. -/
def Allows (t : FileTree ν) (dir : List ν) : Prop :=
  t.kind (t.nearest dir) = some .dir ∧ t.may (t.nearest dir) = true

theorem nearest_of_some (h : t.kind dir ≠ none) : t.nearest dir = dir := by
  cases dir with
  | nil => rfl
  | cons name dir => exact if_pos h

theorem nearest_of_none (h : t.kind (name :: dir) = none) : t.nearest (name :: dir) = t.nearest dir :=
  if_neg (not_not.mpr h)

theorem Rooted.walk_ok (rooted : t.Rooted) (h : t.kind dir = some .dir) : t.walk dir = .ok () := by
  induction dir with
  | nil => rfl
  | cons name dir ih => simp [walk, ih (rooted.parent name dir (by simp [h])), h]

/-- A directory that is not there cannot be reached; it is missing, unless something on the way is a file. -/
theorem Rooted.walk_error (rooted : t.Rooted) (h : t.kind dir ≠ some .dir) :
    t.walk dir = .error (if t.kind (t.nearest dir) = some .dir then .enoent else .enotdir) := by
  induction dir with
  | nil => exact absurd rooted.root h
  | cons name dir ih =>
    by_cases hdir : t.kind dir = some .dir
    · simp only [walk, rooted.walk_ok hdir]
      cases hkind : t.kind (name :: dir) with
      | none =>
        have near : t.nearest (name :: dir) = dir := (nearest_of_none hkind).trans (nearest_of_some (by simp [hdir]))
        rw [near, if_pos hdir]
      | some kind =>
        have near : t.nearest (name :: dir) = name :: dir := nearest_of_some (by simp [hkind])
        cases kind with
        | dir => exact absurd hkind h
        | file => simp [near, hkind]
    · have hnone : t.kind (name :: dir) = none := by
        by_contra hsome
        exact hdir (rooted.parent name dir hsome)
      simp only [walk, ih hdir, nearest_of_none hnone]

variable [DecidableEq ν]

/-- A new entry belongs to the process that makes it. -/
def make (t : FileTree ν) (key : List ν) (kind : FileKind) : FileTree ν :=
  { kind := Function.update t.kind key (some kind), may := Function.update t.may key true }

def mkdir (t : FileTree ν) : List ν → Except FileErrno (FileTree ν)
  | [] => .error .eexist
  | name :: dir =>
    match t.walk dir with
    | .error e => .error e
    | .ok () =>
      if t.kind (name :: dir) ≠ none then .error .eexist
      else if t.may dir then .ok (t.make (name :: dir) .dir)
      else .error .eacces

/-- Opening for writing, which makes a file that is not there. -/
def openWrite (t : FileTree ν) : List ν → Except FileErrno (FileTree ν)
  | [] => .error .eisdir
  | name :: dir =>
    match t.walk dir with
    | .error e => .error e
    | .ok () =>
      match t.kind (name :: dir) with
      | some .dir => .error .eisdir
      | some .file => if t.may (name :: dir) then .ok t else .error .eacces
      | none => if t.may dir then .ok (t.make (name :: dir) .file) else .error .eacces

/-- The tree with all directories of a path. -/
def makeAll (t : FileTree ν) : List ν → FileTree ν
  | [] => t
  | name :: dir =>
    if t.kind (name :: dir) ≠ none then t else (t.makeAll dir).make (name :: dir) .dir

theorem make_kind_self (t : FileTree ν) (key : List ν) (kind : FileKind) : (t.make key kind).kind key = some kind :=
  Function.update_self _ _ _

theorem make_may_self (t : FileTree ν) (key : List ν) (kind : FileKind) : (t.make key kind).may key = true :=
  Function.update_self _ _ _

theorem make_kind_of_ne (t : FileTree ν) (kind : FileKind) (hne : k ≠ key) : (t.make key kind).kind k = t.kind k :=
  Function.update_of_ne hne _ _

theorem makeAll_of_some (h : t.kind dir ≠ none) : t.makeAll dir = t := by
  cases dir with
  | nil => rfl
  | cons name dir => exact if_pos h

theorem makeAll_of_none (h : t.kind (name :: dir) = none) :
    t.makeAll (name :: dir) = (t.makeAll dir).make (name :: dir) .dir :=
  if_neg (not_not.mpr h)

theorem Rooted.mkdir_exists (rooted : t.Rooted) (h : t.kind key ≠ none) : t.mkdir key = .error .eexist := by
  cases key with
  | nil => rfl
  | cons name dir =>
    simp only [mkdir, rooted.walk_ok (rooted.parent name dir h)]
    exact if_pos h

theorem Rooted.mkdir_in_dir (rooted : t.Rooted) (hdir : t.kind dir = some .dir) (h : t.kind (name :: dir) = none) :
    t.mkdir (name :: dir) = if t.may dir then .ok (t.make (name :: dir) .dir) else .error .eacces := by
  simp [mkdir, rooted.walk_ok hdir, h]

theorem Rooted.mkdir_no_dir (rooted : t.Rooted) (hdir : t.kind dir ≠ some .dir) (name : ν) :
    ∃ e, t.mkdir (name :: dir) = .error e ∧ e ≠ .eexist := by
  simp only [mkdir, rooted.walk_error hdir]
  split
  · exact ⟨_, rfl, by decide⟩
  · exact ⟨_, rfl, by decide⟩

/-- The directories of a path are made in it, others are not touched. -/
theorem makeAll_kind (t : FileTree ν) (dir k : List ν) (rooted : t.Rooted) :
    (t.makeAll dir).kind k = if k <:+ dir ∧ t.kind k = none then some .dir else t.kind k := by
  induction dir with
  | nil =>
    have root : k <:+ [] → t.kind k ≠ none := by
      intro hk
      rw [List.suffix_nil.mp hk, rooted.root]
      simp
    exact (if_neg fun h => root h.1 h.2).symm
  | cons name dir ih =>
    cases hkind : t.kind (name :: dir) with
    | none =>
      rw [makeAll_of_none hkind]
      by_cases hk : k = name :: dir
      · subst hk
        rw [make_kind_self, if_pos ⟨List.suffix_rfl, hkind⟩]
      · have inner : k <:+ name :: dir ↔ k <:+ dir := by
          rw [List.suffix_cons_iff]
          exact or_iff_right hk
        rw [make_kind_of_ne _ _ hk, ih]
        simp only [inner]
    | some kind =>
      have hsome : t.kind (name :: dir) ≠ none := by simp [hkind]
      have there : k <:+ name :: dir → t.kind k ≠ none := by
        intro hk
        rcases List.suffix_cons_iff.mp hk with rfl | hk
        · exact hsome
        · have parent : t.makeAll dir = t := makeAll_of_some (by simp [rooted.parent name dir hsome])
          rw [parent] at ih
          intro hnone
          rw [if_pos ⟨hk, hnone⟩, hnone] at ih
          cases ih
      rw [makeAll_of_some hsome]
      exact (if_neg fun h => there h.1 h.2).symm

theorem makeAll_dir (rooted : t.Rooted) (h : t.kind (t.nearest dir) = some .dir) :
    (t.makeAll dir).kind dir = some .dir := by
  rw [makeAll_kind t dir dir rooted]
  cases hkind : t.kind dir with
  | none => simp
  | some kind =>
    rw [nearest_of_some (by simp [hkind]), hkind] at h
    simpa using h

theorem Rooted.make (rooted : t.Rooted) (hdir : t.kind dir = some .dir) (h : t.kind (name :: dir) = none)
    (kind : FileKind) : (t.make (name :: dir) kind).Rooted := by
  have kept : ∀ k, t.kind k = some .dir → (t.make (name :: dir) kind).kind k = some .dir := by
    intro k hk
    have hne : k ≠ name :: dir := by
      rintro rfl
      rw [h] at hk
      cases hk
    rw [make_kind_of_ne _ _ hne, hk]
  refine ⟨kept [] rooted.root, ?_⟩
  intro other k hk
  by_cases hne : other :: k = name :: dir
  · obtain ⟨-, rfl⟩ := List.cons.inj hne
    exact kept k hdir
  · rw [make_kind_of_ne _ _ hne] at hk
    exact kept k (rooted.parent other k hk)

theorem Rooted.makeAll (rooted : t.Rooted) (h : t.kind (t.nearest dir) = some .dir) : (t.makeAll dir).Rooted := by
  induction dir with
  | nil => exact rooted
  | cons name dir ih =>
    cases hkind : t.kind (name :: dir) with
    | some kind =>
      rw [makeAll_of_some (by simp [hkind])]
      exact rooted
    | none =>
      rw [nearest_of_none hkind] at h
      have hnot : ¬ (name :: dir) <:+ dir := fun hsuffix => Nat.not_succ_le_self _ hsuffix.length_le
      rw [makeAll_of_none hkind]
      refine (ih h).make (makeAll_dir rooted h) ?_ .dir
      rw [makeAll_kind t dir _ rooted, if_neg fun both => hnot both.1, hkind]

theorem makeAll_may (h : t.kind dir = none) (rooted : t.Rooted) : (t.makeAll dir).may dir = true := by
  cases dir with
  | nil =>
    rw [rooted.root] at h
    cases h
  | cons name dir =>
    rw [makeAll_of_none h]
    exact make_may_self _ _ _

end FileTree

end Wddlib
