import Wddlib.FileTree
import Wddlib.LogFile

namespace Wddlib

/-- `OS_DIRSEP`. -/
def osDirsep : UInt8 := 47

/-- The path in front of the last separator, which `strrchr` finds. -/
def strrchr : List UInt8 → Option (List UInt8)
  | [] => none
  | c :: path =>
    match strrchr path with
    | some front => some (c :: front)
    | none => if c = osDirsep then some [] else none

theorem strrchr_length {path front : List UInt8} (h : strrchr path = some front) : front.length < path.length := by
  induction path generalizing front with
  | nil => cases h
  | cons c path ih =>
    simp only [strrchr] at h
    split at h
    next inner hinner =>
      obtain rfl := Option.some.inj h
      simpa using ih hinner
    next =>
      split at h
      · obtain rfl := Option.some.inj h
        simp
      · cases h

/-- The names on a path, the innermost first; a path that does not begin with a separator begins in `cwd`. -/
def resolve (cwd : List (List UInt8)) (path : List UInt8) : List (List UInt8) :=
  ((path.splitOn osDirsep).filter fun name => name ≠ []).reverse ++ (if path.head? = some osDirsep then [] else cwd)

/-- `mkdir`. -/
def mkdir (cwd : List (List UInt8)) (t : FileTree (List UInt8)) (path : List UInt8) :
    Except FileErrno (FileTree (List UInt8)) :=
  if path = [] then .error .enoent else t.mkdir (resolve cwd path)

/-- `fopen` with the mode `a+`. -/
def fopen (cwd : List (List UInt8)) (t : FileTree (List UInt8)) (path : List UInt8) :
    Except FileErrno (FileTree (List UInt8)) :=
  if path = [] then .error .enoent else t.openWrite (resolve cwd path)

/-- `MakeDir`. -/
def makeDir (cwd : List (List UInt8)) (t : FileTree (List UInt8)) (strDir : List UInt8) :
    Int × FileTree (List UInt8) :=
  match mkdir cwd t strDir with
  | .ok t => (0, t)
  | .error e =>
    if e = .eexist then (0, t)
    else
      match _h : strrchr strDir with
      | none => (-1, t)
      | some front =>
        let made := makeDir cwd t front
        if made.1 < 0 then (-1, made.2)
        else
          match mkdir cwd made.2 strDir with
          | .ok t => (0, t)
          | .error _ => (-1, made.2)
termination_by strDir.length
decreasing_by exact strrchr_length _h

/-- `MakeDirFullPath`. -/
def makeDirFullPath (cwd : List (List UInt8)) (t : FileTree (List UInt8)) (strPath : List UInt8) :
    Int × FileTree (List UInt8) :=
  match strrchr (strPath.take maxFileName) with
  | none => (0, t)
  | some strDir => makeDir cwd t strDir

/-- The part of `OpenFile` that opens the path: whether `m_pFile` is set. -/
def openPath (cwd : List (List UInt8)) (t : FileTree (List UInt8)) (path : List UInt8) :
    Bool × FileTree (List UInt8) :=
  match fopen cwd t path with
  | .ok t => (true, t)
  | .error e =>
    if e ≠ .enoent then (false, t)
    else
      let made := makeDirFullPath cwd t path
      if made.1 < 0 then (false, made.2)
      else
        match fopen cwd made.2 path with
        | .ok t => (true, t)
        | .error _ => (false, made.2)

/-- A name that a directory entry can have. -/
structure IsName (name : List UInt8) : Prop where
  nonempty : name ≠ []
  plain : osDirsep ∉ name
  proper : name ≠ text "." ∧ name ≠ text ".."

/-- A path without doubled separators and its names. -/
inductive PlainPath (cwd : List (List UInt8)) : List UInt8 → List (List UInt8) → Prop
  | relative {name : List UInt8} (isName : IsName name) : PlainPath cwd name (name :: cwd)
  | absolute {name : List UInt8} (isName : IsName name) : PlainPath cwd (osDirsep :: name) [name]
  | inside {path : List UInt8} {key : List (List UInt8)} {name : List UInt8} (inner : PlainPath cwd path key)
      (isName : IsName name) : PlainPath cwd (path ++ osDirsep :: name) (name :: key)

section Paths

variable {cwd key : List (List UInt8)} {path front name : List UInt8}

theorem strrchr_plain (h : osDirsep ∉ name) : strrchr name = none := by
  induction name with
  | nil => rfl
  | cons c name ih =>
    simp only [List.mem_cons, not_or] at h
    simp only [strrchr, ih h.2, if_neg (Ne.symm h.1)]

theorem strrchr_append (h : osDirsep ∉ name) (front : List UInt8) :
    strrchr (front ++ osDirsep :: name) = some front := by
  induction front with
  | nil => simp only [List.nil_append, strrchr, strrchr_plain h, if_true]
  | cons c front ih => simp only [List.cons_append, strrchr, ih]

theorem PlainPath.nonempty (plain : PlainPath cwd path key) : path ≠ [] := by
  cases plain with
  | relative isName => exact isName.nonempty
  | absolute isName => simp
  | inside inner isName => simp

theorem resolve_append (hfront : front ≠ []) (isName : IsName name) :
    resolve cwd (front ++ osDirsep :: name) = name :: resolve cwd front := by
  have head : (front ++ osDirsep :: name).head? = front.head? := List.head?_append_of_ne_nil _ hfront
  simp [resolve, head, List.splitOn_append_cons_self, List.splitOn_eq_singleton isName.plain, isName.nonempty]

/-- A separator at the end names nothing. -/
theorem resolve_trailing (hfront : front ≠ []) : resolve cwd (front ++ [osDirsep]) = resolve cwd front := by
  have head : (front ++ [osDirsep]).head? = front.head? := List.head?_append_of_ne_nil _ hfront
  simp [resolve, head, List.splitOn_append_cons_self, List.splitOn_nil]

theorem PlainPath.resolve_eq (plain : PlainPath cwd path key) : resolve cwd path = key := by
  induction plain with
  | @relative name isName =>
    have head : name.head? ≠ some osDirsep := fun h => isName.plain (List.mem_of_mem_head? h)
    simp [resolve, List.splitOn_eq_singleton isName.plain, isName.nonempty, head]
  | @absolute name isName =>
    have split : (osDirsep :: name).splitOn osDirsep = [[], name] := by
      have h := List.splitOn_append_cons_self (a := osDirsep) [] name
      rwa [List.splitOn_nil, List.splitOn_eq_singleton isName.plain] at h
    simp [resolve, split, isName.nonempty]
  | @inside path key name inner isName ih => rw [resolve_append inner.nonempty isName, ih]

variable {t t' : FileTree (List UInt8)} {dir : List (List UInt8)} {e : FileErrno}

theorem PlainPath.mkdir_eq (plain : PlainPath cwd path key) : mkdir cwd t path = t.mkdir key := by
  rw [mkdir, if_neg plain.nonempty, plain.resolve_eq]

theorem PlainPath.fopen_eq (plain : PlainPath cwd path key) : fopen cwd t path = t.openWrite key := by
  rw [fopen, if_neg plain.nonempty, plain.resolve_eq]

theorem makeDir_of_ok (h : mkdir cwd t path = .ok t') : makeDir cwd t path = (0, t') := by
  rw [makeDir]
  simp only [h]

theorem makeDir_of_exists (h : mkdir cwd t path = .error .eexist) : makeDir cwd t path = (0, t) := by
  rw [makeDir]
  simp only [h, if_true]

theorem makeDir_top (h : mkdir cwd t path = .error e) (he : e ≠ .eexist) (top : strrchr path = none) :
    makeDir cwd t path = (-1, t) := by
  rw [makeDir]
  simp only [h, if_neg he]
  split
  next => rfl
  next front hfront =>
    rw [top] at hfront
    cases hfront

/-- The recursive case of `MakeDir`, once the directory above is made or not. -/
theorem makeDir_inner {iRet : Int} (h : mkdir cwd t path = .error e) (he : e ≠ .eexist)
    (inner : strrchr path = some front) (above : makeDir cwd t front = (iRet, t')) :
    makeDir cwd t path =
      if iRet < 0 then (-1, t')
      else
        match mkdir cwd t' path with
        | .ok t => (0, t)
        | .error _ => (-1, t') := by
  rw [makeDir]
  simp only [h, if_neg he]
  split
  next hnone =>
    rw [inner] at hnone
    cases hnone
  next front' hfront =>
    obtain rfl := Option.some.inj (inner.symm.trans hfront)
    simp only [above]

theorem makeDir_empty (cwd : List (List UInt8)) (t : FileTree (List UInt8)) : makeDir cwd t [] = (-1, t) :=
  makeDir_top (e := .enoent) (by simp [mkdir]) (by decide) rfl

/-- A path is there, or what is missing of it may be made. -/
def CanMake (t : FileTree (List UInt8)) (key : List (List UInt8)) : Prop := t.kind key ≠ none ∨ t.Allows key

/-- What `MakeDir` comes to. -/
structure MakeDirResult (cwd : List (List UInt8)) (t : FileTree (List UInt8)) (path : List UInt8)
    (key : List (List UInt8)) : Prop where
  made : CanMake t key → makeDir cwd t path = (0, t.makeAll key)
  refused : ¬ CanMake t key → makeDir cwd t path = (-1, t)

/-- The directory above is there, so that nothing is left to make in front of the last name. -/
theorem PlainPath.makeDir_in_dir (plain : PlainPath cwd path (name :: dir)) (rooted : t.Rooted)
    (hdir : t.kind dir = some .dir)
    (above : strrchr path = none ∨ ∃ front iRet, strrchr path = some front ∧ makeDir cwd t front = (iRet, t)) :
    MakeDirResult cwd t path (name :: dir) := by
  cases hkind : t.kind (name :: dir) with
  | some kind =>
    have hsome : t.kind (name :: dir) ≠ none := by simp [hkind]
    refine ⟨fun _ => ?_, fun h => absurd (.inl hsome) h⟩
    rw [FileTree.makeAll_of_some hsome]
    exact makeDir_of_exists (plain.mkdir_eq.trans (rooted.mkdir_exists hsome))
  | none =>
    have near : t.nearest (name :: dir) = dir :=
      (FileTree.nearest_of_none hkind).trans (FileTree.nearest_of_some (by simp [hdir]))
    have call : mkdir cwd t path = _ := plain.mkdir_eq.trans (rooted.mkdir_in_dir hdir hkind)
    have can : CanMake t (name :: dir) ↔ t.may dir = true := by
      simp [CanMake, hkind, FileTree.Allows, near, hdir]
    refine ⟨?_, ?_⟩
    · intro h
      rw [if_pos (can.mp h)] at call
      rw [FileTree.makeAll_of_none hkind, FileTree.makeAll_of_some (by simp [hdir])]
      exact makeDir_of_ok call
    · intro h
      rw [if_neg (mt can.mpr h)] at call
      rcases above with top | ⟨front, iRet, hfront, back⟩
      · exact makeDir_top call (by decide) top
      · rw [makeDir_inner call (by decide) hfront back, call]
        exact ite_self _

theorem PlainPath.makeDir_spec (plain : PlainPath cwd path key) (rooted : t.Rooted)
    (hcwd : t.kind cwd = some .dir) : MakeDirResult cwd t path key := by
  induction plain with
  | @relative name isName =>
    exact PlainPath.makeDir_in_dir (.relative isName) rooted hcwd (.inl (strrchr_plain isName.plain))
  | @absolute name isName =>
    refine PlainPath.makeDir_in_dir (.absolute isName) rooted rooted.root ?_
    exact .inr ⟨[], -1, strrchr_append isName.plain [], makeDir_empty cwd t⟩
  | @inside path key name inner isName ih =>
    have plain := PlainPath.inside inner isName
    have front := strrchr_append isName.plain path
    by_cases hdir : t.kind key = some .dir
    · refine plain.makeDir_in_dir rooted hdir (.inr ⟨path, 0, front, ?_⟩)
      rw [ih.made (.inl (by simp [hdir])), FileTree.makeAll_of_some (by simp [hdir])]
    · have hnone : t.kind (name :: key) = none := by
        by_contra hsome
        exact hdir (rooted.parent name key hsome)
      obtain ⟨e, failed, he⟩ := rooted.mkdir_no_dir hdir name
      have call := plain.mkdir_eq.trans failed
      have near : t.nearest (name :: key) = t.nearest key := FileTree.nearest_of_none hnone
      cases hkind : t.kind key with
      | some kind =>
        -- what is there is a file
        have hsome : t.kind key ≠ none := by simp [hkind]
        have back := ih.made (.inl hsome)
        rw [FileTree.makeAll_of_some hsome] at back
        refine ⟨?_, fun _ => ?_⟩
        · rintro (there | ⟨allowed, -⟩)
          · exact absurd hnone there
          · rw [near, FileTree.nearest_of_some hsome] at allowed
            exact absurd allowed hdir
        · rw [makeDir_inner call he front back, call]
          rfl
      | none =>
        have same : CanMake t (name :: key) ↔ CanMake t key := by
          simp [CanMake, hnone, hkind, FileTree.Allows, near]
        refine ⟨fun can => ?_, fun cannot => ?_⟩
        · have allowed : t.Allows key := (same.mp can).resolve_left (by simp [hkind])
          have rooted' := rooted.makeAll allowed.1
          have hnot : ¬ (name :: key) <:+ key := fun hsuffix => Nat.not_succ_le_self _ hsuffix.length_le
          have hnone' : (t.makeAll key).kind (name :: key) = none := by
            rw [FileTree.makeAll_kind t key _ rooted, if_neg fun both => hnot both.1, hnone]
          have again : mkdir cwd (t.makeAll key) _ = _ :=
            plain.mkdir_eq.trans (rooted'.mkdir_in_dir (FileTree.makeAll_dir rooted allowed.1) hnone')
          rw [if_pos (FileTree.makeAll_may hkind rooted)] at again
          rw [makeDir_inner call he front (ih.made (same.mp can)), again, FileTree.makeAll_of_none hnone]
          rfl
        · rw [makeDir_inner call he front (ih.refused (mt same.mpr cannot))]
          rfl

/-- What has to be there for a file to be opened. -/
def CanOpen (t : FileTree (List UInt8)) (name : List UInt8) (dir : List (List UInt8)) : Prop :=
  t.kind (name :: dir) = some .file ∧ t.may (name :: dir) = true ∨ t.kind (name :: dir) = none ∧ t.Allows dir

/-- The tree once the file is open. -/
def opened (t : FileTree (List UInt8)) (name : List UInt8) (dir : List (List UInt8)) : FileTree (List UInt8) :=
  if t.kind (name :: dir) = none then (t.makeAll dir).make (name :: dir) .file else t

theorem FileTree.Rooted.openWrite_in_dir (rooted : t.Rooted) (hdir : t.kind dir = some .dir) (name : List UInt8) :
    (CanOpen t name dir → t.openWrite (name :: dir) = .ok (opened t name dir)) ∧
      (¬ CanOpen t name dir → ∃ e, e ≠ .enoent ∧ t.openWrite (name :: dir) = .error e) := by
  have near : t.nearest dir = dir := FileTree.nearest_of_some (by simp [hdir])
  have whole : t.makeAll dir = t := FileTree.makeAll_of_some (by simp [hdir])
  simp only [FileTree.openWrite, rooted.walk_ok hdir, CanOpen, opened, FileTree.Allows, near, hdir, whole]
  cases hkind : t.kind (name :: dir) with
  | none =>
    by_cases may : t.may dir = true
    · simp [may]
    · simp [may]
  | some kind =>
    cases kind with
    | dir => simp
    | file =>
      by_cases may : t.may (name :: dir) = true
      · simp [may]
      · simp [may]

/-- Once the missing directories are made the file is made in them. -/
theorem FileTree.Rooted.openWrite_made (rooted : t.Rooted) (missing : t.kind dir = none) (allowed : t.Allows dir)
    (name : List UInt8) : (t.makeAll dir).openWrite (name :: dir) = .ok (opened t name dir) := by
  have rooted' := rooted.makeAll allowed.1
  have hdir' := FileTree.makeAll_dir rooted allowed.1
  have hsome : (t.makeAll dir).kind dir ≠ none := by simp [hdir']
  have hnot : ¬ (name :: dir) <:+ dir := fun hsuffix => Nat.not_succ_le_self _ hsuffix.length_le
  have hnone : t.kind (name :: dir) = none := by
    by_contra hsome
    rw [rooted.parent name dir hsome] at missing
    cases missing
  have hnone' : (t.makeAll dir).kind (name :: dir) = none := by
    rw [FileTree.makeAll_kind t dir _ rooted, if_neg fun both => hnot both.1, hnone]
  have can' : CanOpen (t.makeAll dir) name dir := by
    refine .inr ⟨hnone', ?_⟩
    rw [FileTree.Allows, FileTree.nearest_of_some hsome]
    exact ⟨hdir', FileTree.makeAll_may missing rooted⟩
  have result : opened (t.makeAll dir) name dir = opened t name dir := by
    rw [opened, opened, if_pos hnone, if_pos hnone', FileTree.makeAll_of_some hsome]
  rw [(rooted'.openWrite_in_dir hdir' name).1 can', result]

/-- `MakeDirFullPath` is only called where the directory of the file is missing. -/
theorem PlainPath.makeDirFullPath_spec (plain : PlainPath cwd path (name :: dir)) (short : path.length < maxFileName)
    (rooted : t.Rooted) (hcwd : t.kind cwd = some .dir) (missing : t.kind dir = none) :
    (t.Allows dir → makeDirFullPath cwd t path = (0, t.makeAll dir)) ∧
      (¬ t.Allows dir → makeDirFullPath cwd t path = (-1, t)) := by
  rw [makeDirFullPath, List.take_of_length_le (Nat.le_of_lt short)]
  cases plain with
  | relative isName =>
    rw [hcwd] at missing
    cases missing
  | absolute isName =>
    rw [rooted.root] at missing
    cases missing
  | @inside path key name inner isName =>
    have spec := inner.makeDir_spec rooted hcwd
    have can : CanMake t dir ↔ t.Allows dir := by simp [CanMake, missing]
    simp only [strrchr_append isName.plain]
    exact ⟨fun allowed => spec.made (can.mpr allowed), fun refused => spec.refused (mt can.mp refused)⟩

theorem openPath_spec (plain : PlainPath cwd path (name :: dir)) (short : path.length < maxFileName)
    (rooted : t.Rooted) (hcwd : t.kind cwd = some .dir) :
    (CanOpen t name dir → openPath cwd t path = (true, opened t name dir)) ∧
      (¬ CanOpen t name dir → openPath cwd t path = (false, t)) := by
  by_cases hdir : t.kind dir = some .dir
  · obtain ⟨success, failure⟩ := rooted.openWrite_in_dir hdir name
    refine ⟨fun can => ?_, fun cannot => ?_⟩
    · simp only [openPath, plain.fopen_eq, success can]
    · obtain ⟨e, he, failed⟩ := failure cannot
      simp only [openPath, plain.fopen_eq, failed, ne_eq, he, not_false_eq_true, if_true]
  · have hnone : t.kind (name :: dir) = none := by
      by_contra hsome
      exact hdir (rooted.parent name dir hsome)
    have can : CanOpen t name dir ↔ t.Allows dir := by simp [CanOpen, hnone]
    have first : fopen cwd t path = .error (if t.kind (t.nearest dir) = some .dir then .enoent else .enotdir) := by
      rw [plain.fopen_eq, FileTree.openWrite, rooted.walk_error hdir]
    by_cases reached : t.kind (t.nearest dir) = some .dir
    · have missing : t.kind dir = none := by
        by_contra hsome
        rw [FileTree.nearest_of_some hsome] at reached
        exact hdir reached
      obtain ⟨made, refused⟩ := plain.makeDirFullPath_spec short rooted hcwd missing
      rw [if_pos reached] at first
      rw [can]
      refine ⟨fun allowed => ?_, fun notAllowed => ?_⟩
      · have second := plain.fopen_eq.trans (rooted.openWrite_made missing allowed name)
        simp only [openPath, first, made allowed, second]
        rfl
      · simp only [openPath, first, refused notAllowed]
        rfl
    · rw [if_neg reached] at first
      rw [can]
      refine ⟨fun allowed => absurd allowed.1 reached, fun _ => ?_⟩
      simp only [openPath, first]
      rfl

/-- What is at a path once the file is open: the file, the directories on the way to it that were missing, and
otherwise what was there. -/
theorem opened_kind (rooted : t.Rooted) (can : CanOpen t name dir) (k : List (List UInt8)) :
    (opened t name dir).kind k =
      if k = name :: dir then some .file
      else if k <:+ dir ∧ t.kind k = none then some .dir
      else t.kind k := by
  by_cases hnone : t.kind (name :: dir) = none
  · rw [opened, if_pos hnone]
    by_cases hk : k = name :: dir
    · rw [if_pos hk, hk, FileTree.make_kind_self]
    · rw [if_neg hk, FileTree.make_kind_of_ne _ _ hk, FileTree.makeAll_kind t dir k rooted]
  · have hfile : t.kind (name :: dir) = some .file := can.elim And.left fun h => absurd h.1 hnone
    have hdir := rooted.parent name dir hnone
    have whole := FileTree.makeAll_kind t dir k rooted
    rw [FileTree.makeAll_of_some (by simp [hdir])] at whole
    rw [opened, if_neg hnone, ← whole]
    split
    next hk => rw [hk, hfile]
    next => rfl

/-- With a doubled separator `MakeDir` makes what is missing but fails: it comes back from the path without the second
separator, and finds the directory there. -/
theorem PlainPath.makeDir_trailing (plain : PlainPath cwd path (name :: dir)) (rooted : t.Rooted)
    (hcwd : t.kind cwd = some .dir) (missing : t.kind dir = none) (allowed : t.Allows dir) :
    makeDir cwd t (path ++ [osDirsep]) = (-1, t.makeAll (name :: dir)) := by
  have hnone : t.kind (name :: dir) = none := by
    by_contra hsome
    rw [rooted.parent name dir hsome] at missing
    cases missing
  have near : t.nearest (name :: dir) = t.nearest dir := FileTree.nearest_of_none hnone
  have allowed' : t.Allows (name :: dir) := by rwa [FileTree.Allows, near]
  have same : ∀ tree : FileTree (List UInt8), mkdir cwd tree (path ++ [osDirsep]) = tree.mkdir (name :: dir) := by
    intro tree
    rw [mkdir, if_neg (by simp), resolve_trailing plain.nonempty, plain.resolve_eq]
  have absent : t.kind dir ≠ some .dir := by simp [missing]
  obtain ⟨e, failed, he⟩ := rooted.mkdir_no_dir absent name
  have rooted' := rooted.makeAll allowed'.1
  have there : (t.makeAll (name :: dir)).kind (name :: dir) ≠ none := by
    simp [FileTree.makeAll_dir rooted allowed'.1]
  have again := (same _).trans (rooted'.mkdir_exists there)
  have made := (plain.makeDir_spec rooted hcwd).made (.inr allowed')
  rw [makeDir_inner ((same t).trans failed) he (strrchr_append (by simp) path) made, again]
  rfl

end Paths

theorem CLogFile.close_pFile (f : CLogFile) (fs : FileSystem) : (f.close fs).1.pFile = none := by
  cases h : f.pFile with
  | none => simp [CLogFile.close, h]
  | some path => simp [CLogFile.close, h]

/-- `OpenFile` in a tree of directories. -/
def CLogFile.openFileIn (cwd : List (List UInt8)) (t : FileTree (List UInt8)) (f : CLogFile) (fs : FileSystem)
    (path : List UInt8) (isClear : Bool) (env : LogEnv) : Int × CLogFile × FileSystem × FileTree (List UInt8) :=
  let found := openPath cwd t path
  let (ret, f, fs) := f.openFile fs path isClear { env with opens := found.1 }
  (ret, f, fs, found.2)

/-- `OpenFile` opens a path exactly if the file is there and may be written, or else the nearest directory on its way
that is there may be written, however many are missing. It makes the missing ones and touches nothing else; if it
fails it has made nothing. -/
theorem openFile_makes_dirs {cwd dir : List (List UInt8)} {t : FileTree (List UInt8)} {path name : List UInt8}
    (plain : PlainPath cwd path (name :: dir)) (short : path.length < maxFileName) (rooted : t.Rooted)
    (hcwd : t.kind cwd = some .dir) (f : CLogFile) (fs : FileSystem) (isClear : Bool) (env : LogEnv) :
    let r := f.openFileIn cwd t fs path isClear env
    (r.1 = 0 ↔ t.kind (name :: dir) = some .file ∧ t.may (name :: dir) = true ∨
      t.kind (name :: dir) = none ∧ t.kind (t.nearest dir) = some .dir ∧ t.may (t.nearest dir) = true) ∧
    (r.1 = 0 → r.2.1.pFile = some path ∧ ∀ k, r.2.2.2.kind k =
      if k = name :: dir then some .file else if k <:+ dir ∧ t.kind k = none then some .dir else t.kind k) ∧
    (r.1 ≠ 0 → r.1 = -1 ∧ r.2.1.pFile = none ∧ r.2.2.2 = t) := by
  intro r
  obtain ⟨success, failure⟩ := openPath_spec plain short rooted hcwd
  by_cases can : CanOpen t name dir
  · have found := success can
    have tree : r.2.2.2 = opened t name dir := congrArg Prod.snd found
    have ret : r.1 = 0 := by simp [r, CLogFile.openFileIn, CLogFile.openFile, found]
    have file : r.2.1.pFile = some path := by simp [r, CLogFile.openFileIn, CLogFile.openFile, found]
    refine ⟨⟨fun _ => can, fun _ => ret⟩, fun _ => ⟨file, fun k => ?_⟩, fun h => absurd ret h⟩
    rw [tree]
    exact opened_kind rooted can k
  · have found := failure can
    have tree : r.2.2.2 = t := congrArg Prod.snd found
    have ret : r.1 = -1 := by simp [r, CLogFile.openFileIn, CLogFile.openFile, found]
    have closed : r.2.1.pFile = none := by
      simp [r, CLogFile.openFileIn, CLogFile.openFile, found, CLogFile.close_pFile]
    have failed : r.1 ≠ 0 := by simp [ret]
    exact ⟨⟨fun h => absurd h failed, fun h => absurd h can⟩, fun h => absurd h failed, fun _ => ⟨ret, closed, tree⟩⟩

/-- A directory `log` that may be used in the directory the process runs in, and nothing else. -/
def logTree : FileTree (List UInt8) where
  kind key := if key = [] ∨ key = [text "log"] then some .dir else none
  may key := decide (key = [text "log"])

theorem logTree_rooted : logTree.Rooted := by
  refine ⟨rfl, ?_⟩
  intro name dir h
  by_cases hdir : dir = []
  · simp [logTree, hdir]
  · exact absurd (by simp [logTree, hdir]) h

theorem openFile_makes_dirs_deep :
    let f := CLogFile.create ⟨text "connsvr", text "log", by decide, by decide⟩ 0
    let r := f.openFileIn [] logTree (fun _ => none) (text "log/a/b/connsvr.log") false ⟨0, 0, false⟩
    r.1 = 0 ∧ r.2.2.2.kind [text "a", text "log"] = some .dir ∧ r.2.2.2.kind [text "b", text "log"] = none := by
  have log : IsName (text "log") := ⟨by decide, by decide, by decide⟩
  have a : IsName (text "a") := ⟨by decide, by decide, by decide⟩
  have b : IsName (text "b") := ⟨by decide, by decide, by decide⟩
  have file : IsName (text "connsvr.log") := ⟨by decide, by decide, by decide⟩
  have plain : PlainPath [] (text "log/a/b/connsvr.log") [text "connsvr.log", text "b", text "a", text "log"] :=
    .inside (.inside (.inside (.relative log) a) b) file
  obtain ⟨opens, kinds, -⟩ := openFile_makes_dirs plain (by decide) logTree_rooted rfl
    (CLogFile.create ⟨text "connsvr", text "log", by decide, by decide⟩ 0) (fun _ => none) false ⟨0, 0, false⟩
  have ret := opens.mpr (by decide)
  refine ⟨ret, ?_, ?_⟩
  · rw [(kinds ret).2]
    decide
  · rw [(kinds ret).2]
    decide

/-- A doubled separator in front of the file name costs the first attempt where two levels of directories or more are
missing; all the directories are made, and the next attempt succeeds. -/
theorem doubled_separator_fails_once {cwd dir : List (List UInt8)} {t : FileTree (List UInt8)}
    {path parent name : List UInt8} (plain : PlainPath cwd path (parent :: dir)) (isName : IsName name)
    (short : (path ++ osDirsep :: osDirsep :: name).length < maxFileName) (rooted : t.Rooted)
    (hcwd : t.kind cwd = some .dir) (missing : t.kind dir = none) (allowed : t.Allows dir) :
    let path' := path ++ osDirsep :: osDirsep :: name
    openPath cwd t path' = (false, t.makeAll (parent :: dir)) ∧
    (openPath cwd (openPath cwd t path').2 path').1 = true ∧
    (openPath cwd (openPath cwd t path').2 path').2 = opened t name (parent :: dir) := by
  intro path'
  have hnone : t.kind (parent :: dir) = none := by
    by_contra hsome
    rw [rooted.parent parent dir hsome] at missing
    cases missing
  have near : t.nearest (parent :: dir) = t.nearest dir := FileTree.nearest_of_none hnone
  have allowed' : t.Allows (parent :: dir) := by rwa [FileTree.Allows, near]
  have split : path' = (path ++ [osDirsep]) ++ osDirsep :: name := by simp [path']
  have key : ∀ tree : FileTree (List UInt8), fopen cwd tree path' = tree.openWrite (name :: parent :: dir) := by
    intro tree
    rw [fopen, if_neg (by simp [path']), split, resolve_append (by simp) isName, resolve_trailing plain.nonempty,
      plain.resolve_eq]
  have first : fopen cwd t path' = .error .enoent := by
    rw [key, FileTree.openWrite, rooted.walk_error (by simp [hnone]), if_pos allowed'.1]
  have back : strrchr path' = some (path ++ [osDirsep]) := by
    rw [split]
    exact strrchr_append isName.plain _
  have failed : openPath cwd t path' = (false, t.makeAll (parent :: dir)) := by
    have made : makeDirFullPath cwd t path' = (-1, t.makeAll (parent :: dir)) := by
      simp only [makeDirFullPath, List.take_of_length_le (Nat.le_of_lt short), path'] at back ⊢
      simp only [back, plain.makeDir_trailing rooted hcwd missing allowed]
    simp only [openPath, first, made]
    rfl
  have second := (key (t.makeAll (parent :: dir))).trans (rooted.openWrite_made hnone allowed' name)
  have again : openPath cwd (t.makeAll (parent :: dir)) path' = (true, opened t name (parent :: dir)) := by
    simp only [openPath, second]
  rw [failed]
  exact ⟨rfl, congrArg Prod.fst again, congrArg Prod.snd again⟩

theorem doubled_separator_fails_once_log :
    let path' := text "log/a/b//connsvr.log"
    (openPath [] logTree path').1 = false ∧ (openPath [] (openPath [] logTree path').2 path').1 = true := by
  have log : IsName (text "log") := ⟨by decide, by decide, by decide⟩
  have a : IsName (text "a") := ⟨by decide, by decide, by decide⟩
  have b : IsName (text "b") := ⟨by decide, by decide, by decide⟩
  have file : IsName (text "connsvr.log") := ⟨by decide, by decide, by decide⟩
  have plain : PlainPath [] (text "log/a/b") [text "b", text "a", text "log"] := .inside (.inside (.relative log) a) b
  have both := doubled_separator_fails_once plain file (by decide) logTree_rooted rfl rfl ⟨rfl, rfl⟩
  exact ⟨congrArg Prod.fst both.1, both.2.1⟩

end Wddlib
