import Wddlib.LogRecord
import Wddlib.LogRoll

namespace Wddlib

/-- A call of `AddFileCat`: its arguments, what stands in the memory of `m_tCurFileTime`, and what `stat`, `time` and
`fopen` return. -/
structure CatCall where
  conf : LogFileCatConf
  maxRollSize : Int
  maxRollCount : Int
  names : LogNames
  curFileTime : Int
  mtime : List UInt8 → Int
  env : LogEnv

/-- A call of `Log`: `env` and `count` are what the system calls return in `Write` of each category. -/
structure WriteCall where
  call : LogCall
  env : Nat → LogEnv
  count : Nat → Nat

structure LogCat where
  conf : LogFileCatConf
  file : CLogFile

/-- `CLogMgr`, the static buffers of `Log`, and the files. -/
structure CLogMgr where
  cats : List LogCat
  prefixbuf : Nat → UInt8
  buf : Nat → UInt8
  fs : FileSystem

namespace CLogMgr

section Program

variable (strTime : Int → List UInt8)

def addFileCat (m : CLogMgr) (a : CatCall) : Int × CLogMgr :=
  let r := CLogFile.initLogFile strTime a.mtime (.create a.names a.curFileTime) m.fs
    (a.maxRollSize % 4294967296).toNat (a.maxRollCount % 4294967296).toNat a.env
  if r.1 < 0 then (-1, { m with fs := r.2.2 })
  else (0, { m with cats := m.cats ++ [⟨a.conf, r.2.1⟩], fs := r.2.2 })

/-- `m_LogCats[i].m_LogFile.Write`. -/
def writeCat (m : CLogMgr) (i : Nat) (w : LogWrite) : CLogMgr :=
  match m.cats[i]? with
  | none => m
  | some cat =>
    let r := cat.file.write strTime m.fs w
    { m with cats := m.cats.set i { cat with file := r.1 }, fs := r.2 }

def log (m : CLogMgr) (a : WriteCall) : CLogMgr :=
  let s := LogState.log a.call (m.cats.map LogCat.conf) (.start m.prefixbuf m.buf)
  s.writes.foldl (fun m r => m.writeCat strTime r.1 ⟨a.env r.1, r.2.2, a.count r.1⟩)
    { m with prefixbuf := s.prefixbuf, buf := s.buf }

end Program

end CLogMgr

/-- The categories are given at least a byte and a file, and their files names of their own that are not cut. -/
structure Categories (date : List UInt8) (cats : List CatCall) : Prop where
  rollSize : ∀ a ∈ cats, 1 ≤ a.maxRollSize ∧ a.maxRollSize < 2147483648
  rollCount : ∀ a ∈ cats, 1 ≤ a.maxRollCount ∧ a.maxRollCount < 2147483648
  whole : ∀ a ∈ cats, a.names.Whole a.maxRollCount.toNat date
  apart : cats.Pairwise fun a b => ∀ i < a.maxRollCount.toNat, ∀ j < b.maxRollCount.toNat,
    a.names.getFileName i date ≠ b.names.getFileName j date

/-- A path that is the name of no log file of the date. -/
def Elsewhere (date : List UInt8) (cats : List CatCall) (path : List UInt8) : Prop :=
  ∀ a ∈ cats, ∀ i < a.maxRollCount.toNat, path ≠ a.names.getFileName i date

/-- The clock is read on one day, which has one date, and the files can be opened. -/
def LogEnv.Fine (strTime : Int → List UInt8) (D : Int) (date : List UInt8) (env : LogEnv) : Prop :=
  (env.now + 28800).tdiv 86400 = D ∧ (env.openTime + 28800).tdiv 86400 = D ∧ strTime env.now = date ∧ env.opens = true

/-- The message of a call has room in the buffer of `Log`, and the files take the whole record. -/
structure WriteCall.Fine (strTime : Int → List UInt8) (D : Int) (date : List UInt8) (a : WriteCall) : Prop where
  env : ∀ i, (a.env i).Fine strTime D date
  count : ∀ i, a.count i = a.call.record.length
  room : a.call.prefixLength + a.call.msg.length < LogState.bufLen

theorem LogEnv.Fine.onDay {strTime : Int → List UInt8} {D : Int} {date : List UInt8} {env : LogEnv}
    (fine : env.Fine strTime D date) : env.OnDay strTime D date := ⟨fine.1, fine.2.1, fine.2.2.1⟩

namespace LogFile

variable {strTime : Int → List UInt8} {R K : Nat} {D : Int} {date : List UInt8} {f : LogFile} {w : LogWrite}
  {closed : List (List (Int × List UInt8))} {cur : List (Int × List UInt8)}

/-- A file that a record is put into does not reach the size at which its counter wraps around. -/
theorem Rolling.put_fits (h : Rolling R K D date closed cur f) (hK : 0 < K) (complete : w.Complete)
    (below : fileSize (chunksOf cur) < R) (hR : R < 2147483648) (small : w.buff.length < 2147483648) :
    fileSize ((f.put w).disk.content (f.names.getFileName (f.put w).curRollIdx date)) < 4294967296 := by
  rw [put_some h.current]
  simp only [FileSystem.content, FileSystem.append_same, Option.getD_some]
  rw [h.content_eq hK, Option.getD_some, fileSize_append, complete.count, List.take_length]
  have hone : fileSize [.record w.env.now w.buff] = w.buff.length := by simp [fileSize, FileChunk.size]
  omega

theorem Rolling.write_fits (h : Rolling R K D date closed cur f) (hK : 0 < K) (hK' : K < 4294967296) (hR : 0 < R)
    (hR' : R < 2147483648) (day : w.env.OnDay strTime D date) (complete : w.Complete)
    (small : w.buff.length < 2147483648) :
    fileSize ((f.write strTime w).disk.content (f.names.getFileName (f.write strTime w).curRollIdx date)) <
      4294967296 := by
  rcases write_cases strTime f w with ⟨changed, -⟩ | ⟨-, hsize, heq⟩ | ⟨-, hsize, heq⟩
  · exact absurd changed (h.sameDay day)
  · rw [h.rollSize_eq, h.size_eq] at hsize
    rw [heq]
    have fits := (h.roll hK hK' hR hsize day complete.opens).put_fits hK complete hR hR' small
    rwa [openFile_names] at fits
  · rw [h.rollSize_eq, h.size_eq] at hsize
    rw [heq]
    exact h.put_fits hK complete hsize hR' small

theorem Rolling.ne_current (h : Rolling R K D date closed cur f) (hK : 0 < K) {other : List UInt8}
    (hne : ∀ i < K, other ≠ f.names.getFileName i date) (path : List UInt8) (hpath : f.pFile = some path) :
    other ≠ path := by
  rw [← Option.some.inj (h.current.symm.trans hpath)]
  exact hne _ (h.idx_eq ▸ Nat.mod_lt _ hK)

/-- A write leaves all files alone that are none of the date. -/
theorem Rolling.write_others (h : Rolling R K D date closed cur f) (hK : 0 < K) (hK' : K < 4294967296) (hR : 0 < R)
    (day : w.env.OnDay strTime D date) (opens : w.env.opens = true) {other : List UInt8}
    (hne : ∀ i < K, other ≠ f.names.getFileName i date) : (f.write strTime w).disk other = f.disk other := by
  rcases write_cases strTime f w with ⟨changed, -⟩ | ⟨-, hsize, heq⟩ | ⟨-, -, heq⟩
  · exact absurd changed (h.sameDay day)
  · rw [h.rollSize_eq, h.size_eq] at hsize
    have rolled := h.roll hK hK' hR hsize day opens
    have hidx : f.advance.curRollIdx < K := by
      have hlt : (f.advance.openFile _ true w.env).curRollIdx < K := rolled.idx_eq ▸ Nat.mod_lt _ hK
      rw [openFile_opened opens, close_some (f := f.advance) h.current] at hlt
      exact hlt
    rw [heq, put_others (rolled.ne_current hK (by rwa [openFile_names])), day.date_eq,
      openFile_others (f := f.advance) (h.ne_current hK hne) (hne _ hidx)]
    rfl
  · rw [heq, put_others (h.ne_current hK hne)]

end LogFile

namespace CLogMgr

variable {strTime : Int → List UInt8} {D : Int} {date : List UInt8} {cats : List CatCall} {fs₀ fs fs' : FileSystem}
  {recs : Nat → List (List UInt8)} {written : List (List UInt8)} {a : CatCall} {cat : LogCat} {m : CLogMgr}
  {w : LogWrite} {i : Nat}

/-- A category whose files hold what `written` leaves in them. -/
structure CatInv (D : Int) (date : List UInt8) (written : List (List UInt8)) (a : CatCall) (cat : LogCat)
    (fs : FileSystem) : Prop where
  conf_eq : cat.conf = a.conf
  names_eq : cat.file.names = a.names
  rolling : ∃ closed cur,
    LogFile.Rolling a.maxRollSize.toNat a.maxRollCount.toNat D date closed cur ⟨cat.file, fs⟩ ∧
      (closed.flatten ++ cur).map Prod.snd = written

/-- What `CatInv` asks of the sizes of a category. -/
structure Sized (a : CatCall) : Prop where
  rollSize : 1 ≤ a.maxRollSize ∧ a.maxRollSize < 2147483648
  rollCount : 1 ≤ a.maxRollCount ∧ a.maxRollCount < 2147483648

theorem CatInv.keepsNewest (inv : CatInv D date written a cat fs) (sized : Sized a) :
    cat.file.KeepsNewest a.maxRollSize.toNat a.maxRollCount.toNat date written fs := by
  obtain ⟨closed, cur, rolling, rfl⟩ := inv.rolling
  have := sized.rollCount
  exact rolling.keepsNewest (by omega)

/-- A category whose files others leave alone stays as it is. -/
theorem CatInv.frame (inv : CatInv D date written a cat fs)
    (same : ∀ i < a.maxRollCount.toNat, fs' (a.names.getFileName i date) = fs (a.names.getFileName i date)) :
    CatInv D date written a cat fs' := by
  obtain ⟨closed, cur, rolling, recs⟩ := inv.rolling
  refine ⟨inv.conf_eq, inv.names_eq, closed, cur, { rolling with slots := ?_ }, recs⟩
  refine rolling.slots.congr fun i hi => ?_
  rw [← inv.names_eq] at same
  exact same i hi

theorem CatInv.write (inv : CatInv D date written a cat fs) (sized : Sized a) (fine : w.env.Fine strTime D date)
    (count : w.count = w.buff.length) (small : w.buff.length < 2147483648) :
    CatInv D date (written ++ [w.buff]) a { cat with file := (cat.file.write strTime fs w).1 }
        (cat.file.write strTime fs w).2 ∧
      ∀ path, (∀ i < a.maxRollCount.toNat, path ≠ a.names.getFileName i date) →
        (cat.file.write strTime fs w).2 path = fs path := by
  obtain ⟨closed, cur, rolling, rfl⟩ := inv.rolling
  have hR := sized.rollSize
  have hK := sized.rollCount
  have complete : w.Complete := ⟨fine.2.2.2, count⟩
  have fits := rolling.write_fits (by omega) (by omega) (by omega) (by omega) fine.onDay complete small
  obtain ⟨closed', cur', rolling', hrecs⟩ :=
    rolling.write (by omega) (by omega) (by omega) fine.onDay complete fits
  have hnames : (cat.file.write strTime fs w).1.names = cat.file.names := LogFile.write_names (f := ⟨cat.file, fs⟩)
  refine ⟨⟨inv.conf_eq, hnames.trans inv.names_eq, closed', cur', rolling', ?_⟩, fun path other => ?_⟩
  · rw [hrecs, List.map_append]
    rfl
  · rw [← inv.names_eq] at other
    exact rolling.write_others (by omega) (by omega) (by omega) fine.onDay fine.2.2.2 other

/-- Each category holds the records `recs` of its place, and no other file has changed. -/
structure MgrInv (D : Int) (date : List UInt8) (cats : List CatCall) (fs₀ : FileSystem)
    (recs : Nat → List (List UInt8)) (m : CLogMgr) : Prop where
  confs : m.cats.map LogCat.conf = cats.map CatCall.conf
  each : ∀ i a, cats[i]? = some a → ∃ cat, m.cats[i]? = some cat ∧ CatInv D date (recs i) a cat m.fs
  others : ∀ path, Elsewhere date cats path → m.fs path = fs₀ path

theorem MgrInv.congr {recs' : Nat → List (List UInt8)} (inv : MgrInv D date cats fs₀ recs m)
    (same : ∀ i a, cats[i]? = some a → recs i = recs' i) : MgrInv D date cats fs₀ recs' m :=
  { inv with
    each := fun i a hi => by
      rw [← same i a hi]
      exact inv.each i a hi }

theorem sized (categories : Categories date cats) (mem : a ∈ cats) : Sized a :=
  ⟨categories.rollSize a mem, categories.rollCount a mem⟩

/-- Two categories have no file in common. -/
theorem names_ne {b : CatCall} {j k l : Nat} (categories : Categories date cats) (hi : cats[i]? = some a)
    (hj : cats[j]? = some b) (hij : i ≠ j) (hk : k < a.maxRollCount.toNat) (hl : l < b.maxRollCount.toNat) :
    a.names.getFileName k date ≠ b.names.getFileName l date := by
  obtain ⟨hi', rfl⟩ := List.getElem?_eq_some_iff.mp hi
  obtain ⟨hj', rfl⟩ := List.getElem?_eq_some_iff.mp hj
  have apart := List.pairwise_iff_getElem.mp categories.apart
  rcases Nat.lt_or_gt_of_ne hij with hlt | hgt
  · exact apart i j hi' hj' hlt k hk l hl
  · exact (apart j i hj' hi' hgt l hl k hk).symm

/-- A record that goes to the category in place `i`. -/
theorem MgrInv.writeCat (inv : MgrInv D date cats fs₀ recs m) (categories : Categories date cats)
    (hi : cats[i]? = some a) (fine : w.env.Fine strTime D date) (count : w.count = w.buff.length)
    (small : w.buff.length < 2147483648) :
    MgrInv D date cats fs₀ (Function.update recs i (recs i ++ [w.buff])) (m.writeCat strTime i w) := by
  obtain ⟨cat, hcat, cinv⟩ := inv.each i a hi
  have mem := List.mem_of_getElem? hi
  obtain ⟨written, apart⟩ := cinv.write (sized categories mem) fine count small
  obtain ⟨hlt, heq⟩ := List.getElem?_eq_some_iff.mp hcat
  simp only [CLogMgr.writeCat, hcat]
  refine ⟨?_, ?_, ?_⟩
  · rw [← inv.confs, List.map_set]
    refine List.ext_getElem? fun j => ?_
    by_cases hj : j = i
    · subst hj
      simp [hlt, heq]
    · rw [List.getElem?_set_ne (Ne.symm hj)]
  · intro j b hj
    by_cases hij : i = j
    · subst hij
      obtain rfl := Option.some.inj (hi.symm.trans hj)
      refine ⟨_, List.getElem?_set_self hlt, ?_⟩
      rw [Function.update_self]
      exact written
    · obtain ⟨other, hother, oinv⟩ := inv.each j b hj
      refine ⟨other, by rw [List.getElem?_set_ne hij, hother], ?_⟩
      rw [Function.update_of_ne (Ne.symm hij)]
      refine oinv.frame fun l hl => apart _ fun k hk => ?_
      exact (names_ne categories hi hj hij hk hl).symm
  · intro path elsewhere
    exact (apart path (elsewhere a mem)).trans (inv.others path elsewhere)

/-- The place that is looked for in a list of places. -/
theorem filter_zipIdx {α : Type} (l : List α) (n j : Nat) :
    ((l.zipIdx n).filter fun c => c.2 = n + j) = l[j]?.toList.map fun x => (x, n + j) := by
  induction l generalizing n j with
  | nil => rfl
  | cons x l ih =>
    rw [List.zipIdx_cons]
    cases j with
    | zero =>
      have none : ((l.zipIdx (n + 1)).filter fun c => c.2 = n + 0) = [] := by
        rw [List.filter_eq_nil_iff]
        intro c hc
        have := (List.mem_zipIdx hc).1
        simp only [decide_eq_true_eq]
        omega
      rw [List.filter_cons_of_pos (by simp), none]
      rfl
    | succ j =>
      have hsum : n + (j + 1) = n + 1 + j := by omega
      rw [List.filter_cons_of_neg (by simp), hsum, ih]
      rfl

/-- The writes of a call, to the places in `sel`. -/
theorem MgrInv.writes {c : WriteCall} (inv : MgrInv D date cats fs₀ recs m) (categories : Categories date cats)
    (fine : c.Fine strTime D date) (small : c.call.record.length < 2147483648)
    {sel : List (LogFileCatConf × Nat)} (bound : ∀ place ∈ sel, place.2 < cats.length) :
    MgrInv D date cats fs₀ (fun j => recs j ++ (sel.filter (·.2 = j)).map fun _ => c.call.record)
      ((sel.map fun place => (place.2, c.call.record.length, c.call.record)).foldl
        (fun m r => m.writeCat strTime r.1 ⟨c.env r.1, r.2.2, c.count r.1⟩) m) := by
  induction sel generalizing m recs with
  | nil => simpa using inv
  | cons place sel ih =>
    obtain ⟨hplace, hrest⟩ := List.forall_mem_cons.mp bound
    have written := inv.writeCat categories (List.getElem?_eq_getElem hplace)
      (w := ⟨c.env place.2, c.call.record, c.count place.2⟩) (fine.env place.2) (fine.count place.2) small
    refine (ih written hrest).congr fun j _ _ => ?_
    by_cases hj : place.2 = j
    · subst hj
      simp
    · simp [Function.update_of_ne (Ne.symm hj), hj]

theorem MgrInv.log {c : WriteCall} (inv : MgrInv D date cats fs₀ recs m) (categories : Categories date cats)
    (fine : c.Fine strTime D date) (small : c.call.record.length < 2147483648) :
    MgrInv D date cats fs₀
      (fun i => recs i ++ if ∃ a ∈ cats[i]?, a.conf.takes c.call.lv = true then [c.call.record] else [])
      (m.log strTime c) := by
  unfold CLogMgr.log
  dsimp only
  rw [LogState.log_writes _ _ _ _ fine.room, inv.confs]
  have started : MgrInv D date cats fs₀ recs
      { m with
        prefixbuf := (LogState.log c.call (cats.map CatCall.conf) (.start m.prefixbuf m.buf)).prefixbuf
        buf := (LogState.log c.call (cats.map CatCall.conf) (.start m.prefixbuf m.buf)).buf } :=
    ⟨inv.confs, inv.each, inv.others⟩
  refine (started.writes categories fine small ?_).congr fun i a hi => ?_
  · intro place hplace
    have := (List.mem_zipIdx (List.mem_filter.mp hplace).1).2.1
    rw [List.length_map] at this
    omega
  · have place := filter_zipIdx (cats.map CatCall.conf) 0 i
    simp only [Nat.zero_add, List.getElem?_map, hi, Option.map_some, Option.toList_some, List.map_cons,
      List.map_nil] at place
    have swap : ∀ places : List (LogFileCatConf × Nat),
        (places.filter fun place => place.1.takes c.call.lv).filter (·.2 = i) =
          (places.filter (·.2 = i)).filter fun place => place.1.takes c.call.lv := by
      intro places
      simp only [List.filter_filter, Bool.and_comm]
    rw [swap, place]
    by_cases htakes : a.conf.takes c.call.lv = true
    · simp [htakes, hi]
    · simp [htakes, hi]

/-- A category that is added to files that are not there yet. -/
theorem MgrInv.addFileCat (inv : MgrInv D date cats fs₀ (fun _ => []) m) (categories : Categories date (cats ++ [a]))
    (fine : a.env.Fine strTime D date) (fresh : ∀ i < a.maxRollCount.toNat, fs₀ (a.names.getFileName i date) = none) :
    MgrInv D date (cats ++ [a]) fs₀ (fun _ => []) (m.addFileCat strTime a).2 := by
  obtain ⟨⟨hR, hR'⟩, hK, hK'⟩ := sized categories (List.mem_append_right _ (List.mem_singleton_self a))
  have elsewhere : ∀ i < a.maxRollCount.toNat, Elsewhere date cats (a.names.getFileName i date) := by
    intro i hi b hb j hj
    obtain ⟨n, hn, rfl⟩ := List.mem_iff_getElem.mp hb
    refine names_ne categories (i := cats.length) (j := n) (by simp) ?_ (by omega) hi hj
    rw [List.getElem?_append_left hn, List.getElem?_eq_getElem hn]
  have none : ∀ i < a.maxRollCount.toNat, m.fs (a.names.getFileName i date) = none := fun i hi =>
    (inv.others _ (elsewhere i hi)).trans (fresh i hi)
  have hsize : (a.maxRollSize % 4294967296).toNat = a.maxRollSize.toNat := by omega
  have hcount : (a.maxRollCount % 4294967296).toNat = a.maxRollCount.toNat := by omega
  have apart := (categories.whole a (by simp)).apart
  have rolling := LogFile.Rolling.init (R := a.maxRollSize.toNat) apart a.curFileTime a.mtime (by omega) none (by omega)
    fine.onDay fine.2.2.2
  have first := LogFile.initLogFile_first (R := a.maxRollSize.toNat) a.curFileTime a.mtime none fine.onDay
  have others : ∀ path, (∀ i < a.maxRollCount.toNat, path ≠ a.names.getFileName i date) →
      (CLogFile.initLogFile strTime a.mtime (.create a.names a.curFileTime) m.fs a.maxRollSize.toNat
        a.maxRollCount.toNat a.env).2.2 path = m.fs path := by
    intro path other
    refine (congrFun (congrArg LogFile.disk first) path).trans ?_
    exact LogFile.openFile_others (fun _ h => by cases h) (other 0 (by omega))
  have hnames : (CLogFile.initLogFile strTime a.mtime (.create a.names a.curFileTime) m.fs a.maxRollSize.toNat
      a.maxRollCount.toNat a.env).2.1.names = a.names :=
    (congrArg (fun f : LogFile => f.names) first).trans LogFile.openFile_names
  have opened : ¬ (CLogFile.initLogFile strTime a.mtime (.create a.names a.curFileTime) m.fs a.maxRollSize.toNat
      a.maxRollCount.toNat a.env).1 < 0 := by
    unfold CLogFile.initLogFile CLogFile.initFileRoll
    rw [CLogFile.openFile_ret, fine.2.2.2]
    decide
  unfold CLogMgr.addFileCat
  simp only [hsize, hcount, opened, if_false]
  refine ⟨?_, ?_, ?_⟩
  · simp [inv.confs]
  · have hlen := congrArg List.length inv.confs
    rw [List.length_map, List.length_map] at hlen
    intro i b hi
    by_cases last : i < cats.length
    · have hb := hi
      rw [List.getElem?_append_left last] at hi
      obtain ⟨cat, hcat, cinv⟩ := inv.each i b hi
      refine ⟨cat, by rw [List.getElem?_append_left (by omega), hcat], cinv.frame fun k hk => ?_⟩
      exact others _ fun l hl =>
        names_ne (j := cats.length) categories hb (by simp) (by omega) hk hl
    · obtain rfl : i = cats.length := by
        have := (List.getElem?_eq_some_iff.mp hi).1
        rw [List.length_append, List.length_singleton] at this
        omega
      obtain rfl : a = b := by simpa using hi
      refine ⟨_, by rw [← hlen, List.getElem?_concat_length], rfl, hnames, [], [], rolling, rfl⟩
  · intro path hpath
    refine (others path fun i hi => hpath a (by simp) i hi).trans (inv.others path fun b hb => hpath b ?_)
    exact List.mem_append_left _ hb

theorem Categories.append_left {more : List CatCall} (categories : Categories date (cats ++ more)) :
    Categories date cats where
  rollSize a ha := categories.rollSize a (List.mem_append_left _ ha)
  rollCount a ha := categories.rollCount a (List.mem_append_left _ ha)
  whole a ha := categories.whole a (List.mem_append_left _ ha)
  apart := (List.pairwise_append.mp categories.apart).1

theorem MgrInv.addFileCats (more : List CatCall) (inv : MgrInv D date cats fs₀ (fun _ => []) m)
    (categories : Categories date (cats ++ more)) (fine : ∀ a ∈ more, a.env.Fine strTime D date)
    (fresh : ∀ a ∈ more, ∀ i < a.maxRollCount.toNat, fs₀ (a.names.getFileName i date) = none) :
    MgrInv D date (cats ++ more) fs₀ (fun _ => []) (more.foldl (fun m a => (m.addFileCat strTime a).2) m) := by
  induction more generalizing cats m with
  | nil => simpa using inv
  | cons a more ih =>
    obtain ⟨fineA, fineMore⟩ := List.forall_mem_cons.mp fine
    obtain ⟨freshA, freshMore⟩ := List.forall_mem_cons.mp fresh
    have split : cats ++ a :: more = cats ++ [a] ++ more := by simp
    rw [split] at categories ⊢
    exact ih (inv.addFileCat (Categories.append_left categories) fineA freshA) categories fineMore freshMore

/-- What the calls leave for the category in place `i`. -/
def takenBy (cats : List CatCall) (calls : List WriteCall) (i : Nat) : List (List UInt8) :=
  calls.flatMap fun c => if ∃ a ∈ cats[i]?, a.conf.takes c.call.lv = true then [c.call.record] else []

theorem takenBy_eq {calls : List WriteCall} (hi : cats[i]? = some a) :
    takenBy cats calls i = (calls.filter fun c => a.conf.takes c.call.lv).map fun c => c.call.record := by
  induction calls with
  | nil => rfl
  | cons c calls ih =>
    simp only [takenBy, List.flatMap_cons] at ih ⊢
    rw [ih]
    by_cases htakes : a.conf.takes c.call.lv = true
    · simp [hi, htakes]
    · simp [hi, htakes]

theorem MgrInv.logs {calls : List WriteCall} (inv : MgrInv D date cats fs₀ recs m)
    (categories : Categories date cats) (fine : ∀ c ∈ calls, c.Fine strTime D date) :
    MgrInv D date cats fs₀ (fun i => recs i ++ takenBy cats calls i) (calls.foldl (CLogMgr.log strTime) m) := by
  induction calls generalizing recs m with
  | nil => simpa [takenBy] using inv
  | cons c calls ih =>
    obtain ⟨fineC, fineCalls⟩ := List.forall_mem_cons.mp fine
    have hlen := c.call.record_length
    have room := fineC.room
    have logged := inv.log categories fineC (by
      unfold LogState.prefixLen at hlen
      unfold LogState.bufLen at room
      omega)
    have rest := ih logged fineCalls
    simpa only [takenBy, List.flatMap_cons, List.append_assoc, List.foldl_cons] using rest

end CLogMgr

/-- Within a day, whatever is logged in whatever order, the files of each category hold the newest of the records of
the calls whose level it takes, each record whole, and no other file is touched. -/
theorem log_mgr_keeps_newest (strTime : Int → List UInt8) {D : Int} {date : List UInt8} {cats : List CatCall}
    {calls : List WriteCall} {m last : CLogMgr} (empty : m.cats = []) (categories : Categories date cats)
    (fresh : ∀ a ∈ cats, ∀ i < a.maxRollCount.toNat, m.fs (a.names.getFileName i date) = none)
    (added : ∀ a ∈ cats, a.env.Fine strTime D date) (fine : ∀ c ∈ calls, c.Fine strTime D date)
    (h : calls.foldl (CLogMgr.log strTime) (cats.foldl (fun m a => (m.addFileCat strTime a).2) m) = last) :
    (∀ (i : Nat) (a : CatCall), cats[i]? = some a →
      ∃ cat : LogCat, last.cats[i]? = some cat ∧ cat.file.names = a.names ∧
      cat.file.KeepsNewest a.maxRollSize.toNat a.maxRollCount.toNat date
        ((calls.filter fun c => a.conf.takes c.call.lv).map fun c => c.call.record) last.fs) ∧
    ∀ path, Elsewhere date cats path → last.fs path = m.fs path := by
  have start : CLogMgr.MgrInv D date [] m.fs (fun _ => []) m :=
    ⟨by simp [empty], by simp, fun _ _ => rfl⟩
  have set := start.addFileCats cats categories added fresh
  have inv := set.logs categories fine
  rw [List.nil_append, h] at inv
  refine ⟨fun i (a : CatCall) hi => ?_, inv.others⟩
  obtain ⟨cat, hcat, cinv⟩ := inv.each i a hi
  have keeps := cinv.keepsNewest (CLogMgr.sized categories (List.mem_of_getElem? hi))
  rw [List.nil_append, CLogMgr.takenBy_eq hi] at keeps
  exact ⟨cat, hcat, cinv.names_eq, keeps⟩

/-- A file for everything and one for errors, of 60 bytes each. -/
def twoCategories : List CatCall :=
  [⟨⟨0, 4⟩, 60, 2, svrLog, 7, fun _ => 0, ⟨100000, 100001, true⟩⟩,
    ⟨⟨3, 4⟩, 60, 2, ⟨text "err", text "log", by decide, svrLog.postfix_lt⟩, 7, fun _ => 0, ⟨100000, 100001, true⟩⟩]

def logCall (lv : LogLevel) (msg : String) : WriteCall where
  call := ⟨text "a.cpp", text "f", 7, lv, text "19700102 11:46:40", 25, text msg⟩
  env _ := ⟨100002, 100003, true⟩
  count _ := (LogCall.record ⟨text "a.cpp", text "f", 7, lv, text "19700102 11:46:40", 25, text msg⟩).length

def threeCalls : List WriteCall := [logCall .error "first", logCall .info "second", logCall .fatal "third"]

def emptyMgr : CLogMgr := ⟨[], fun _ => 0, fun _ => 0, fun _ => none⟩

def loggedMgr : CLogMgr :=
  threeCalls.foldl (CLogMgr.log fun _ => text "19700102")
    (twoCategories.foldl (fun m a => (m.addFileCat (fun _ => text "19700102") a).2) emptyMgr)

theorem log_mgr_keeps_newest_three :
    ∃ cat : LogCat, loggedMgr.cats[0]? = some cat ∧
      cat.file.KeepsNewest 60 2 (text "19700102")
        [text "[19700102 11:46:40.000025] [ERROR] [a.cpp:7 (f)] first\n",
          text "[19700102 11:46:40.000025] [INFO ] [a.cpp:7 (f)] second\n",
          text "[19700102 11:46:40.000025] [FATAL] [a.cpp:7 (f)] third\n"] loggedMgr.fs ∧
      recordsOf (loggedMgr.fs.content (text "svr_19700102.log")) =
        [text "[19700102 11:46:40.000025] [ERROR] [a.cpp:7 (f)] first\n",
          text "[19700102 11:46:40.000025] [INFO ] [a.cpp:7 (f)] second\n"] ∧
      recordsOf (loggedMgr.fs.content (text "svr_19700102.log.1")) =
        [text "[19700102 11:46:40.000025] [FATAL] [a.cpp:7 (f)] third\n"] := by
  have categories : Categories (text "19700102") twoCategories :=
    ⟨by decide +kernel, by decide +kernel, by decide +kernel, by decide +kernel⟩
  have calls : ∀ lv msg, (logCall lv msg).call.msg.length < 1000 →
      (logCall lv msg).Fine (fun _ => text "19700102") 1 (text "19700102") := by
    intro lv msg short
    refine ⟨fun _ => ⟨rfl, rfl, rfl, rfl⟩, fun _ => by simp only [logCall], ?_⟩
    have := LogState.prefixLength_le (logCall lv msg).call
    unfold LogState.prefixLen at this
    unfold LogState.bufLen
    omega
  have fine : ∀ c ∈ threeCalls, c.Fine (fun _ => text "19700102") 1 (text "19700102") := by
    simp only [threeCalls, List.forall_mem_cons]
    exact ⟨calls _ _ (by decide), calls _ _ (by decide), calls _ _ (by decide), by simp⟩
  have added : ∀ a ∈ twoCategories, a.env.Fine (fun _ => text "19700102") 1 (text "19700102") := by
    simp only [twoCategories, List.forall_mem_cons]
    exact ⟨⟨rfl, rfl, rfl, rfl⟩, ⟨rfl, rfl, rfl, rfl⟩, by simp⟩
  obtain ⟨each, -⟩ := log_mgr_keeps_newest (fun _ => text "19700102") (m := emptyMgr) rfl categories
    (fun _ _ _ _ => rfl) added fine rfl
  obtain ⟨cat, hcat, -, keeps⟩ := each 0 _ rfl
  refine ⟨cat, hcat, ?_, by decide +kernel, by decide +kernel⟩
  have records : ((threeCalls.filter fun c => (⟨0, 4⟩ : LogFileCatConf).takes c.call.lv).map fun c => c.call.record) =
      [text "[19700102 11:46:40.000025] [ERROR] [a.cpp:7 (f)] first\n",
        text "[19700102 11:46:40.000025] [INFO ] [a.cpp:7 (f)] second\n",
        text "[19700102 11:46:40.000025] [FATAL] [a.cpp:7 (f)] third\n"] := by decide +kernel
  rw [records] at keeps
  exact keeps

end Wddlib
