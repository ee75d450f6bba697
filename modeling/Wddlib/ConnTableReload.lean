import Wddlib.ConnTableInvariant

namespace Wddlib

theorem int32_lt (n : Int) : int32 n < 2147483648 := by
  unfold int32
  split <;> omega

theorem ConnectionRecord.detatch_bounds {connred : ConnectionRecord} (maxconn : Nat)
    (small : connred.idx < 2147483648) :
    connred.idx ≤ (connred.detatch maxconn).connid ∧ (connred.detatch maxconn).connid < 2147483648 := by
  have hlt := int32_lt (connred.connid + maxconn)
  simp only [detatch, updateConnid]
  split <;> omega

/-- The counter moves on, or starts again at the index. -/
theorem ConnectionRecord.detatch_connid_of_fits {connred : ConnectionRecord} {maxconn : Nat}
    (nonneg : 0 ≤ connred.idx) (le : connred.idx ≤ connred.connid) (lt : connred.connid < 2147483648)
    (fits : maxconn < 2147483648) :
    (connred.detatch maxconn).connid =
      if connred.connid + maxconn < 2147483648 then connred.connid + maxconn else connred.idx := by
  simp only [detatch, updateConnid]
  by_cases room : connred.connid + maxconn < 2147483648
  · rw [int32_eq_self (by omega) room, if_neg (by omega), if_pos room]
  · rw [int32_eq_sub (by omega) (by omega), if_pos (by omega), if_neg room]

namespace ConnTable

/-- The number of every record is in the class of its index, a record in use is found under its number,
and the index of a record that is not in use is free. -/
def LookupKept (t : ConnTable) : Prop :=
  ∀ i < t.vecSize, (t.vec i).connid % t.vecSize = (t.vec i).idx ∧
    ((t.vec i).isValid = true → t.getConnectionRecord (t.vec i).connid = some i) ∧
    ((t.vec i).isValid = false → (t.vec i).idx ∈ t.idxvec)

/-- Releasing record `i` with the number `connid` keeps its number in its class and gives its index
back. -/
def GoodRelease (size maxconn i : Nat) (connid : Int) : Prop :=
  i < maxconn ∧ maxconn < 2147483648 ∧ (size ∣ maxconn ∨ 2147483648 ≤ connid + maxconn)

/-- What a table of `size` records keeps under every configuration. -/
structure Base (size : Nat) (t : ConnTable) : Prop where
  vecSize_eq : t.vecSize = size
  idx_eq : ∀ p < size, (t.vec p).idx = p
  idx_le : ∀ p < size, (p : Int) ≤ (t.vec p).connid
  connid_lt : ∀ p < size, (t.vec p).connid < 2147483648
  nodup : t.idxvec.Nodup
  free : ∀ x ∈ t.idxvec, ∃ p < size, x = (p : Int) ∧ (t.vec p).isValid = false
  used : ∀ p, (t.vec p).isValid = true → p < size

/-- Some number has left its class, or some index is neither free nor in use. -/
def Broken (size : Nat) (t : ConnTable) : Prop :=
  ∃ p < size, (t.vec p).connid % size ≠ p ∨ (t.vec p).isValid = false ∧ (p : Int) ∉ t.idxvec

/-- The changes that the server makes to its table, with the releases, the latest first. -/
inductive TableRun (t : ConnTable) : List (Nat × Int) → ConnTable → Prop where
  | refl : TableRun t [] t
  | closed {log : List (Nat × Int)} {t' : ConnTable} {connid : Int} {i : Nat} (run : TableRun t log t')
      (found : t'.getConnectionRecord connid = some i) : TableRun t ((i, connid) :: log) (t'.closeConn connid)
  | recored {log : List (Nat × Int)} {t' : ConnTable} {fd : Int} (run : TableRun t log t') (pos : 0 < fd)
      (addr : InetAddress) : TableRun t log (t'.recoredNewConn fd addr).2
  | routed {log : List (Nat × Int)} {t' : ConnTable} (run : TableRun t log t') (i : Nat) (id : Int) :
      TableRun t log (t'.setChannelid i id)

variable {t t' t'' : ConnTable} {size i p : Nat} {connid fd : Int} {addr : InetAddress} {log log' : List (Nat × Int)}

theorem TableRun.trans (first : TableRun t log t') (second : TableRun t' log' t'') :
    TableRun t (log' ++ log) t'' := by
  induction second with
  | refl => exact first
  | closed _ found ih => exact ih.closed found
  | recored _ pos addr ih => exact ih.recored pos addr
  | routed _ i id ih => exact ih.routed i id

section Base

variable (base : Base size t)
include base

theorem Base.found (h : t.getConnectionRecord connid = some i) :
    i < size ∧ (t.vec i).isValid = true ∧ (t.vec i).connid = connid ∧ connid % size = i := by
  simp only [getConnectionRecord, base.vecSize_eq] at h
  split at h
  next nonneg =>
    split at h
    next hv =>
      obtain rfl := Option.some.inj h
      refine ⟨base.used _ hv.1, hv.1, hv.2, ?_⟩
      rw [Int.natCast_mod, Int.toNat_of_nonneg nonneg]
    next => cases h
  next => cases h

theorem Base.found_of_valid (hv : (t.vec p).isValid = true) (hmod : (t.vec p).connid % size = p) :
    t.getConnectionRecord (t.vec p).connid = some p := by
  have hp := base.used p hv
  have hle := base.idx_le p hp
  have hpos : (t.vec p).connid ≥ 0 := by omega
  have hidx : (t.vec p).connid.toNat % size = p := by
    have : ((t.vec p).connid.toNat % size : Int) = p := by
      rw [Int.toNat_of_nonneg hpos]
      exact hmod
    omega
  simp only [getConnectionRecord, base.vecSize_eq, if_pos hpos, hidx, hv, and_self, if_true]

/-- A table is as it should be unless something is broken. -/
theorem Base.lookupKept_iff : t.LookupKept ↔ ¬ t.Broken size := by
  simp only [LookupKept, base.vecSize_eq]
  constructor
  · rintro kept ⟨p, hp, hmod | ⟨hv, lost⟩⟩
    · rw [← base.idx_eq p hp] at hmod
      exact hmod (kept p hp).1
    · have back := (kept p hp).2.2 hv
      rw [base.idx_eq p hp] at back
      exact lost back
  · intro whole i hi
    have hmod : (t.vec i).connid % size = i := by
      by_contra hne
      exact whole ⟨i, hi, .inl hne⟩
    refine ⟨by rw [base.idx_eq i hi, hmod], fun hv => base.found_of_valid hv hmod, ?_⟩
    intro hv
    rw [base.idx_eq i hi]
    by_contra lost
    exact whole ⟨i, hi, .inr ⟨hv, lost⟩⟩

theorem Base.closeConn_eq (h : t.getConnectionRecord connid = some i) :
    t.closeConn connid =
      { t with
        vec := Function.update t.vec i ((t.vec i).detatch t.maxconn)
        idxvec := if (i : Int) < int32 t.maxconn then t.idxvec ++ [(i : Int)] else t.idxvec } := by
  obtain ⟨hi, -⟩ := base.found h
  simp only [closeConn, h, returnIdx, base.idx_eq i hi]
  by_cases back : (i : Int) < int32 t.maxconn
  · rw [if_pos ⟨by omega, back⟩, if_pos back]
    rfl
  · rw [if_neg (by omega), if_neg back]
    rfl

/-- Without a free index nothing changes; otherwise the last one is taken. -/
theorem Base.recoredNewConn_cases (fd : Int) (addr : InetAddress) :
    t.recoredNewConn fd addr = (-1, t) ∨
      ∃ p rest, p < size ∧ t.idxvec = rest ++ [(p : Int)] ∧ (t.vec p).isValid = false ∧
        t.recoredNewConn fd addr = ((t.vec p).connid,
          { t with vec := Function.update t.vec p ((t.vec p).attatch fd addr), idxvec := rest }) := by
  rcases List.eq_nil_or_concat t.idxvec with h | ⟨rest, x, h⟩
  · left
    rw [recoredNewConn_none (by simp [getFreeIdx_nil h]), getFreeIdx_nil h]
  · right
    rw [List.concat_eq_append] at h
    obtain ⟨p, hp, rfl, hv⟩ := base.free x (by rw [h]; simp)
    have hmod : p % size = p := Nat.mod_eq_of_lt hp
    refine ⟨p, rest, hp, h, hv, ?_⟩
    simp [recoredNewConn, getFreeIdx_snoc h, getConnectionRecordByIdx, base.vecSize_eq, hmod, base.idx_eq p hp, hv,
      setRecord]

/-- Record `i` changes and keeps its index; of the free indices only `i` may come or go. -/
theorem Base.replace {connred : ConnectionRecord} {idxvec : List Int} (hi : i < size) (idx : connred.idx = i)
    (idx_le : connred.idx ≤ connred.connid) (connid_lt : connred.connid < 2147483648) (nodup : idxvec.Nodup)
    (free : ∀ x ∈ idxvec, x = i ∧ connred.isValid = false ∨ x ≠ i ∧ x ∈ t.idxvec) :
    Base size { t with vec := Function.update t.vec i connred, idxvec := idxvec } := by
  have cases_of : ∀ p, p = i ∧ Function.update t.vec i connred p = connred ∨
      p ≠ i ∧ Function.update t.vec i connred p = t.vec p := by
    intro p
    by_cases hpi : p = i
    · subst hpi
      exact .inl ⟨rfl, Function.update_self _ _ _⟩
    · exact .inr ⟨hpi, Function.update_of_ne hpi _ _⟩
  refine ⟨base.vecSize_eq, ?_, ?_, ?_, nodup, ?_, ?_⟩
  · intro p hp
    rcases cases_of p with ⟨rfl, same⟩ | ⟨-, same⟩
    · simp only [same, idx]
    · simp only [same, base.idx_eq p hp]
  · intro p hp
    rcases cases_of p with ⟨rfl, same⟩ | ⟨-, same⟩
    · simp only [same]
      omega
    · simp only [same]
      exact base.idx_le p hp
  · intro p hp
    rcases cases_of p with ⟨rfl, same⟩ | ⟨-, same⟩
    · simp only [same]
      exact connid_lt
    · simp only [same]
      exact base.connid_lt p hp
  · intro x hx
    rcases free x hx with ⟨rfl, hv⟩ | ⟨hne, mem⟩
    · exact ⟨i, hi, rfl, by simpa using hv⟩
    · obtain ⟨p, hp, rfl, hv⟩ := base.free x mem
      have hpi : p ≠ i := fun same => hne (by rw [same])
      exact ⟨p, hp, rfl, by simpa [hpi] using hv⟩
  · intro p hv
    rcases cases_of p with ⟨rfl, -⟩ | ⟨-, same⟩
    · exact hi
    · simp only [same] at hv
      exact base.used p hv

theorem Base.not_free (hv : (t.vec i).isValid = true) : (i : Int) ∉ t.idxvec := by
  intro mem
  obtain ⟨q, -, hq, hfree⟩ := base.free _ mem
  obtain rfl := Int.ofNat.inj hq
  rw [hfree] at hv
  cases hv

theorem Base.release (found : t.getConnectionRecord connid = some i) : Base size (t.closeConn connid) := by
  obtain ⟨hi, hv, -, -⟩ := base.found found
  have hidx := base.idx_eq i hi
  have hlo := base.idx_le i hi
  have hhi := base.connid_lt i hi
  have hbounds := @ConnectionRecord.detatch_bounds (t.vec i) t.maxconn (by omega)
  have fresh := base.not_free hv
  have other : ∀ x ∈ t.idxvec, x ≠ i ∧ x ∈ t.idxvec := by
    intro x hx
    exact ⟨fun same => fresh (same ▸ hx), hx⟩
  rw [base.closeConn_eq found]
  refine base.replace hi hidx hbounds.1 hbounds.2 ?_ ?_
  · split
    · refine List.nodup_append.mpr ⟨base.nodup, by simp, ?_⟩
      intro x hx y hy same
      rw [same, List.mem_singleton.mp hy] at hx
      exact fresh hx
    · exact base.nodup
  · intro x hx
    split at hx
    · rcases List.mem_append.mp hx with hx | hx
      · exact .inr (other x hx)
      · exact .inl ⟨List.mem_singleton.mp hx, ConnectionRecord.detatch_isValid⟩
    · exact .inr (other x hx)

theorem Base.snoc {rest : List Int} (h : t.idxvec = rest ++ [(p : Int)]) :
    rest.Nodup ∧ ∀ x ∈ rest, x ≠ p ∧ x ∈ t.idxvec := by
  have hnodup := base.nodup
  rw [h] at hnodup ⊢
  obtain ⟨hrest, -, hapart⟩ := List.nodup_append.mp hnodup
  refine ⟨hrest, ?_⟩
  intro x hx
  exact ⟨hapart x hx p (List.mem_singleton.mpr rfl), List.mem_append_left _ hx⟩

theorem Base.recored (fd : Int) (addr : InetAddress) : Base size (t.recoredNewConn fd addr).2 := by
  rcases base.recoredNewConn_cases fd addr with h | ⟨p, rest, hp, hsplit, -, h⟩
  · rw [h]
    exact base
  · rw [h]
    obtain ⟨hnodup, hrest⟩ := base.snoc hsplit
    have hidx := base.idx_eq p hp
    refine base.replace hp hidx ?_ (base.connid_lt p hp) hnodup fun x hx => .inr (hrest x hx)
    have := base.idx_le p hp
    rw [← hidx] at this
    exact this

theorem Base.routed (i : Nat) (id : Int) : Base size (t.setChannelid i id) := by
  have idx : ∀ p, ((t.setChannelid i id).vec p).idx = (t.vec p).idx := by
    intro p
    by_cases hpi : p = i
    · subst hpi
      simp [setChannelid, setRecord]
    · simp [setChannelid, setRecord, hpi]
  refine ⟨base.vecSize_eq, ?_, ?_, ?_, base.nodup, ?_, ?_⟩
  · intro p hp
    rw [idx]
    exact base.idx_eq p hp
  · intro p hp
    rw [setChannelid_connid]
    exact base.idx_le p hp
  · intro p hp
    rw [setChannelid_connid]
    exact base.connid_lt p hp
  · intro x hx
    obtain ⟨p, hp, rfl, hv⟩ := base.free x hx
    exact ⟨p, hp, rfl, by rw [setChannelid_isValid]; exact hv⟩
  · intro p hv
    rw [setChannelid_isValid] at hv
    exact base.used p hv

end Base

/-- What a table keeps under the configuration it was made with covers what it keeps under every one. -/
theorem Inv.base {channelCount : Nat} (inv : t.Inv channelCount) (fits : t.maxconn ≤ 2147483648) :
    Base t.maxconn t := by
  have whole : t.usable = t.maxconn := Nat.min_eq_left fits
  have record : ∀ p < t.maxconn, (t.vec p).Inv t.maxconn channelCount p := fun p hp =>
    inv.record p (by rwa [whole])
  refine ⟨inv.vecSize_eq, fun p hp => (record p hp).idx_eq, ?_, fun p hp => (record p hp).connid_lt, inv.nodup, ?_,
    fun p hv => whole ▸ inv.used p hv⟩
  · intro p hp
    have round := (record p hp).connid_round
    omega
  · intro x hx
    obtain ⟨hlt, hsign⟩ := inv.range x hx
    obtain ⟨p, rfl⟩ := Int.eq_ofNat_of_zero_le (show 0 ≤ x by omega)
    exact ⟨p, by omega, rfl, inv.free p hx⟩

theorem create_base (fits : size ≤ 2147483648) : Base size (create size) :=
  (create_inv (by omega) one_pos).base fits

theorem create_whole (fits : size ≤ 2147483648) : ¬ (create size).Broken size := by
  rintro ⟨p, hp, hmod | ⟨-, lost⟩⟩
  · have hint : int32 p = p := int32_eq_self (by omega) (by omega)
    have hself : int32 p % (size : Int) = p := by
      rw [hint]
      exact Int.emod_eq_of_lt (by omega) (by omega)
    exact hmod hself
  · refine lost (List.mem_map.mpr ⟨p, List.mem_range.mpr hp, ?_⟩)
    exact int32_eq_self (by omega) (by omega)

/-- With more records than an `int` can name the numbers start outside their classes. -/
theorem create_not_kept (large : 2147483648 < size) (small : size < 4294967296) : ¬ (create size).LookupKept := by
  intro kept
  have hmod : int32 (2147483648 : Nat) % (size : Int) = int32 (2147483648 : Nat) := (kept 2147483648 large).1
  have hneg : int32 (2147483648 : Nat) = -2147483648 := by decide
  have hnonneg := Int.emod_nonneg (int32 (2147483648 : Nat)) (show (size : Int) ≠ 0 by omega)
  omega

section Release

variable (base : Base size t) (found : t.getConnectionRecord connid = some i)
include base found

/-- Only record `i` and its index are touched. -/
theorem Base.release_other (hpi : p ≠ i) :
    (t.closeConn connid).vec p = t.vec p ∧ ((p : Int) ∈ (t.closeConn connid).idxvec ↔ (p : Int) ∈ t.idxvec) := by
  rw [base.closeConn_eq found]
  refine ⟨by simp [hpi], ?_⟩
  simp only
  split
  · simp [hpi]
  · rfl

/-- Where the number goes and whether the index comes back. -/
theorem Base.release_self (small : t.maxconn < 4294967296) :
    ((t.closeConn connid).vec i).isValid = false ∧
    (((t.closeConn connid).vec i).connid % size = i ∧ (i : Int) ∈ (t.closeConn connid).idxvec ↔
      GoodRelease size t.maxconn i connid) := by
  obtain ⟨hi, hv, hconnid, hmod⟩ := base.found found
  have hidx := base.idx_eq i hi
  have hlo := base.idx_le i hi
  have hhi := base.connid_lt i hi
  have fresh := base.not_free hv
  have hint := int32_cases small
  have back : (i : Int) ∈ (t.closeConn connid).idxvec ↔ i < t.maxconn ∧ t.maxconn < 2147483648 := by
    rw [base.closeConn_eq found]
    simp only
    split
    · simp
      omega
    · simp only [fresh, false_iff]
      omega
  have hself : (t.closeConn connid).vec i = (t.vec i).detatch t.maxconn := by
    rw [base.closeConn_eq found]
    exact Function.update_self _ _ _
  refine ⟨by rw [hself]; exact ConnectionRecord.detatch_isValid, ?_⟩
  rw [back, hself, GoodRelease, and_left_comm, and_congr_right_iff]
  intro hlt
  rw [and_comm, and_congr_right_iff]
  intro fits
  rw [ConnectionRecord.detatch_connid_of_fits (by omega) (by omega) hhi fits, hidx, hconnid]
  by_cases room : connid + t.maxconn < 2147483648
  · rw [if_pos room, ← hmod, Int.emod_eq_emod_iff_emod_sub_eq_zero, add_sub_cancel_left,
      ← Int.dvd_iff_emod_eq_zero, Int.natCast_dvd_natCast]
    exact ⟨.inl, fun h => h.resolve_right (by omega)⟩
  · rw [if_neg room]
    exact ⟨fun _ => .inr (by omega), fun _ => Int.emod_eq_of_lt (by omega) (by omega)⟩

/-- A release breaks a whole table exactly if it is not a good one. -/
theorem Base.release_broken_iff (small : t.maxconn < 4294967296) (whole : ¬ t.Broken size) :
    (t.closeConn connid).Broken size ↔ ¬ GoodRelease size t.maxconn i connid := by
  obtain ⟨hi, -⟩ := base.found found
  obtain ⟨hv, hself⟩ := base.release_self found small
  rw [← hself]
  constructor
  · rintro ⟨p, hp, hbad⟩ ⟨hclass, back⟩
    by_cases hpi : p = i
    · subst hpi
      rcases hbad with hbad | ⟨-, lost⟩
      · exact hbad hclass
      · exact lost back
    · obtain ⟨same, hfree⟩ := base.release_other found hpi
      rw [same, hfree] at hbad
      exact whole ⟨p, hp, hbad⟩
  · intro hbad
    refine ⟨i, hi, ?_⟩
    by_cases hclass : ((t.closeConn connid).vec i).connid % size = i
    · exact .inr ⟨hv, fun back => hbad ⟨hclass, back⟩⟩
    · exact .inl hclass

/-- What is broken is not found, so it is not released again. -/
theorem Broken.release (broken : t.Broken size) : (t.closeConn connid).Broken size := by
  obtain ⟨-, hv, hconnid, hmod⟩ := base.found found
  obtain ⟨p, hp, hbad⟩ := broken
  have hpi : p ≠ i := by
    rintro rfl
    rcases hbad with hbad | ⟨hinvalid, -⟩
    · rw [hconnid] at hbad
      exact hbad hmod
    · rw [hv] at hinvalid
      cases hinvalid
  obtain ⟨same, hfree⟩ := base.release_other found hpi
  exact ⟨p, hp, by rw [same, hfree]; exact hbad⟩

end Release

theorem Base.recored_broken_iff (base : Base size t) (pos : 0 < fd) (addr : InetAddress) :
    (t.recoredNewConn fd addr).2.Broken size ↔ t.Broken size := by
  rcases base.recoredNewConn_cases fd addr with h | ⟨q, rest, -, hsplit, -, h⟩
  · rw [h]
  · rw [h]
    refine exists_congr fun p => and_congr_right fun hp => ?_
    simp only
    by_cases hpq : p = q
    · subst hpq
      have taken : (p : Int) ∈ t.idxvec := by
        rw [hsplit]
        simp
      simp [ConnectionRecord.attatch, ConnectionRecord.isValid, pos, taken]
    · have hmem : (p : Int) ∈ rest ↔ (p : Int) ∈ t.idxvec := by
        rw [hsplit]
        simp [hpq]
      rw [Function.update_of_ne hpq, hmem]

theorem broken_setChannelid_iff (t : ConnTable) (size i : Nat) (id : Int) :
    (t.setChannelid i id).Broken size ↔ t.Broken size := by
  simp only [Broken, setChannelid_connid, setChannelid_isValid]
  rfl

section Run

variable (run : TableRun t log t') (base : Base size t)
include run base

theorem TableRun.kept_base : Base size t' ∧ t'.maxconn = t.maxconn := by
  induction run with
  | refl => exact ⟨base, rfl⟩
  | closed _ found ih => exact ⟨ih.1.release found, by rw [closeConn_maxconn, ih.2]⟩
  | @recored _ t' fd _ pos addr ih =>
    refine ⟨ih.1.recored fd addr, ?_⟩
    rcases ih.1.recoredNewConn_cases fd addr with h | ⟨p, rest, -, -, -, h⟩
    · rw [h]
      exact ih.2
    · rw [h]
      exact ih.2
  | routed _ i id ih => exact ⟨ih.1.routed i id, ih.2⟩

/-- Starting from a whole table, the table is whole at the end exactly if every release was good. -/
theorem TableRun.broken_iff (small : t.maxconn < 4294967296) (whole : ¬ t.Broken size) :
    t'.Broken size ↔ ¬ ∀ r ∈ log, GoodRelease size t.maxconn r.1 r.2 := by
  induction run with
  | refl => simp [whole]
  | @closed log t' connid i before found ih =>
    obtain ⟨base', same⟩ := before.kept_base base
    rw [List.forall_mem_cons]
    by_cases broken : t'.Broken size
    · have bad := ih.mp broken
      exact ⟨fun _ good => bad good.2, fun _ => broken.release base' found⟩
    · rw [base'.release_broken_iff found (by omega) broken, same]
      have good := not_not.mp (mt ih.mpr broken)
      exact not_congr ⟨fun h => ⟨h, good⟩, fun h => h.1⟩
  | @recored log t' fd before pos addr ih =>
    rw [(before.kept_base base).1.recored_broken_iff pos addr]
    exact ih
  | routed _ i id ih =>
    rw [broken_setChannelid_iff]
    exact ih

theorem TableRun.lookupKept_iff (small : t.maxconn < 4294967296) (kept : t.LookupKept) :
    t'.LookupKept ↔ ∀ r ∈ log, GoodRelease size t.maxconn r.1 r.2 := by
  rw [(run.kept_base base).1.lookupKept_iff, run.broken_iff base small (base.lookupKept_iff.mp kept), not_not]

end Run

end ConnTable

end Wddlib
