import Wddlib.ConnTable
import Mathlib.Data.List.Perm.Basic
import Mathlib.Data.List.Nodup

namespace Wddlib

/-- What record `i` of a table with `maxconn` records keeps. -/
structure ConnectionRecord.Inv (maxconn channelCount i : Nat) (connred : ConnectionRecord) : Prop where
  idx_eq : connred.idx = i
  connid_nonneg : 0 ≤ connred.connid
  connid_lt : connred.connid < 2147483648
  connid_mod : connred.connid % maxconn = i
  channelid_nonneg : 0 ≤ connred.channelid
  channelid_lt : connred.channelid < channelCount

/-- How many records an `int` can name. -/
def ConnTable.usable (t : ConnTable) : Nat := min t.maxconn 2147483648

/-- What a connection table keeps; `channelCount` is the number of backend channels. When `maxconn`
does not fit an `int` some indices are negative, and `ReturnIdx` takes none back. -/
structure ConnTable.Inv (channelCount : Nat) (t : ConnTable) : Prop where
  vecSize_eq : t.vecSize = t.maxconn
  maxconn_lt : t.maxconn < 4294967296
  nodup : t.idxvec.Nodup
  range : ∀ idx ∈ t.idxvec, idx < t.usable ∧ (0 ≤ idx ∨ 2147483648 < t.maxconn)
  free : ∀ i : Nat, (i : Int) ∈ t.idxvec → (t.vec i).isValid = false
  returned : t.maxconn < 2147483648 → ∀ i < t.maxconn, (t.vec i).isValid = false → (i : Int) ∈ t.idxvec
  used : ∀ i, (t.vec i).isValid = true → i < t.usable
  record : ∀ i < t.usable, (t.vec i).Inv t.maxconn channelCount i

namespace ConnectionRecord

variable {connred : ConnectionRecord} {maxconn channelCount i : Nat}

theorem detatch_isValid : (connred.detatch maxconn).isValid = false := by
  simp [detatch, updateConnid, isValid]

/-- A number is the index or at least one round above it. -/
theorem Inv.connid_round (inv : connred.Inv maxconn channelCount i) :
    connred.connid = i ∨ (i : Int) + maxconn ≤ connred.connid := by
  have h0 := inv.connid_nonneg
  have hmul := Int.emod_add_mul_ediv connred.connid maxconn
  have hq : 0 ≤ connred.connid / maxconn := Int.ediv_nonneg h0 (by omega)
  rw [inv.connid_mod] at hmul
  by_cases hzero : connred.connid / maxconn = 0
  · rw [hzero, Int.mul_zero] at hmul
    omega
  · have hge : (maxconn : Int) * 1 ≤ maxconn * (connred.connid / maxconn) :=
      Int.mul_le_mul_of_nonneg_left (by omega) (by omega)
    omega

/-- The counter moves on by `maxconn`; when the sum does not fit it starts again at the index. -/
theorem detatch_connid (inv : connred.Inv maxconn channelCount i) (small : maxconn < 4294967296)
    (hi : i < maxconn) :
    (connred.detatch maxconn).connid =
      if connred.connid + maxconn < 2147483648 then connred.connid + maxconn else i := by
  have hidx := inv.idx_eq
  have h0 := inv.connid_nonneg
  have h1 := inv.connid_lt
  have hround := inv.connid_round
  simp only [detatch, updateConnid, hidx]
  by_cases fits : connred.connid + maxconn < 2147483648
  · rw [int32_eq_self (by omega) fits, if_pos fits, if_neg (by omega)]
  · rw [int32_eq_sub (by omega) (by omega), if_neg fits, if_pos (by omega)]

theorem Inv.detatch (inv : connred.Inv maxconn channelCount i) (small : maxconn < 4294967296)
    (hi : i < maxconn) : (connred.detatch maxconn).Inv maxconn channelCount i := by
  have hc := detatch_connid inv small hi
  have hround := inv.connid_round
  have h0 := inv.connid_nonneg
  have h1 := inv.connid_lt
  have hchannel : (0 : Int) < channelCount := by
    have := inv.channelid_nonneg
    have := inv.channelid_lt
    omega
  refine ⟨inv.idx_eq, ?_, ?_, ?_, le_rfl, hchannel⟩
  · rw [hc]
    split <;> omega
  · rw [hc]
    split <;> omega
  · rw [hc]
    split
    · rw [Int.add_emod_right]
      exact inv.connid_mod
    · exact Int.emod_eq_of_lt (by omega) (by omega)

theorem Inv.attatch (inv : connred.Inv maxconn channelCount i) (fd : Int) (addr : InetAddress) :
    (connred.attatch fd addr).Inv maxconn channelCount i :=
  ⟨inv.idx_eq, inv.connid_nonneg, inv.connid_lt, inv.connid_mod, inv.channelid_nonneg, inv.channelid_lt⟩

theorem Inv.routed (inv : connred.Inv maxconn channelCount i) {id : Int} (h0 : 0 ≤ id)
    (h1 : id < channelCount) : ({ connred with channelid := id }).Inv maxconn channelCount i :=
  ⟨inv.idx_eq, inv.connid_nonneg, inv.connid_lt, inv.connid_mod, h0, h1⟩

end ConnectionRecord

namespace ConnTable

variable {t : ConnTable} {maxconn channelCount i : Nat} {connid fd : Int} {addr : InetAddress}

theorem usable_eq (small : t.maxconn < 2147483648) : t.usable = t.maxconn := by
  unfold usable
  omega

theorem create_inv (small : maxconn < 4294967296) (some_channel : 0 < channelCount) :
    (create maxconn).Inv channelCount where
  vecSize_eq := rfl
  maxconn_lt := small
  nodup := by
    refine List.Nodup.map_on ?_ List.nodup_range
    intro a ha b hb same
    have same : int32 a = int32 b := same
    have ha := List.mem_range.mp ha
    have hb := List.mem_range.mp hb
    have := int32_cases (ha.trans small)
    have := int32_cases (hb.trans small)
    omega
  range := by
    intro idx h
    obtain ⟨j, hj, rfl⟩ := List.mem_map.mp h
    have hj := List.mem_range.mp hj
    have := int32_cases (hj.trans small)
    simp only [usable, create]
    omega
  free := fun _ _ => rfl
  returned := by
    intro h j hj _
    refine List.mem_map.mpr ⟨j, List.mem_range.mpr hj, ?_⟩
    have h' : maxconn < 2147483648 := h
    have hj' : j < maxconn := hj
    exact int32_eq_self (by omega) (by omega)
  used := by
    intro j hv
    cases hv
  record := by
    intro j hj
    have hj' : j < maxconn ∧ j < 2147483648 := by
      simp only [usable, create] at hj
      omega
    have hint : int32 j = j := int32_eq_self (by omega) (by omega)
    refine ⟨hint, ?_, ?_, ?_, le_rfl, ?_⟩ <;> simp only [create, hint]
    · omega
    · omega
    · exact Int.emod_eq_of_lt (by omega) (by omega)
    · omega

/-- Looking a record up by its number finds it exactly when it is in use. -/
theorem getConnectionRecord_eq_some (inv : t.Inv channelCount) :
    t.getConnectionRecord connid = some i ↔ (t.vec i).isValid = true ∧ (t.vec i).connid = connid := by
  unfold getConnectionRecord
  rw [inv.vecSize_eq]
  constructor
  · intro h
    split at h
    · simp only at h
      split at h
      next hv =>
        obtain rfl := Option.some.inj h
        exact hv
      next => cases h
    · cases h
  · rintro ⟨hv, rfl⟩
    have hi := inv.used i hv
    have h0 := (inv.record i hi).connid_nonneg
    have hm := (inv.record i hi).connid_mod
    have hmod : (t.vec i).connid.toNat % t.maxconn = i := by
      have : ((t.vec i).connid.toNat % t.maxconn : Int) = i := by
        rw [Int.toNat_of_nonneg h0]
        exact hm
      omega
    rw [if_pos h0]
    simp only [hmod, hv, and_self, if_true]

/-- The numbers of two records differ. -/
theorem Inv.connid_inj (inv : t.Inv channelCount) {i j : Nat} (hi : i < t.usable) (hj : j < t.usable)
    (same : (t.vec i).connid = (t.vec j).connid) : i = j := by
  have h1 := (inv.record i hi).connid_mod
  have h2 := (inv.record j hj).connid_mod
  rw [same] at h1
  omega

theorem closeConn_of_none (h : t.getConnectionRecord connid = none) : t.closeConn connid = t := by
  simp [closeConn, h]

theorem closeConn_of_some (inv : t.Inv channelCount) (h : t.getConnectionRecord connid = some i) :
    t.closeConn connid =
      { t with
        vec := Function.update t.vec i ((t.vec i).detatch t.maxconn)
        idxvec := if t.maxconn < 2147483648 then t.idxvec ++ [(i : Int)] else t.idxvec } := by
  obtain ⟨hv, -⟩ := (getConnectionRecord_eq_some inv).mp h
  have hi := inv.used i hv
  have hidx := (inv.record i hi).idx_eq
  have hmax := inv.maxconn_lt
  have hint := int32_cases hmax
  have hlt : i < t.maxconn := by
    unfold usable at hi
    omega
  by_cases small : t.maxconn < 2147483648
  · have hin : (i : Int) ≥ 0 ∧ (i : Int) < int32 t.maxconn := by omega
    simp only [closeConn, h, returnIdx, hidx, if_pos hin, if_pos small, setRecord]
  · have hout : ¬ ((i : Int) ≥ 0 ∧ (i : Int) < int32 t.maxconn) := by omega
    simp only [closeConn, h, returnIdx, hidx, if_neg hout, if_neg small, setRecord]

/-- Releasing a record takes it out of use and leaves the other records alone. -/
theorem closeConn_keep (inv : t.Inv channelCount) (hne : (t.vec i).connid ≠ connid) :
    (t.closeConn connid).vec i = t.vec i := by
  cases h : t.getConnectionRecord connid with
  | none => rw [closeConn_of_none h]
  | some j =>
    obtain ⟨-, hc⟩ := (getConnectionRecord_eq_some inv).mp h
    rw [closeConn_of_some inv h]
    have hij : i ≠ j := by
      rintro rfl
      exact hne hc
    simp only [Function.update_of_ne hij]

/-- A record that is not in use is never released. -/
theorem closeConn_invalid (hv : (t.vec i).isValid = false) : (t.closeConn connid).vec i = t.vec i := by
  cases h : t.getConnectionRecord connid with
  | none => rw [closeConn_of_none h]
  | some j =>
    have hij : i ≠ j := by
      rintro rfl
      simp only [getConnectionRecord] at h
      split at h
      · split at h
        next found =>
          obtain rfl := Option.some.inj h
          rw [hv] at found
          cases found.1
        next => cases h
      · cases h
    simp only [closeConn, h, setRecord, Function.update_of_ne hij, returnIdx]
    split <;> rfl

theorem closeConn_valid (inv : t.Inv channelCount) (hv : ((t.closeConn connid).vec i).isValid = true) :
    (t.closeConn connid).vec i = t.vec i ∧ (t.vec i).isValid = true ∧ (t.vec i).connid ≠ connid := by
  cases h : t.getConnectionRecord connid with
  | none =>
    rw [closeConn_of_none h] at hv ⊢
    refine ⟨rfl, hv, ?_⟩
    intro same
    rw [(getConnectionRecord_eq_some inv).mpr ⟨hv, same⟩] at h
    cases h
  | some j =>
    obtain ⟨hvj, hc⟩ := (getConnectionRecord_eq_some inv).mp h
    rw [closeConn_of_some inv h] at hv ⊢
    by_cases hij : i = j
    · subst hij
      simp [ConnectionRecord.detatch_isValid] at hv
    · simp only [Function.update_of_ne hij] at hv ⊢
      refine ⟨trivial, hv, ?_⟩
      intro same
      exact hij (inv.connid_inj (inv.used i hv) (inv.used j hvj) (same.trans hc.symm))

@[simp] theorem closeConn_maxconn (t : ConnTable) (connid : Int) :
    (t.closeConn connid).maxconn = t.maxconn := by
  unfold closeConn
  split
  · rfl
  · simp only [setRecord, returnIdx]
    split <;> rfl

@[simp] theorem closeConn_vecSize (t : ConnTable) (connid : Int) :
    (t.closeConn connid).vecSize = t.vecSize := by
  unfold closeConn
  split
  · rfl
  · simp only [setRecord, returnIdx]
    split <;> rfl

@[simp] theorem closeConn_usable (t : ConnTable) (connid : Int) :
    (t.closeConn connid).usable = t.usable := by
  simp [usable]

/-- A released index is appended; with a `maxconn` beyond `int` it is lost. -/
theorem mem_closeConn_idxvec (inv : t.Inv channelCount) {idx : Int} :
    idx ∈ (t.closeConn connid).idxvec ↔ idx ∈ t.idxvec ∨
      t.maxconn < 2147483648 ∧ ∃ i, t.getConnectionRecord connid = some i ∧ idx = i := by
  cases h : t.getConnectionRecord connid with
  | none =>
    rw [closeConn_of_none h]
    simp
  | some i =>
    rw [closeConn_of_some inv h]
    by_cases small : t.maxconn < 2147483648
    · simp [small]
    · simp [small]

theorem Inv.closeConn_nodup (inv : t.Inv channelCount) (connid : Int) : (t.closeConn connid).idxvec.Nodup := by
  cases h : t.getConnectionRecord connid with
  | none =>
    rw [closeConn_of_none h]
    exact inv.nodup
  | some i =>
    obtain ⟨hv, -⟩ := (getConnectionRecord_eq_some inv).mp h
    rw [closeConn_of_some inv h]
    simp only
    split
    · refine List.nodup_append.mpr ⟨inv.nodup, by simp, ?_⟩
      intro a ha b hb hab
      rw [hab, List.mem_singleton.mp hb] at ha
      rw [inv.free i ha] at hv
      cases hv
    · exact inv.nodup

theorem Inv.closeConn_record (inv : t.Inv channelCount) (connid : Int) (hi : i < t.usable) :
    ((t.closeConn connid).vec i).Inv t.maxconn channelCount i := by
  cases h : t.getConnectionRecord connid with
  | none =>
    rw [closeConn_of_none h]
    exact inv.record i hi
  | some j =>
    rw [closeConn_of_some inv h]
    by_cases hij : i = j
    · subst hij
      simp only [Function.update_self]
      exact (inv.record i hi).detatch inv.maxconn_lt (hi.trans_le (min_le_left _ _))
    · simp only [Function.update_of_ne hij]
      exact inv.record i hi

theorem Inv.closeConn (inv : t.Inv channelCount) (connid : Int) : (t.closeConn connid).Inv channelCount where
  vecSize_eq := by
    rw [closeConn_vecSize, closeConn_maxconn]
    exact inv.vecSize_eq
  maxconn_lt := by
    rw [closeConn_maxconn]
    exact inv.maxconn_lt
  nodup := inv.closeConn_nodup connid
  range := by
    intro idx hm
    rw [closeConn_usable, closeConn_maxconn]
    rcases (mem_closeConn_idxvec inv).mp hm with hm | ⟨-, i, h, rfl⟩
    · exact inv.range idx hm
    · obtain ⟨hv, -⟩ := (getConnectionRecord_eq_some inv).mp h
      have hi := inv.used i hv
      omega
  free := by
    intro i hm
    cases hv : ((t.closeConn connid).vec i).isValid with
    | false => rfl
    | true =>
      obtain ⟨-, hv', hne⟩ := closeConn_valid inv hv
      rcases (mem_closeConn_idxvec inv).mp hm with hm | ⟨-, j, h, hij⟩
      · rw [inv.free i hm] at hv'
        cases hv'
      · obtain rfl := Int.ofNat.inj hij
        exact absurd ((getConnectionRecord_eq_some inv).mp h).2 hne
  returned := by
    intro small i hi hv
    rw [closeConn_maxconn] at small hi
    refine (mem_closeConn_idxvec inv).mpr ?_
    cases hv' : (t.vec i).isValid with
    | false => exact .inl (inv.returned small i hi hv')
    | true =>
      by_cases same : (t.vec i).connid = connid
      · exact .inr ⟨small, i, (getConnectionRecord_eq_some inv).mpr ⟨hv', same⟩, rfl⟩
      · rw [closeConn_keep inv same, hv'] at hv
        cases hv
  used := by
    intro i hv
    rw [closeConn_usable]
    exact inv.used i (closeConn_valid inv hv).2.1
  record := by
    intro i hi
    rw [closeConn_usable] at hi
    rw [closeConn_maxconn]
    exact inv.closeConn_record connid hi

theorem getConnectionRecord_closeConn (inv : t.Inv channelCount) :
    (t.closeConn connid).getConnectionRecord connid = none := by
  cases h : (t.closeConn connid).getConnectionRecord connid with
  | none => rfl
  | some i =>
    obtain ⟨hv, hc⟩ := (getConnectionRecord_eq_some (inv.closeConn connid)).mp h
    obtain ⟨same, -, hne⟩ := closeConn_valid inv hv
    rw [same] at hc
    exact absurd hc hne

theorem recoredNewConn_none (none_free : t.getFreeIdx.1 < 0) :
    t.recoredNewConn fd addr = (-1, t.getFreeIdx.2) := by
  have hneg : ¬ t.getFreeIdx.1 ≥ 0 := by omega
  simp only [recoredNewConn, getConnectionRecordByIdx, if_neg hneg, closeConn, getConnectionRecord]

theorem getFreeIdx_nil (h : t.idxvec = []) : t.getFreeIdx = (-1, t) := by
  simp [getFreeIdx, h]

theorem getFreeIdx_snoc {rest : List Int} {idx : Int} (h : t.idxvec = rest ++ [idx]) :
    t.getFreeIdx = (idx, { t with idxvec := rest }) := by
  simp [getFreeIdx, h]

theorem Inv.snoc (inv : t.Inv channelCount) {rest : List Int} {idx : Int} (h : t.idxvec = rest ++ [idx]) :
    rest.Nodup ∧ idx ∉ rest ∧ ∀ x ∈ rest, x ∈ t.idxvec := by
  have hnodup := inv.nodup
  rw [h] at hnodup
  obtain ⟨hrest, -, hapart⟩ := List.nodup_append.mp hnodup
  refine ⟨hrest, fun hm => hapart idx hm idx (List.mem_singleton.mpr rfl) rfl, ?_⟩
  intro x hx
  rw [h]
  exact List.mem_append_left _ hx

@[simp] theorem getFreeIdx_vec (t : ConnTable) : t.getFreeIdx.2.vec = t.vec := by
  unfold getFreeIdx
  split <;> rfl

@[simp] theorem getFreeIdx_maxconn (t : ConnTable) : t.getFreeIdx.2.maxconn = t.maxconn := by
  unfold getFreeIdx
  split <;> rfl

/-- Only a table whose size does not fit an `int` loses an index here. -/
theorem Inv.getFreeIdx (inv : t.Inv channelCount) (none_free : t.getFreeIdx.1 < 0) :
    t.getFreeIdx.2.Inv channelCount := by
  rcases List.eq_nil_or_concat t.idxvec with h | ⟨rest, idx, h⟩
  · rw [getFreeIdx_nil h]
    exact inv
  · rw [List.concat_eq_append] at h
    rw [getFreeIdx_snoc h] at none_free ⊢
    obtain ⟨hnodup, -, hmem⟩ := inv.snoc h
    obtain ⟨-, hbig⟩ := inv.range idx (by rw [h]; simp)
    refine ⟨inv.vecSize_eq, inv.maxconn_lt, hnodup, fun x hx => inv.range x (hmem x hx),
      fun j hj => inv.free j (hmem j hj), ?_, inv.used, inv.record⟩
    intro small
    have small : t.maxconn < 2147483648 := small
    omega

/-- With a free index left, the last one is taken. -/
theorem recoredNewConn_some (inv : t.Inv channelCount) (some_free : 0 ≤ t.getFreeIdx.1) :
    ∃ i rest, i < t.usable ∧ t.idxvec = rest ++ [(i : Int)] ∧
      t.recoredNewConn fd addr = ((t.vec i).connid,
        { t with vec := Function.update t.vec i ((t.vec i).attatch fd addr), idxvec := rest }) := by
  rcases List.eq_nil_or_concat t.idxvec with h | ⟨rest, idx, h⟩
  · rw [getFreeIdx_nil h] at some_free
    cases some_free
  · rw [List.concat_eq_append] at h
    have hget := getFreeIdx_snoc h
    rw [hget] at some_free
    obtain ⟨i, rfl⟩ := Int.eq_ofNat_of_zero_le some_free
    have hmem : (i : Int) ∈ t.idxvec := by
      rw [h]
      simp
    obtain ⟨hlt, -⟩ := inv.range _ hmem
    have hi : i < t.usable := by omega
    have hmod : i % t.vecSize = i := by
      rw [inv.vecSize_eq]
      exact Nat.mod_eq_of_lt (by unfold usable at hi; omega)
    refine ⟨i, rest, hi, h, ?_⟩
    simp [recoredNewConn, hget, getConnectionRecordByIdx, hmod, (inv.record i hi).idx_eq, inv.free i hmem, setRecord]

theorem Inv.attatch (inv : t.Inv channelCount) {rest : List Int} (hi : i < t.usable)
    (hsplit : t.idxvec = rest ++ [(i : Int)]) (hfd : 0 < fd) :
    ({ t with vec := Function.update t.vec i ((t.vec i).attatch fd addr),
              idxvec := rest } : ConnTable).Inv channelCount := by
  obtain ⟨hnodup, hnot, hmem⟩ := inv.snoc hsplit
  refine ⟨inv.vecSize_eq, inv.maxconn_lt, hnodup, fun x hx => inv.range x (hmem x hx), ?_, ?_, ?_, ?_⟩
  · intro j hj
    have hji : j ≠ i := by
      rintro rfl
      exact hnot hj
    simp only [Function.update_of_ne hji]
    exact inv.free j (hmem j hj)
  · intro small j hj hv
    by_cases hji : j = i
    · subst hji
      simp [ConnectionRecord.isValid, ConnectionRecord.attatch] at hv
      omega
    · simp only [Function.update_of_ne hji] at hv
      have hm := inv.returned small j hj hv
      rw [hsplit] at hm
      rcases List.mem_append.mp hm with hm | hm
      · exact hm
      · exact absurd (Int.ofNat.inj (List.mem_singleton.mp hm)) hji
  · intro j hv
    by_cases hji : j = i
    · subst hji
      exact hi
    · simp only [Function.update_of_ne hji] at hv
      exact inv.used j hv
  · intro j hj
    by_cases hji : j = i
    · subst hji
      simp only [Function.update_self]
      exact (inv.record j hj).attatch fd addr
    · simp only [Function.update_of_ne hji]
      exact inv.record j hj

theorem setChannelid_connid (t : ConnTable) (i j : Nat) (id : Int) :
    ((t.setChannelid i id).vec j).connid = (t.vec j).connid := by
  by_cases hji : j = i
  · subst hji
    simp [setChannelid, setRecord]
  · simp [setChannelid, setRecord, Function.update_of_ne hji]

theorem setChannelid_fd (t : ConnTable) (i j : Nat) (id : Int) :
    ((t.setChannelid i id).vec j).fd = (t.vec j).fd := by
  by_cases hji : j = i
  · subst hji
    simp [setChannelid, setRecord]
  · simp [setChannelid, setRecord, Function.update_of_ne hji]

theorem setChannelid_isValid (t : ConnTable) (i j : Nat) (id : Int) :
    ((t.setChannelid i id).vec j).isValid = (t.vec j).isValid := by
  simp only [ConnectionRecord.isValid, setChannelid_fd]

theorem Inv.setChannelid (inv : t.Inv channelCount) {id : Int} (h0 : 0 ≤ id) (h1 : id < channelCount) :
    (t.setChannelid i id).Inv channelCount := by
  refine ⟨inv.vecSize_eq, inv.maxconn_lt, inv.nodup, inv.range, ?_, ?_, ?_, ?_⟩
  · intro j hj
    rw [setChannelid_isValid]
    exact inv.free j hj
  · intro small j hj hv
    rw [setChannelid_isValid] at hv
    exact inv.returned small j hj hv
  · intro j hv
    rw [setChannelid_isValid] at hv
    exact inv.used j hv
  · intro j hj
    by_cases hji : j = i
    · subst hji
      simp only [ConnTable.setChannelid, setRecord, Function.update_self]
      exact (inv.record j hj).routed h0 h1
    · simp only [ConnTable.setChannelid, setRecord, Function.update_of_ne hji]
      exact inv.record j hj

section Small

variable (inv : t.Inv channelCount) (small : t.maxconn < 2147483648)
include inv small

theorem Inv.mem_idxvec_iff {idx : Int} :
    idx ∈ t.idxvec ↔ ∃ i < t.maxconn, idx = (i : Int) ∧ (t.vec i).isValid = false := by
  constructor
  · intro hm
    obtain ⟨hlt, h0⟩ := inv.range idx hm
    obtain ⟨i, rfl⟩ := Int.eq_ofNat_of_zero_le (by omega : 0 ≤ idx)
    rw [usable_eq small] at hlt
    exact ⟨i, by omega, rfl, inv.free i hm⟩
  · rintro ⟨i, hi, rfl, hv⟩
    exact inv.returned small i hi hv

/-- Every index is either free or in use, and never both. -/
theorem Inv.length_add_valid :
    t.idxvec.length + (List.range t.maxconn).countP (fun i => (t.vec i).isValid) = t.maxconn := by
  have hperm : t.idxvec.Perm
      (((List.range t.maxconn).filter fun i => !(t.vec i).isValid).map Int.ofNat) := by
    refine (List.perm_ext_iff_of_nodup inv.nodup ?_).mpr ?_
    · exact List.Nodup.map (fun _ _ h => Int.ofNat.inj h) (List.nodup_range.filter _)
    · intro idx
      rw [inv.mem_idxvec_iff small]
      simp only [List.mem_map, List.mem_filter, List.mem_range, Bool.not_eq_true', and_assoc]
      exact exists_congr fun i => and_congr_right fun _ => ⟨fun h => ⟨h.2, h.1.symm⟩, fun h => ⟨h.2.symm, h.1⟩⟩
  have hlen := hperm.length_eq
  rw [List.length_map, ← List.countP_eq_length_filter] at hlen
  have htotal := List.length_eq_countP_add_countP (fun i => (t.vec i).isValid) (l := List.range t.maxconn)
  rw [List.length_range] at htotal
  simp only [Bool.not_eq_true, Bool.decide_eq_false] at htotal
  omega

end Small

end ConnTable

end Wddlib
