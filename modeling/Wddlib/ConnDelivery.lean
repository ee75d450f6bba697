import Wddlib.ServerRun

namespace Wddlib

/-- The channel object that was given `connid` last. -/
def assignedTo (effects : List Effect) (connid : Int) : Option Nat :=
  effects.findSome? fun
    | .assigned serial c => if c = connid then some serial else none
    | _ => none

/-- A release of record `i` at which its number does not fit a 32-bit `int` any more. -/
def Wrapped (maxconn i : Nat) (effects : List Effect) : Prop :=
  ∃ connid, Effect.released i connid ∈ effects ∧ 2147483648 ≤ connid + maxconn

theorem Wrapped.cons {maxconn i : Nat} {effects : List Effect} (h : Wrapped maxconn i effects) (e : Effect) :
    Wrapped maxconn i (e :: effects) := by
  obtain ⟨connid, hm, hle⟩ := h
  exact ⟨connid, List.mem_cons_of_mem e hm, hle⟩

/-- A payload goes to the object that has its number, and not after the release of the number as long
as the counter of the record has not wrapped. -/
def Effect.Proper (maxconn : Nat) (earlier : List Effect) : Effect → Prop
  | .delivered serial connid _ =>
    assignedTo earlier connid = some serial ∧
    ∀ between before i, earlier = between ++ .released i connid :: before →
      Wrapped maxconn i (between ++ [.released i connid])
  | _ => True

/-- What the log of the server and its tables have to do with each other. -/
structure EpollServer.History (s : EpollServer) : Prop where
  owner : ∀ i, (s.table.vec i).isValid = true → ∀ ch,
    s.channelMap (s.table.vec i).fd = some ch → assignedTo s.effects (s.table.vec i).connid = some ch.serial
  home : ∀ i connid, Effect.released i connid ∈ s.effects → connid % s.table.maxconn = i
  superseded : ∀ later earlier i connid, s.effects = later ++ .released i connid :: earlier →
    Wrapped s.table.maxconn i (later ++ [.released i connid]) ∨ connid < (s.table.vec i).connid
  proper : LogOk (Effect.Proper s.table.maxconn) s.effects

namespace EpollServer

variable {s s' : EpollServer} {lossy : Prop} {e : Effect} {i : Nat} {connid : Int}

theorem create_history (maxconn channels : Nat) : (create maxconn channels).History where
  owner := by
    intro i hv
    cases hv
  home := by
    intro i connid h
    cases h
  superseded := by
    intro later earlier i connid h
    simp [create] at h
  proper := trivial

/-- Changes that keep the log, the numbers of the records and the channels of the records in use. -/
theorem History.of_same (h : s.History) (effects_eq : s'.effects = s.effects)
    (maxconn_eq : s'.table.maxconn = s.table.maxconn)
    (connid_eq : ∀ i, (s'.table.vec i).connid = (s.table.vec i).connid)
    (channel : ∀ i, (s'.table.vec i).isValid = true →
      (s.table.vec i).isValid = true ∧ ∀ ch, s'.channelMap (s'.table.vec i).fd = some ch →
        s.channelMap (s.table.vec i).fd = some ch) : s'.History where
  owner := by
    intro i hv ch entry
    obtain ⟨hv', hch⟩ := channel i hv
    rw [effects_eq, connid_eq]
    exact h.owner i hv' ch (hch ch entry)
  home := by
    rw [effects_eq, maxconn_eq]
    exact h.home
  superseded := by
    intro later earlier i connid hsplit
    rw [effects_eq] at hsplit
    rw [maxconn_eq, connid_eq]
    exact h.superseded later earlier i connid hsplit
  proper := by
    rw [effects_eq, maxconn_eq]
    exact h.proper

/-- An entry that neither assigns nor releases a number. -/
theorem History.addEffect (h : s.History) (proper : e.Proper s.table.maxconn s.effects)
    (keeps : ∀ connid, assignedTo (e :: s.effects) connid = assignedTo s.effects connid)
    (other : ∀ i connid, e ≠ .released i connid) : (s.addEffect e).History where
  owner := by
    intro i hv ch entry
    show assignedTo (e :: s.effects) _ = _
    rw [keeps]
    exact h.owner i hv ch entry
  home := by
    intro i connid hm
    rcases List.mem_cons.mp hm with heq | hm
    · exact absurd heq.symm (other i connid)
    · exact h.home i connid hm
  superseded := by
    intro later earlier i connid hsplit
    rcases List.cons_eq_append_iff.mp hsplit with ⟨-, heq⟩ | ⟨later', rfl, hsplit'⟩
    · exact absurd (List.cons.inj heq).1.symm (other i connid)
    · rcases h.superseded later' earlier i connid hsplit' with hw | hlt
      · exact .inl (hw.cons e)
      · exact .inr hlt
  proper := ⟨proper, h.proper⟩

theorem closeConn_of_none (h : s.table.getConnectionRecord connid = none) : s.closeConn connid = s := by
  simp [closeConn, h]

theorem closeConn_effects (h : s.table.getConnectionRecord connid = some i) :
    (s.closeConn connid).effects = .released i connid :: s.effects := by
  simp [closeConn, h, EpollServer.addEffect]

/-- The record that is released gets a greater number unless its counter wraps. -/
theorem closeConn_connid (inv : s.Inv) (h : s.table.getConnectionRecord connid = some i) :
    2147483648 ≤ connid + s.table.maxconn ∨ connid < ((s.closeConn connid).table.vec i).connid := by
  obtain ⟨hv, hc⟩ := (ConnTable.getConnectionRecord_eq_some inv.table).mp h
  have hi := inv.table.used i hv
  have hlt : i < s.table.maxconn := hi.trans_le (min_le_left _ _)
  rw [closeConn_table, ConnTable.closeConn_of_some inv.table h]
  simp only [Function.update_self]
  rw [ConnectionRecord.detatch_connid (inv.table.record i hi) inv.table.maxconn_lt hlt, hc]
  split <;> omega

theorem closeConn_other (inv : s.Inv) (h : s.table.getConnectionRecord connid = some i) {j : Nat}
    (hji : j ≠ i) : (s.closeConn connid).table.vec j = s.table.vec j := by
  rw [closeConn_table, ConnTable.closeConn_of_some inv.table h]
  simp only [Function.update_of_ne hji]

theorem History.closeConn (h : s.History) (inv : s.Inv) (connid : Int) : (s.closeConn connid).History := by
  cases found : s.table.getConnectionRecord connid with
  | none =>
    rw [closeConn_of_none found]
    exact h
  | some i =>
    obtain ⟨hv, hc⟩ := (ConnTable.getConnectionRecord_eq_some inv.table).mp found
    have hi := inv.table.used i hv
    have heffects := closeConn_effects found
    have hmax : (s.closeConn connid).table.maxconn = s.table.maxconn := by
      rw [closeConn_table, ConnTable.closeConn_maxconn]
    have hnext := closeConn_connid inv found
    refine ⟨?_, ?_, ?_, ?_⟩
    · intro j hv ch entry
      rw [closeConn_table] at hv entry ⊢
      obtain ⟨same, hv', -⟩ := ConnTable.closeConn_valid inv.table hv
      rw [same] at entry ⊢
      rw [heffects]
      exact h.owner j hv' ch (by rw [closeConn_channelMap] at entry; exact entry)
    · intro j c hm
      rw [heffects] at hm
      rw [hmax]
      rcases List.mem_cons.mp hm with heq | hm
      · obtain ⟨rfl, rfl⟩ := Effect.released.inj heq
        exact hc ▸ (inv.table.record j hi).connid_mod
      · exact h.home j c hm
    · intro later earlier j c hsplit
      rw [heffects] at hsplit
      rw [hmax]
      rcases List.cons_eq_append_iff.mp hsplit with ⟨rfl, heq⟩ | ⟨later', rfl, hsplit'⟩
      · obtain ⟨rfl, rfl⟩ := Effect.released.inj (List.cons.inj heq).1
        rcases hnext with hwrap | hlt
        · exact .inl ⟨c, by simp, hwrap⟩
        · exact .inr hlt
      · rcases h.superseded later' earlier j c hsplit' with hw | hlt
        · exact .inl (hw.cons _)
        · by_cases hji : j = i
          · subst hji
            rcases hnext with hwrap | hlt'
            · exact .inl ⟨connid, by simp, hwrap⟩
            · exact .inr (by omega)
          · rw [closeConn_other inv found hji]
            exact .inr hlt
    · rw [heffects, hmax]
      exact ⟨trivial, h.proper⟩

theorem History.dropChannel (h : s.History) (inv : s.Inv) (ch : ServerChannel) :
    (s.dropChannel ch).History := by
  refine (h.closeConn inv ch.id).of_same rfl rfl (fun _ => rfl) ?_
  intro i hv
  refine ⟨hv, ?_⟩
  intro c entry
  simp only [EpollServer.dropChannel, closeConn_table] at entry
  rw [closeConn_channelMap, closeConn_table]
  by_cases hfd : ((s.table.closeConn ch.id).vec i).fd = ch.fd
  · simp [hfd] at entry
  · rw [Function.update_of_ne hfd] at entry
    exact entry

theorem History.enroll (h : s.History) (inv : s.Inv) {fd : Int} {rest : List Int} (addr : InetAddress)
    (new : s.channelMap fd = none) (hi : i < s.table.usable) : (s.enroll fd addr i rest).History where
  owner := by
    intro j hv ch entry
    by_cases hji : j = i
    · subst hji
      simp only [EpollServer.enroll, Function.update_self, ConnectionRecord.attatch] at entry ⊢
      obtain rfl := Option.some.inj entry
      simp [assignedTo]
    · simp only [EpollServer.enroll, Function.update_of_ne hji] at hv entry ⊢
      rw [Function.update_of_ne (inv.fd_ne_of_new new hv)] at entry
      have hne : (s.table.vec i).connid ≠ (s.table.vec j).connid := by
        intro same
        exact hji (inv.table.connid_inj (inv.table.used j hv) hi same.symm)
      have howner := h.owner j hv ch entry
      simpa [assignedTo, hne] using howner
  home := by
    intro j c hm
    rcases List.mem_cons.mp hm with heq | hm
    · cases heq
    · exact h.home j c hm
  superseded := by
    intro later earlier j c hsplit
    have hconnid : ((s.enroll fd addr i rest).table.vec j).connid = (s.table.vec j).connid := by
      by_cases hji : j = i
      · subst hji
        simp [EpollServer.enroll, ConnectionRecord.attatch]
      · simp [EpollServer.enroll, Function.update_of_ne hji]
    rcases List.cons_eq_append_iff.mp hsplit with ⟨-, heq⟩ | ⟨later', rfl, hsplit'⟩
    · cases (List.cons.inj heq).1
    · rw [hconnid]
      rcases h.superseded later' earlier j c hsplit' with hw | hlt
      · exact .inl (hw.cons _)
      · exact .inr hlt
  proper := ⟨trivial, h.proper⟩

/-- A record that is in use has a number that was never released, or its counter has wrapped since. -/
theorem History.delivered_proper (h : s.History) (inv : s.Inv) {ch : ServerChannel}
    (found : s.table.getConnectionRecord connid = some i)
    (entry : s.channelMap (s.table.vec i).fd = some ch) (payload : List UInt8) :
    (Effect.delivered ch.serial connid payload).Proper s.table.maxconn s.effects := by
  obtain ⟨hv, hc⟩ := (ConnTable.getConnectionRecord_eq_some inv.table).mp found
  refine ⟨?_, ?_⟩
  · rw [← hc]
    exact h.owner i hv ch entry
  · intro between before j hsplit
    rcases h.superseded between before j connid hsplit with hw | hlt
    · exact hw
    · have hmod := h.home j connid (by rw [hsplit]; simp)
      have hij : (i : Int) = j := by
        rw [← (inv.table.record i (inv.table.used i hv)).connid_mod, hc]
        exact hmod
      obtain rfl := Int.ofNat.inj hij
      omega

theorem Move.history (move : Move lossy s s') (inv : s.Inv) (h : s.History) : s'.History := by
  cases move with
  | sent => exact h.addEffect trivial (fun _ => rfl) (fun _ _ => by simp)
  | ticked => exact h.of_same rfl rfl (fun _ => rfl) (fun _ hv => ⟨hv, fun _ entry => entry⟩)
  | opened => exact h.of_same rfl rfl (fun _ => rfl) (fun _ hv => ⟨hv, fun _ entry => entry⟩)
  | dropped => exact h.dropChannel inv _
  | routed i =>
    refine h.of_same rfl rfl (fun j => ConnTable.setChannelid_connid _ _ j _) ?_
    intro j hv
    simp only [setChannelid, ConnTable.setChannelid_isValid, ConnTable.setChannelid_fd] at hv ⊢
    exact ⟨hv, fun _ entry => entry⟩
  | delivered payload found entry =>
    exact h.addEffect (h.delivered_proper inv found entry payload) (fun _ => rfl) (fun _ _ => by simp)
  | admitted addr pos new hi free live => exact h.enroll inv addr new hi
  | refused loss new full =>
    refine h.of_same rfl (by simp [refuse]) (fun _ => by simp [refuse]) ?_
    intro j hv
    simp only [refuse, ConnTable.getFreeIdx_vec] at hv ⊢
    rw [Function.update_of_ne (inv.fd_ne_of_new new hv)]
    exact ⟨hv, fun _ entry => entry⟩
  | abandoned loss connid => exact h.closeConn inv connid

end EpollServer

variable {maxconn channels : Nat} {events : List ServerEvent}

/-- A payload for a number only ever goes to the object that has the number, and a number that was
released is dead until the counter of its record has wrapped. -/
theorem delivery_only_to_owner (small : maxconn < 2147483648)
    (possible : PossibleRun maxconn channels events) (k : Nat) :
    let s := serverAt maxconn channels events k
    (∀ i < maxconn, (s.table.vec i).isValid = true →
      ∃ ch, s.channelMap (s.table.vec i).fd = some ch ∧ ch.id = (s.table.vec i).connid) ∧
    (∀ later earlier serial connid payload,
      s.effects = later ++ .delivered serial connid payload :: earlier →
      assignedTo earlier connid = some serial) ∧
    ∀ later between earlier serial connid payload i,
      s.effects = later ++ .delivered serial connid payload :: (between ++ .released i connid :: earlier) →
      ∃ old, .released i old ∈ between ++ [.released i connid] ∧ 2147483648 ≤ old + (maxconn : Int) := by
  intro s
  have inv : s.Inv := serverAt_inv (by omega) possible k
  have history : s.History := serverAt_induct (by omega) possible
    (EpollServer.create_history maxconn channels) (fun inv move h => move.history inv h) k
  obtain ⟨-, hmax⟩ : s.channelCount = channels + 1 ∧ s.table.maxconn = maxconn :=
    serverAt_config (by omega) possible k
  refine ⟨?_, ?_, ?_⟩
  · intro i _
    exact inv.linked i
  · intro later earlier serial connid payload hsplit
    exact (history.proper.entry hsplit).1
  · intro later between earlier serial connid payload i hsplit
    have hwrapped := (history.proper.entry hsplit).2 between earlier i rfl
    rw [hmax] at hwrapped
    exact hwrapped

/-- The backend still writes to the first client when the second one has its descriptor. -/
def staleRun : List ServerEvent :=
  [.accept 5 ⟨1, 80⟩ true, .backendMsg 0 ⟨connsvrMsgNtf, 0, ⟨1, 80⟩, 0, 0, 0, [7]⟩, .clientClose 5,
    .accept 5 ⟨2, 80⟩ true, .backendMsg 0 ⟨connsvrMsgNtf, 0, ⟨1, 80⟩, 0, 0, 0, [8]⟩,
    .backendMsg 0 ⟨connsvrMsgNtf, 1, ⟨2, 80⟩, 0, 0, 0, [9]⟩]

theorem delivery_only_to_owner_stale :
    PossibleRun 1 1 staleRun ∧ ∃ earlier,
      (serverAt 1 1 staleRun 6).effects = .delivered 1 1 [9] :: earlier ∧
      assignedTo earlier 1 = some 1 := by
  have possible : PossibleRun 1 1 staleRun := by decide +kernel
  refine ⟨possible, (serverAt 1 1 staleRun 6).effects.tail, by decide +kernel, ?_⟩
  exact (delivery_only_to_owner (by decide) possible 6).2.1 [] _ 1 1 [9] (by decide +kernel)

end Wddlib
