import Wddlib.SessionOrder

namespace Wddlib

/-- No number has been released at which the counter of its record wraps. -/
def Unwrapped (maxconn : Nat) (effects : List Effect) : Prop :=
  ∀ i connid, .released i connid ∈ effects → connid + (maxconn : Int) < 2147483648

def Effect.wraps (maxconn : Nat) : Effect → Bool
  | .released _ connid => decide (2147483648 ≤ connid + (maxconn : Int))
  | _ => false

theorem unwrapped_iff {maxconn : Nat} {effects : List Effect} :
    Unwrapped maxconn effects ↔ ∀ e ∈ effects, e.wraps maxconn = false := by
  constructor
  · intro fine e he
    cases e with
    | released i connid => simpa [Effect.wraps] using fine i connid he
    | _ => rfl
  · intro all i connid hm
    simpa [Effect.wraps] using all _ hm

instance Unwrapped.decidable (maxconn : Nat) (effects : List Effect) : Decidable (Unwrapped maxconn effects) :=
  decidable_of_iff _ unwrapped_iff.symm

/-- What the log tells of numbers and channel objects. -/
structure EpollServer.Numbers (s : EpollServer) : Prop where
  named : ∀ fd ch, s.channelMap fd = some ch → s.watched fd = true → .assigned ch.serial ch.id ∈ s.effects
  serial_lt : ∀ serial connid, .assigned serial connid ∈ s.effects → serial < s.nextSerial
  range : ∀ serial connid, .assigned serial connid ∈ s.effects → 0 ≤ connid ∧ connid < 2147483648
  settled : ∀ serial connid, .assigned serial connid ∈ s.effects →
    s.table.InUse connid ∨ ∃ i, .released i connid ∈ s.effects
  one_each : Unwrapped s.table.maxconn s.effects → ∀ n c n' c', .assigned n c ∈ s.effects →
    .assigned n' c' ∈ s.effects → (n = n' ↔ c = c')

namespace EpollServer

variable {s s' s'' : EpollServer} {lossy : Prop} {ch : ServerChannel} {fd connid : Int} {addr : InetAddress}
  {i n n' : Nat} {c c' : Int} {e : Effect}

theorem create_numbers (maxconn channels : Nat) : (create maxconn channels).Numbers where
  named := by
    intro fd ch h
    cases h
  serial_lt := by
    intro n c h
    cases h
  range := by
    intro n c h
    cases h
  settled := by
    intro n c h
    cases h
  one_each := by
    intro _ n c n' c' h
    cases h

/-- Changes that assign no number; a released number may be gone from the table. -/
theorem Numbers.of_log (h : s.Numbers) (maxconn_eq : s'.table.maxconn = s.table.maxconn)
    (assigned_iff : ∀ n c, .assigned n c ∈ s'.effects ↔ .assigned n c ∈ s.effects)
    (keeps : ∀ e, e ∈ s.effects → e ∈ s'.effects) (serial_le : s.nextSerial ≤ s'.nextSerial)
    (inUse : ∀ c, s.table.InUse c → s'.table.InUse c ∨ ∃ i, .released i c ∈ s'.effects)
    (named : ∀ fd ch, s'.channelMap fd = some ch → s'.watched fd = true →
      s.channelMap fd = some ch ∧ s.watched fd = true) : s'.Numbers where
  named := by
    intro fd ch entry watched
    obtain ⟨entry', watched'⟩ := named fd ch entry watched
    exact keeps _ (h.named fd ch entry' watched')
  serial_lt := by
    intro n c hm
    exact (h.serial_lt n c ((assigned_iff n c).mp hm)).trans_le serial_le
  range := by
    intro n c hm
    exact h.range n c ((assigned_iff n c).mp hm)
  settled := by
    intro n c hm
    rcases h.settled n c ((assigned_iff n c).mp hm) with used | ⟨i, gone⟩
    · exact inUse c used
    · exact .inr ⟨i, keeps _ gone⟩
  one_each := by
    intro fine n c n' c' hm hm'
    refine h.one_each ?_ n c n' c' ((assigned_iff n c).mp hm) ((assigned_iff n' c').mp hm')
    intro i connid hr
    rw [← maxconn_eq]
    exact fine i connid (keeps _ hr)

theorem Numbers.addEffect (h : s.Numbers) (other : ∀ serial connid, e ≠ .assigned serial connid) :
    (s.addEffect e).Numbers := by
  refine h.of_log rfl ?_ (fun _ hm => List.mem_cons_of_mem _ hm) le_rfl (fun _ used => .inl used)
    (fun _ _ entry watched => ⟨entry, watched⟩)
  intro n c
  simp only [EpollServer.addEffect, List.mem_cons, (other n c).symm, false_or]

theorem Numbers.closeConn (h : s.Numbers) (inv : s.Inv) (connid : Int) : (s.closeConn connid).Numbers := by
  cases found : s.table.getConnectionRecord connid with
  | none =>
    rw [closeConn_of_none found]
    exact h
  | some i =>
    have heffects := closeConn_effects found
    have same : (s.closeConn connid).nextSerial = s.nextSerial ∧ (s.closeConn connid).watched = s.watched := by
      simp only [EpollServer.closeConn, found, EpollServer.addEffect, and_self]
    refine h.of_log (by simp) ?_ ?_ same.1.ge ?_ ?_
    · intro n c
      simp [heffects]
    · intro e hm
      rw [heffects]
      exact List.mem_cons_of_mem _ hm
    · intro c used
      rw [closeConn_table, ConnTable.closeConn_inUse inv.table, heffects]
      by_cases hc : c = connid
      · exact .inr ⟨i, by simp [hc]⟩
      · exact .inl ⟨hc, used⟩
    · intro fd ch entry watched
      rw [closeConn_channelMap] at entry
      rw [same.2] at watched
      exact ⟨entry, watched⟩

theorem Numbers.dropChannel (h : s.Numbers) (inv : s.Inv) (ch : ServerChannel) : (s.dropChannel ch).Numbers := by
  refine (h.closeConn inv ch.id).of_log rfl (fun _ _ => Iff.rfl) (fun _ hm => hm) le_rfl (fun _ used => .inl used) ?_
  intro fd c entry watched
  have hfd : fd ≠ ch.fd := by
    rintro rfl
    simp [EpollServer.dropChannel] at entry
  simp only [EpollServer.dropChannel, Function.update_of_ne hfd] at entry watched
  have same : (s.closeConn ch.id).watched = s.watched := by
    unfold EpollServer.closeConn
    split <;> rfl
  rw [closeConn_channelMap, same]
  exact ⟨entry, watched⟩

/-- A number whose counter has not wrapped is given away once. -/
theorem History.number_new (h : s.History) (numbers : s.Numbers) (inv : s.Inv) {rest : List Int}
    (hi : i < s.table.usable) (free : s.table.idxvec = rest ++ [(i : Int)])
    (fine : Unwrapped s.table.maxconn s.effects) : .assigned n (s.table.vec i).connid ∉ s.effects := by
  intro hm
  rcases numbers.settled n _ hm with used | ⟨j, gone⟩
  · exact inv.number_unused hi free used
  · have hhome := h.home j _ gone
    rw [(inv.table.record i hi).connid_mod] at hhome
    obtain rfl := Int.ofNat.inj hhome
    obtain ⟨later, earlier, hsplit⟩ := List.append_of_mem gone
    rcases h.superseded later earlier i _ hsplit with ⟨old, hold, hwrap⟩ | hlt
    · have hin : .released i old ∈ s.effects := by
        rw [hsplit]
        rcases List.mem_append.mp hold with hl | hr
        · exact List.mem_append_left _ hl
        · rw [List.mem_singleton.mp hr]
          simp
      have := fine i old hin
      omega
    · omega

theorem Numbers.enroll (h : s.Numbers) (inv : s.Inv) (history : s.History) {rest : List Int} (addr : InetAddress)
    (pos : 0 < fd) (hi : i < s.table.usable) (free : s.table.idxvec = rest ++ [(i : Int)]) :
    (s.enroll fd addr i rest).Numbers where
  named := by
    intro fd' ch entry watched
    by_cases hfd : fd' = fd
    · subst hfd
      simp only [EpollServer.enroll, Function.update_self] at entry
      obtain rfl := Option.some.inj entry
      simp [EpollServer.enroll]
    · simp only [EpollServer.enroll, Function.update_of_ne hfd] at entry watched
      exact List.mem_cons_of_mem _ (h.named fd' ch entry watched)
  serial_lt := by
    intro n c hm
    rcases List.mem_cons.mp hm with heq | hm
    · obtain ⟨rfl, -⟩ := Effect.assigned.inj heq
      exact Nat.lt_succ_self _
    · exact (h.serial_lt n c hm).trans (Nat.lt_succ_self _)
  range := by
    intro n c hm
    rcases List.mem_cons.mp hm with heq | hm
    · obtain ⟨-, rfl⟩ := Effect.assigned.inj heq
      exact ⟨(inv.table.record i hi).connid_nonneg, (inv.table.record i hi).connid_lt⟩
    · exact h.range n c hm
  settled := by
    intro n c hm
    rw [enroll_inUse inv pos hi free]
    rcases List.mem_cons.mp hm with heq | hm
    · exact .inl (.inl (Effect.assigned.inj heq).2)
    · rcases h.settled n c hm with used | ⟨j, gone⟩
      · exact .inl (.inr used)
      · exact .inr ⟨j, List.mem_cons_of_mem _ gone⟩
  one_each := by
    intro fine n c n' c' hm hm'
    have fine' : Unwrapped s.table.maxconn s.effects := fun j connid hr => fine j connid (List.mem_cons_of_mem _ hr)
    have fresh : ∀ n, .assigned n (s.table.vec i).connid ∉ s.effects := fun n =>
      history.number_new h inv hi free fine'
    rcases List.mem_cons.mp hm with heq | hold
    · obtain ⟨rfl, rfl⟩ := Effect.assigned.inj heq
      rcases List.mem_cons.mp hm' with heq' | hold'
      · obtain ⟨rfl, rfl⟩ := Effect.assigned.inj heq'
        simp
      · constructor
        · rintro rfl
          exact absurd (h.serial_lt _ _ hold') (lt_irrefl _)
        · rintro rfl
          exact absurd hold' (fresh n')
    · rcases List.mem_cons.mp hm' with heq' | hold'
      · obtain ⟨rfl, rfl⟩ := Effect.assigned.inj heq'
        constructor
        · rintro rfl
          exact absurd (h.serial_lt _ _ hold) (lt_irrefl _)
        · rintro rfl
          exact absurd hold (fresh n)
      · exact h.one_each fine' n c n' c' hold hold'

theorem Move.numbers (move : Move lossy s s') (inv : s.Inv) (history : s.History) (h : s.Numbers) : s'.Numbers := by
  cases move with
  | sent => exact h.addEffect (by simp)
  | ticked =>
    exact h.of_log rfl (fun _ _ => Iff.rfl) (fun _ hm => hm) le_rfl (fun _ used => .inl used)
      (fun _ _ entry watched => ⟨entry, watched⟩)
  | opened =>
    exact h.of_log rfl (fun _ _ => Iff.rfl) (fun _ hm => hm) le_rfl (fun _ used => .inl used)
      (fun _ _ entry watched => ⟨entry, watched⟩)
  | dropped => exact h.dropChannel inv _
  | routed i =>
    exact h.of_log rfl (fun _ _ => Iff.rfl) (fun _ hm => hm) le_rfl
      (fun _ used => .inl ((setChannelid_inUse _ _).mpr used)) (fun _ _ entry watched => ⟨entry, watched⟩)
  | delivered => exact h.addEffect (by simp)
  | admitted addr pos new hi free live => exact h.enroll inv history addr pos hi free
  | @refused fd loss new full =>
    refine h.of_log (by simp [refuse]) (fun _ _ => Iff.rfl) (fun _ hm => hm) (Nat.le_succ _) ?_ ?_
    · intro c used
      refine .inl ?_
      simpa only [refuse, ConnTable.InUse, ConnTable.getFreeIdx_vec] using used
    · intro fd' ch entry watched
      have hfd : fd' ≠ fd := by
        rintro rfl
        simp [refuse] at watched
      simp only [refuse, Function.update_of_ne hfd] at entry watched
      exact ⟨entry, watched⟩
  | abandoned loss connid => exact h.closeConn inv connid

end EpollServer

end Wddlib
