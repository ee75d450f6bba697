import Wddlib.ChannelRecord

namespace Wddlib

namespace EpollServer

/-- Closing the channel releases the record with its descriptor, if there is one, and leaves every other
record, channel and descriptor as it was. -/
structure ClosesOnly (s : EpollServer) (ch : ServerChannel) : Prop where
  released : ∀ i, (s.table.vec i).isValid = true → (s.table.vec i).fd = ch.fd →
    ((s.handleClose ch).table.vec i).isValid = false
  records : ∀ i, ¬ ((s.table.vec i).isValid = true ∧ (s.table.vec i).fd = ch.fd) →
    (s.handleClose ch).table.vec i = s.table.vec i
  removed : (s.handleClose ch).channelMap ch.fd = none
  channels : ∀ fd, fd ≠ ch.fd → (s.handleClose ch).channelMap fd = s.channelMap fd
  descriptors : ∀ fd, fd ≠ ch.fd → (s.handleClose ch).isOpen fd = s.isOpen fd

/-- `::accept` returned `fd`. -/
def acceptFd (s : EpollServer) (fd : Int) : EpollServer := { s with isOpen := Function.update s.isOpen fd true }

/-- Making a channel for a descriptor that was just accepted neither closes it nor touches the record
of another client. -/
structure AcceptKeeps (s : EpollServer) (fd : Int) : Prop where
  stays : ((s.acceptFd fd).tcpOnNewChannel fd).isOpen fd = true
  records : ∀ i, (s.table.vec i).isValid = true → (s.table.vec i).fd ≠ fd →
    ((s.acceptFd fd).tcpOnNewChannel fd).table.vec i = s.table.vec i

/-- A record in use with the number of the channel has its descriptor. -/
def OwnNumber (s : EpollServer) (ch : ServerChannel) : Prop :=
  ∀ i, (s.table.vec i).isValid = true → (s.table.vec i).connid = ch.id → (s.table.vec i).fd = ch.fd

variable {s : EpollServer} {ch : ServerChannel} {fd : Int}

theorem handleClose_isOpen (s : EpollServer) (ch : ServerChannel) :
    (s.handleClose ch).isOpen = Function.update s.isOpen ch.fd false := by
  rcases handleClose_eq s ch with h | ⟨channelid, msg, h⟩ <;> simp [h, dropChannel, addEffect]

/-- The record with the number of the channel is released, whoever has it. -/
theorem handleClose_released (inv : s.Inv) {i : Nat} (number : (s.table.vec i).connid = ch.id) :
    ((s.handleClose ch).table.vec i).isValid = false := by
  rw [handleClose_table]
  cases h : ((s.table.closeConn ch.id).vec i).isValid with
  | false => rfl
  | true => exact absurd number (ConnTable.closeConn_valid inv.table h).2.2

theorem closesOnly_iff (inv : s.Inv) (entry : s.channelMap ch.fd = some ch) : s.ClosesOnly ch ↔ s.OwnNumber ch := by
  have linked : ∀ i, (s.table.vec i).isValid = true → (s.table.vec i).fd = ch.fd → (s.table.vec i).connid = ch.id := by
    intro i hv hfd
    obtain ⟨c, hc, hid⟩ := inv.linked i hv
    rw [hfd, entry] at hc
    rw [← hid, Option.some.inj hc]
  constructor
  · intro closes i hv number
    by_contra other
    have kept := closes.records i fun own => other own.2
    have released := handleClose_released inv number
    rw [kept, hv] at released
    cases released
  · intro own
    refine ⟨?_, ?_, ?_, ?_, ?_⟩
    · intro i hv hfd
      exact handleClose_released inv (linked i hv hfd)
    · intro i other
      rw [handleClose_table]
      cases hv : (s.table.vec i).isValid with
      | true =>
        refine ConnTable.closeConn_keep inv.table ?_
        intro number
        exact other ⟨hv, own i hv number⟩
      | false => exact ConnTable.closeConn_invalid hv
    · rw [handleClose_channelMap, Function.update_self]
    · intro fd hfd
      rw [handleClose_channelMap, Function.update_of_ne hfd]
    · intro fd hfd
      rw [handleClose_isOpen, Function.update_of_ne hfd]

theorem tcpOnNewChannel_isOpen (s : EpollServer) (fd : Int) :
    (s.tcpOnNewChannel fd).isOpen = (s.freeFd fd).isOpen := rfl

/-- The channel that the map still has is closed by its number, which is that of the new descriptor. -/
theorem acceptKeeps_iff (inv : s.Inv) : s.AcceptKeeps fd ↔ s.channelMap fd = none := by
  constructor
  · intro keeps
    cases h : s.channelMap fd with
    | none => rfl
    | some ch =>
      have entry : (s.acceptFd fd).channelMap fd = some ch := h
      have stays := keeps.stays
      rw [tcpOnNewChannel_isOpen, freeFd, entry] at stays
      simp [handleClose_isOpen, inv.entry_fd fd ch h] at stays
  · intro new
    have freed : (s.acceptFd fd).freeFd fd = s.acceptFd fd := freeFd_of_new new
    refine ⟨?_, ?_⟩
    · rw [tcpOnNewChannel_isOpen, freed]
      simp [acceptFd]
    · intro i _ _
      rw [tcpOnNewChannel_eq, freed]
      rfl

theorem Backed.ownNumber (h : s.Backed) (inv : s.Inv) (entry : s.channelMap ch.fd = some ch) : s.OwnNumber ch := by
  intro i hv number
  obtain ⟨-, -, j, -, hvj, hjfd, hjc⟩ := h ch.fd ch entry
  obtain rfl := inv.table.connid_inj (inv.table.used i hv) (inv.table.used j hvj) (number.trans hjc.symm)
  exact hjfd

end EpollServer

variable {maxconn channels : Nat} {events : List ServerEvent}

/-- In every state of a run a channel closes only what is its own if and only if no record of another
descriptor has its number, and a new descriptor stays open and takes no record away if and only if the
map has no channel for it. In a run whose accepts all get a record and are announced, both hold in every
state. -/
theorem close_own_only_iff (small : maxconn < 4294967296) (possible : PossibleRun maxconn channels events) :
    (∀ k fd ch, (serverAt maxconn channels events k).channelMap fd = some ch →
      ((serverAt maxconn channels events k).ClosesOnly ch ↔ (serverAt maxconn channels events k).OwnNumber ch)) ∧
    (∀ k fd, (serverAt maxconn channels events k).AcceptKeeps fd ↔
      (serverAt maxconn channels events k).channelMap fd = none) ∧
    ((∀ k fd addr startSent, events[k]? = some (.accept fd addr startSent) →
        0 ≤ (serverAt maxconn channels events k).table.getFreeIdx.1 ∧ startSent = true) →
      ∀ k, (∀ fd ch, (serverAt maxconn channels events k).channelMap fd = some ch →
          (serverAt maxconn channels events k).ClosesOnly ch) ∧
        ∀ fd, (serverAt maxconn channels events k).isOpen fd = false →
          (serverAt maxconn channels events k).AcceptKeeps fd) := by
  have inv := serverAt_inv small possible
  refine ⟨?_, ?_, ?_⟩
  · intro k fd ch entry
    exact EpollServer.closesOnly_iff (inv k) ((inv k).entry_self entry)
  · intro k fd
    exact EpollServer.acceptKeeps_iff (inv k)
  · intro accepted k
    have backed := serverAt_backed small possible accepted k
    constructor
    · intro fd ch entry
      have self := (inv k).entry_self entry
      exact (EpollServer.closesOnly_iff (inv k) self).mpr (backed.ownNumber (inv k) self)
    · intro fd closed
      exact (EpollServer.acceptKeeps_iff (inv k)).mpr (backed.new_of_closed closed)

theorem close_own_only_iff_roomy :
    PossibleRun 2 1 roomyRun ∧ (serverAt 2 1 roomyRun 2).channelMap 6 = some ⟨1, 6, 0, true⟩ ∧
    (serverAt 2 1 roomyRun 2).ClosesOnly ⟨1, 6, 0, true⟩ := by
  have possible : PossibleRun 2 1 roomyRun := by decide +kernel
  have entry : (serverAt 2 1 roomyRun 2).channelMap 6 = some ⟨1, 6, 0, true⟩ := by decide +kernel
  exact ⟨possible, entry, ((close_own_only_iff (by decide) possible).2.2 roomyRun_accepted 2).1 6 _ entry⟩

/-- One record: the second client was refused, and its channel has the number 0, which is that of the
first client. Closing it, or accepting its descriptor again, releases the record of the first client. -/
theorem close_not_own_only :
    PossibleRun 1 1 fullRun ∧ (serverAt 1 1 fullRun 2).channelMap 6 = some ⟨1, 6, 0, false⟩ ∧
    (serverAt 1 1 fullRun 2).isOpen 6 = false ∧
    ¬ (serverAt 1 1 fullRun 2).ClosesOnly ⟨1, 6, 0, false⟩ ∧ ¬ (serverAt 1 1 fullRun 2).AcceptKeeps 6 := by
  refine ⟨by decide +kernel, by decide +kernel, by decide +kernel, ?_, ?_⟩
  · intro closes
    exact absurd (closes.records 0 (by decide +kernel)) (by decide +kernel)
  · intro keeps
    exact absurd keeps.stays (by decide +kernel)

end Wddlib
