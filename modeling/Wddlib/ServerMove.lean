import Wddlib.MsgHandle
import Wddlib.ConnTableInvariant
import Wddlib.RunPrefix
import Mathlib.Logic.Relation

namespace Wddlib

open Relation

namespace EpollServer

variable {s s' : EpollServer} {lossy : Prop} {ch : ServerChannel} {fd connid : Int} {addr : InetAddress}

@[simp] theorem closeConn_table (s : EpollServer) (connid : Int) :
    (s.closeConn connid).table = s.table.closeConn connid := by
  unfold closeConn
  split
  next h => rw [ConnTable.closeConn_of_none h]
  next => rfl

@[simp] theorem closeConn_channelMap (s : EpollServer) (connid : Int) :
    (s.closeConn connid).channelMap = s.channelMap := by
  unfold closeConn
  split <;> rfl

@[simp] theorem closeConn_channelCount (s : EpollServer) (connid : Int) :
    (s.closeConn connid).channelCount = s.channelCount := by
  unfold closeConn
  split <;> rfl

/-- A channel is closed and taken out of the map, and the record with its number is released. -/
def dropChannel (s : EpollServer) (ch : ServerChannel) : EpollServer :=
  { s.closeConn ch.id with
    channelMap := Function.update s.channelMap ch.fd none
    isOpen := Function.update s.isOpen ch.fd false
    watched := Function.update s.watched ch.fd false }

/-- A new channel for `fd` gets the free record `i`. -/
def enroll (s : EpollServer) (fd : Int) (addr : InetAddress) (i : Nat) (rest : List Int) : EpollServer :=
  { s with
    table :=
      { s.table with
        vec := Function.update s.table.vec i ((s.table.vec i).attatch fd addr)
        idxvec := rest }
    channelMap := Function.update s.channelMap fd (some ⟨s.nextSerial, fd, (s.table.vec i).connid, true⟩)
    watched := Function.update s.watched fd (s.isOpen fd)
    nextSerial := s.nextSerial + 1
    effects := .assigned s.nextSerial (s.table.vec i).connid :: s.effects }

/-- A new channel for `fd` gets no record. -/
def refuse (s : EpollServer) (fd : Int) : EpollServer :=
  { s with
    table := s.table.getFreeIdx.2
    channelMap := Function.update s.channelMap fd (some ⟨s.nextSerial, fd, 0, false⟩)
    isOpen := Function.update s.isOpen fd false
    watched := Function.update s.watched fd false
    nextSerial := s.nextSerial + 1 }

/-- The small changes that events are made of. The ones that leave a channel without a record only
occur in `lossy` events. -/
inductive Move (lossy : Prop) (s : EpollServer) : EpollServer → Prop where
  | sent (channelid : Int) (msg : ServerMsg) : Move lossy s (s.addEffect (.handed channelid msg))
  | ticked (now : Nat) : Move lossy s { s with currentTime := now }
  | opened (fd : Int) : Move lossy s { s with isOpen := Function.update s.isOpen fd true }
  | dropped {ch : ServerChannel} (entry : s.channelMap ch.fd = some ch) : Move lossy s (s.dropChannel ch)
  | routed (i : Nat) {id : Int} (lo : 0 ≤ id) (hi : id < s.channelCount) :
      Move lossy s (s.setChannelid i id)
  | delivered {connid : Int} {i : Nat} {ch : ServerChannel} (payload : List UInt8)
      (found : s.table.getConnectionRecord connid = some i)
      (entry : s.channelMap (s.table.vec i).fd = some ch) :
      Move lossy s (s.addEffect (.delivered ch.serial connid payload))
  | admitted {fd : Int} {i : Nat} {rest : List Int} (addr : InetAddress) (pos : 0 < fd)
      (new : s.channelMap fd = none) (hi : i < s.table.usable)
      (free : s.table.idxvec = rest ++ [(i : Int)]) (live : lossy ∨ s.isOpen fd = true) :
      Move lossy s (s.enroll fd addr i rest)
  | refused {fd : Int} (loss : lossy) (new : s.channelMap fd = none) (full : s.table.getFreeIdx.1 < 0) :
      Move lossy s (s.refuse fd)
  | abandoned (loss : lossy) (connid : Int) : Move lossy s (s.closeConn connid)

abbrev Moves (lossy : Prop) : EpollServer → EpollServer → Prop := ReflTransGen (Move lossy)

/-- The tables of the server fit together: a record in use belongs to the channel that the map has
under its descriptor, and the channel has its number. -/
structure Inv (s : EpollServer) : Prop where
  table : s.table.Inv s.channelCount
  entry_fd : ∀ fd ch, s.channelMap fd = some ch → ch.fd = fd
  linked : ∀ i, (s.table.vec i).isValid = true →
    ∃ ch, s.channelMap (s.table.vec i).fd = some ch ∧ ch.id = (s.table.vec i).connid

theorem Inv.entry_self (inv : s.Inv) (entry : s.channelMap fd = some ch) : s.channelMap ch.fd = some ch := by
  rw [inv.entry_fd fd ch entry]
  exact entry

theorem create_inv {maxconn : Nat} (small : maxconn < 4294967296) (channels : Nat) :
    (create maxconn channels).Inv where
  table := ConnTable.create_inv small (Nat.succ_pos channels)
  entry_fd := by
    intro fd ch h
    cases h
  linked := by
    intro i hv
    cases hv

theorem Inv.closeConn (inv : s.Inv) (connid : Int) : (s.closeConn connid).Inv where
  table := by
    rw [closeConn_table, closeConn_channelCount]
    exact inv.table.closeConn connid
  entry_fd := by
    rw [closeConn_channelMap]
    exact inv.entry_fd
  linked := by
    intro i hv
    rw [closeConn_table] at hv ⊢
    obtain ⟨same, hv', -⟩ := ConnTable.closeConn_valid inv.table hv
    rw [same, closeConn_channelMap]
    exact inv.linked i hv'

theorem Inv.dropChannel (inv : s.Inv) (entry : s.channelMap ch.fd = some ch) : (s.dropChannel ch).Inv where
  table := (inv.closeConn ch.id).table
  entry_fd := by
    intro fd c h
    by_cases hfd : fd = ch.fd
    · simp [EpollServer.dropChannel, hfd] at h
    · simp only [EpollServer.dropChannel, Function.update_of_ne hfd] at h
      exact inv.entry_fd fd c h
  linked := by
    intro i hv
    simp only [EpollServer.dropChannel, closeConn_table] at hv ⊢
    obtain ⟨same, hv', hne⟩ := ConnTable.closeConn_valid inv.table hv
    obtain ⟨c, hc, hid⟩ := inv.linked i hv'
    rw [same]
    refine ⟨c, ?_, hid⟩
    have hfd : (s.table.vec i).fd ≠ ch.fd := by
      intro hfd
      rw [hfd, entry] at hc
      obtain rfl := Option.some.inj hc
      exact hne hid.symm
    rw [Function.update_of_ne hfd]
    exact hc

/-- No record in use has a descriptor that the map does not know. -/
theorem Inv.fd_ne_of_new (inv : s.Inv) (new : s.channelMap fd = none) {i : Nat}
    (hv : (s.table.vec i).isValid = true) : (s.table.vec i).fd ≠ fd := by
  intro same
  obtain ⟨c, hc, -⟩ := inv.linked i hv
  rw [same, new] at hc
  cases hc

theorem Inv.enroll (inv : s.Inv) {i : Nat} {rest : List Int} (pos : 0 < fd)
    (new : s.channelMap fd = none) (hi : i < s.table.usable)
    (free : s.table.idxvec = rest ++ [(i : Int)]) : (s.enroll fd addr i rest).Inv where
  table := inv.table.attatch hi free pos
  entry_fd := by
    intro fd' c h
    by_cases hfd : fd' = fd
    · subst hfd
      simp only [EpollServer.enroll, Function.update_self] at h
      obtain rfl := Option.some.inj h
      rfl
    · simp only [EpollServer.enroll, Function.update_of_ne hfd] at h
      exact inv.entry_fd fd' c h
  linked := by
    intro j hv
    simp only [EpollServer.enroll] at hv ⊢
    by_cases hji : j = i
    · subst hji
      simp [ConnectionRecord.attatch]
    · simp only [Function.update_of_ne hji] at hv ⊢
      obtain ⟨c, hc, hid⟩ := inv.linked j hv
      refine ⟨c, ?_, hid⟩
      rw [Function.update_of_ne (inv.fd_ne_of_new new hv)]
      exact hc

theorem Inv.refuse (inv : s.Inv) (new : s.channelMap fd = none) (full : s.table.getFreeIdx.1 < 0) :
    (s.refuse fd).Inv where
  table := inv.table.getFreeIdx full
  entry_fd := by
    intro fd' c h
    by_cases hfd : fd' = fd
    · subst hfd
      simp only [EpollServer.refuse, Function.update_self] at h
      obtain rfl := Option.some.inj h
      rfl
    · simp only [EpollServer.refuse, Function.update_of_ne hfd] at h
      exact inv.entry_fd fd' c h
  linked := by
    intro j hv
    simp only [EpollServer.refuse, ConnTable.getFreeIdx_vec] at hv ⊢
    rw [Function.update_of_ne (inv.fd_ne_of_new new hv)]
    exact inv.linked j hv

theorem Inv.setChannelid (inv : s.Inv) (i : Nat) {id : Int} (lo : 0 ≤ id) (hi : id < s.channelCount) :
    (s.setChannelid i id).Inv where
  table := inv.table.setChannelid lo hi
  entry_fd := inv.entry_fd
  linked := by
    intro j hv
    simp only [EpollServer.setChannelid, ConnTable.setChannelid_isValid, ConnTable.setChannelid_fd,
      ConnTable.setChannelid_connid] at hv ⊢
    exact inv.linked j hv

theorem Move.inv (move : Move lossy s s') (inv : s.Inv) : s'.Inv := by
  cases move with
  | sent => exact ⟨inv.table, inv.entry_fd, inv.linked⟩
  | ticked => exact ⟨inv.table, inv.entry_fd, inv.linked⟩
  | opened => exact ⟨inv.table, inv.entry_fd, inv.linked⟩
  | dropped entry => exact inv.dropChannel entry
  | routed i lo hi => exact inv.setChannelid i lo hi
  | delivered => exact ⟨inv.table, inv.entry_fd, inv.linked⟩
  | admitted addr pos new hi free live => exact inv.enroll pos new hi free
  | refused loss new full => exact inv.refuse new full
  | abandoned loss connid => exact inv.closeConn connid

theorem Moves.inv (moves : Moves lossy s s') (inv : s.Inv) : s'.Inv := by
  induction moves with
  | refl => exact inv
  | tail _ move ih => exact move.inv ih

/-- What every move keeps, a chain of moves keeps. -/
theorem Moves.induct {P : EpollServer → Prop}
    (keep : ∀ {s s' : EpollServer}, s.Inv → Move lossy s s' → P s → P s')
    (moves : Moves lossy s s') (inv : s.Inv) (start : P s) : P s' := by
  induction moves with
  | refl => exact start
  | tail before move ih => exact keep (Moves.inv before inv) move ih

end EpollServer

end Wddlib
