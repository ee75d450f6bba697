import Wddlib.ServerMove

namespace Wddlib

open Relation

/-- An accept that gets a descriptor the map still has, gets no record or cannot announce the
connection to channel 0. -/
def ServerEvent.Lossy (s : EpollServer) : ServerEvent → Prop
  | .accept fd _ startSent => s.channelMap fd ≠ none ∨ s.table.getFreeIdx.1 < 0 ∨ startSent = false
  | _ => False

namespace EpollServer

variable {s s' : EpollServer} {lossy : Prop} {ch : ServerChannel} {fd connid : Int} {addr : InetAddress}

theorem sendMsg_moves (s : EpollServer) (channelid : Int) (msg : ServerMsg) :
    Moves lossy s (s.sendMsg channelid msg) := by
  unfold sendMsg
  split
  · exact .single (.sent channelid msg)
  · exact .refl

theorem Inv.sendMsg (inv : s.Inv) (channelid : Int) (msg : ServerMsg) : (s.sendMsg channelid msg).Inv := by
  have moves : Moves True s (s.sendMsg channelid msg) := sendMsg_moves s channelid msg
  exact moves.inv inv

theorem isChannelIdValid_bounds {id : Int} (h : s.isChannelIdValid id = true) :
    0 ≤ id ∧ id < s.channelCount := by
  simp only [isChannelIdValid, decide_eq_true_eq] at h
  have hcast : int32 s.channelCount ≤ s.channelCount := by
    unfold int32
    split <;> omega
  omega

/-- The stop message goes out first, then the channel is dropped. -/
theorem handleClose_eq (s : EpollServer) (ch : ServerChannel) :
    s.handleClose ch = s.dropChannel ch ∨
      ∃ channelid msg, s.handleClose ch = (s.addEffect (.handed channelid msg)).dropChannel ch := by
  cases h : s.table.getConnectionRecord ch.id with
  | none =>
    left
    simp [handleClose, close, onCloseChannel, h, closeConn, dropChannel]
  | some i =>
    have valid_eq : isChannelIdValid
        { s with
          isOpen := Function.update s.isOpen ch.fd false
          watched := Function.update s.watched ch.fd false } ch.id = s.isChannelIdValid ch.id := rfl
    cases valid : s.isChannelIdValid ch.id with
    | true =>
      right
      refine ⟨ch.id, ⟨ch.id, (s.table.vec i).addr, .stop s.currentTime⟩, ?_⟩
      simp [handleClose, close, onCloseChannel, h, sendMsg, valid_eq, valid, addEffect, closeConn, dropChannel]
    | false =>
      left
      simp [handleClose, close, onCloseChannel, h, sendMsg, valid_eq, valid, addEffect, closeConn, dropChannel]

theorem handleClose_moves (entry : s.channelMap ch.fd = some ch) : Moves lossy s (s.handleClose ch) := by
  rcases handleClose_eq s ch with h | ⟨channelid, msg, h⟩
  · rw [h]
    exact .single (.dropped entry)
  · rw [h]
    exact .tail (.single (.sent channelid msg)) (.dropped entry)

theorem handleClose_table (s : EpollServer) (ch : ServerChannel) :
    (s.handleClose ch).table = s.table.closeConn ch.id := by
  rcases handleClose_eq s ch with h | ⟨channelid, msg, h⟩ <;> simp [h, dropChannel, addEffect]

theorem handleClose_channelMap (s : EpollServer) (ch : ServerChannel) :
    (s.handleClose ch).channelMap = Function.update s.channelMap ch.fd none := by
  rcases handleClose_eq s ch with h | ⟨channelid, msg, h⟩ <;> simp [h, dropChannel, addEffect]

theorem closeConnid_of_none (h : s.table.getConnectionRecord connid = none) : s.closeConnid connid = s := by
  simp only [closeConnid, h, closeConn]

/-- The second release of `CloseConnid` finds nothing left to do. -/
theorem closeConnid_of_some (inv : s.Inv) {i : Nat} (h : s.table.getConnectionRecord connid = some i) :
    ∃ ch, s.channelMap (s.table.vec i).fd = some ch ∧ ch.id = connid ∧ s.closeConnid connid = s.handleClose ch := by
  obtain ⟨hv, hc⟩ := (ConnTable.getConnectionRecord_eq_some inv.table).mp h
  obtain ⟨ch, entry, hid⟩ := inv.linked i hv
  have hnone : (s.handleClose ch).table.getConnectionRecord connid = none := by
    rw [handleClose_table, hid, hc]
    exact ConnTable.getConnectionRecord_closeConn inv.table
  refine ⟨ch, entry, hid.trans hc, ?_⟩
  simp only [closeConnid, h, entry, closeConn, hnone]

theorem closeConnid_moves (inv : s.Inv) (connid : Int) : Moves lossy s (s.closeConnid connid) := by
  cases h : s.table.getConnectionRecord connid with
  | none => rw [closeConnid_of_none h]
  | some i =>
    obtain ⟨ch, entry, -, heq⟩ := closeConnid_of_some inv h
    rw [heq]
    exact handleClose_moves (inv.entry_self entry)

theorem sendMsg_closeConnid_moves (inv : s.Inv) (channelid : Int) (msg : ServerMsg) (connid : Int) :
    Moves lossy s ((s.sendMsg channelid msg).closeConnid connid) := by
  have hsent : Moves lossy s (s.sendMsg channelid msg) := sendMsg_moves s channelid msg
  exact hsent.trans (closeConnid_moves (hsent.inv inv) connid)

/-- An older channel with the descriptor of a new connection is closed first. -/
def freeFd (s : EpollServer) (fd : Int) : EpollServer :=
  match s.channelMap fd with
  | none => s
  | some ch => s.handleClose ch

theorem freeFd_of_new (new : s.channelMap fd = none) : s.freeFd fd = s := by
  simp [freeFd, new]

theorem freeFd_moves (inv : s.Inv) (fd : Int) : Moves lossy s (s.freeFd fd) := by
  unfold freeFd
  split
  · exact .refl
  next ch entry => exact handleClose_moves (inv.entry_self entry)

theorem Inv.freeFd (inv : s.Inv) (fd : Int) : (s.freeFd fd).Inv := by
  have moves : Moves True s (s.freeFd fd) := freeFd_moves inv fd
  exact moves.inv inv

theorem freeFd_new (inv : s.Inv) (fd : Int) : (s.freeFd fd).channelMap fd = none := by
  unfold freeFd
  split
  next new => exact new
  next ch entry => simp [handleClose_channelMap, inv.entry_fd fd ch entry]

theorem tcpOnNewChannel_eq (s : EpollServer) (fd : Int) : s.tcpOnNewChannel fd =
    { s.freeFd fd with
      channelMap := Function.update (s.freeFd fd).channelMap fd (some ⟨(s.freeFd fd).nextSerial, fd, 0, true⟩)
      watched := Function.update (s.freeFd fd).watched fd ((s.freeFd fd).isOpen fd)
      nextSerial := (s.freeFd fd).nextSerial + 1 } := rfl

theorem onNewChannel_full {startSent : Bool} (full : (s.freeFd fd).table.getFreeIdx.1 < 0) :
    (s.onNewChannel fd addr startSent).2 = (s.freeFd fd).refuse fd := by
  simp only [onNewChannel, tcpOnNewChannel_eq, Function.update_self, ConnTable.recoredNewConn_none full]
  rw [if_pos (by decide)]
  simp [close, refuse]

theorem onNewChannel_free {startSent : Bool} (inv : (s.freeFd fd).Inv)
    (free : 0 ≤ (s.freeFd fd).table.getFreeIdx.1) :
    ∃ i rest msg, i < (s.freeFd fd).table.usable ∧ (s.freeFd fd).table.idxvec = rest ++ [(i : Int)] ∧
      (∃ currentconn channelcnt, msg.body = .startReq currentconn channelcnt) ∧
      (s.onNewChannel fd addr startSent).2 =
        if startSent then ((s.freeFd fd).enroll fd addr i rest).addEffect (.handed 0 msg)
        else (((s.freeFd fd).enroll fd addr i rest).addEffect (.handed 0 msg)).closeConn
          ((s.freeFd fd).table.vec i).connid := by
  obtain ⟨i, rest, hi, hsplit, hrec⟩ := @ConnTable.recoredNewConn_some _ _ fd addr inv.table free
  have h0 := (inv.table.record i hi).connid_nonneg
  refine ⟨i, rest, ⟨((s.freeFd fd).table.vec i).connid, addr, .startReq ?current ?count⟩, hi, hsplit,
    ⟨?current, ?count, rfl⟩, ?_⟩
  rotate_left 2
  · simp only [onNewChannel, tcpOnNewChannel_eq, Function.update_self, hrec]
    rw [if_neg (by omega)]
    simp only [enroll, addEffect, Function.update_idem]
    cases startSent <;> rfl

theorem accept_moves {startSent : Bool} (inv : s.Inv) (pos : 0 < fd)
    (lossy_of : s.channelMap fd ≠ none ∨ s.table.getFreeIdx.1 < 0 ∨ startSent = false → lossy) :
    Moves lossy s (s.step (.accept fd addr startSent)) := by
  let opened : EpollServer := { s with isOpen := Function.update s.isOpen fd true }
  have hopened : Move lossy s opened := .opened fd
  have hopenedInv : opened.Inv := hopened.inv inv
  have hfreed : Moves lossy s (opened.freeFd fd) := .head hopened (freeFd_moves hopenedInv fd)
  have hnew := freeFd_new hopenedInv fd
  have hfreedInv := hfreed.inv inv
  show Moves lossy s (opened.onNewChannel fd addr startSent).2
  by_cases full : (opened.freeFd fd).table.getFreeIdx.1 < 0
  · rw [onNewChannel_full full]
    refine hfreed.tail (.refused (lossy_of ?_) hnew full)
    by_cases new : s.channelMap fd = none
    · rw [freeFd_of_new (s := opened) new] at full
      exact .inr (.inl full)
    · exact .inl new
  · obtain ⟨i, rest, msg, hi, hsplit, -, heq⟩ := @onNewChannel_free _ fd addr startSent hfreedInv (by omega)
    have live : lossy ∨ (opened.freeFd fd).isOpen fd = true := by
      by_cases new : s.channelMap fd = none
      · right
        rw [freeFd_of_new (s := opened) new]
        simp [opened]
      · exact .inl (lossy_of (.inl new))
    have hsent : Moves lossy s (((opened.freeFd fd).enroll fd addr i rest).addEffect (.handed 0 msg)) :=
      (hfreed.tail (.admitted addr pos hnew hi hsplit live)).tail (.sent 0 msg)
    rw [heq]
    cases startSent with
    | true => exact hsent
    | false => exact hsent.tail (.abandoned (lossy_of (.inr (.inr rfl))) _)

theorem startRspHandle_moves (inv : s.Inv) (msg : BackendMsg) :
    Moves lossy s (s.startRspHandle msg).2 := by
  unfold startRspHandle
  split
  · exact .refl
  next i _ =>
    split
    · exact closeConnid_moves inv _
    split
    next valid =>
      obtain ⟨lo, hi⟩ := isChannelIdValid_bounds valid
      exact .single (.routed i lo hi)
    next => exact closeConnid_moves inv _

theorem stopHandle_moves (inv : s.Inv) (msg : BackendMsg) : Moves lossy s (s.stopHandle msg).2 := by
  unfold stopHandle
  split
  · exact .refl
  · exact sendMsg_closeConnid_moves inv _ _ _

theorem routeHandle_moves (s : EpollServer) (msg : BackendMsg) : Moves lossy s (s.routeHandle msg).2 := by
  unfold routeHandle
  split
  · exact .refl
  next i _ =>
    refine .trans ?_ (sendMsg_moves _ _ _)
    split
    next valid =>
      obtain ⟨lo, hi⟩ := isChannelIdValid_bounds valid
      exact .single (.routed i lo hi)
    next => exact .refl

theorem msgNtfHandle_moves (inv : s.Inv) (msg : BackendMsg) (fromChannel : Int) :
    Moves lossy s (s.msgNtfHandle msg fromChannel).2 := by
  unfold msgNtfHandle
  split
  · exact sendMsg_moves _ _ _
  next i found =>
    split
    · exact sendMsg_closeConnid_moves inv _ _ _
    next sc entry =>
      rw [getSvrChannel, found] at entry
      exact .single (.delivered msg.buff found entry)

/-- Every event is a chain of moves. -/
theorem step_moves (inv : s.Inv) {e : ServerEvent} (possible : e.Possible s) :
    Moves (e.Lossy s) s (s.step e) := by
  cases e with
  | accept fd addr startSent => exact accept_moves inv possible.1 id
  | clientClose fd =>
    simp only [step]
    split
    · exact .refl
    next ch entry => exact handleClose_moves (inv.entry_self entry)
  | clientFrame fd payload =>
    simp only [step]
    split
    · exact .refl
    · unfold forward
      split
      · exact .refl
      · exact sendMsg_moves _ _ _
  | backendMsg fromChannel msg =>
    simp only [step, handleMsg]
    split
    · exact startRspHandle_moves inv msg
    split
    · exact stopHandle_moves inv msg
    split
    · exact routeHandle_moves s msg
    split
    · exact msgNtfHandle_moves inv msg fromChannel
    · exact .refl
  | tick now => exact .single (.ticked now)

end EpollServer

variable {maxconn channels : Nat} {events : List ServerEvent}

/-- The server after the first `k` events. -/
def serverAt (maxconn channels : Nat) (events : List ServerEvent) (k : Nat) : EpollServer :=
  stateAt EpollServer.step (.create maxconn channels) events k

/-- Each event of the run can occur where it does. -/
def PossibleRun (maxconn channels : Nat) (events : List ServerEvent) : Prop :=
  ∀ k (e : ServerEvent), events[k]? = some e → e.Possible (serverAt maxconn channels events k)

instance ServerEvent.decidablePossible (s : EpollServer) (e : ServerEvent) : Decidable (e.Possible s) :=
  match e with
  | .accept fd _ _ => inferInstanceAs (Decidable (0 < fd ∧ s.isOpen fd = false))
  | .clientClose _ => .isTrue trivial
  | .clientFrame _ _ => .isTrue trivial
  | .backendMsg _ _ => .isTrue trivial
  | .tick _ => .isTrue trivial

theorem possibleRun_iff : PossibleRun maxconn channels events ↔
    ∀ k : Fin events.length, (events.get k).Possible (serverAt maxconn channels events k) :=
  forall_event_iff

instance PossibleRun.decidable : Decidable (PossibleRun maxconn channels events) :=
  decidable_of_iff _ possibleRun_iff.symm

theorem serverAt_inv (small : maxconn < 4294967296)
    (possible : PossibleRun maxconn channels events) (k : Nat) :
    (serverAt maxconn channels events k).Inv := by
  refine stateAt_induct (EpollServer.create_inv small channels) ?_ k
  intro k e he inv
  exact (EpollServer.step_moves inv (possible k e he)).inv inv

/-- What every move keeps holds in every state of a run. -/
theorem serverAt_induct {P : EpollServer → Prop} (small : maxconn < 4294967296)
    (possible : PossibleRun maxconn channels events) (start : P (.create maxconn channels))
    (keep : ∀ {lossy : Prop} {s s' : EpollServer}, s.Inv → EpollServer.Move lossy s s' → P s → P s')
    (k : Nat) : P (serverAt maxconn channels events k) := by
  refine stateAt_induct start ?_ k
  intro k e he before
  have inv : (serverAt maxconn channels events k).Inv := serverAt_inv small possible k
  exact EpollServer.Moves.induct keep (EpollServer.step_moves inv (possible k e he)) inv before

theorem EpollServer.Move.config {lossy : Prop} {s s' : EpollServer} (move : Move lossy s s') :
    s'.channelCount = s.channelCount ∧ s'.table.maxconn = s.table.maxconn := by
  cases move with
  | sent => exact ⟨rfl, rfl⟩
  | ticked => exact ⟨rfl, rfl⟩
  | opened => exact ⟨rfl, rfl⟩
  | dropped => simp [dropChannel, ConnTable.closeConn_maxconn]
  | routed => exact ⟨rfl, rfl⟩
  | delivered => exact ⟨rfl, rfl⟩
  | admitted => exact ⟨rfl, rfl⟩
  | refused => simp [refuse]
  | abandoned => simp [ConnTable.closeConn_maxconn]

theorem serverAt_config (small : maxconn < 4294967296)
    (possible : PossibleRun maxconn channels events) (k : Nat) :
    (serverAt maxconn channels events k).channelCount = channels + 1 ∧
      (serverAt maxconn channels events k).table.maxconn = maxconn := by
  refine serverAt_induct (P := fun s => s.channelCount = channels + 1 ∧ s.table.maxconn = maxconn)
    small possible ⟨rfl, rfl⟩ ?_ k
  intro lossy s s' inv move before
  obtain ⟨h1, h2⟩ := move.config
  exact ⟨h1.trans before.1, h2.trans before.2⟩

/-- The free indices are exactly the indices of the records that are not in use, each once; the
number of a record stays in its residue class; a number is found exactly while its record is in
use. -/
theorem connTable_run_invariant (small : maxconn < 2147483648)
    (possible : PossibleRun maxconn channels events) (k : Nat) :
    let s := serverAt maxconn channels events k
    s.table.vecSize = maxconn ∧
    s.table.idxvec.Nodup ∧
    (∀ idx, idx ∈ s.table.idxvec ↔ ∃ i < maxconn, idx = (i : Int) ∧ (s.table.vec i).isValid = false) ∧
    s.table.idxvec.length + (List.range maxconn).countP (fun i => (s.table.vec i).isValid) = maxconn ∧
    (∀ i < maxconn, (s.table.vec i).idx = i ∧ 0 ≤ (s.table.vec i).connid ∧
      (s.table.vec i).connid < 2147483648 ∧ (s.table.vec i).connid % maxconn = i) ∧
    (∀ connid, s.table.getConnectionRecord connid ≠ none ↔
      ∃ i < maxconn, (s.table.vec i).isValid = true ∧ (s.table.vec i).connid = connid) ∧
    s.channelCount = channels + 1 ∧
    ∀ i < maxconn, 0 ≤ (s.table.vec i).channelid ∧ (s.table.vec i).channelid < s.channelCount := by
  intro s
  have inv : s.table.Inv s.channelCount := (serverAt_inv (by omega) possible k).table
  obtain ⟨hcount, hmax⟩ : s.channelCount = channels + 1 ∧ s.table.maxconn = maxconn :=
    serverAt_config (by omega) possible k
  have fits : s.table.maxconn < 2147483648 := hmax.symm ▸ small
  have hmem := @ConnTable.Inv.mem_idxvec_iff _ _ inv fits
  have hlength := inv.length_add_valid fits
  have hrecord := inv.record
  have hused := inv.used
  rw [ConnTable.usable_eq fits] at hrecord hused
  rw [hmax] at hmem hlength hrecord hused
  refine ⟨inv.vecSize_eq.trans hmax, inv.nodup, fun idx => hmem, hlength, ?_, ?_, hcount, ?_⟩
  · intro i hi
    have r := hrecord i hi
    exact ⟨r.idx_eq, r.connid_nonneg, r.connid_lt, r.connid_mod⟩
  · intro connid
    rw [Option.ne_none_iff_exists']
    refine exists_congr fun i => ?_
    rw [ConnTable.getConnectionRecord_eq_some inv]
    exact ⟨fun h => ⟨hused i h.1, h⟩, fun h => h.2⟩
  · intro i hi
    exact ⟨(hrecord i hi).channelid_nonneg, (hrecord i hi).channelid_lt⟩

/-- One record: the second client is refused, the backend stops the first one, and the start request
of the third, which gets the descriptor of the second, fails. -/
def refusedRun : List ServerEvent :=
  [.accept 5 ⟨1, 80⟩ true, .accept 6 ⟨2, 80⟩ true, .backendMsg 0 ⟨connsvrStop, 0, ⟨1, 80⟩, 0, 0, 0, []⟩,
    .accept 6 ⟨3, 80⟩ false]

theorem connTable_run_invariant_refused :
    PossibleRun 1 1 refusedRun ∧
    (serverAt 1 1 refusedRun 4).table.idxvec.length +
      (List.range 1).countP (fun i => ((serverAt 1 1 refusedRun 4).table.vec i).isValid) = 1 := by
  have possible : PossibleRun 1 1 refusedRun := by decide +kernel
  exact ⟨possible, (connTable_run_invariant (by decide) possible 4).2.2.2.1⟩

end Wddlib
