import Wddlib.TcpClient
import Wddlib.RunPrefix

namespace Wddlib

/-- A pointer to a `ServerChannel`. `serial` tells objects apart; `m_iFD` does not change after `AcceptedFD`. -/
structure ChannelPtr where
  serial : Nat
  fd : Int
  deriving DecidableEq, Repr

inductive Handler where
  | handleCanRecv
  | handleCanSend
  | handleError
  | handleClose
  deriving DecidableEq, Repr

/-- A handler that `HandleEvent` calls on a channel, or the removal of a channel from `m_ChannelMap`. -/
inductive PollEntry where
  | called (handler : Handler) (ch : ChannelPtr)
  | removed (ch : ChannelPtr)
  deriving DecidableEq, Repr

/-- What the code of a server does with channels when one of its callbacks runs. -/
inductive ChannelAction where
  | disconnect (fd : Int)
  | newChannel (fd : Int)
  deriving DecidableEq, Repr

def ChannelAction.fd : ChannelAction → Int
  | disconnect fd => fd
  | newChannel fd => fd

/-- One entry of `m_EventList`. `socket` is the channel that `data.ptr` points to; `none` stands for a socket
that is no channel of the server (the acceptor, a backend client). `read` is what `::readv` does if it is
called, and `actions` what the callbacks of the event do: `OnMsgRecv`, or the handlers of the other socket. -/
structure ReadyEvent where
  socket : Option ChannelPtr
  bits : EpollBits
  read : ReadOutcome
  actions : List ChannelAction
  deriving DecidableEq, Repr

namespace EpollBits

/-- `EPOLLHUP` without `EPOLLIN`. -/
def hangsUp (iEvent : EpollBits) : Bool := iEvent.epollhup && !iEvent.epollin

def receives (iEvent : EpollBits) : Bool := iEvent.epollin || iEvent.epollpri || iEvent.epollrdhup

def sends (iEvent : EpollBits) : Bool := !(iEvent.hangsUp || iEvent.epollerr) && iEvent.epollout

/-- Some handler is called. -/
def calls (iEvent : EpollBits) : Bool :=
  iEvent.hangsUp || iEvent.epollerr || iEvent.receives || iEvent.epollout

end EpollBits

/-- The channels of a server. `log` lists the calls and removals, the latest first. -/
structure TcpServer where
  channelMap : Int → Option ChannelPtr
  nextSerial : Nat
  log : List PollEntry

namespace TcpServer

def create : TcpServer := ⟨fun _ => none, 0, []⟩

/-- The entry is erased by the descriptor of the deleted object. -/
def onCloseChannel (s : TcpServer) (ch : ChannelPtr) : TcpServer :=
  { s with channelMap := Function.update s.channelMap ch.fd none, log := .removed ch :: s.log }

/-- `ServerChannel::HandleClose`, which is also `Disconnect`. `DisableAll` and `Close` concern later calls of
`::epoll_wait`, not the events that have been returned. -/
def handleClose (s : TcpServer) (ch : ChannelPtr) : TcpServer := s.onCloseChannel ch

/-- The channel under `fd`, if there is one, is disconnected. -/
def disconnect (s : TcpServer) (fd : Int) : TcpServer :=
  match s.channelMap fd with
  | none => s
  | some ch => s.handleClose ch

def onNewChannel (s : TcpServer) (fd : Int) : TcpServer :=
  let s := s.disconnect fd
  { s with
    channelMap := Function.update s.channelMap fd (some ⟨s.nextSerial, fd⟩)
    nextSerial := s.nextSerial + 1 }

def act (s : TcpServer) : ChannelAction → TcpServer
  | .disconnect fd => s.disconnect fd
  | .newChannel fd => s.onNewChannel fd

/-- `DoRecv`; its `HandleError` only logs. -/
def doRecv (s : TcpServer) (ch : ChannelPtr) (read : ReadOutcome) (actions : List ChannelAction) : TcpServer :=
  match read with
  | .closed => s.handleClose ch
  | .failed _ => s
  | .received _ => actions.foldl act s

def call (s : TcpServer) (handler : Handler) (ch : ChannelPtr) : TcpServer :=
  { s with log := .called handler ch :: s.log }

/-- `EPollPoller::HandleEvent` on a channel. `HandleError` logs, and `HandleCanSend` writes. -/
def handleEvent (s : TcpServer) (ch : ChannelPtr) (iEvent : EpollBits) (read : ReadOutcome)
    (actions : List ChannelAction) : TcpServer :=
  let s :=
    if iEvent.hangsUp then (s.call .handleClose ch).handleClose ch
    else if iEvent.epollerr then s.call .handleError ch
    else s
  let s := if iEvent.receives then (s.call .handleCanRecv ch).doRecv ch read actions else s
  if iEvent.sends then s.call .handleCanSend ch else s

def dispatch (s : TcpServer) (e : ReadyEvent) : TcpServer :=
  match e.socket with
  | some ch => s.handleEvent ch e.bits e.read e.actions
  | none => e.actions.foldl act s

/-- `EPollPoller::Poll` after `::epoll_wait` has returned `batch`. -/
def poll (s : TcpServer) (batch : List ReadyEvent) : TcpServer := batch.foldl dispatch s

/-- A call is made on a channel that has not been removed. -/
def CallsLive (earlier : List PollEntry) : PollEntry → Prop
  | .called _ ch => .removed ch ∉ earlier
  | .removed _ => True

/-- No handler has been called on a channel after it was removed. -/
def NeverLate (s : TcpServer) : Prop := LogOk CallsLive s.log

end TcpServer

namespace ReadyEvent

/-- The callbacks of the event act on the channel under `fd`. -/
def actsOn (e : ReadyEvent) (fd : Int) : Prop := ∃ a ∈ e.actions, a.fd = fd

/-- Reading the channel `ch` of the event ends with `ch` removed. -/
def RecvEnds (e : ReadyEvent) (ch : ChannelPtr) : Prop :=
  e.bits.receives = true ∧ (e.read = .closed ∨ e.read.isReceived = true ∧ e.actsOn ch.fd)

/-- The event removes `ch`. -/
def Ends (e : ReadyEvent) (ch : ChannelPtr) : Prop :=
  match e.socket with
  | none => e.actsOn ch.fd
  | some own =>
    own = ch ∧ (e.bits.hangsUp = true ∨ e.RecvEnds ch) ∨
      e.bits.receives = true ∧ e.read.isReceived = true ∧ e.actsOn ch.fd

/-- The event does not hang up its channel and read it too, nor read it to its end and write to it. -/
def Sound (e : ReadyEvent) : Prop :=
  ∀ ch, e.socket = some ch →
    ¬ (e.bits.hangsUp = true ∧ e.bits.receives = true) ∧ ¬ (e.RecvEnds ch ∧ e.bits.sends = true)

/-- The event leaves the channel of a later event, which calls a handler of it. -/
def Spares (e later : ReadyEvent) : Prop :=
  ∀ ch, later.socket = some ch → later.bits.calls = true → ¬ e.Ends ch

end ReadyEvent

namespace ReadyEvent

instance decidableActsOn (e : ReadyEvent) (fd : Int) : Decidable (e.actsOn fd) :=
  inferInstanceAs (Decidable (∃ a ∈ e.actions, a.fd = fd))

instance decidableRecvEnds (e : ReadyEvent) (ch : ChannelPtr) : Decidable (e.RecvEnds ch) :=
  inferInstanceAs (Decidable
    (e.bits.receives = true ∧ (e.read = .closed ∨ e.read.isReceived = true ∧ e.actsOn ch.fd)))

instance decidableEnds (e : ReadyEvent) (ch : ChannelPtr) : Decidable (e.Ends ch) :=
  match e with
  | ⟨none, bits, read, actions⟩ =>
    inferInstanceAs (Decidable (ReadyEvent.actsOn ⟨none, bits, read, actions⟩ ch.fd))
  | ⟨some own, bits, read, actions⟩ =>
    inferInstanceAs (Decidable
      (own = ch ∧ (bits.hangsUp = true ∨ ReadyEvent.RecvEnds ⟨some own, bits, read, actions⟩ ch) ∨
        bits.receives = true ∧ read.isReceived = true ∧
          ReadyEvent.actsOn ⟨some own, bits, read, actions⟩ ch.fd))

instance decidableSound (e : ReadyEvent) : Decidable e.Sound :=
  inferInstanceAs (Decidable (∀ ch ∈ e.socket,
    ¬ (e.bits.hangsUp = true ∧ e.bits.receives = true) ∧ ¬ (e.RecvEnds ch ∧ e.bits.sends = true)))

instance decidableSpares (e later : ReadyEvent) : Decidable (e.Spares later) :=
  inferInstanceAs (Decidable (∀ ch ∈ later.socket, later.bits.calls = true → ¬ e.Ends ch))

end ReadyEvent

/-- No event of the batch removes a channel that it or a later event then calls a handler of. -/
structure WellTimed (batch : List ReadyEvent) : Prop where
  sound : ∀ e ∈ batch, e.Sound
  spares : batch.Pairwise ReadyEvent.Spares

instance decidableWellTimed (batch : List ReadyEvent) : Decidable (WellTimed batch) :=
  decidable_of_iff ((∀ e ∈ batch, e.Sound) ∧ batch.Pairwise ReadyEvent.Spares)
    ⟨fun h => ⟨h.1, h.2⟩, fun h => ⟨h.sound, h.spares⟩⟩

theorem wellTimed_cons {e : ReadyEvent} {batch : List ReadyEvent} :
    WellTimed (e :: batch) ↔ e.Sound ∧ (∀ later ∈ batch, e.Spares later) ∧ WellTimed batch := by
  constructor
  · rintro ⟨sound, spares⟩
    rw [List.forall_mem_cons] at sound
    rw [List.pairwise_cons] at spares
    exact ⟨sound.1, spares.1, sound.2, spares.2⟩
  · rintro ⟨sound, spares, rest⟩
    exact ⟨List.forall_mem_cons.mpr ⟨sound, rest.sound⟩, List.pairwise_cons.mpr ⟨spares, rest.spares⟩⟩

namespace TcpServer

variable {s s₀ : TcpServer} {ch : ChannelPtr} {fd : Int}

/-- The channels of the map are under their descriptors and have never been removed. -/
structure Coherent (s : TcpServer) : Prop where
  keyed : ∀ fd ch, s.channelMap fd = some ch → ch.fd = fd
  live : ∀ fd ch, s.channelMap fd = some ch → .removed ch ∉ s.log
  known : ∀ fd ch, s.channelMap fd = some ch → ch.serial < s.nextSerial
  past : ∀ ch, .removed ch ∈ s.log → ch.serial < s.nextSerial

/-- A state in the course of a batch that began in `s₀`: a channel that was in the map then is still there or
has been removed. -/
structure Since (s₀ s : TcpServer) : Prop where
  coherent : s.Coherent
  serial_le : s₀.nextSerial ≤ s.nextSerial
  held : ∀ fd ch, s₀.channelMap fd = some ch → .removed ch ∈ s.log ∨ s.channelMap fd = some ch

theorem Coherent.since (h : s.Coherent) : Since s s := ⟨h, Nat.le_refl _, fun _ _ => .inr⟩

theorem onCloseChannel_map {own : ChannelPtr} :
    (s.onCloseChannel ch).channelMap fd = some own ↔ fd ≠ ch.fd ∧ s.channelMap fd = some own := by
  unfold onCloseChannel
  by_cases heq : fd = ch.fd
  · simp [heq]
  · simp [heq]

theorem onCloseChannel_removed {own : ChannelPtr} :
    .removed own ∈ (s.onCloseChannel ch).log ↔ own = ch ∨ .removed own ∈ s.log := by
  simp [onCloseChannel]

theorem Coherent.onCloseChannel (h : s.Coherent) (known : ch.serial < s.nextSerial) :
    (s.onCloseChannel ch).Coherent := by
  constructor
  · intro fd own hmap
    exact h.keyed fd own (onCloseChannel_map.mp hmap).2
  · intro fd own hmap hmem
    obtain ⟨hne, hold⟩ := onCloseChannel_map.mp hmap
    rcases onCloseChannel_removed.mp hmem with rfl | before
    · exact hne (h.keyed fd own hold).symm
    · exact h.live fd own hold before
  · intro fd own hmap
    exact h.known fd own (onCloseChannel_map.mp hmap).2
  · intro own hmem
    rcases onCloseChannel_removed.mp hmem with rfl | before
    · exact known
    · exact h.past own before

/-- Also for a channel that is no longer there: only one channel of the start was under its descriptor. -/
theorem Since.onCloseChannel (start : s₀.Coherent) (h : Since s₀ s)
    (hch : s₀.channelMap ch.fd = some ch ∨ s.channelMap ch.fd = some ch) : Since s₀ (s.onCloseChannel ch) := by
  refine ⟨h.coherent.onCloseChannel ?_, h.serial_le, ?_⟩
  · rcases hch with old | now
    · exact (start.known _ _ old).trans_le h.serial_le
    · exact h.coherent.known _ _ now
  · intro fd own hstart
    rw [onCloseChannel_map, onCloseChannel_removed]
    rcases h.held fd own hstart with before | here
    · exact .inl (.inr before)
    · by_cases heq : fd = ch.fd
      · subst heq
        left
        left
        rcases hch with old | now
        · rw [old] at hstart
          exact (Option.some.inj hstart).symm
        · rw [now] at here
          exact (Option.some.inj here).symm
      · exact .inr ⟨heq, here⟩

theorem Since.disconnect (start : s₀.Coherent) (h : Since s₀ s) (fd : Int) : Since s₀ (s.disconnect fd) := by
  unfold TcpServer.disconnect
  split
  next => exact h
  next own found =>
    refine h.onCloseChannel start (.inr ?_)
    rw [h.coherent.keyed fd own found]
    exact found

theorem disconnect_none (h : s.Coherent) (fd : Int) : (s.disconnect fd).channelMap fd = none := by
  unfold TcpServer.disconnect
  split
  next free => exact free
  next own found =>
    simp only [handleClose, TcpServer.onCloseChannel]
    rw [h.keyed fd own found, Function.update_self]

theorem Since.onNewChannel (start : s₀.Coherent) (h : Since s₀ s) (fd : Int) : Since s₀ (s.onNewChannel fd) := by
  have free := disconnect_none h.coherent fd
  have closed := h.disconnect start fd
  unfold TcpServer.onNewChannel
  simp only
  generalize s.disconnect fd = d at free closed
  have inserted : ∀ fd' ch', Function.update d.channelMap fd (some ⟨d.nextSerial, fd⟩) fd' = some ch' →
      (fd' = fd ∧ ch' = ⟨d.nextSerial, fd⟩) ∨ d.channelMap fd' = some ch' := by
    intro fd' ch' hmap
    by_cases heq : fd' = fd
    · subst heq
      rw [Function.update_self, Option.some.injEq] at hmap
      exact .inl ⟨rfl, hmap.symm⟩
    · rw [Function.update_of_ne heq] at hmap
      exact .inr hmap
  refine ⟨⟨?_, ?_, ?_, ?_⟩, closed.serial_le.trans (Nat.le_succ _), ?_⟩
  · intro fd' ch' hmap
    rcases inserted fd' ch' hmap with ⟨rfl, rfl⟩ | old
    · rfl
    · exact closed.coherent.keyed fd' ch' old
  · intro fd' ch' hmap
    rcases inserted fd' ch' hmap with ⟨rfl, rfl⟩ | old
    · intro hmem
      exact Nat.lt_irrefl _ (closed.coherent.past _ hmem)
    · exact closed.coherent.live fd' ch' old
  · intro fd' ch' hmap
    rcases inserted fd' ch' hmap with ⟨rfl, rfl⟩ | old
    · exact Nat.lt_succ_self _
    · exact (closed.coherent.known fd' ch' old).trans (Nat.lt_succ_self _)
  · intro ch' hmem
    exact (closed.coherent.past ch' hmem).trans (Nat.lt_succ_self _)
  · intro fd' ch' hstart
    refine (closed.held fd' ch' hstart).imp_right ?_
    intro here
    have hne : fd' ≠ fd := by
      rintro rfl
      rw [free] at here
      cases here
    simp only
    rw [Function.update_of_ne hne]
    exact here

theorem Since.act (start : s₀.Coherent) (h : Since s₀ s) (a : ChannelAction) : Since s₀ (s.act a) := by
  cases a with
  | disconnect fd => exact h.disconnect start fd
  | newChannel fd => exact h.onNewChannel start fd

theorem Since.call (h : Since s₀ s) (handler : Handler) (ch : ChannelPtr) : Since s₀ (s.call handler ch) := by
  have removed_iff : ∀ ch', .removed ch' ∈ (s.call handler ch).log ↔ .removed ch' ∈ s.log := by
    intro ch'
    simp [TcpServer.call]
  refine ⟨⟨h.coherent.keyed, ?_, h.coherent.known, ?_⟩, h.serial_le, ?_⟩
  · intro fd' ch' hmap
    rw [removed_iff]
    exact h.coherent.live fd' ch' hmap
  · intro ch' hmem
    exact h.coherent.past ch' ((removed_iff ch').mp hmem)
  · intro fd' ch' hstart
    rw [removed_iff]
    exact h.held fd' ch' hstart

/-- From `s` to `s'` the channels `gone` have been removed, and no call was late exactly if `ok`. -/
structure Stage (s₀ s s' : TcpServer) (gone : ChannelPtr → Prop) (ok : Prop) : Prop where
  since : Since s₀ s'
  removed_iff : ∀ ch, s₀.channelMap ch.fd = some ch → (.removed ch ∈ s'.log ↔ .removed ch ∈ s.log ∨ gone ch)
  neverLate_iff : s'.NeverLate ↔ s.NeverLate ∧ ok

theorem Stage.refl (h : Since s₀ s) : Stage s₀ s s (fun _ => False) True :=
  ⟨h, fun _ _ => by simp, by simp⟩

theorem Stage.trans {s' s'' : TcpServer} {gone gone' : ChannelPtr → Prop} {ok ok' : Prop}
    (h : Stage s₀ s s' gone ok) (h' : Stage s₀ s' s'' gone' ok') :
    Stage s₀ s s'' (fun ch => gone ch ∨ gone' ch) (ok ∧ ok') := by
  refine ⟨h'.since, ?_, ?_⟩
  · intro ch hch
    rw [h'.removed_iff ch hch, h.removed_iff ch hch, or_assoc]
  · rw [h'.neverLate_iff, h.neverLate_iff, and_assoc]

theorem call_stage (h : Since s₀ s) (handler : Handler) (ch : ChannelPtr) :
    Stage s₀ s (s.call handler ch) (fun _ => False) (.removed ch ∉ s.log) := by
  refine ⟨h.call handler ch, ?_, and_comm⟩
  intro ch' _
  simp [TcpServer.call]

theorem onCloseChannel_stage (start : s₀.Coherent) (h : Since s₀ s)
    (hch : s₀.channelMap ch.fd = some ch ∨ s.channelMap ch.fd = some ch) :
    Stage s₀ s (s.onCloseChannel ch) (fun ch' => ch' = ch) True := by
  refine ⟨h.onCloseChannel start hch, ?_, and_comm⟩
  intro ch' _
  rw [onCloseChannel_removed, or_comm]

theorem disconnect_stage (start : s₀.Coherent) (h : Since s₀ s) (fd : Int) :
    Stage s₀ s (s.disconnect fd) (fun ch => fd = ch.fd) True := by
  refine ⟨h.disconnect start fd, ?_, ?_⟩
  · intro ch hch
    unfold TcpServer.disconnect
    split
    next free =>
      constructor
      · exact .inl
      · rintro (before | rfl)
        · exact before
        · refine (h.held _ ch hch).resolve_right ?_
          simp [free]
    next own found =>
      have keyed := h.coherent.keyed fd own found
      rw [handleClose, onCloseChannel_removed]
      constructor
      · rintro (rfl | before)
        · exact .inr keyed.symm
        · exact .inl before
      · rintro (before | rfl)
        · exact .inr before
        · rcases h.held _ ch hch with before | here
          · exact .inr before
          · rw [here, Option.some.injEq] at found
            exact .inl found
  · unfold TcpServer.disconnect
    split
    next => simp
    next => exact and_comm

theorem act_stage (start : s₀.Coherent) (h : Since s₀ s) (a : ChannelAction) :
    Stage s₀ s (s.act a) (fun ch => a.fd = ch.fd) True := by
  have closed := disconnect_stage start h a.fd
  refine ⟨h.act start a, ?_, ?_⟩
  · intro ch hch
    rw [← closed.removed_iff ch hch]
    cases a <;> rfl
  · rw [← closed.neverLate_iff]
    cases a <;> rfl

theorem actions_stage (start : s₀.Coherent) (h : Since s₀ s) (actions : List ChannelAction) :
    Stage s₀ s (actions.foldl TcpServer.act s) (fun ch => ∃ a ∈ actions, a.fd = ch.fd) True := by
  induction actions generalizing s with
  | nil => simpa using Stage.refl h
  | cons a actions ih =>
    have first := act_stage start h a
    simpa using first.trans (ih first.since)

theorem doRecv_stage (start : s₀.Coherent) (h : Since s₀ s) (hch : s₀.channelMap ch.fd = some ch)
    (read : ReadOutcome) (actions : List ChannelAction) :
    Stage s₀ s (s.doRecv ch read actions)
      (fun ch' => ch' = ch ∧ read = .closed ∨ read.isReceived = true ∧ ∃ a ∈ actions, a.fd = ch'.fd) True := by
  cases read with
  | closed =>
    simpa [ReadOutcome.isReceived, TcpServer.doRecv, handleClose] using onCloseChannel_stage start h (.inl hch)
  | failed errno => simpa [ReadOutcome.isReceived, TcpServer.doRecv] using Stage.refl h
  | received chunk => simpa [ReadOutcome.isReceived, TcpServer.doRecv] using actions_stage start h actions

theorem Stage.onlyIf {s' : TcpServer} {gone : ChannelPtr → Prop} {ok : Prop} (b : Bool) (hs : Since s₀ s)
    (h : Stage s₀ s s' gone ok) :
    Stage s₀ s (if b then s' else s) (fun ch => b = true ∧ gone ch) (b = true → ok) := by
  cases b with
  | true => simpa using h
  | false => simpa using Stage.refl hs

theorem front_stage (start : s₀.Coherent) (h : Since s₀ s) (hch : s₀.channelMap ch.fd = some ch)
    (iEvent : EpollBits) :
    Stage s₀ s
      (if iEvent.hangsUp then (s.call .handleClose ch).handleClose ch
        else if iEvent.epollerr then s.call .handleError ch else s)
      (fun ch' => iEvent.hangsUp = true ∧ ch' = ch)
      (iEvent.hangsUp = true ∨ iEvent.epollerr = true → .removed ch ∉ s.log) := by
  cases iEvent.hangsUp with
  | true =>
    have called := call_stage h .handleClose ch
    simpa [handleClose] using called.trans (onCloseChannel_stage start called.since (.inl hch))
  | false => simpa using (call_stage h .handleError ch).onlyIf iEvent.epollerr h

/-- The three parts of `HandleEvent`, each of which sees what the parts before it have removed. -/
theorem handleEvent_stage (start : s₀.Coherent) (h : Since s₀ s) {e : ReadyEvent} (own : e.socket = some ch)
    (hch : s₀.channelMap ch.fd = some ch) :
    Stage s₀ s (s.handleEvent ch e.bits e.read e.actions) e.Ends
      ((e.bits.calls = true → .removed ch ∉ s.log) ∧ e.Sound) := by
  have first := front_stage start h hch e.bits
  unfold handleEvent
  simp only
  generalize (if e.bits.hangsUp then (s.call .handleClose ch).handleClose ch
    else if e.bits.epollerr then s.call .handleError ch else s) = s₁ at first
  have called := call_stage first.since .handleCanRecv ch
  have second := (called.trans (doRecv_stage start called.since hch e.read e.actions)).onlyIf e.bits.receives
    first.since
  generalize (if e.bits.receives then (s₁.call .handleCanRecv ch).doRecv ch e.read e.actions else s₁) = s₂ at second
  have third := (call_stage second.since .handleCanSend ch).onlyIf e.bits.sends second.since
  have whole := (first.trans second).trans third
  refine ⟨whole.since, ?_, ?_⟩
  · intro ch' hch'
    rw [whole.removed_iff ch' hch']
    unfold ReadyEvent.Ends ReadyEvent.RecvEnds ReadyEvent.actsOn
    simp only [own]
    rw [@eq_comm _ ch ch']
    grind
  · rw [whole.neverLate_iff, second.removed_iff ch hch, first.removed_iff ch hch]
    unfold ReadyEvent.Sound ReadyEvent.RecvEnds ReadyEvent.actsOn EpollBits.sends EpollBits.calls
    simp only [own, Option.some.injEq, forall_eq']
    grind

theorem dispatch_stage (start : s₀.Coherent) (h : Since s₀ s) {e : ReadyEvent}
    (registered : ∀ ch, e.socket = some ch → s₀.channelMap ch.fd = some ch) :
    Stage s₀ s (s.dispatch e) e.Ends
      ((∀ ch, e.socket = some ch → e.bits.calls = true → .removed ch ∉ s.log) ∧ e.Sound) := by
  unfold dispatch
  split
  next ch own => simpa [own] using handleEvent_stage start h own (registered ch own)
  next other =>
    have acted := actions_stage start h e.actions
    refine ⟨acted.since, ?_, ?_⟩
    · simpa [ReadyEvent.Ends, ReadyEvent.actsOn, other] using acted.removed_iff
    · simpa [ReadyEvent.Sound, other] using acted.neverLate_iff

theorem batch_neverLate_iff (start : s₀.Coherent) (h : Since s₀ s) {batch : List ReadyEvent}
    (registered : ∀ e ∈ batch, ∀ ch, e.socket = some ch → s₀.channelMap ch.fd = some ch) :
    Since s₀ (s.poll batch) ∧
    ((s.poll batch).NeverLate ↔ s.NeverLate ∧
      (∀ e ∈ batch, ∀ ch, e.socket = some ch → e.bits.calls = true → .removed ch ∉ s.log) ∧ WellTimed batch) := by
  induction batch generalizing s with
  | nil =>
    refine ⟨h, ?_⟩
    have timed : WellTimed [] := ⟨by simp, .nil⟩
    simp [poll, timed]
  | cons e batch ih =>
    have first := dispatch_stage start h (registered e List.mem_cons_self)
    obtain ⟨since, rest⟩ := ih first.since fun e' he' => registered e' (List.mem_cons_of_mem _ he')
    refine ⟨since, ?_⟩
    have later : (∀ e' ∈ batch, ∀ ch, e'.socket = some ch → e'.bits.calls = true →
          .removed ch ∉ (s.dispatch e).log) ↔
        (∀ e' ∈ batch, ∀ ch, e'.socket = some ch → e'.bits.calls = true → .removed ch ∉ s.log) ∧
          ∀ e' ∈ batch, e.Spares e' := by
      rw [← forall₂_and]
      refine forall₂_congr fun e' he' => ?_
      unfold ReadyEvent.Spares
      rw [← forall₂_and]
      refine forall₂_congr fun ch own => ?_
      rw [← imp_and]
      refine imp_congr_right fun _ => ?_
      rw [first.removed_iff ch (registered e' (List.mem_cons_of_mem _ he') ch own), not_or]
    change ((s.dispatch e).poll batch).NeverLate ↔ _
    rw [rest, first.neverLate_iff, later, wellTimed_cons, List.forall_mem_cons]
    tauto

end TcpServer

/-- The server after the first `k` batches. -/
def polledAt (batches : List (List ReadyEvent)) (k : Nat) : TcpServer :=
  stateAt TcpServer.poll .create batches k

/-- `::epoll_wait` returns only channels that are registered; `HandleClose` takes a channel out before it is
removed from the map. -/
def RegisteredBatches (batches : List (List ReadyEvent)) : Prop :=
  ∀ (k : Nat) (batch : List ReadyEvent), batches[k]? = some batch → ∀ e ∈ batch, ∀ ch, e.socket = some ch →
    (polledAt batches k).channelMap ch.fd = some ch

section Run

variable {batches : List (List ReadyEvent)}

theorem registeredBatches_iff :
    RegisteredBatches batches ↔ ∀ k : Fin batches.length, ∀ e ∈ batches.get k, ∀ ch ∈ e.socket,
      (polledAt batches k).channelMap ch.fd = some ch :=
  forall_event_iff

theorem polledAt_coherent (registered : RegisteredBatches batches) (k : Nat) : (polledAt batches k).Coherent := by
  refine stateAt_induct ?_ ?_ k
  · constructor <;> simp [TcpServer.create]
  · intro k batch hbatch coherent
    exact (TcpServer.batch_neverLate_iff coherent coherent.since (registered k batch hbatch)).1.coherent

theorem polledAt_succ_neverLate_iff (registered : RegisteredBatches batches) {k : Nat} {batch : List ReadyEvent}
    (hbatch : batches[k]? = some batch) :
    (polledAt batches (k + 1)).NeverLate ↔ (polledAt batches k).NeverLate ∧ WellTimed batch := by
  have coherent := polledAt_coherent registered k
  have known := registered k batch hbatch
  have succ_eq : polledAt batches (k + 1) = (polledAt batches k).poll batch := stateAt_succ hbatch
  rw [succ_eq, (TcpServer.batch_neverLate_iff coherent coherent.since known).2]
  have live : ∀ e ∈ batch, ∀ ch, e.socket = some ch → e.bits.calls = true →
      .removed ch ∉ (polledAt batches k).log :=
    fun e he ch own _ => coherent.live ch.fd ch (known e he ch own)
  simp only [iff_true_intro live, true_and]

/-- Handlers are called only on channels that have not been removed exactly if in every batch no event reads a
channel that it hangs up, none writes to a channel that its own read removes, and none comes after an event
that removes its channel. -/
theorem never_late_iff (registered : RegisteredBatches batches) :
    (∀ k, (polledAt batches k).NeverLate) ↔ ∀ batch ∈ batches, WellTimed batch := by
  constructor
  · intro never batch hmem
    obtain ⟨k, hk⟩ := List.getElem?_of_mem hmem
    exact ((polledAt_succ_neverLate_iff registered hk).mp (never (k + 1))).2
  · intro timed k
    refine stateAt_induct trivial ?_ k
    intro k batch hbatch never
    have succ_eq : polledAt batches (k + 1) = (polledAt batches k).poll batch := stateAt_succ hbatch
    change ((polledAt batches k).poll batch).NeverLate
    rw [← succ_eq]
    exact (polledAt_succ_neverLate_iff registered hbatch).mpr ⟨never, timed batch (List.mem_of_getElem? hbatch)⟩

end Run

/-- The acceptor is ready, and `::accept` returns `fd`. -/
def accepts (fd : Int) : ReadyEvent :=
  ⟨none, ⟨true, false, false, false, false, false⟩, .failed .eagain, [.newChannel fd]⟩

/-- Two channels; one is written to before what the other has received makes the server close it. -/
def closesOther : List (List ReadyEvent) :=
  [[accepts 5], [accepts 6],
    [⟨some ⟨1, 6⟩, ⟨false, false, true, false, false, false⟩, .failed .eagain, []⟩,
      ⟨some ⟨0, 5⟩, ⟨true, false, true, false, false, false⟩, .received [1], [.disconnect 6]⟩]]

theorem never_late_iff_closesOther :
    RegisteredBatches closesOther ∧ (polledAt closesOther 3).channelMap 6 = none ∧
    ∀ k, (polledAt closesOther k).NeverLate := by
  have registered : RegisteredBatches closesOther := registeredBatches_iff.mpr (by decide +kernel)
  exact ⟨registered, by decide +kernel, (never_late_iff registered).mpr (by decide +kernel)⟩

/-- A channel is ready to be read and to be written to, and its peer has closed. -/
def closedByPeer : List (List ReadyEvent) :=
  [[accepts 5], [⟨some ⟨0, 5⟩, ⟨true, false, true, false, false, false⟩, .closed, []⟩]]

theorem late_closedByPeer :
    RegisteredBatches closedByPeer ∧
    (polledAt closedByPeer 2).log =
      [.called .handleCanSend ⟨0, 5⟩, .removed ⟨0, 5⟩, .called .handleCanRecv ⟨0, 5⟩] ∧
    ¬ (polledAt closedByPeer 2).NeverLate := by
  have log_eq : (polledAt closedByPeer 2).log =
      [.called .handleCanSend ⟨0, 5⟩, .removed ⟨0, 5⟩, .called .handleCanRecv ⟨0, 5⟩] := by decide +kernel
  refine ⟨registeredBatches_iff.mpr (by decide +kernel), log_eq, ?_⟩
  intro never
  unfold TcpServer.NeverLate at never
  rw [log_eq] at never
  exact never.1 (by simp)

end Wddlib
