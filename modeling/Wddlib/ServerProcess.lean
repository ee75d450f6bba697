import Wddlib.PollDispatch
import Wddlib.ConnTable
import Wddlib.RunPrefix

namespace Wddlib

/-- What makes `::accept` fail besides a full descriptor table and an empty backlog: the oldest connection has been
aborted, or the call is interrupted or lacks memory. -/
inductive AcceptFault where
  | aborted
  | other
  deriving DecidableEq, Repr

inductive AcceptErrno where
  | emfile
  | eagain
  | fault (fault : AcceptFault)
  deriving DecidableEq, Repr

/-- What became of a connection that was waiting to be accepted. -/
inductive Fate where
  | admitted
  | dropped
  | aborted
  deriving DecidableEq, Repr

/-- A process with a listening `TcpServer`: its descriptors, of which it may have `limit`, the interest set of its
poller with the socket and the mask of each entry, the connections that wait to be accepted, and the descriptors and
event masks of its sockets. `fates` tells what became of the connections, the oldest first. -/
structure ServerProcess where
  limit : Nat
  isOpen : Int → Bool
  interest : Int → Option (Option ChannelPtr × EventMask)
  backlog : List InetAddress
  listenFd : Int
  idleFd : Int
  events : ChannelPtr → EventMask
  isPooling : ChannelPtr → Bool
  server : TcpServer
  fates : List (InetAddress × Fate)

namespace ServerProcess

def kReadEvent : EventMask := ⟨true, false⟩

/-- The kernel gives out the lowest descriptor that is not open. -/
def lowestFree (p : ServerProcess) : Option Int := ((List.range p.limit).map Int.ofNat).find? (! p.isOpen ·)

/-- `::open` of `/dev/null`, and `::socket`. -/
def openFd (p : ServerProcess) : Int × ServerProcess :=
  match p.lowestFree with
  | none => (-1, p)
  | some fd => (fd, { p with isOpen := Function.update p.isOpen fd true })

/-- `::close`: a closed descriptor leaves the interest set. -/
def closeFd (p : ServerProcess) (fd : Int) : ServerProcess :=
  { p with isOpen := Function.update p.isOpen fd false, interest := Function.update p.interest fd none }

/-- `::accept`, which looks for a free descriptor first. -/
def accept (p : ServerProcess) (fault : Option AcceptFault) : Except AcceptErrno (Int × InetAddress) × ServerProcess :=
  match p.lowestFree with
  | none => (.error .emfile, p)
  | some fd =>
    match fault, p.backlog with
    | some .aborted, addr :: rest =>
      (.error (.fault .aborted), { p with backlog := rest, fates := p.fates ++ [(addr, .aborted)] })
    | some fault, _ => (.error (.fault fault), p)
    | none, [] => (.error .eagain, p)
    | none, addr :: rest => (.ok (fd, addr), { p with isOpen := Function.update p.isOpen fd true, backlog := rest })

/-- `::epoll_ctl` for a channel, which succeeds on the legal requests. -/
def epollCtl (p : ServerProcess) (op : EpollOp) (ch : ChannelPtr) : ServerProcess :=
  let legal := p.isOpen ch.fd && match op with
    | .add => (p.interest ch.fd).isNone
    | _ => (p.interest ch.fd).isSome
  if legal then
    let left := match op with
      | .del => none
      | _ => some (some ch, p.events ch)
    { p with interest := Function.update p.interest ch.fd left }
  else p

/-- `EPollPoller::UpdateEvent`. -/
def updateEvent (p : ServerProcess) (ch : ChannelPtr) : ServerProcess :=
  if p.isPooling ch = false then
    if p.events ch = kNoneEvent then p
    else { p.epollCtl .add ch with isPooling := Function.update p.isPooling ch true }
  else if p.events ch = kNoneEvent then
    { p.epollCtl .del ch with isPooling := Function.update p.isPooling ch false }
  else p.epollCtl .mod ch

def setEvents (p : ServerProcess) (ch : ChannelPtr) (mask : EventMask) : ServerProcess :=
  { p with events := Function.update p.events ch mask }

def disableAll (p : ServerProcess) (ch : ChannelPtr) : ServerProcess := (p.setEvents ch kNoneEvent).updateEvent ch

/-- `EnableWriting` and `DisableWriting`. -/
def setWriting (p : ServerProcess) (ch : ChannelPtr) (on : Bool) : ServerProcess :=
  (p.setEvents ch ⟨(p.events ch).reading, on⟩).updateEvent ch

/-- `TcpSocket::Close`. -/
def close (p : ServerProcess) (ch : ChannelPtr) : ServerProcess := (p.disableAll ch).closeFd ch.fd

/-- `ServerChannel::HandleClose` with `TcpServer::OnCloseChannel`. -/
def handleClose (p : ServerProcess) (ch : ChannelPtr) : ServerProcess :=
  let p := (p.disableAll ch).close ch
  { p with server := p.server.onCloseChannel ch }

def disconnect (p : ServerProcess) (fd : Int) : ServerProcess :=
  match p.server.channelMap fd with
  | none => p
  | some ch => p.handleClose ch

/-- `TcpServer::OnNewChannel`; `AcceptedFD` enables reading. -/
def onNewChannel (p : ServerProcess) (fd : Int) : ServerProcess :=
  let p := p.disconnect fd
  let ch : ChannelPtr := ⟨p.server.nextSerial, fd⟩
  let p := { p with
    server := p.server.onNewChannel fd
    isPooling := Function.update p.isPooling ch false }
  (p.setEvents ch kReadEvent).updateEvent ch

/-- The end of `TcpAcceptor::HandleCanRecv` when there is no descriptor for the connection: the idle one is given
up, the connection is accepted and closed, and the idle descriptor is opened again. -/
def dropOne (p : ServerProcess) (fault : Option AcceptFault) : ServerProcess :=
  let p := p.closeFd p.idleFd
  let r : Int × ServerProcess := match p.accept fault with
    | (.ok (fd, addr), p) => (fd, { p with fates := p.fates ++ [(addr, .dropped)] })
    | (.error _, p) => (-1, p)
  let p := (r.2.closeFd r.1).openFd
  { p.2 with idleFd := p.1 }

/-- `TcpAcceptor::HandleCanRecv`. `logged` is what `LOG_ERROR` sets `errno` to before it is looked at, if it does. -/
def handleCanRecv (p : ServerProcess) (fault : Option AcceptFault) (logged : Option AcceptErrno)
    (fault' : Option AcceptFault) : ServerProcess :=
  match p.accept fault with
  | (.ok (fd, addr), p) => { p.onNewChannel fd with fates := p.fates ++ [(addr, .admitted)] }
  | (.error errno, p) => if logged.getD errno = .emfile then p.dropOne fault' else p

/-- The constructor of the acceptor and `Listen`, which finds the descriptors `isOpen` in use. -/
def start (limit : Nat) (isOpen : Int → Bool) : Option ServerProcess :=
  let p : ServerProcess := ⟨limit, isOpen, fun _ => none, [], -1, -1, fun _ => kNoneEvent, fun _ => false, .create, []⟩
  let idle := p.openFd
  let listen := idle.2.openFd
  if listen.1 < 0 then none
  else some { listen.2 with
    idleFd := idle.1
    listenFd := listen.1
    interest := Function.update listen.2.interest listen.1 (some (none, kReadEvent)) }

end ServerProcess

/-- A connection arrives, the acceptor is ready, a channel is closed or begins or ends to wait for room to write, or
another part of the process opens or closes a descriptor. -/
inductive ProcessEvent where
  | connect (addr : InetAddress)
  | canAccept (fault : Option AcceptFault) (logged : Option AcceptErrno) (fault' : Option AcceptFault)
  | closeChannel (fd : Int)
  | setWriting (fd : Int) (on : Bool)
  | openOther
  | closeOther (fd : Int)
  deriving DecidableEq, Repr

namespace ServerProcess

def step (p : ServerProcess) : ProcessEvent → ServerProcess
  | .connect addr => { p with backlog := p.backlog ++ [addr] }
  | .canAccept fault logged fault' => p.handleCanRecv fault logged fault'
  | .closeChannel fd => p.disconnect fd
  | .setWriting fd on =>
    match p.server.channelMap fd with
    | none => p
    | some ch => p.setWriting ch on
  | .openOther => p.openFd.2
  | .closeOther fd => p.closeFd fd

/-- The rest of the process closes its own descriptors only. -/
def Possible (p : ServerProcess) : ProcessEvent → Prop
  | .closeOther fd => fd ≠ p.listenFd ∧ fd ≠ p.idleFd ∧ p.server.channelMap fd = none
  | _ => True

instance decidablePossible (p : ServerProcess) (e : ProcessEvent) : Decidable (p.Possible e) :=
  match e with
  | .closeOther fd =>
    inferInstanceAs (Decidable (fd ≠ p.listenFd ∧ fd ≠ p.idleFd ∧ p.server.channelMap fd = none))
  | .connect _ => .isTrue trivial
  | .canAccept _ _ _ => .isTrue trivial
  | .closeChannel _ => .isTrue trivial
  | .setWriting _ _ => .isTrue trivial
  | .openOther => .isTrue trivial

/-- The descriptors and the interest set are those of the acceptor and of the channels in the map. -/
structure Inv (p : ServerProcess) : Prop where
  coherent : p.server.Coherent
  range : ∀ fd, p.isOpen fd = true → 0 ≤ fd ∧ fd < p.limit
  listening : p.isOpen p.listenFd = true ∧ p.server.channelMap p.listenFd = none
  reserve : p.isOpen p.idleFd = true ∧ p.idleFd ≠ p.listenFd ∧ p.server.channelMap p.idleFd = none
  channel : ∀ fd ch, p.server.channelMap fd = some ch →
    p.isOpen fd = true ∧ p.isPooling ch = true ∧ (p.events ch).reading = true
  interest : ∀ fd, p.interest fd =
    if fd = p.listenFd then some (none, kReadEvent) else (p.server.channelMap fd).map fun ch => (some ch, p.events ch)

variable {p : ServerProcess} {fd : Int} {ch : ChannelPtr}

theorem lowestFree_some (h : p.lowestFree = some fd) : p.isOpen fd = false ∧ 0 ≤ fd ∧ fd < p.limit := by
  have free := List.find?_some h
  obtain ⟨n, hn, rfl⟩ := List.mem_map.mp (List.mem_of_find?_eq_some h)
  refine ⟨by simpa using free, Int.natCast_nonneg n, ?_⟩
  exact Int.ofNat_lt.mpr (List.mem_range.mp hn)

theorem lowestFree_none (h : p.lowestFree = none) (nonneg : 0 ≤ fd) (lt : fd < p.limit) : p.isOpen fd = true := by
  obtain ⟨n, rfl⟩ := Int.eq_ofNat_of_zero_le nonneg
  have all := List.find?_eq_none.mp h n (List.mem_map.mpr ⟨n, List.mem_range.mpr (by omega), rfl⟩)
  simpa using all

theorem Inv.interest_channel (inv : p.Inv) (entry : p.server.channelMap fd = some ch) :
    p.interest fd = some (some ch, p.events ch) := by
  have other : fd ≠ p.listenFd := by
    rintro rfl
    rw [inv.listening.2] at entry
    cases entry
  rw [inv.interest, if_neg other, entry]
  rfl

/-- A channel that is closed leaves nothing behind. -/
theorem Inv.handleClose_eq (inv : p.Inv) (entry : p.server.channelMap ch.fd = some ch) :
    p.handleClose ch =
      { p with
        isOpen := Function.update p.isOpen ch.fd false
        interest := Function.update p.interest ch.fd none
        events := Function.update p.events ch kNoneEvent
        isPooling := Function.update p.isPooling ch false
        server := p.server.onCloseChannel ch } := by
  obtain ⟨isOpen, pooling, -⟩ := inv.channel _ _ entry
  have known := inv.interest_channel entry
  simp [handleClose, close, disableAll, setEvents, updateEvent, epollCtl, closeFd, isOpen, pooling, known]

theorem Inv.handleClose (inv : p.Inv) (entry : p.server.channelMap ch.fd = some ch) : (p.handleClose ch).Inv := by
  rw [inv.handleClose_eq entry]
  have other : p.listenFd ≠ ch.fd := by
    intro heq
    rw [← heq, inv.listening.2] at entry
    cases entry
  have spare : p.idleFd ≠ ch.fd := by
    intro heq
    rw [← heq, inv.reserve.2.2] at entry
    cases entry
  constructor
  · exact inv.coherent.onCloseChannel (inv.coherent.known _ _ entry)
  · intro fd isOpen
    by_cases hfd : fd = ch.fd
    · simp [hfd] at isOpen
    · exact inv.range fd (by simpa [hfd] using isOpen)
  · simpa [other, TcpServer.onCloseChannel] using inv.listening
  · simpa [spare, TcpServer.onCloseChannel] using inv.reserve
  · intro fd own hmap
    obtain ⟨hfd, hold⟩ := TcpServer.onCloseChannel_map.mp hmap
    have hown : own ≠ ch := by
      rintro rfl
      exact hfd (inv.coherent.keyed _ _ hold).symm
    simpa [hfd, hown] using inv.channel fd own hold
  · intro fd
    by_cases hfd : fd = ch.fd
    · subst hfd
      simp [Ne.symm other, TcpServer.onCloseChannel]
    · simp only [Function.update_of_ne hfd, TcpServer.onCloseChannel]
      rw [inv.interest fd]
      split
      · rfl
      · cases hmap : p.server.channelMap fd with
        | none => rfl
        | some own =>
          have hown : own ≠ ch := by
            rintro rfl
            exact hfd (inv.coherent.keyed _ _ hmap).symm
          simp [hown]

/-- A descriptor that the process does not use for anything yet. -/
structure Fresh (p : ServerProcess) (fd : Int) : Prop where
  isOpen : p.isOpen fd = true
  unlistened : fd ≠ p.listenFd
  unreserved : fd ≠ p.idleFd
  unused : p.server.channelMap fd = none

theorem Inv.onNewChannel_eq (inv : p.Inv) (fresh : p.Fresh fd) :
    p.onNewChannel fd =
      { p with
        interest := Function.update p.interest fd (some (some ⟨p.server.nextSerial, fd⟩, kReadEvent))
        events := Function.update p.events ⟨p.server.nextSerial, fd⟩ kReadEvent
        isPooling := Function.update p.isPooling ⟨p.server.nextSerial, fd⟩ true
        server := p.server.onNewChannel fd } := by
  have unknown : p.interest fd = none := by
    rw [inv.interest, if_neg fresh.unlistened, fresh.unused]
    rfl
  have some : kReadEvent ≠ kNoneEvent := by decide
  have known := fresh.unused
  have isOpen := fresh.isOpen
  simp [onNewChannel, disconnect, known, setEvents, updateEvent, epollCtl, isOpen, unknown, some]

theorem Inv.onNewChannel (inv : p.Inv) (fresh : p.Fresh fd) : (p.onNewChannel fd).Inv := by
  have same : p.server.disconnect fd = p.server := by
    unfold TcpServer.disconnect
    rw [fresh.unused]
  rw [inv.onNewChannel_eq fresh]
  have other := fresh.unlistened.symm
  have spare := fresh.unreserved.symm
  have young : ∀ fd' own, p.server.channelMap fd' = some own → own ≠ ⟨p.server.nextSerial, fd⟩ := by
    rintro fd' own hmap rfl
    exact absurd (inv.coherent.known _ _ hmap) (lt_irrefl _)
  constructor
  · exact (inv.coherent.since.onNewChannel inv.coherent fd).coherent
  · exact inv.range
  · simpa [other, TcpServer.onNewChannel, same] using inv.listening
  · simpa [spare, TcpServer.onNewChannel, same] using inv.reserve
  · intro fd' own hmap
    simp only [TcpServer.onNewChannel, same] at hmap
    by_cases hfd : fd' = fd
    · subst hfd
      rw [Function.update_self] at hmap
      obtain rfl := Option.some.inj hmap
      simp [fresh.isOpen, kReadEvent]
    · rw [Function.update_of_ne hfd] at hmap
      simpa [young fd' own hmap] using inv.channel fd' own hmap
  · intro fd'
    by_cases hfd : fd' = fd
    · subst hfd
      simp [fresh.unlistened, TcpServer.onNewChannel, same]
    · simp only [Function.update_of_ne hfd, TcpServer.onNewChannel, same]
      rw [inv.interest fd']
      split
      · rfl
      · cases hmap : p.server.channelMap fd' with
        | none => rfl
        | some own => simp [young fd' own hmap]

/-- A descriptor that is opened for something else. -/
theorem Inv.opened (inv : p.Inv) (free : p.lowestFree = some fd) :
    ({ p with isOpen := Function.update p.isOpen fd true } : ServerProcess).Inv ∧
      ({ p with isOpen := Function.update p.isOpen fd true } : ServerProcess).Fresh fd := by
  obtain ⟨closed, nonneg, lt⟩ := lowestFree_some free
  have differs : ∀ fd', p.isOpen fd' = true → fd' ≠ fd := by
    rintro fd' isOpen rfl
    rw [closed] at isOpen
    cases isOpen
  have listen := differs _ inv.listening.1
  have idle := differs _ inv.reserve.1
  have unused : p.server.channelMap fd = none := by
    rw [Option.eq_none_iff_forall_ne_some]
    intro ch entry
    exact differs fd (inv.channel fd ch entry).1 rfl
  refine ⟨⟨inv.coherent, ?_, ?_, ?_, ?_, inv.interest⟩, ⟨by simp, listen.symm, idle.symm, unused⟩⟩
  · intro fd' isOpen
    by_cases hfd : fd' = fd
    · subst hfd
      exact ⟨nonneg, lt⟩
    · exact inv.range fd' (by simpa [hfd] using isOpen)
  · simpa [listen] using inv.listening
  · simpa [idle] using inv.reserve
  · intro fd' ch entry
    have hfd := differs fd' (inv.channel fd' ch entry).1
    simpa [hfd] using inv.channel fd' ch entry

theorem Inv.openFd (inv : p.Inv) : p.openFd.2.Inv := by
  unfold ServerProcess.openFd
  split
  · exact inv
  next fd free => exact (inv.opened free).1

/-- A descriptor of another part of the process is closed. -/
theorem Inv.closeFd (inv : p.Inv) (unlistened : fd ≠ p.listenFd) (unreserved : fd ≠ p.idleFd)
    (unused : p.server.channelMap fd = none) : (p.closeFd fd).Inv := by
  have differs : ∀ fd' ch, p.server.channelMap fd' = some ch → fd' ≠ fd := by
    rintro fd' ch entry rfl
    rw [unused] at entry
    cases entry
  refine ⟨inv.coherent, ?_, ?_, ?_, ?_, ?_⟩
  · intro fd' isOpen
    by_cases hfd : fd' = fd
    · simp [ServerProcess.closeFd, hfd] at isOpen
    · exact inv.range fd' (by simpa [ServerProcess.closeFd, hfd] using isOpen)
  · simpa [ServerProcess.closeFd, unlistened.symm] using inv.listening
  · simpa [ServerProcess.closeFd, unreserved.symm] using inv.reserve
  · intro fd' ch entry
    simpa [ServerProcess.closeFd, differs fd' ch entry] using inv.channel fd' ch entry
  · intro fd'
    by_cases hfd : fd' = fd
    · subst hfd
      simp [ServerProcess.closeFd, unlistened, unused]
    · simp only [ServerProcess.closeFd, Function.update_of_ne hfd]
      exact inv.interest fd'

theorem Inv.setWriting (inv : p.Inv) (entry : p.server.channelMap ch.fd = some ch) (on : Bool) :
    (p.setWriting ch on).Inv := by
  obtain ⟨isOpen, pooling, reading⟩ := inv.channel _ _ entry
  have known := inv.interest_channel entry
  have some : (⟨true, on⟩ : EventMask) ≠ kNoneEvent := by simp [kNoneEvent]
  have heq : p.setWriting ch on =
      { p with
        interest := Function.update p.interest ch.fd (Option.some (Option.some ch, ⟨true, on⟩))
        events := Function.update p.events ch ⟨true, on⟩ } := by
    simp [ServerProcess.setWriting, setEvents, updateEvent, epollCtl, isOpen, pooling, reading, known, some]
  rw [heq]
  refine ⟨inv.coherent, inv.range, inv.listening, inv.reserve, ?_, ?_⟩
  · intro fd own hmap
    obtain ⟨hopen, hpool, hread⟩ := inv.channel fd own hmap
    refine ⟨hopen, hpool, ?_⟩
    by_cases hown : own = ch
    · simp [hown]
    · simpa [hown] using hread
  · intro fd
    by_cases hfd : fd = ch.fd
    · subst hfd
      have other : ch.fd ≠ p.listenFd := by
        intro heq
        rw [heq, inv.listening.2] at entry
        cases entry
      simp [other, entry]
    · simp only [Function.update_of_ne hfd]
      rw [inv.interest fd]
      split
      · rfl
      · cases hmap : p.server.channelMap fd with
        | none => rfl
        | some own =>
          have hown : own ≠ ch := by
            rintro rfl
            exact hfd (inv.coherent.keyed _ _ hmap).symm
          simp [hown]

theorem Inv.queue (inv : p.Inv) (backlog : List InetAddress) (fates : List (InetAddress × Fate)) :
    ({ p with backlog := backlog, fates := fates } : ServerProcess).Inv :=
  ⟨inv.coherent, inv.range, inv.listening, inv.reserve, inv.channel, inv.interest⟩

/-- What a call of `::accept` that finds a descriptor does to the queue; a connection that is accepted gets `fate`. -/
def settled (p : ServerProcess) (fate : Fate) (fault : Option AcceptFault) : ServerProcess :=
  match fault, p.backlog with
  | some .aborted, addr :: rest => { p with backlog := rest, fates := p.fates ++ [(addr, .aborted)] }
  | none, addr :: rest => { p with backlog := rest, fates := p.fates ++ [(addr, fate)] }
  | _, _ => p

theorem Inv.settled (inv : p.Inv) (fate : Fate) (fault : Option AcceptFault) : (p.settled fate fault).Inv := by
  unfold ServerProcess.settled
  split
  · exact inv.queue _ _
  · exact inv.queue _ _
  · exact inv

theorem accept_full (full : p.lowestFree = none) (fault : Option AcceptFault) :
    p.accept fault = (.error .emfile, p) := by
  simp only [accept, full]

theorem accept_free (free : p.lowestFree = some fd) (fate : Fate) (fault : Option AcceptFault) :
    (∃ errno, errno ≠ .emfile ∧ p.accept fault = (.error errno, p.settled fate fault)) ∨
    ∃ addr rest, fault = none ∧ p.backlog = addr :: rest ∧ p.accept fault =
      (.ok (fd, addr), { p with isOpen := Function.update p.isOpen fd true, backlog := rest }) := by
  cases fault with
  | none =>
    cases hq : p.backlog with
    | nil => exact .inl ⟨.eagain, by simp, by simp [accept, free, settled, hq]⟩
    | cons addr rest => exact .inr ⟨addr, rest, rfl, rfl, by simp [accept, free, hq]⟩
  | some fault =>
    refine .inl ⟨.fault fault, by simp, ?_⟩
    cases fault <;> cases hq : p.backlog <;> simp [accept, free, settled, hq]

theorem Inv.closed_unknown (inv : p.Inv) (closed : p.isOpen fd = false) :
    fd ≠ p.listenFd ∧ p.server.channelMap fd = none ∧ p.interest fd = none := by
  have listen : fd ≠ p.listenFd := by
    rintro rfl
    rw [inv.listening.1] at closed
    cases closed
  have unused : p.server.channelMap fd = none := by
    rw [Option.eq_none_iff_forall_ne_some]
    intro ch entry
    rw [(inv.channel fd ch entry).1] at closed
    cases closed
  refine ⟨listen, unused, ?_⟩
  rw [inv.interest, if_neg listen, unused]
  rfl

@[simp] theorem settled_interest (p : ServerProcess) (fate : Fate) (fault : Option AcceptFault) :
    (p.settled fate fault).interest = p.interest := by
  unfold settled
  split <;> rfl

theorem settled_isOpen (p : ServerProcess) (isOpen : Int → Bool) (fate : Fate) (fault : Option AcceptFault) :
    ({ p with isOpen := isOpen } : ServerProcess).settled fate fault =
      { p.settled fate fault with isOpen := isOpen } := by
  unfold settled
  split <;> simp_all

@[simp] theorem settled_limit (p : ServerProcess) (fate : Fate) (fault : Option AcceptFault) :
    (p.settled fate fault).limit = p.limit := by
  unfold settled
  split <;> rfl

/-- Closing what is not open changes nothing. -/
theorem closeFd_closed (closed : p.isOpen fd = false) (unknown : p.interest fd = none) : p.closeFd fd = p := by
  have hopen : Function.update p.isOpen fd false = p.isOpen := Function.update_eq_self_iff.mpr closed.symm
  have hinterest : Function.update p.interest fd none = p.interest := Function.update_eq_self_iff.mpr unknown.symm
  simp only [closeFd, hopen, hinterest]

theorem openFd_some (free : p.lowestFree = some fd) :
    p.openFd = (fd, { p with isOpen := Function.update p.isOpen fd true }) := by
  simp only [openFd, free]

/-- The connection is taken out of the queue, and a descriptor is kept in reserve again. -/
theorem Inv.dropOne_eq (inv : p.Inv) (fault : Option AcceptFault) :
    ∃ fd, (p.closeFd p.idleFd).lowestFree = some fd ∧ p.dropOne fault =
      { p.settled .dropped fault with
        isOpen := Function.update (Function.update p.isOpen p.idleFd false) fd true, idleFd := fd } := by
  let spared : ServerProcess := { p with isOpen := Function.update p.isOpen p.idleFd false }
  have unknown : ∀ fd, spared.isOpen fd = false → p.interest fd = none := by
    intro fd closed
    by_cases hfd : fd = p.idleFd
    · subst hfd
      rw [inv.interest, if_neg inv.reserve.2.1, inv.reserve.2.2]
      rfl
    · exact (inv.closed_unknown (by simpa [spared, hfd] using closed)).2.2
  have gone : spared.isOpen p.idleFd = false := Function.update_self _ _ _
  have hclose : p.closeFd p.idleFd = spared := by
    have hinterest : Function.update p.interest p.idleFd none = p.interest :=
      Function.update_eq_self_iff.mpr (unknown p.idleFd gone).symm
    simp only [ServerProcess.closeFd, spared, hinterest]
  obtain ⟨fd, free⟩ : ∃ fd, spared.lowestFree = some fd := by
    rw [← Option.ne_none_iff_exists']
    intro full
    obtain ⟨nonneg, lt⟩ := inv.range _ inv.reserve.1
    have isOpen := lowestFree_none full nonneg lt
    rw [gone] at isOpen
    cases isOpen
  obtain ⟨closed, nonneg, lt⟩ := lowestFree_some free
  refine ⟨fd, by rw [hclose, free], ?_⟩
  -- whatever the second `accept` does, what it opens is closed again
  have reopen : ∀ q : ServerProcess, q = { p.settled .dropped fault with isOpen := spared.isOpen } →
      ({ q.openFd.2 with idleFd := q.openFd.1 } : ServerProcess) =
        { p.settled .dropped fault with isOpen := Function.update spared.isOpen fd true, idleFd := fd } := by
    rintro q rfl
    have same : ({ p.settled .dropped fault with isOpen := spared.isOpen } : ServerProcess).lowestFree = some fd := by
      rw [← free]
      simp only [lowestFree, settled_limit]
      rfl
    rw [openFd_some same]
  rcases accept_free free .dropped fault with ⟨errno, -, heq⟩ | ⟨addr, rest, rfl, hq, heq⟩
  · have negative : spared.isOpen (-1) = false := by
      by_contra isOpen
      have before : p.isOpen (-1) = true := by
        by_cases hidle : (-1 : Int) = p.idleFd
        · rw [hidle]
          exact inv.reserve.1
        · simpa [spared, hidle] using isOpen
      have := (inv.range _ before).1
      omega
    have hsettled : spared.settled .dropped fault = { p.settled .dropped fault with isOpen := spared.isOpen } :=
      settled_isOpen p _ _ _
    simp only [dropOne, hclose, heq]
    refine reopen _ ?_
    rw [hsettled]
    exact closeFd_closed negative (by simpa using unknown _ negative)
  · have hq' : p.backlog = addr :: rest := hq
    simp only [dropOne, hclose, heq]
    refine reopen _ ?_
    have hopen : Function.update (Function.update spared.isOpen fd true) fd false = spared.isOpen := by
      rw [Function.update_idem]
      exact Function.update_eq_self_iff.mpr closed.symm
    have hinterest : Function.update spared.interest fd none = p.interest :=
      Function.update_eq_self_iff.mpr (unknown fd closed).symm
    simp only [ServerProcess.closeFd, hopen, hinterest, ServerProcess.settled, hq']
    rfl

end ServerProcess

end Wddlib
