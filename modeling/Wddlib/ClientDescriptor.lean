import Wddlib.TcpClientBoundary

namespace Wddlib

/-- The calls that make and end a descriptor: a `::socket` that succeeds, and `::close`. -/
inductive SockCall where
  | socket (fd : Int)
  | close (fd : Int)
  deriving DecidableEq, Repr

/-- What a call does to `m_iFD` and to the open descriptors of the client. -/
def SockCall.run (d : Int × (Int → Bool)) : SockCall → Int × (Int → Bool)
  | .socket fd => (fd, Function.update d.2 fd true)
  | .close fd => (d.1, Function.update d.2 fd false)

namespace TcpClient

def createCalls : Option Int → List SockCall
  | none => []
  | some fd => [.socket fd]

def connectCalls (c : TcpClient) (sock : Option Int) (errno : ConnectErrno) : List SockCall :=
  if c.state ≠ .kDisconnected then []
  else
    match sock with
    | none => []
    | some fd =>
      match errno with
      | .zero | .einprogress | .eintr | .eisconn => [.socket fd]
      | .eagain | .eaddrinuse | .eaddrnotavail | .econnrefused | .enetunreach => [.socket fd]
      | .eacces | .eperm | .eafnosupport | .ealready | .ebadf | .efault | .enotsock => [.socket fd, .close fd]
      | .other => [.socket fd, .close fd]

def disconnectCalls (c : TcpClient) : List SockCall := [.close c.fd]

def sendMsgCalls (c : TcpClient) (sock : Option Int) (errno : ConnectErrno) : List SockCall :=
  match c.state with
  | .kConnected => []
  | .kDisconnected => if c.isAutoReconnect then c.connectCalls sock errno else []
  | .kConnecting => []

def connectedCalls (c : TcpClient) (soError : Int) : List SockCall := if soError ≠ 0 then [.close c.fd] else []

def handleCanSendCalls (c : TcpClient) (soError : Int) : List SockCall :=
  match c.state with
  | .kConnecting => c.connectedCalls soError
  | .kConnected => []
  | .kDisconnected => []

def handleCloseCalls (c : TcpClient) : List SockCall := if c.state ≠ .kDisconnected then [.close c.fd] else []

def handleCanRecvCalls (c : TcpClient) : ReadOutcome → List SockCall
  | .closed => c.handleCloseCalls
  | .failed _ => []
  | .received _ => []

def handleEventCalls (c : TcpClient) (iEvent : EpollBits) (read : ReadOutcome) (soError : Int) : List SockCall :=
  let closes := iEvent.epollhup && !iEvent.epollin
  let isError := closes || iEvent.epollerr
  let reads := iEvent.epollin || iEvent.epollpri || iEvent.epollrdhup
  let c' := if closes then c.handleClose.2 else if iEvent.epollerr then c.handleError.2 else c
  let c'' := if reads then (c'.handleCanRecv read).2 else c'
  (if closes then c.handleCloseCalls else []) ++
    ((if reads then c'.handleCanRecvCalls read else []) ++
      if !isError && iEvent.epollout then c''.handleCanSendCalls soError else [])

/-- The calls for descriptors of one step. -/
def stepCalls (c : TcpClient) : ClientEvent → List SockCall
  | .connect sock errno => c.connectCalls sock errno
  | .disconnect => c.disconnectCalls
  | .sendMsg _ _ sock errno => c.sendMsgCalls sock errno
  | .canSend soError _ => c.handleCanSendCalls soError
  | .canRecv outcome => c.handleCanRecvCalls outcome
  | .error => []
  | .close => c.handleCloseCalls
  | .poll iEvent read soError _ => c.handleEventCalls iEvent read soError

/-- The descriptor that `::socket` returns in this step, if it is called and succeeds. -/
def takenSocket (c : TcpClient) : ClientEvent → Option Int
  | .connect sock _ => if c.state = .kDisconnected then sock else none
  | .sendMsg _ _ sock _ => if c.state = .kDisconnected ∧ c.isAutoReconnect = true then sock else none
  | _ => none

/-- No descriptor that the client has made is open but `m_iFD`. -/
def OwnsOne (c : TcpClient) : Prop := ∀ fd, c.kernel.isOpen fd = true → fd = c.fd

def descriptors (c : TcpClient) : Int × (Int → Bool) := (c.fd, c.kernel.isOpen)

/-- A client and the calls for descriptors that it has made. -/
def traceStep (s : TcpClient × List SockCall) (e : ClientEvent) : TcpClient × List SockCall :=
  (s.1.step e, s.2 ++ s.1.stepCalls e)

def traceStart (sock : Option Int) : TcpClient × List SockCall := (create sock, createCalls sock)

end TcpClient

/-- Every `::close` comes right after the `::socket` whose descriptor it closes: no other close of the client
stands between them. -/
def ClosedOnce (calls : List SockCall) : Prop :=
  ∀ pre fd post, calls = pre ++ .close fd :: post → pre.getLast? = some (.socket fd)

namespace TcpClient

variable {c c' c'' : TcpClient} {calls calls' : List SockCall} {fd : Int}

/-- What a handler, or `Connect`, does to the descriptors. -/
inductive Turn (c c' : TcpClient) : Option Int → List SockCall → Prop
  | quiet (same : c'.descriptors = c.descriptors) (active : c'.state ≠ .kDisconnected → c.state ≠ .kDisconnected) :
      Turn c c' none []
  | opened (fd : Int) (made : c'.descriptors = [SockCall.socket fd].foldl SockCall.run c.descriptors) :
      Turn c c' (some fd) [.socket fd]
  | refused (fd : Int) (made : c'.descriptors = [SockCall.socket fd, .close fd].foldl SockCall.run c.descriptors)
      (idle : c'.state = .kDisconnected) : Turn c c' (some fd) [.socket fd, .close fd]
  | closed (active : c.state ≠ .kDisconnected)
      (made : c'.descriptors = [SockCall.close c.fd].foldl SockCall.run c.descriptors)
      (idle : c'.state = .kDisconnected) : Turn c c' none [.close c.fd]

theorem Turn.refl (c : TcpClient) : Turn c c none [] := .quiet rfl id

/-- A handler of a disconnected client makes no call and leaves it disconnected. -/
theorem Turn.idle (idle : c.state = .kDisconnected) (turn : Turn c c' none calls) :
    calls = [] ∧ c'.descriptors = c.descriptors ∧ c'.state = .kDisconnected := by
  cases turn with
  | quiet same active => exact ⟨rfl, same, not_not.mp fun h => active h idle⟩
  | closed active => exact absurd idle active

/-- Only the descriptors and the state of the client before matter. -/
theorem Turn.of_same {sock : Option Int} (same : c'.descriptors = c.descriptors) (state_eq : c'.state = c.state)
    (turn : Turn c' c'' sock calls) : Turn c c'' sock calls := by
  have hfd : c'.fd = c.fd := congrArg Prod.fst same
  cases turn with
  | quiet same' active => exact .quiet (same'.trans same) fun h => state_eq ▸ active h
  | opened fd made => exact .opened fd (same ▸ made)
  | refused fd made idle => exact .refused fd (same ▸ made) idle
  | closed active made idle =>
    rw [hfd] at made ⊢
    exact .closed (state_eq ▸ active) (same ▸ made) idle

/-- One handler after the other: the second finds the client as the first has left it. -/
theorem Turn.trans (first : Turn c c' none calls) (second : Turn c' c'' none calls') :
    Turn c c'' none (calls ++ calls') := by
  cases first with
  | quiet same active =>
    cases second with
    | quiet same' active' => exact .quiet (same'.trans same) fun h => active (active' h)
    | closed active' made idle =>
      have hfd : c'.fd = c.fd := congrArg Prod.fst same
      rw [hfd, same] at made
      rw [hfd]
      exact .closed (active active') made idle
  | closed active made idle =>
    obtain ⟨rfl, same, idle'⟩ := second.idle idle
    exact .closed active (same.trans made) idle'

@[simp] theorem epollCtl_isOpen (k : EpollKernel) (op : EpollOp) (fd : Int) (mask : EventMask) :
    (k.epollCtl op fd mask).isOpen = k.isOpen := by
  unfold EpollKernel.epollCtl
  split <;> rfl

@[simp] theorem updateEvent_descriptors (c : TcpClient) : c.updateEvent.descriptors = c.descriptors := by
  simp only [updateEvent, update, descriptors]
  repeat' split
  all_goals simp

theorem setEvents_quiet (c : TcpClient) (mask : EventMask) :
    (c.setEvents mask).updateEvent.descriptors = c.descriptors ∧ (c.setEvents mask).updateEvent.state = c.state := by
  rw [updateEvent_descriptors, updateEvent_state]
  exact ⟨rfl, rfl⟩

theorem doClose_turn (c : TcpClient) :
    c.doClose.descriptors = [SockCall.close c.fd].foldl SockCall.run c.descriptors ∧
      c.doClose.state = .kDisconnected := by
  obtain ⟨same, -⟩ := setEvents_quiet c kNoneEvent
  have hfd : c.disableAll.fd = c.fd := congrArg Prod.fst same
  have hopen : c.disableAll.kernel.isOpen = c.kernel.isOpen := congrArg Prod.snd same
  refine ⟨?_, rfl⟩
  simp only [doClose, close, descriptors, EpollKernel.close, hfd, hopen, List.foldl_cons, List.foldl_nil, SockCall.run]

theorem withChannel_turn (c : TcpClient) (channel : TcpChannel) :
    (c.withChannel channel).descriptors = c.descriptors ∧ (c.withChannel channel).state = c.state := by
  unfold withChannel
  split
  · exact ⟨rfl, rfl⟩
  · rw [updateEvent_descriptors, updateEvent_state]
    exact ⟨rfl, rfl⟩

theorem connect_turn (c : TcpClient) (sock : Option Int) (errno : ConnectErrno) :
    Turn c (c.connect sock errno).2 (if c.state = .kDisconnected then sock else none) (c.connectCalls sock errno) := by
  by_cases hstate : c.state = .kDisconnected
  · rw [connect, if_neg (not_not.mpr hstate), connectCalls.eq_def, if_neg (not_not.mpr hstate),
      if_pos hstate]
    obtain ⟨same, idle⟩ := setEvents_quiet { c with isAutoReconnect := true } kNoneEvent
    change (TcpClient.disableAll { c with isAutoReconnect := true }).descriptors = c.descriptors at same
    change (TcpClient.disableAll { c with isAutoReconnect := true }).state = c.state at idle
    simp only
    generalize TcpClient.disableAll { c with isAutoReconnect := true } = d at same idle
    cases sock with
    | none => exact .quiet same fun h => absurd (idle.trans hstate) h
    | some fd =>
      have made : descriptors { d with fd := fd, kernel := d.kernel.socket fd } =
          [SockCall.socket fd].foldl SockCall.run c.descriptors := by
        rw [← same]
        rfl
      cases errno with
      | zero | einprogress | eintr | eisconn => exact .opened fd ((updateEvent_descriptors _).trans made)
      | eagain | eaddrinuse | eaddrnotavail | econnrefused | enetunreach => exact .opened fd made
      | eacces | eperm | eafnosupport | ealready | ebadf | efault | enotsock | other =>
        obtain ⟨closes, disc⟩ := doClose_turn { d with fd := fd, kernel := d.kernel.socket fd }
        refine .refused fd (closes.trans ?_) disc
        rw [made]
        rfl
  · rw [connect, if_pos hstate, connectCalls.eq_def, if_pos hstate, if_neg hstate]
    exact .refl c

theorem sendMsg_turn (c : TcpClient) (data : List UInt8) (outcome : WriteOutcome) (sock : Option Int)
    (errno : ConnectErrno) :
    Turn c (c.sendMsg data outcome sock errno).2 (c.takenSocket (.sendMsg data outcome sock errno))
      (c.sendMsgCalls sock errno) := by
  unfold sendMsg takenSocket sendMsgCalls
  cases hstate : c.state with
  | kConnected =>
    obtain ⟨same, state_eq⟩ := withChannel_turn c (c.channel.doSend data outcome).2
    exact .quiet same fun _ => by simp [hstate]
  | kConnecting => exact .quiet rfl fun _ => by simp [hstate]
  | kDisconnected =>
    by_cases hauto : c.isAutoReconnect = true
    · have turn := connect_turn (c.appendSendBuf data) sock errno
      have same : (c.appendSendBuf data).descriptors = c.descriptors := rfl
      have state_eq : (c.appendSendBuf data).state = c.state := rfl
      rw [if_pos (state_eq.trans hstate)] at turn
      simp only [hauto, and_self, if_true]
      exact turn.of_same same state_eq
    · simp only [hauto, and_false, if_false, Bool.false_eq_true]
      exact .refl c

theorem handleClose_turn (c : TcpClient) : Turn c c.handleClose.2 none c.handleCloseCalls := by
  unfold handleClose handleCloseCalls
  split
  next active =>
    obtain ⟨made, idle⟩ := doClose_turn c
    exact .closed active made idle
  next => exact .quiet rfl id

theorem handleCanRecv_turn (c : TcpClient) (outcome : ReadOutcome) :
    Turn c (c.handleCanRecv outcome).2 none (c.handleCanRecvCalls outcome) := by
  cases outcome with
  | closed =>
    have same : descriptors { c with channel := dropReceived c.channel } = c.descriptors := rfl
    exact (handleClose_turn { c with channel := dropReceived c.channel }).of_same same rfl
  | failed errno => exact .quiet rfl id
  | received chunk => exact .quiet rfl id

theorem connected_turn (hstate : c.state = .kConnecting) (soError : Int) (outcome : WriteOutcome) :
    Turn c (c.connected soError outcome).2 none (c.connectedCalls soError) := by
  have active : c.state ≠ .kDisconnected := by simp [hstate]
  unfold connected connectedCalls
  split
  next =>
    obtain ⟨made, idle⟩ := doClose_turn c
    exact .closed active made idle
  next =>
    simp only
    obtain ⟨same, -⟩ := setEvents_quiet { c with state := .kConnected } ⟨true, c.events.writing⟩
    change (TcpClient.enableReading { c with state := .kConnected }).descriptors = c.descriptors at same
    generalize TcpClient.enableReading { c with state := .kConnected } = d at same
    split
    next =>
      obtain ⟨same', -⟩ := setEvents_quiet d ⟨d.events.reading, true⟩
      obtain ⟨same'', -⟩ := withChannel_turn d.enableWriting (d.enableWriting.channel.doContineSend outcome)
      exact .quiet (same''.trans (same'.trans same)) fun _ => active
    next =>
      obtain ⟨same', -⟩ := setEvents_quiet d ⟨d.events.reading, false⟩
      exact .quiet (same'.trans same) fun _ => active

theorem handleCanSend_turn (c : TcpClient) (soError : Int) (outcome : WriteOutcome) :
    Turn c (c.handleCanSend soError outcome).2 none (c.handleCanSendCalls soError) := by
  unfold handleCanSend handleCanSendCalls
  cases hstate : c.state with
  | kConnecting => exact connected_turn hstate soError outcome
  | kConnected =>
    obtain ⟨same, -⟩ := withChannel_turn c (c.channel.doContineSend outcome)
    exact .quiet same fun _ => by simp [hstate]
  | kDisconnected => exact .refl c

theorem handleEvent_turn (c : TcpClient) (iEvent : EpollBits) (read : ReadOutcome) (soError : Int)
    (write : WriteOutcome) :
    Turn c (c.handleEvent iEvent read soError write) none (c.handleEventCalls iEvent read soError) := by
  unfold handleEvent handleEventCalls
  simp only
  have first : Turn c
      (if (iEvent.epollhup && !iEvent.epollin) = true then c.handleClose.2
        else if iEvent.epollerr = true then c.handleError.2 else c) none
      (if (iEvent.epollhup && !iEvent.epollin) = true then c.handleCloseCalls else []) := by
    split
    · exact handleClose_turn c
    · split
      · exact .refl c
      · exact .refl c
  generalize (if (iEvent.epollhup && !iEvent.epollin) = true then c.handleClose.2
    else if iEvent.epollerr = true then c.handleError.2 else c) = c' at first ⊢
  have second : Turn c'
      (if (iEvent.epollin || iEvent.epollpri || iEvent.epollrdhup) = true then (c'.handleCanRecv read).2 else c') none
      (if (iEvent.epollin || iEvent.epollpri || iEvent.epollrdhup) = true then c'.handleCanRecvCalls read
        else []) := by
    split
    · exact handleCanRecv_turn c' read
    · exact .refl c'
  generalize (if (iEvent.epollin || iEvent.epollpri || iEvent.epollrdhup) = true then (c'.handleCanRecv read).2
    else c') = c'' at second ⊢
  refine first.trans (second.trans ?_)
  split
  · exact handleCanSend_turn c'' soError write
  · exact .refl c''

/-- All that a step other than `Disconnect` does to the descriptors. -/
theorem step_turn (c : TcpClient) {e : ClientEvent} (he : e ≠ .disconnect) :
    Turn c (c.step e) (c.takenSocket e) (c.stepCalls e) := by
  cases e with
  | connect sock errno => exact connect_turn c sock errno
  | disconnect => exact absurd rfl he
  | sendMsg data outcome sock errno => exact sendMsg_turn c data outcome sock errno
  | canSend soError outcome => exact handleCanSend_turn c soError outcome
  | canRecv outcome => exact handleCanRecv_turn c outcome
  | error => exact .refl c
  | close => exact handleClose_turn c
  | poll iEvent read soError write => exact handleEvent_turn c iEvent read soError write

theorem disconnect_turn (c : TcpClient) :
    (c.step .disconnect).descriptors = [SockCall.close c.fd].foldl SockCall.run c.descriptors ∧
      (c.step .disconnect).state = .kDisconnected :=
  doClose_turn { c with isAutoReconnect := false }

theorem ownsOne_of_same (same : c'.descriptors = c.descriptors) : c'.OwnsOne ↔ c.OwnsOne := by
  have hfd : c'.fd = c.fd := congrArg Prod.fst same
  have hopen : c'.kernel.isOpen = c.kernel.isOpen := congrArg Prod.snd same
  rw [OwnsOne, OwnsOne, hfd, hopen]

theorem ownsOne_close (owns : c.OwnsOne)
    (made : c'.descriptors = [SockCall.close c.fd].foldl SockCall.run c.descriptors) : c'.OwnsOne := by
  have hfd : c'.fd = c.fd := congrArg Prod.fst made
  have hopen : c'.kernel.isOpen = Function.update c.kernel.isOpen c.fd false := congrArg Prod.snd made
  intro fd isOpen
  rw [hopen, Function.update_apply] at isOpen
  split at isOpen
  next => cases isOpen
  next => exact (owns fd isOpen).trans hfd.symm

/-- A new socket is the only open descriptor exactly when the old one is not open. -/
theorem ownsOne_socket_iff (owns : c.OwnsOne) (fresh : c.kernel.isOpen fd = false) (hfd : c'.fd = fd)
    (others : ∀ other, other ≠ fd → c'.kernel.isOpen other = c.kernel.isOpen other) :
    c'.OwnsOne ↔ c.kernel.isOpen c.fd = false := by
  constructor
  · intro owns'
    by_contra isOpen
    have hopen : c.kernel.isOpen c.fd = true := Bool.eq_true_of_not_eq_false isOpen
    have hne : c.fd ≠ fd := by
      intro heq
      rw [heq, fresh] at hopen
      cases hopen
    have hsame := owns' c.fd ((others c.fd hne).trans hopen)
    exact hne (hsame.trans hfd)
  · intro closed other isOpen
    rw [hfd]
    by_contra hne
    rw [others other hne] at isOpen
    rw [owns other isOpen, closed] at isOpen
    cases isOpen

theorem step_ownsOne_iff (owns : c.OwnsOne) {e : ClientEvent}
    (fresh : ∀ fd, c.takenSocket e = some fd → c.kernel.isOpen fd = false) :
    (c.step e).OwnsOne ↔ (c.takenSocket e ≠ none → c.kernel.isOpen c.fd = false) := by
  by_cases he : e = .disconnect
  · subst he
    exact iff_of_true (ownsOne_close owns (disconnect_turn c).1) fun h => absurd rfl h
  · generalize hsock : c.takenSocket e = sock at fresh
    have turn := step_turn c he
    rw [hsock] at turn
    generalize c.stepCalls e = calls at turn
    cases turn with
    | quiet same =>
      rw [ownsOne_of_same same]
      exact iff_of_true owns fun h => absurd rfl h
    | closed active made => exact iff_of_true (ownsOne_close owns made) fun h => absurd rfl h
    | opened fd made =>
      have hopen : (c.step e).kernel.isOpen = Function.update c.kernel.isOpen fd true := congrArg Prod.snd made
      rw [ownsOne_socket_iff owns (fresh fd rfl) (congrArg Prod.fst made) fun other hne => by
        rw [hopen, Function.update_of_ne hne]]
      simp
    | refused fd made =>
      have hopen : (c.step e).kernel.isOpen =
          Function.update (Function.update c.kernel.isOpen fd true) fd false := congrArg Prod.snd made
      rw [ownsOne_socket_iff owns (fresh fd rfl) (congrArg Prod.fst made) fun other hne => by
        rw [hopen, Function.update_of_ne hne, Function.update_of_ne hne]]
      simp

theorem create_ownsOne (sock : Option Int) : (create sock).OwnsOne := by
  intro fd isOpen
  cases sock with
  | none => cases isOpen
  | some fd' =>
    change Function.update (fun _ => false) fd' true fd = true at isOpen
    change fd = fd'
    by_contra hne
    rw [Function.update_of_ne hne] at isOpen
    cases isOpen

/-- `::socket` returns a descriptor that is not open. -/
def SocketsFresh (sock : Option Int) (events : List ClientEvent) : Prop :=
  ∀ k e, events[k]? = some e → ∀ fd ∈ (stateAt step (create sock) events k).takenSocket e,
    (stateAt step (create sock) events k).kernel.isOpen fd = false

/-- No descriptor is lost in a run exactly when no `::socket` succeeds while `m_iFD` is open: `Connect` makes a
new one without closing that of the constructor or of an attempt that may be repeated. -/
theorem owns_one_iff {sock : Option Int} {events : List ClientEvent} (fresh : SocketsFresh sock events) :
    (∀ k, (stateAt step (create sock) events k).OwnsOne) ↔
      ∀ k e, events[k]? = some e → (stateAt step (create sock) events k).takenSocket e ≠ none →
        (stateAt step (create sock) events k).kernel.isOpen (stateAt step (create sock) events k).fd = false := by
  constructor
  · intro owns k e he
    have next := owns (k + 1)
    rw [stateAt_succ he] at next
    exact (step_ownsOne_iff (owns k) fun fd => fresh k e he fd).mp next
  · intro closed
    refine stateAt_induct (create_ownsOne sock) fun k e he owns => ?_
    exact (step_ownsOne_iff owns fun fd => fresh k e he fd).mpr (closed k e he)

/-- Before `Connect` the descriptor of the constructor is given up, and that of a refused attempt, too. -/
theorem owns_one_iff_careful :
    SocketsFresh (some 3)
        [.disconnect, .connect (some 3) .econnrefused, .disconnect, .connect (some 4) .einprogress] ∧
      ∀ k, (stateAt step (create (some 3))
        [.disconnect, .connect (some 3) .econnrefused, .disconnect, .connect (some 4) .einprogress] k).OwnsOne := by
  have fresh : SocketsFresh (some 3)
      [.disconnect, .connect (some 3) .econnrefused, .disconnect, .connect (some 4) .einprogress] := by
    refine forall_event_iff.mpr ?_
    decide +kernel
  refine ⟨fresh, (owns_one_iff fresh).mpr (forall_event_iff.mpr ?_)⟩
  decide +kernel

/-- The socket of the constructor is lost with the first `Connect`, that of a refused one with the next. -/
theorem connect_leaks :
    SocketsFresh (some 3) [.connect (some 4) .econnrefused, .connect (some 5) .einprogress] ∧
      ¬ (stateAt step (create (some 3)) [.connect (some 4) .econnrefused] 1).OwnsOne ∧
      ∀ fd ∈ [3, 4, 5], (stateAt step (create (some 3))
        [.connect (some 4) .econnrefused, .connect (some 5) .einprogress] 2).kernel.isOpen fd = true := by
  refine ⟨forall_event_iff.mpr (by decide +kernel), fun owns => ?_, by decide +kernel⟩
  have hfd := owns 3 (by decide +kernel)
  revert hfd
  decide +kernel

section Closes

variable {sock : Option Int} {events : List ClientEvent}

theorem closedOnce_snoc {x : SockCall} :
    ClosedOnce (calls ++ [x]) ↔ ClosedOnce calls ∧ ∀ fd, x = .close fd → calls.getLast? = some (.socket fd) := by
  constructor
  · intro once
    refine ⟨fun pre fd post split => once pre fd (post ++ [x]) (by rw [split]; simp), ?_⟩
    rintro fd rfl
    exact once calls fd [] rfl
  · rintro ⟨once, last⟩ pre fd post split
    rcases List.eq_nil_or_concat post with rfl | ⟨post', y, rfl⟩
    · obtain ⟨rfl, hx⟩ := List.append_inj' split rfl
      exact last fd (List.cons.inj hx).1
    · rw [List.concat_eq_append, ← List.cons_append, ← List.append_assoc] at split
      exact once pre fd post' (List.append_inj' split rfl).1

theorem closedOnce_socket : ClosedOnce (calls ++ [.socket fd]) ↔ ClosedOnce calls := by
  rw [closedOnce_snoc]
  simp

theorem closedOnce_close :
    ClosedOnce (calls ++ [.close fd]) ↔ ClosedOnce calls ∧ calls.getLast? = some (.socket fd) := by
  rw [closedOnce_snoc]
  simp

/-- The client has its descriptor open exactly when `::socket` was its last call, and a client that is not
disconnected has it open. -/
structure Accounted (s : TcpClient × List SockCall) : Prop where
  last : s.1.kernel.isOpen s.1.fd = true ↔ s.2.getLast? = some (.socket s.1.fd)
  active : s.1.state ≠ .kDisconnected → s.1.kernel.isOpen s.1.fd = true

theorem accounted_of_closed {calls : List SockCall} (closed : c.kernel.isOpen c.fd = false)
    (idle : c.state = .kDisconnected) (last : ∃ fd, calls.getLast? = some (.close fd)) : Accounted (c, calls) := by
  obtain ⟨fd, hlast⟩ := last
  refine ⟨?_, fun active => absurd idle active⟩
  rw [closed, hlast]
  simp

theorem accounted_of_opened {calls : List SockCall} (isOpen : c.kernel.isOpen c.fd = true)
    (last : calls.getLast? = some (.socket c.fd)) : Accounted (c, calls) :=
  ⟨iff_of_true isOpen last, fun _ => isOpen⟩

theorem traceStart_accounted (sock : Option Int) : Accounted (traceStart sock) := by
  cases sock with
  | none => exact ⟨by decide +kernel, fun active => absurd rfl active⟩
  | some fd => exact accounted_of_opened (by simp [create, createNoBlock, EpollKernel.socket]) rfl

theorem closed_after_close (made : c'.descriptors = [SockCall.close c.fd].foldl SockCall.run c.descriptors) :
    c'.kernel.isOpen c'.fd = false := by
  have hfd : c'.fd = c.fd := congrArg Prod.fst made
  have hopen : c'.kernel.isOpen = Function.update c.kernel.isOpen c.fd false := congrArg Prod.snd made
  rw [hfd, hopen, Function.update_self]

theorem Accounted.traceStep {s : TcpClient × List SockCall} (h : Accounted s) (e : ClientEvent) :
    Accounted (traceStep s e) := by
  by_cases he : e = .disconnect
  · subst he
    obtain ⟨made, idle⟩ := disconnect_turn s.1
    exact accounted_of_closed (closed_after_close made) idle ⟨s.1.fd, by simp [stepCalls, disconnectCalls]⟩
  · have turn := step_turn s.1 he
    unfold TcpClient.traceStep
    generalize s.1.stepCalls e = calls at turn
    generalize s.1.takenSocket e = sock at turn
    cases turn with
    | quiet same active =>
      have hfd : (s.1.step e).fd = s.1.fd := congrArg Prod.fst same
      have hopen : (s.1.step e).kernel.isOpen = s.1.kernel.isOpen := congrArg Prod.snd same
      rw [List.append_nil]
      refine ⟨?_, fun now => ?_⟩
      · rw [hfd, hopen]
        exact h.last
      · rw [hfd, hopen]
        exact h.active (active now)
    | opened fd made =>
      have hfd : (s.1.step e).fd = fd := congrArg Prod.fst made
      have hopen : (s.1.step e).kernel.isOpen = Function.update s.1.kernel.isOpen fd true := congrArg Prod.snd made
      refine accounted_of_opened ?_ ?_
      · rw [hfd, hopen, Function.update_self]
      · rw [hfd, List.getLast?_append]
        rfl
    | refused fd made idle =>
      have hfd : (s.1.step e).fd = fd := congrArg Prod.fst made
      have hopen : (s.1.step e).kernel.isOpen =
          Function.update (Function.update s.1.kernel.isOpen fd true) fd false := congrArg Prod.snd made
      refine accounted_of_closed ?_ idle ⟨fd, ?_⟩
      · rw [hfd, hopen, Function.update_self]
      · rw [List.getLast?_append]
        rfl
    | closed active made idle =>
      refine accounted_of_closed (closed_after_close made) idle ⟨s.1.fd, ?_⟩
      rw [List.getLast?_append]
      rfl

/-- Only `Disconnect` may close a second time: the other calls of `DoClose` find a descriptor of their own. -/
theorem traceStep_closedOnce_iff {s : TcpClient × List SockCall} (h : Accounted s) (once : ClosedOnce s.2)
    (e : ClientEvent) :
    ClosedOnce (traceStep s e).2 ↔ (e = .disconnect → s.1.kernel.isOpen s.1.fd = true) := by
  by_cases he : e = .disconnect
  · subst he
    change ClosedOnce (s.2 ++ [.close s.1.fd]) ↔ _
    rw [closedOnce_close, h.last]
    simp [once]
  · refine iff_of_true ?_ fun hd => absurd hd he
    have turn := step_turn s.1 he
    unfold TcpClient.traceStep
    generalize s.1.stepCalls e = calls at turn
    generalize s.1.takenSocket e = sock at turn
    cases turn with
    | quiet =>
      rw [List.append_nil]
      exact once
    | opened fd => exact closedOnce_socket.mpr once
    | refused fd =>
      change ClosedOnce (s.2 ++ ([.socket fd] ++ [.close fd]))
      rw [← List.append_assoc, closedOnce_close, closedOnce_socket, List.getLast?_append]
      exact ⟨once, rfl⟩
    | closed active => exact closedOnce_close.mpr ⟨once, h.last.mp (h.active active)⟩

theorem traceStart_closedOnce (sock : Option Int) : ClosedOnce (traceStart sock).2 := by
  have empty : ClosedOnce [] := by
    intro pre fd post split
    simp at split
  cases sock with
  | none => exact empty
  | some fd => exact closedOnce_socket.mpr empty

/-- Each `::close` of a run has a `::socket` of its own exactly when every `Disconnect` of it finds a descriptor
that is open. -/
theorem closed_once_iff (sock : Option Int) (events : List ClientEvent) :
    (∀ k, ClosedOnce (stateAt traceStep (traceStart sock) events k).2) ↔
      ∀ k, events[k]? = some .disconnect →
        (stateAt traceStep (traceStart sock) events k).1.kernel.isOpen
          (stateAt traceStep (traceStart sock) events k).1.fd = true := by
  have accounted : ∀ k, Accounted (stateAt traceStep (traceStart sock) events k) :=
    stateAt_induct (traceStart_accounted sock) fun _ e _ h => h.traceStep e
  constructor
  · intro once k he
    have next := once (k + 1)
    rw [stateAt_succ he] at next
    exact (traceStep_closedOnce_iff (accounted k) (once k) .disconnect).mp next rfl
  · intro owned
    refine @stateAt_induct _ _ traceStep (traceStart sock) events (fun s => ClosedOnce s.2)
      (traceStart_closedOnce sock) fun k e he once => ?_
    exact (traceStep_closedOnce_iff (accounted k) once e).mpr fun hd => owned k (hd ▸ he)

/-- The peer closes, then the program disconnects: the number, by now perhaps that of another connection, is
closed again. -/
theorem disconnect_closes_again :
    (stateAt traceStep (traceStart none)
        [.connect (some 3) .zero, .canSend 0 (.wrote 0), .canRecv .closed, .disconnect] 4).2 =
        [.socket 3, .close 3, .close 3] ∧
      ¬ ClosedOnce (stateAt traceStep (traceStart none)
        [.connect (some 3) .zero, .canSend 0 (.wrote 0), .canRecv .closed, .disconnect] 4).2 := by
  have calls : (stateAt traceStep (traceStart none)
      [.connect (some 3) .zero, .canSend 0 (.wrote 0), .canRecv .closed, .disconnect] 4).2 =
      [.socket 3, .close 3, .close 3] := by
    decide +kernel
  refine ⟨calls, fun once => ?_⟩
  have last := once [.socket 3, .close 3] 3 [] calls
  revert last
  decide

end Closes

end TcpClient

end Wddlib
