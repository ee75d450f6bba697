import Wddlib.ServerProcess

namespace Wddlib

namespace ServerProcess

variable {p : ServerProcess} {fd : Int} {ch : ChannelPtr}

theorem Inv.dropOne (inv : p.Inv) (fault : Option AcceptFault) : (p.dropOne fault).Inv := by
  obtain ⟨fd, free, heq⟩ := inv.dropOne_eq fault
  rw [heq]
  have base := inv.settled .dropped fault
  obtain ⟨closed, nonneg, lt⟩ := lowestFree_some free
  have listen : p.listenFd ≠ fd := by
    rintro rfl
    simp [ServerProcess.closeFd, Ne.symm inv.reserve.2.1, inv.listening.1] at closed
  have unused : p.server.channelMap fd = none := by
    by_cases hfd : fd = p.idleFd
    · rw [hfd]
      exact inv.reserve.2.2
    · exact (inv.closed_unknown (by simpa [ServerProcess.closeFd, hfd] using closed)).2.1
  have same : (p.settled .dropped fault).listenFd = p.listenFd ∧ (p.settled .dropped fault).idleFd = p.idleFd ∧
      (p.settled .dropped fault).server = p.server ∧ (p.settled .dropped fault).isOpen = p.isOpen := by
    unfold ServerProcess.settled
    split <;> exact ⟨rfl, rfl, rfl, rfl⟩
  obtain ⟨hlisten, hidle, hserver, hopen⟩ := same
  have keeps : ∀ fd', fd' ≠ p.idleFd → p.isOpen fd' = true →
      Function.update (Function.update p.isOpen p.idleFd false) fd true fd' = true := by
    intro fd' hne isOpen
    by_cases hfd : fd' = fd
    · simp [hfd]
    · simp [hfd, hne, isOpen]
  refine ⟨base.coherent, ?_, ⟨?_, base.listening.2⟩, ⟨by simp, ?_, ?_⟩, ?_, base.interest⟩
  · intro fd' isOpen
    by_cases hfd : fd' = fd
    · subst hfd
      refine ⟨nonneg, ?_⟩
      show fd' < ((p.settled .dropped fault).limit : Int)
      rw [settled_limit]
      exact lt
    · have hne : fd' ≠ p.idleFd := by
        rintro rfl
        simp only [Function.update_of_ne hfd, Function.update_self] at isOpen
        cases isOpen
      exact base.range fd' (by simpa [hfd, hne, hopen] using isOpen)
  · simp only [hlisten]
    exact keeps _ (Ne.symm inv.reserve.2.1) inv.listening.1
  · simpa only [hlisten] using listen.symm
  · simpa only [hserver] using unused
  · intro fd' own hmap
    obtain ⟨isOpen, rest⟩ := base.channel fd' own hmap
    refine ⟨keeps _ ?_ (by simpa [hopen] using isOpen), rest⟩
    rintro rfl
    simp only [hserver, inv.reserve.2.2] at hmap
    cases hmap

theorem Inv.handleCanRecv (inv : p.Inv) (fault : Option AcceptFault) (logged : Option AcceptErrno)
    (fault' : Option AcceptFault) : (p.handleCanRecv fault logged fault').Inv := by
  unfold ServerProcess.handleCanRecv
  cases free : p.lowestFree with
  | none =>
    rw [accept_full free]
    dsimp only
    split
    · exact inv.dropOne fault'
    · exact inv
  | some fd =>
    rcases accept_free free .admitted fault with ⟨errno, -, heq⟩ | ⟨addr, rest, -, -, heq⟩
    · rw [heq]
      dsimp only
      have settled := inv.settled .admitted fault
      split
      · exact settled.dropOne fault'
      · exact settled
    · rw [heq]
      obtain ⟨opened, fresh⟩ := inv.opened free
      have fresh' : ({ p with isOpen := Function.update p.isOpen fd true, backlog := rest } : ServerProcess).Fresh fd :=
        ⟨fresh.isOpen, fresh.unlistened, fresh.unreserved, fresh.unused⟩
      exact ((opened.queue rest p.fates).onNewChannel fresh').queue _ _

theorem step_inv (inv : p.Inv) {e : ProcessEvent} (possible : p.Possible e) : (p.step e).Inv := by
  cases e with
  | connect addr => exact inv.queue _ _
  | canAccept fault logged fault' => exact inv.handleCanRecv fault logged fault'
  | closeChannel fd =>
    simp only [step, disconnect]
    split
    · exact inv
    next ch entry =>
      obtain rfl := inv.coherent.keyed fd ch entry
      exact inv.handleClose entry
  | setWriting fd on =>
    simp only [step]
    split
    · exact inv
    next ch entry =>
      obtain rfl := inv.coherent.keyed fd ch entry
      exact inv.setWriting entry on
  | openOther => exact inv.openFd
  | closeOther fd => exact inv.closeFd possible.1 possible.2.1 possible.2.2

theorem start_inv {limit : Nat} {isOpen : Int → Bool} (range : ∀ fd, isOpen fd = true → 0 ≤ fd ∧ fd < limit)
    (h : start limit isOpen = some p) : p.Inv := by
  let p₀ : ServerProcess := ⟨limit, isOpen, fun _ => none, [], -1, -1, fun _ => kNoneEvent, fun _ => false, .create, []⟩
  have hstart : (if p₀.openFd.2.openFd.1 < 0 then none
      else some { p₀.openFd.2.openFd.2 with
        idleFd := p₀.openFd.1
        listenFd := p₀.openFd.2.openFd.1
        interest := Function.update p₀.openFd.2.openFd.2.interest p₀.openFd.2.openFd.1
          (some (none, kReadEvent)) }) = some p := h
  cases spare : p₀.lowestFree with
  | none =>
    have hopen : p₀.openFd = (-1, p₀) := by simp only [openFd, spare]
    rw [hopen] at hstart
    simp [hopen] at hstart
  | some idle =>
    rw [openFd_some spare] at hstart
    obtain ⟨closed, nonneg, lt⟩ := lowestFree_some spare
    cases free : ({ p₀ with isOpen := Function.update p₀.isOpen idle true } : ServerProcess).lowestFree with
    | none => simp [openFd, free] at hstart
    | some listen =>
      obtain ⟨closed', nonneg', lt'⟩ := lowestFree_some free
      rw [openFd_some free, if_neg (by omega)] at hstart
      obtain rfl := Option.some.inj hstart
      have differ : idle ≠ listen := by
        rintro rfl
        simp at closed'
      refine ⟨?_, ?_, ⟨by simp, rfl⟩, ⟨by simp [differ], differ, rfl⟩, ?_, ?_⟩
      · constructor <;> simp [p₀, TcpServer.create]
      · intro fd hfd
        by_cases h₁ : fd = listen
        · subst h₁
          exact ⟨nonneg', lt'⟩
        · by_cases h₂ : fd = idle
          · subst h₂
            exact ⟨nonneg, lt⟩
          · exact range fd (by simpa [h₁, h₂, p₀] using hfd)
      · intro fd ch entry
        simp [p₀, TcpServer.create] at entry
      · intro fd
        by_cases h₁ : fd = listen
        · subst h₁
          simp
        · simp [h₁, p₀, TcpServer.create]

/-- With all descriptors in use, the oldest connection is dropped and nothing else changes, as long as logging the
failure leaves `errno` alone. -/
theorem Inv.drop_oldest (inv : p.Inv) (full : p.lowestFree = none) {addr : InetAddress} {rest : List InetAddress}
    (hq : p.backlog = addr :: rest) (fault : Option AcceptFault) :
    p.handleCanRecv fault none none = { p with backlog := rest, fates := p.fates ++ [(addr, .dropped)] } := by
  obtain ⟨fd, free, heq⟩ := inv.dropOne_eq none
  obtain ⟨closed, nonneg, lt⟩ := lowestFree_some free
  obtain rfl : fd = p.idleFd := by
    by_contra hfd
    have isOpen := lowestFree_none full nonneg lt
    simp [ServerProcess.closeFd, hfd, isOpen] at closed
  have hopen : Function.update (Function.update p.isOpen p.idleFd false) p.idleFd true = p.isOpen := by
    rw [Function.update_idem]
    exact Function.update_eq_self_iff.mpr inv.reserve.1.symm
  simp only [ServerProcess.handleCanRecv, accept_full full, Option.getD_none, if_true, heq, hopen,
    ServerProcess.settled, hq]

/-- If logging changes `errno`, the connection stays where it is, and the acceptor stays ready. -/
theorem handleCanRecv_clobbered (full : p.lowestFree = none) {errno : AcceptErrno} (other : errno ≠ .emfile)
    (fault fault' : Option AcceptFault) : p.handleCanRecv fault (some errno) fault' = p := by
  simp [ServerProcess.handleCanRecv, accept_full full, other]

/-- With a descriptor left, the oldest connection gets a channel that the poller watches. -/
theorem Inv.admit_oldest (inv : p.Inv) (free : p.lowestFree = some fd) {addr : InetAddress} {rest : List InetAddress}
    (hq : p.backlog = addr :: rest) (logged : Option AcceptErrno) (fault' : Option AcceptFault) :
    (p.handleCanRecv none logged fault').backlog = rest ∧
      (p.handleCanRecv none logged fault').fates = p.fates ++ [(addr, .admitted)] ∧
      (p.handleCanRecv none logged fault').server.channelMap fd = some ⟨p.server.nextSerial, fd⟩ := by
  obtain ⟨opened, fresh⟩ := inv.opened free
  have fresh' : ({ p with isOpen := Function.update p.isOpen fd true, backlog := rest } : ServerProcess).Fresh fd :=
    ⟨fresh.isOpen, fresh.unlistened, fresh.unreserved, fresh.unused⟩
  have same : p.server.disconnect fd = p.server := by
    unfold TcpServer.disconnect
    rw [fresh.unused]
  have heq := (opened.queue rest p.fates).onNewChannel_eq fresh'
  simp only [ServerProcess.handleCanRecv, accept, free, hq, heq, TcpServer.onNewChannel, same, Function.update_self,
    true_and]

/-- One call of the acceptor that finds nothing wrong takes the oldest connection, whatever descriptors there are. -/
theorem Inv.take_oldest (inv : p.Inv) {addr : InetAddress} {rest : List InetAddress} (hq : p.backlog = addr :: rest) :
    ∃ fate, fate ≠ .aborted ∧ (p.handleCanRecv none none none).backlog = rest ∧
      (p.handleCanRecv none none none).fates = p.fates ++ [(addr, fate)] := by
  cases free : p.lowestFree with
  | none =>
    rw [inv.drop_oldest free hq]
    exact ⟨.dropped, by simp, rfl, rfl⟩
  | some fd =>
    obtain ⟨hrest, hfates, -⟩ := inv.admit_oldest free hq none none
    exact ⟨.admitted, by simp, hrest, hfates⟩

/-- Every connection that has arrived has had one fate or still waits. -/
def arrivals (p : ServerProcess) : List InetAddress := p.fates.map Prod.fst ++ p.backlog

theorem settled_arrivals (p : ServerProcess) (fate : Fate) (fault : Option AcceptFault) :
    (p.settled fate fault).arrivals = p.arrivals := by
  unfold ServerProcess.settled arrivals
  split
  next hq => simp [hq]
  next hq => simp [hq]
  next => rfl

theorem Inv.dropOne_arrivals (inv : p.Inv) (fault : Option AcceptFault) : (p.dropOne fault).arrivals = p.arrivals := by
  obtain ⟨fd, -, heq⟩ := inv.dropOne_eq fault
  rw [heq]
  exact settled_arrivals p .dropped fault

theorem Inv.handleCanRecv_arrivals (inv : p.Inv) (fault : Option AcceptFault) (logged : Option AcceptErrno)
    (fault' : Option AcceptFault) : (p.handleCanRecv fault logged fault').arrivals = p.arrivals := by
  cases free : p.lowestFree with
  | none =>
    simp only [ServerProcess.handleCanRecv, accept_full free]
    split
    · exact inv.dropOne_arrivals fault'
    · rfl
  | some fd =>
    rcases accept_free free .admitted fault with ⟨errno, -, heq⟩ | ⟨addr, rest, rfl, hq, -⟩
    · simp only [ServerProcess.handleCanRecv, heq]
      split
      · rw [(inv.settled .admitted fault).dropOne_arrivals, settled_arrivals]
      · exact settled_arrivals p .admitted fault
    · obtain ⟨hrest, hfates, -⟩ := inv.admit_oldest free hq logged fault'
      simp [arrivals, hrest, hfates, hq]

/-- The connections of the `connect` events. -/
def connects (events : List ProcessEvent) : List InetAddress :=
  events.filterMap fun
    | .connect addr => some addr
    | _ => none

theorem epollCtl_queue (p : ServerProcess) (op : EpollOp) (ch : ChannelPtr) :
    (p.epollCtl op ch).fates = p.fates ∧ (p.epollCtl op ch).backlog = p.backlog := by
  cases op <;> simp only [epollCtl] <;> split <;> exact ⟨rfl, rfl⟩

theorem setWriting_queue (p : ServerProcess) (ch : ChannelPtr) (on : Bool) :
    (p.setWriting ch on).fates = p.fates ∧ (p.setWriting ch on).backlog = p.backlog := by
  unfold ServerProcess.setWriting updateEvent
  split
  · split
    · exact ⟨rfl, rfl⟩
    · exact epollCtl_queue _ .add ch
  · split
    · exact epollCtl_queue _ .del ch
    · exact epollCtl_queue _ .mod ch

/-- Only the acceptor takes connections. -/
theorem Inv.step_queue (inv : p.Inv) {e : ProcessEvent}
    (other : ∀ fault logged fault', e ≠ .canAccept fault logged fault') :
    (p.step e).fates = p.fates ∧ (p.step e).backlog = p.backlog ++ connects [e] := by
  cases e with
  | connect addr => exact ⟨rfl, rfl⟩
  | canAccept fault logged fault' => exact absurd rfl (other fault logged fault')
  | closeChannel fd =>
    simp only [ServerProcess.step, disconnect]
    split
    · exact ⟨rfl, (List.append_nil _).symm⟩
    next ch entry =>
      obtain rfl := inv.coherent.keyed fd ch entry
      rw [inv.handleClose_eq entry]
      exact ⟨rfl, (List.append_nil _).symm⟩
  | setWriting fd on =>
    simp only [ServerProcess.step]
    split
    · exact ⟨rfl, (List.append_nil _).symm⟩
    next ch _ =>
      obtain ⟨hfates, hbacklog⟩ := setWriting_queue p ch on
      exact ⟨hfates, hbacklog.trans (List.append_nil _).symm⟩
  | openOther =>
    simp only [ServerProcess.step, ServerProcess.openFd]
    split <;> exact ⟨rfl, (List.append_nil _).symm⟩
  | closeOther fd => exact ⟨rfl, (List.append_nil _).symm⟩

theorem Inv.step_arrivals (inv : p.Inv) (e : ProcessEvent) : (p.step e).arrivals = p.arrivals ++ connects [e] := by
  by_cases accepts : ∃ fault logged fault', e = .canAccept fault logged fault'
  · obtain ⟨fault, logged, fault', rfl⟩ := accepts
    exact (inv.handleCanRecv_arrivals fault logged fault').trans (List.append_nil _).symm
  · obtain ⟨hfates, hbacklog⟩ := inv.step_queue fun fault logged fault' heq => accepts ⟨fault, logged, fault', heq⟩
    simp only [arrivals, hfates, hbacklog, List.append_assoc]

theorem settled_spares (fault : Option AcceptFault) (before : ∀ f ∈ p.fates, f.2 ≠ .dropped) :
    ∀ f ∈ (p.settled .admitted fault).fates, f.2 ≠ .dropped := by
  unfold ServerProcess.settled
  split
  · simpa [or_imp, forall_and] using before
  · simpa [or_imp, forall_and] using before
  · exact before

/-- Connections are dropped for want of a descriptor only. -/
theorem Inv.step_spares (inv : p.Inv) {e : ProcessEvent}
    (free : ∀ fault logged fault', e = .canAccept fault logged fault' → logged ≠ some .emfile ∧ p.lowestFree ≠ none)
    (before : ∀ f ∈ p.fates, f.2 ≠ .dropped) : ∀ f ∈ (p.step e).fates, f.2 ≠ .dropped := by
  by_cases accepts : ∃ fault logged fault', e = .canAccept fault logged fault'
  · obtain ⟨fault, logged, fault', rfl⟩ := accepts
    obtain ⟨unclobbered, some⟩ := free fault logged fault' rfl
    obtain ⟨fd, hfd⟩ := Option.ne_none_iff_exists'.mp some
    rcases accept_free hfd .admitted fault with ⟨errno, other, heq⟩ | ⟨addr, rest, rfl, hq, -⟩
    · have seen : logged.getD errno ≠ .emfile := by
        cases logged with
        | none => exact other
        | some set => exact fun heq : set = .emfile => unclobbered (congrArg Option.some heq)
      simp only [ServerProcess.step, ServerProcess.handleCanRecv, heq, seen, if_false]
      exact settled_spares fault before
    · obtain ⟨-, hfates, -⟩ := inv.admit_oldest hfd hq logged fault'
      simp only [ServerProcess.step, hfates]
      simpa [or_imp, forall_and] using before
  · obtain ⟨hfates, -⟩ := inv.step_queue fun fault logged fault' heq => accepts ⟨fault, logged, fault', heq⟩
    rw [hfates]
    exact before

theorem Inv.drain (inv : p.Inv) {waiting : List InetAddress} (hq : p.backlog = waiting) :
    let q := (List.replicate waiting.length (.canAccept none none none)).foldl ServerProcess.step p
    (q.backlog = [] ∧ ∃ fates, q.fates = p.fates ++ fates ∧ fates.map Prod.fst = waiting ∧
      ∀ f ∈ fates, f.2 ≠ .aborted) ∧
    (p.lowestFree = none → q = { p with backlog := [], fates := p.fates ++ waiting.map (·, .dropped) }) := by
  induction waiting generalizing p with
  | nil =>
    refine ⟨⟨hq, [], (List.append_nil _).symm, rfl, by simp⟩, ?_⟩
    intro _
    show p = { p with backlog := [], fates := p.fates ++ [] }
    rw [List.append_nil, ← hq]
  | cons addr rest ih =>
    obtain ⟨fate, hfate, hrest, hfates⟩ := inv.take_oldest hq
    obtain ⟨⟨hnil, fates, hall, hmap, hsound⟩, hfull⟩ := ih (inv.handleCanRecv none none none) hrest
    refine ⟨⟨hnil, (addr, fate) :: fates, ?_, by simp [hmap], ?_⟩, ?_⟩
    · rw [hfates, List.append_assoc] at hall
      exact hall
    · intro f hf
      rcases List.mem_cons.mp hf with rfl | hf
      · exact hfate
      · exact hsound f hf
    · intro full
      have heq := inv.drop_oldest full hq none
      refine (hfull ?_).trans ?_
      · rw [heq]
        exact full
      · rw [heq]
        simp

theorem openFd_queue (p : ServerProcess) : p.openFd.2.backlog = p.backlog ∧ p.openFd.2.fates = p.fates := by
  unfold ServerProcess.openFd
  split <;> exact ⟨rfl, rfl⟩

theorem start_arrivals {limit : Nat} {isOpen : Int → Bool} (h : start limit isOpen = some p) : p.arrivals = [] := by
  simp only [start] at h
  split at h
  · cases h
  · obtain rfl := Option.some.inj h
    simp [arrivals, openFd_queue]

end ServerProcess

/-- The process after the first `k` events. -/
def processAt (p₀ : ServerProcess) (events : List ProcessEvent) (k : Nat) : ServerProcess :=
  stateAt ServerProcess.step p₀ events k

/-- A run of a process that starts to listen with the descriptors `isOpen` in use. -/
structure ListeningRun (limit : Nat) (isOpen : Int → Bool) (p₀ : ServerProcess) (events : List ProcessEvent) :
    Prop where
  range : ∀ fd, isOpen fd = true → 0 ≤ fd ∧ fd < limit
  started : ServerProcess.start limit isOpen = some p₀
  possible : ∀ k (e : ProcessEvent), events[k]? = some e → (processAt p₀ events k).Possible e

variable {limit : Nat} {isOpen : Int → Bool} {p₀ : ServerProcess} {events : List ProcessEvent}

/-- The standard streams of a process. -/
def stdio (fd : Int) : Bool := decide (0 ≤ fd ∧ fd < 3)

/-- A process that may have six descriptors. -/
def crowded : ServerProcess := (ServerProcess.start 6 stdio).get (by decide +kernel)

/-- Two connections, and a descriptor for one of them. -/
def crowdedRun : List ProcessEvent :=
  [.connect ⟨1, 80⟩, .connect ⟨2, 80⟩, .canAccept none none none, .canAccept none none none]

theorem crowdedRun_listening : ListeningRun 6 stdio crowded crowdedRun where
  range := by
    intro fd h
    simp only [stdio, decide_eq_true_eq] at h
    omega
  started := (Option.some_get _).symm
  possible := by
    intro k e he
    rcases k with _ | _ | _ | _ | k <;> cases he <;> exact trivial

theorem processAt_inv (run : ListeningRun limit isOpen p₀ events) (k : Nat) : (processAt p₀ events k).Inv := by
  refine stateAt_induct (ServerProcess.start_inv run.range run.started) ?_ k
  intro k e he inv
  exact ServerProcess.step_inv inv (run.possible k e he)

/-- At any time `::epoll_wait` can return the acceptor and the channels of the map only, each under its open
descriptor and with the mask it asked for, and one descriptor is in reserve. -/
theorem interest_exact (run : ListeningRun limit isOpen p₀ events) (k : Nat) :
    let p := processAt p₀ events k
    (∀ fd ptr mask, p.interest fd = some (ptr, mask) ↔
      fd = p.listenFd ∧ ptr = none ∧ mask = ServerProcess.kReadEvent ∨
      ∃ ch, p.server.channelMap fd = some ch ∧ ptr = some ch ∧ mask = p.events ch) ∧
    (∀ fd ch, p.server.channelMap fd = some ch →
      ch.fd = fd ∧ p.isOpen fd = true ∧ p.isPooling ch = true ∧ .removed ch ∉ p.server.log) ∧
    p.isOpen p.listenFd = true ∧ p.isOpen p.idleFd = true ∧ p.interest p.idleFd = none := by
  intro p
  have inv : p.Inv := processAt_inv run k
  refine ⟨?_, ?_, inv.listening.1, inv.reserve.1, ?_⟩
  · intro fd ptr mask
    rw [inv.interest]
    by_cases hfd : fd = p.listenFd
    · subst hfd
      simp [inv.listening.2, eq_comm]
    · cases entry : p.server.channelMap fd <;> simp [hfd, eq_comm]
  · intro fd ch entry
    obtain ⟨hopen, hpool, -⟩ := inv.channel fd ch entry
    exact ⟨inv.coherent.keyed fd ch entry, hopen, hpool, inv.coherent.live fd ch entry⟩
  · rw [inv.interest, if_neg inv.reserve.2.1, inv.reserve.2.2]
    rfl

theorem interest_exact_crowded :
    (processAt crowded crowdedRun 3).interest 5 = some (some ⟨0, 5⟩, ⟨true, false⟩) ∧
      .removed ⟨0, 5⟩ ∉ (processAt crowded crowdedRun 3).server.log := by
  have exact_ := interest_exact crowdedRun_listening 3
  have entry : (processAt crowded crowdedRun 3).server.channelMap 5 = some ⟨0, 5⟩ := by decide +kernel
  exact ⟨(exact_.1 5 _ _).mpr (.inr ⟨_, entry, rfl, by decide +kernel⟩), (exact_.2.1 5 _ entry).2.2.2⟩

theorem processAt_arrivals (run : ListeningRun limit isOpen p₀ events) (k : Nat) :
    (processAt p₀ events k).arrivals = ServerProcess.connects (events.take k) := by
  induction k with
  | zero => exact ServerProcess.start_arrivals run.started
  | succ k ih =>
    cases he : events[k]? with
    | none =>
      have ended := List.getElem?_eq_none_iff.mp he
      rw [processAt, stateAt_end he, List.take_of_length_le (by omega)]
      rwa [List.take_of_length_le ended] at ih
    | some e =>
      have inv := processAt_inv run k
      rw [processAt, stateAt_succ he, List.take_add_one, he]
      refine (inv.step_arrivals e).trans ?_
      rw [ih]
      exact List.filterMap_append.symm

/-- The connections that have arrived have been admitted, dropped or aborted in the order in which they came, each
once, and the others wait in that order; none is dropped as long as the acceptor finds a free descriptor. -/
theorem connections_settled (run : ListeningRun limit isOpen p₀ events) (k : Nat) :
    (processAt p₀ events k).fates.map Prod.fst ++ (processAt p₀ events k).backlog =
      ServerProcess.connects (events.take k) ∧
    ((∀ j < k, ∀ fault logged fault', events[j]? = some (.canAccept fault logged fault') →
      logged ≠ some .emfile ∧ (processAt p₀ events j).lowestFree ≠ none) →
      ∀ f ∈ (processAt p₀ events k).fates, f.2 ≠ .dropped) := by
  refine ⟨processAt_arrivals run k, ?_⟩
  induction k with
  | zero =>
    intro _
    have empty : p₀.fates.map Prod.fst ++ p₀.backlog = [] := ServerProcess.start_arrivals run.started
    have none : p₀.fates = [] := List.map_eq_nil_iff.mp (List.append_eq_nil_iff.mp empty).1
    simp [processAt, stateAt_zero, none]
  | succ k ih =>
    intro free
    have before := ih fun j hj => free j (by omega)
    cases he : events[k]? with
    | none =>
      rw [processAt, stateAt_end he]
      exact before
    | some e =>
      rw [processAt, stateAt_succ he]
      refine ServerProcess.Inv.step_spares (processAt_inv run k) ?_ before
      rintro fault logged fault' rfl
      exact free k (by omega) fault logged fault' he

theorem connections_settled_crowded :
    (∀ f ∈ (processAt crowded crowdedRun 3).fates, f.2 ≠ .dropped) ∧
      (processAt crowded crowdedRun 4).fates = [(⟨1, 80⟩, .admitted), (⟨2, 80⟩, .dropped)] := by
  refine ⟨(connections_settled crowdedRun_listening 3).2 ?_, by decide +kernel⟩
  intro j hj fault logged fault' he
  rcases j with _ | _ | _ | j
  · cases he
  · cases he
  · cases he
    exact ⟨by simp, by decide +kernel⟩
  · omega

/-- As many calls of the acceptor as there are connections leave none waiting, so that the poller stops reporting it:
each is admitted, or dropped if there is no descriptor for it; and with all descriptors in use the calls change nothing
else. -/
theorem accept_drains (run : ListeningRun limit isOpen p₀ events) (k : Nat) :
    let p := processAt p₀ events k
    let q := (List.replicate p.backlog.length (.canAccept none none none)).foldl ServerProcess.step p
    (q.backlog = [] ∧ ∃ fates, q.fates = p.fates ++ fates ∧ fates.map Prod.fst = p.backlog ∧
      ∀ f ∈ fates, f.2 ≠ .aborted) ∧
    (p.lowestFree = none → q = { p with backlog := [], fates := p.fates ++ p.backlog.map (·, .dropped) }) := by
  intro p q
  have inv : p.Inv := processAt_inv run k
  exact inv.drain rfl

/-- Two connections wait, and there is a descriptor for the first one; when it is taken, none is left for the second. -/
theorem accept_drains_crowded :
    (processAt crowded crowdedRun 2).backlog = [⟨1, 80⟩, ⟨2, 80⟩] ∧
      ((List.replicate 2 (.canAccept none none none)).foldl ServerProcess.step
        (processAt crowded crowdedRun 2)).backlog = [] ∧
      (processAt crowded crowdedRun 3).lowestFree = none ∧
      (processAt crowded crowdedRun 3).handleCanRecv none none none =
        { processAt crowded crowdedRun 3 with
          backlog := [], fates := (processAt crowded crowdedRun 3).fates ++ [(⟨2, 80⟩, .dropped)] } := by
  have two : (processAt crowded crowdedRun 2).backlog = [⟨1, 80⟩, ⟨2, 80⟩] := by decide +kernel
  have drained := (accept_drains crowdedRun_listening 2).1.1
  rw [two] at drained
  have full : (processAt crowded crowdedRun 3).lowestFree = none := by decide +kernel
  exact ⟨two, drained, full, (accept_drains crowdedRun_listening 3).2 full⟩

end Wddlib
