import Wddlib.ConnTableReload
import Wddlib.ServerRun

namespace Wddlib

open ConnTable

namespace EpollServer

/-- The releases that the server has made, the latest first. -/
def releases (s : EpollServer) : List (Nat × Int) :=
  s.effects.filterMap fun
    | .released i connid => some (i, connid)
    | _ => none

/-- Every change to the table on the way from `s` to `s'` is one that the server makes, and its releases
are noted. -/
def Follows (s s' : EpollServer) : Prop :=
  ∃ log, TableRun s.table log s'.table ∧ s'.releases = log ++ s.releases

variable {s s' s'' : EpollServer} {fd : Int}

theorem Follows.of_eq (table : s'.table = s.table) (releases : s'.releases = s.releases) : Follows s s' := by
  refine ⟨[], ?_, releases⟩
  rw [table]
  exact .refl

theorem Follows.refl (s : EpollServer) : Follows s s := .of_eq rfl rfl

theorem Follows.trans (first : Follows s s') (second : Follows s' s'') : Follows s s'' := by
  obtain ⟨log, run, noted⟩ := first
  obtain ⟨log', run', noted'⟩ := second
  exact ⟨log' ++ log, run.trans run', by rw [noted', noted, List.append_assoc]⟩

theorem sendMsg_follows (s : EpollServer) (channelid : Int) (msg : ServerMsg) :
    Follows s (s.sendMsg channelid msg) := by
  unfold sendMsg
  split
  · exact .of_eq rfl rfl
  · exact .refl s

theorem closeConn_follows (s : EpollServer) (connid : Int) : Follows s (s.closeConn connid) := by
  unfold closeConn
  split
  · exact .refl s
  next i found => exact ⟨[(i, connid)], .closed .refl found, rfl⟩

theorem onCloseChannel_follows (s : EpollServer) (ch : ServerChannel) : Follows s (s.onCloseChannel ch) := by
  unfold onCloseChannel
  simp only
  split
  · exact (closeConn_follows s ch.id).trans (.of_eq rfl rfl)
  · exact ((sendMsg_follows s _ _).trans (closeConn_follows _ ch.id)).trans (.of_eq rfl rfl)

theorem handleClose_follows (s : EpollServer) (ch : ServerChannel) : Follows s (s.handleClose ch) := by
  have closed : Follows s (s.close ch).2 := .of_eq rfl rfl
  exact closed.trans (onCloseChannel_follows _ _)

theorem tcpOnNewChannel_follows (s : EpollServer) (fd : Int) : Follows s (s.tcpOnNewChannel fd) := by
  unfold tcpOnNewChannel
  simp only
  split
  · exact .of_eq rfl rfl
  next ch _ => exact (handleClose_follows s ch).trans (.of_eq rfl rfl)

theorem onNewChannel_follows (s : EpollServer) (pos : 0 < fd) (addr : InetAddress) (startSent : Bool) :
    Follows s (s.onNewChannel fd addr startSent).2 := by
  have made := tcpOnNewChannel_follows s fd
  have recored : Follows (s.tcpOnNewChannel fd)
      { s.tcpOnNewChannel fd with table := ((s.tcpOnNewChannel fd).table.recoredNewConn fd addr).2 } :=
    ⟨[], .recored .refl pos addr, rfl⟩
  unfold onNewChannel
  simp only
  split
  · exact made
  · split
    · exact (made.trans recored).trans (.of_eq rfl rfl)
    · have announced : ∀ e : EpollServer, e.table = ((s.tcpOnNewChannel fd).table.recoredNewConn fd addr).2 →
          e.releases = (s.tcpOnNewChannel fd).releases → Follows s e := by
        intro e htable hreleases
        exact (made.trans recored).trans (.of_eq htable hreleases)
      split
      · exact announced _ rfl rfl
      · refine .trans ?_ (closeConn_follows _ _)
        exact announced _ rfl rfl

theorem closeConnid_follows (s : EpollServer) (connid : Int) : Follows s (s.closeConnid connid) := by
  unfold closeConnid
  simp only
  split
  · exact closeConn_follows s connid
  · split
    · exact closeConn_follows s connid
    next ch _ => exact (handleClose_follows s ch).trans (closeConn_follows _ connid)

theorem setChannelid_follows (s : EpollServer) (i : Nat) (id : Int) : Follows s (s.setChannelid i id) :=
  ⟨[], .routed .refl i id, rfl⟩

theorem startRspHandle_follows (s : EpollServer) (msg : BackendMsg) : Follows s (s.startRspHandle msg).2 := by
  unfold startRspHandle
  split
  · exact .refl s
  next i _ =>
    split
    · exact closeConnid_follows s _
    · split
      · exact setChannelid_follows s i _
      · exact closeConnid_follows s _

theorem stopHandle_follows (s : EpollServer) (msg : BackendMsg) : Follows s (s.stopHandle msg).2 := by
  unfold stopHandle
  split
  · exact .refl s
  · exact (sendMsg_follows s _ _).trans (closeConnid_follows _ _)

theorem routeHandle_follows (s : EpollServer) (msg : BackendMsg) : Follows s (s.routeHandle msg).2 := by
  unfold routeHandle
  split
  · exact .refl s
  next i _ =>
    refine .trans ?_ (sendMsg_follows _ _ _)
    split
    · exact setChannelid_follows s i _
    · exact .refl s

theorem msgNtfHandle_follows (s : EpollServer) (msg : BackendMsg) (fromChannel : Int) :
    Follows s (s.msgNtfHandle msg fromChannel).2 := by
  unfold msgNtfHandle
  split
  · exact sendMsg_follows s _ _
  · split
    · exact (sendMsg_follows s _ _).trans (closeConnid_follows _ _)
    · exact .of_eq rfl rfl

theorem handleMsg_follows (s : EpollServer) (msg : BackendMsg) (fromChannel : Int) :
    Follows s (s.handleMsg msg fromChannel).2 := by
  unfold handleMsg
  split
  · exact startRspHandle_follows s msg
  split
  · exact stopHandle_follows s msg
  split
  · exact routeHandle_follows s msg
  split
  · exact msgNtfHandle_follows s msg fromChannel
  · exact .refl s

theorem forward_follows (s : EpollServer) (ch : ServerChannel) (payload : List UInt8) :
    Follows s (s.forward ch payload) := by
  unfold forward
  split
  · exact .refl s
  · exact sendMsg_follows s _ _

theorem step_follows {e : ServerEvent} (possible : e.Possible s) : Follows s (s.step e) := by
  cases e with
  | accept fd addr startSent =>
    have opened : Follows s { s with isOpen := Function.update s.isOpen fd true } := .of_eq rfl rfl
    exact opened.trans (onNewChannel_follows _ possible.1 addr startSent)
  | clientClose fd =>
    simp only [step]
    split
    · exact .refl s
    next ch _ => exact handleClose_follows s ch
  | clientFrame fd payload =>
    simp only [step]
    split
    · exact .refl s
    next ch _ => exact forward_follows s ch payload
  | backendMsg fromChannel msg => exact handleMsg_follows s msg fromChannel
  | tick now => exact .of_eq rfl rfl

end EpollServer

/-- What happens to a server whose configuration is loaded again from time to time. -/
inductive ReloadEvent where
  | server (e : ServerEvent)
  | reload (maxconn : Nat)
  deriving DecidableEq, Repr

namespace ReloadEvent

/-- `m_vec` keeps the size that it was given, and `maxconn` is read where it is used. -/
def step (s : EpollServer) : ReloadEvent → EpollServer
  | server e => s.step e
  | reload maxconn => { s with table := { s.table with maxconn := maxconn } }

/-- `maxconn` is an unsigned value. -/
def Possible (s : EpollServer) : ReloadEvent → Prop
  | server e => e.Possible s
  | reload maxconn => 0 < maxconn ∧ maxconn < 4294967296

/-- The releases of one event. -/
def released (s : EpollServer) (e : ServerEvent) : List (Nat × Int) :=
  (s.step e).releases.take ((s.step e).releases.length - s.releases.length)

/-- Every record that the event releases is released well under the configuration of the time. -/
def ReleasesWell (size : Nat) (s : EpollServer) : ReloadEvent → Prop
  | server e => ∀ r ∈ released s e, GoodRelease size s.table.maxconn r.1 r.2
  | reload _ => True

instance decidablePossible (s : EpollServer) (e : ReloadEvent) : Decidable (e.Possible s) :=
  match e with
  | server e => ServerEvent.decidablePossible s e
  | reload maxconn => inferInstanceAs (Decidable (0 < maxconn ∧ maxconn < 4294967296))

instance decidableReleasesWell (size : Nat) (s : EpollServer) (e : ReloadEvent) : Decidable (e.ReleasesWell size s) :=
  match e with
  | server e => inferInstanceAs (Decidable (∀ r ∈ released s e, r.1 < s.table.maxconn ∧
      s.table.maxconn < 2147483648 ∧ (size ∣ s.table.maxconn ∨ 2147483648 ≤ r.2 + s.table.maxconn)))
  | reload _ => .isTrue trivial

/-- The table as it stands under any configuration. -/
structure Steady (size : Nat) (s : EpollServer) : Prop where
  base : Base size s.table
  maxconn_lt : s.table.maxconn < 4294967296

variable {size : Nat} {s : EpollServer} {e : ReloadEvent}

/-- One event: the table stays whole if and only if what is released is released well. -/
theorem Steady.step (steady : Steady size s) (possible : e.Possible s) :
    Steady size (e.step s) ∧
      (s.table.LookupKept → ((e.step s).table.LookupKept ↔ e.ReleasesWell size s)) := by
  cases e with
  | reload maxconn =>
    have base := steady.base
    refine ⟨⟨⟨base.vecSize_eq, base.idx_eq, base.idx_le, base.connid_lt, base.nodup, base.free, base.used⟩,
      possible.2⟩, ?_⟩
    intro kept
    exact ⟨fun _ => trivial, fun _ => kept⟩
  | server e =>
    obtain ⟨log, run, noted⟩ := EpollServer.step_follows possible
    obtain ⟨base, same⟩ := run.kept_base steady.base
    refine ⟨⟨base, same.trans_lt steady.maxconn_lt⟩, ?_⟩
    intro kept
    have hlog : released s e = log := by simp [released, noted]
    rw [ReleasesWell, hlog]
    exact run.lookupKept_iff steady.base steady.maxconn_lt kept

theorem create_steady (channels : Nat) (fits : size ≤ 2147483648) : Steady size (.create size channels) :=
  ⟨create_base fits, show size < 4294967296 by omega⟩

end ReloadEvent

/-- The server after the first `k` events. -/
def reloadAt (size channels : Nat) (events : List ReloadEvent) (k : Nat) : EpollServer :=
  stateAt ReloadEvent.step (.create size channels) events k

def PossibleReloads (size channels : Nat) (events : List ReloadEvent) : Prop :=
  ∀ k (e : ReloadEvent), events[k]? = some e → e.Possible (reloadAt size channels events k)

/-- Whatever is loaded, records are found and no index is lost in every state of a run if and only if
the table has no more records than an `int` can name and every release of the run is a good one. -/
theorem lookup_survives_reload_iff {size channels : Nat} {events : List ReloadEvent} (small : size < 4294967296)
    (possible : PossibleReloads size channels events) :
    (∀ k, (reloadAt size channels events k).table.LookupKept) ↔
      size ≤ 2147483648 ∧ ∀ k (e : ReloadEvent), events[k]? = some e →
        e.ReleasesWell size (reloadAt size channels events k) := by
  constructor
  · intro kept
    have fits : size ≤ 2147483648 := by
      by_contra large
      exact create_not_kept (by omega) small (kept 0)
    refine ⟨fits, ?_⟩
    intro k e he
    have steady : ReloadEvent.Steady size (reloadAt size channels events k) := by
      refine stateAt_induct (ReloadEvent.create_steady channels fits) ?_ k
      intro k e he h
      exact (h.step (possible k e he)).1
    have after := kept (k + 1)
    rw [reloadAt, stateAt_succ he] at after
    exact ((steady.step (possible k e he)).2 (kept k)).mp after
  · rintro ⟨fits, well⟩ k
    have start := @ReloadEvent.create_steady size channels fits
    have kept := start.base.lookupKept_iff.mpr (create_whole fits)
    refine (@stateAt_induct _ _ _ _ events
      (fun s => ReloadEvent.Steady size s ∧ s.table.LookupKept) ⟨start, kept⟩ ?_ k).2
    rintro k e he ⟨steady, kept⟩
    obtain ⟨steady', hkept⟩ := steady.step (possible k e he)
    exact ⟨steady', (hkept kept).mpr (well k e he)⟩

/-- Two records; `maxconn` is doubled before the first client leaves, and a third one comes. -/
def doubledRun : List ReloadEvent :=
  [.server (.accept 5 ⟨1, 80⟩ true), .server (.accept 6 ⟨2, 80⟩ true), .reload 4, .server (.clientClose 5),
    .server (.accept 5 ⟨3, 80⟩ true)]

theorem lookup_survives_reload_iff_doubled :
    PossibleReloads 2 1 doubledRun ∧ ∀ k, (reloadAt 2 1 doubledRun k).table.LookupKept := by
  have possible : PossibleReloads 2 1 doubledRun := forall_event_iff.mpr (by decide +kernel)
  refine ⟨possible, (lookup_survives_reload_iff (by decide) possible).mpr ⟨by decide, ?_⟩⟩
  exact forall_event_iff.mpr (by decide +kernel)

/-- Two records; `maxconn` is raised to 3 before the client leaves: its record gets a number that is
looked up at the other record, and the next client on it is not found. -/
def raisedRun : List ReloadEvent :=
  [.server (.accept 5 ⟨1, 80⟩ true), .reload 3, .server (.clientClose 5), .server (.accept 6 ⟨2, 80⟩ true)]

theorem lookup_lost_after_reload :
    PossibleReloads 2 1 raisedRun ∧
    ((reloadAt 2 1 raisedRun 4).table.vec 1).isValid = true ∧ ((reloadAt 2 1 raisedRun 4).table.vec 1).connid = 4 ∧
    (reloadAt 2 1 raisedRun 4).table.getConnectionRecord 4 = none ∧
    ¬ (reloadAt 2 1 raisedRun 4).table.LookupKept := by
  refine ⟨forall_event_iff.mpr (by decide +kernel), by decide +kernel, by decide +kernel, by decide +kernel, ?_⟩
  intro kept
  exact absurd (kept 1 (by decide +kernel)).1 (by decide +kernel)

end Wddlib
