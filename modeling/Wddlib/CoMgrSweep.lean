import Wddlib.CoMgrRun

namespace Wddlib

section Travel

variable {σ : Type}

/-- The loop of `objpool_travel_used` for a callback that may itself use the pool, which is a part of
the state `σ`: the next link is read after the callback. -/
def travelOwnLoop (pool : σ → TObjPool) (setPool : σ → TObjPool → σ) (travel : σ → Option ObjPtr → TravelRet × σ) :
    Nat → σ → Int → Option σ
  | 0, _, _ => none
  | fuel + 1, s, i =>
    if i = -1 then some s
    else
      match travel s (objpoolGetBypos (pool s) i) with
      | (.breakTravel, s) => some s
      | (.removeMe, s) =>
        travelOwnLoop pool setPool travel fuel (setPool s (objpoolFreeBypos (pool s) i).2) ((pool s).idx i).nextIdx
      | (.doThing, s) => travelOwnLoop pool setPool travel fuel s ((pool s).idx i).nextIdx

end Travel

/-- The slots of the used list, in its order. -/
def TObjPool.usedSlots (pool : TObjPool) : List Int :=
  follow pool.usedCount.toNat pool.usedHead
where
  follow : Nat → Int → List Int
    | 0, _ => []
    | n + 1, i => if i = -1 then [] else i :: follow n (pool.idx i).nextIdx

/-- What a resumed coroutine does until it gives control back: it allocates some coroutines and then
yields until `some expiretime`, or returns. -/
structure Turn where
  allocs : Nat
  ending : Option Int
  ssize : Nat
  deriving DecidableEq, Repr

def Turn.last (turn : Turn) : MgrEvent :=
  match turn.ending with
  | some expiretime => .yield expiretime turn.ssize
  | none => .ret

namespace SCoMgr

/-- `Resume` from outside of all coroutines, and what coroutine `x` does until the call returns. The
caller has no stack to save. -/
def resumeTurn (m : SCoMgr) (x : Nat) (turn : Turn) : SCoMgr :=
  let resumed := m.step (.resume (m.info x).iPoolID 0)
  if resumed.sch.owner = some x then ((List.replicate turn.allocs .alloc).foldl step resumed).step turn.last
  else resumed

/-- `fnProcessExpire`; `turn x` is what coroutine `x` does when it is resumed. -/
def fnProcessExpire (tNow : Int) (turn : Nat → Turn) (m : SCoMgr) (node : Option ObjPtr) : TravelRet × SCoMgr :=
  match node with
  | none => (.doThing, m)
  | some p =>
    let x := p.slot.toNat
    if (m.info x).tExpireTime ≤ tNow then (.doThing, (m.markTimeOut x).resumeTurn x (turn x)) else (.doThing, m)

/-- What the function of `ProcessAllActiveFun` does to the manager in a call for the coroutine `x`: `f` has the
operations that come, its own and those of the coroutines that it resumes, from the state with all calls so far
in its log and the id of this one. -/
def funVisit (f : SCoMgr → Int → List MgrEvent) (m : SCoMgr) (x : Nat) : SCoMgr :=
  let id := (m.info x).iPoolID
  (f (m.record (.called id)) id).foldl step (m.record (.called id))

def fnProcessfun (f : SCoMgr → Int → List MgrEvent) (m : SCoMgr) (node : Option ObjPtr) : TravelRet × SCoMgr :=
  match node with
  | none => (.doThing, m)
  | some p => (.doThing, m.funVisit f p.slot.toNat)

def setPool (m : SCoMgr) (pool : TObjPool) : SCoMgr := { m with pool := pool }

/-- `objpool_travel_used` over the pool of the manager, with a bound on the iterations that is proved
to be enough. -/
def travelUsed (m : SCoMgr) (travel : SCoMgr → Option ObjPtr → TravelRet × SCoMgr) : Option SCoMgr :=
  travelOwnLoop pool setPool travel (m.pool.usedCount.toNat + 1) m m.pool.usedHead

def processAllExpire (m : SCoMgr) (tNow : Int) (turn : Nat → Turn) : Option SCoMgr :=
  m.travelUsed (fnProcessExpire tNow turn)

/-- `none` when the loop has not ended after `fuel` iterations. -/
def processAllActiveFun (fuel : Nat) (m : SCoMgr) (f : SCoMgr → Int → List MgrEvent) : Option SCoMgr :=
  travelOwnLoop pool setPool (fnProcessfun f) fuel m m.pool.usedHead

/-- The coroutines of the manager in the order of the used list, in which a sweep meets them. -/
def slots (m : SCoMgr) : List Nat := m.pool.usedSlots.map Int.toNat

/-- Coroutine `y` is there throughout a run from `m`: its slot is in use in every state. -/
def liveThrough : SCoMgr → List MgrEvent → Nat → Bool
  | m, [], y => decide (y ∈ m.slots)
  | m, e :: events, y => decide (y ∈ m.slots) && (m.step e).liveThrough events y

/-- Of the coroutines that were still live when `x` is reached, those that the call for `x` leaves. -/
def stillLive (f : SCoMgr → Int → List MgrEvent) (m : SCoMgr) (x : Nat) (live : Nat → Bool) (y : Nat) : Bool :=
  let id := (m.info x).iPoolID
  live y && (m.record (.called id)).liveThrough (f (m.record (.called id)) id) y

/-- The ids that `f` is to be called with when a sweep has the coroutines `xs` before it: those of the
coroutines that are still live when they are reached. -/
def liveCalls (f : SCoMgr → Int → List MgrEvent) : List Nat → (Nat → Bool) → SCoMgr → List Int
  | [], _, _ => []
  | x :: xs, live, m =>
    if live x then (m.info x).iPoolID :: liveCalls f xs (m.stillLive f x live) (m.funVisit f x)
    else liveCalls f xs live m

/-- From the slot `x` the used list goes on with `ys`; or there is no one left, and the slot is the last free
one or all coroutines are gone. -/
def LeadsTo (m : SCoMgr) (x : Nat) (ys : List Nat) : Prop :=
  (∃ front, m.slots = front ++ x :: ys) ∨ ys = [] ∧ (m.pool.freeTail = x ∨ m.slots = [])

/-- After every call for one of `xs`, its slot leads to those behind it that are still live. -/
def FindsNext (f : SCoMgr → Int → List MgrEvent) : List Nat → (Nat → Bool) → SCoMgr → Prop
  | [], _, _ => True
  | x :: xs, live, m =>
    if live x then
      (m.funVisit f x).LeadsTo x (xs.filter (m.stillLive f x live)) ∧
        FindsNext f xs (m.stillLive f x live) (m.funVisit f x)
    else FindsNext f xs live m

/-- What `f` does is a legal run from any state outside of all coroutines, and ends outside. -/
def LegalFun (f : SCoMgr → Int → List MgrEvent) : Prop :=
  ∀ (m : SCoMgr) id, m.Ordered → m.sch.owner = none →
    LegalMgrRun m (f m id) ∧ ((f m id).foldl step m).sch.owner = none

/-- `f` leaves the coroutine live that it is called for. -/
def SparesOwn (f : SCoMgr → Int → List MgrEvent) : Prop :=
  ∀ (m : SCoMgr) x, m.Ordered → m.sch.owner = none → x ∈ m.slots →
    m.stillLive f x (fun _ => true) x = true

end SCoMgr

/-- The coroutines that were resumed from outside of all coroutines, the last one first. -/
def outsideResumes (log : List CoLog) : List Nat :=
  log.filterMap fun
    | .resumed none x => some x
    | _ => none

/-- The ids that the function of `ProcessAllActiveFun` was called with, the last one first. -/
def calledIds (log : List MgrLog) : List Int :=
  log.filterMap fun
    | .called id => some id
    | _ => none

end Wddlib
