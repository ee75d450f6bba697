import Wddlib.MachineInt
import Mathlib.Logic.Function.Basic

namespace Wddlib

structure InetAddress where
  ip : UInt32
  port : UInt16
  deriving DecidableEq, Repr

structure ConnectionRecord where
  idx : Int
  connid : Int
  fd : Int
  channelid : Int
  addr : InetAddress
  deriving DecidableEq, Repr

namespace ConnectionRecord

def isValid (connred : ConnectionRecord) : Bool := decide (connred.fd > 0)

def attatch (connred : ConnectionRecord) (fd : Int) (addr : InetAddress) : ConnectionRecord :=
  { connred with addr := addr, fd := fd }

/-- `m_connid += maxconn` adds an `int` and an unsigned value and stores the sum in an `int`. -/
def updateConnid (connred : ConnectionRecord) (maxconn : Nat) : ConnectionRecord :=
  let connid := int32 (connred.connid + maxconn)
  { connred with connid := if connid < connred.idx then connred.idx else connid }

def detatch (connred : ConnectionRecord) (maxconn : Nat) : ConnectionRecord :=
  updateConnid { connred with channelid := 0, fd := 0, addr := ⟨0, 0⟩ } maxconn

end ConnectionRecord

/-- The connection records of an `EpollServer` and its free indices; `maxconn` is the configured
value, `vecSize` the size `m_vec` was given. -/
structure ConnTable where
  maxconn : Nat
  vecSize : Nat
  vec : Nat → ConnectionRecord
  idxvec : List Int

namespace ConnTable

def create (maxconn : Nat) : ConnTable where
  maxconn := maxconn
  vecSize := maxconn
  vec i := ⟨int32 i, int32 i, 0, 0, ⟨0, 0⟩⟩
  idxvec := (List.range maxconn).map fun i : Nat => int32 i

def setRecord (t : ConnTable) (i : Nat) (connred : ConnectionRecord) : ConnTable :=
  { t with vec := Function.update t.vec i connred }

def getFreeIdx (t : ConnTable) : Int × ConnTable :=
  match t.idxvec.getLast? with
  | none => (-1, t)
  | some connid => (connid, { t with idxvec := t.idxvec.dropLast })

def returnIdx (t : ConnTable) (idx : Int) : ConnTable :=
  if idx ≥ 0 ∧ idx < int32 t.maxconn then { t with idxvec := t.idxvec ++ [idx] } else t

def getCurrConn (t : ConnTable) : Nat := sizeSub t.maxconn t.idxvec.length

/-- The position of the record in `m_vec`, `none` for NULL. -/
def getConnectionRecord (t : ConnTable) (connid : Int) : Option Nat :=
  if connid ≥ 0 then
    let i := connid.toNat % t.vecSize
    if (t.vec i).isValid ∧ (t.vec i).connid = connid then some i else none
  else none

def getConnectionRecordByIdx (t : ConnTable) (idx : Int) : Option Nat :=
  if idx ≥ 0 then
    let i := idx.toNat % t.vecSize
    if (t.vec i).idx = idx then some i else none
  else none

/-- `_CloseConn`. -/
def closeConn (t : ConnTable) (connid : Int) : ConnTable :=
  match t.getConnectionRecord connid with
  | none => t
  | some i => (t.returnIdx (t.vec i).idx).setRecord i ((t.vec i).detatch t.maxconn)

/-- `_RecoredNewConn`. -/
def recoredNewConn (t : ConnTable) (fd : Int) (addr : InetAddress) : Int × ConnTable :=
  let free := t.getFreeIdx
  match free.2.getConnectionRecordByIdx free.1 with
  | none => (-1, free.2.closeConn free.1)
  | some i =>
    if (free.2.vec i).isValid then (-1, free.2.closeConn free.1)
    else ((free.2.vec i).connid, free.2.setRecord i ((free.2.vec i).attatch fd addr))

def setChannelid (t : ConnTable) (i : Nat) (id : Int) : ConnTable :=
  t.setRecord i { t.vec i with channelid := id }

end ConnTable

end Wddlib
