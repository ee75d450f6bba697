import Wddlib.MachineInt
import Mathlib.Logic.Function.Basic
import Mathlib.Tactic.Common

namespace Wddlib

structure TPoolIdx where
  nextIdx : Int
  prevIdx : Int
  accumulate : Int
  usedFlag : Int
  deriving DecidableEq, Repr

/-- The pool header with the index array it points to. The object area `m_pObj` belongs to the
caller: the pool never reads it and names an object by its slot. -/
structure TObjPool where
  usedCount : Int
  freeHead : Int
  freeTail : Int
  usedHead : Int
  capacity : Int
  unitSize : Int
  idx : Int → TPoolIdx

/-- The address `m_pObj + slot * m_iUnitSize`: the slot and the byte offset computed from it. -/
structure ObjPtr where
  slot : Int
  offset : Int
  deriving DecidableEq, Repr

inductive TravelRet where
  | doThing
  | breakTravel
  | removeMe
  deriving DecidableEq, Repr

def errObjpoolNullptr : Int := -1
def errObjpoolMemover : Int := -2
def errObjpoolFull : Int := -3
def errObjpoolLogicerror : Int := -5

/-- `GET_POOL_MEM_SIZE`, with `sizeof(TPoolIdx) = 16` and `sizeof(TObjPool) = 40`. -/
def getPoolMemSize (itemSize poolCapacity : Nat) : Nat :=
  ((itemSize + 16) * poolCapacity + 40) % 18446744073709551616

/-- The index array after the loop of `objpool_init`, before its last entry is closed. -/
def initIdx (i : Int) : TPoolIdx :=
  ⟨int32 (i + 1), int32 (i - 1), 0, 0⟩

/-- `malloc n` tells whether a request of `n` bytes is served. -/
def objpoolInit (malloc : Nat → Bool) (iMax iUnit : Nat) : Int × Option TObjPool :=
  let memCost := int32 (getPoolMemSize iUnit iMax)
  if malloc (memCost % 18446744073709551616).toNat then
    let last : Int := (iMax : Int) - 1
    (0, some {
      capacity := int32 iMax
      freeHead := 0
      usedCount := 0
      usedHead := -1
      freeTail := int32 last
      unitSize := int32 iUnit
      idx := Function.update initIdx last { initIdx last with nextIdx := -1 } })
  else (errObjpoolMemover, none)

namespace TObjPool

def objAt (pool : TObjPool) (pos : Int) : ObjPtr :=
  ⟨pos, int32 (pos * pool.unitSize)⟩

/-- The handle of a slot: `m_iCapacity * m_iAccumulate + slot` in `int` arithmetic. -/
def logicIdx (pool : TObjPool) (accumulate slot : Int) : Int :=
  int32 (int32 (pool.capacity * accumulate) + slot)

/-- Assignment through a pointer to one entry of the index array. -/
def modifyIdx (pool : TObjPool) (i : Int) (f : TPoolIdx → TPoolIdx) : TObjPool :=
  { pool with idx := Function.update pool.idx i (f (pool.idx i)) }

def setNext (pool : TObjPool) (i next : Int) : TObjPool :=
  pool.modifyIdx i fun e => { e with nextIdx := next }

def setPrev (pool : TObjPool) (i prev : Int) : TObjPool :=
  pool.modifyIdx i fun e => { e with prevIdx := prev }

def setUsedFlag (pool : TObjPool) (i flag : Int) : TObjPool :=
  pool.modifyIdx i fun e => { e with usedFlag := flag }

def setAccumulate (pool : TObjPool) (i accumulate : Int) : TObjPool :=
  pool.modifyIdx i fun e => { e with accumulate := accumulate }

end TObjPool

def objpoolGet (pool : TObjPool) (id : Int) : Option ObjPtr :=
  let realIdx := id.tmod pool.capacity
  if realIdx ≥ pool.capacity ∨ realIdx < 0 ∨ pool.usedCount ≤ 0 then none
  else if id ≠ pool.logicIdx (pool.idx realIdx).accumulate realIdx then none
  else if (pool.idx realIdx).usedFlag = 0 then none
  else some (pool.objAt realIdx)

def objpoolGetBypos (pool : TObjPool) (pos : Int) : Option ObjPtr :=
  if pos ≥ pool.capacity ∨ pos < 0 ∨ pool.usedCount ≤ 0 then none
  else some (pool.objAt pos)

/-- The rewiring of `objpool_alloc`: the first free slot becomes the head of the used list. -/
def allocRelink (pool : TObjPool) : TObjPool :=
  let tempIdx := pool.freeHead
  let usedPrevIdx := pool.usedHead
  let freeNextIdx := (pool.idx tempIdx).nextIdx
  let pool := { pool with freeHead := freeNextIdx, usedHead := tempIdx }
  let pool := if pool.freeHead < 0 then { pool with freeTail := -1 } else pool
  let pool := { pool with usedCount := int32 (pool.usedCount + 1) }
  let pool := if freeNextIdx ≥ 0 then pool.setPrev freeNextIdx (-1) else pool
  let pool := if usedPrevIdx ≥ 0 then pool.setPrev usedPrevIdx tempIdx else pool
  let pool := pool.setUsedFlag tempIdx 1
  let pool := pool.setNext tempIdx usedPrevIdx
  pool.setPrev tempIdx (-1)

def objpoolAlloc (pool : TObjPool) : Int × TObjPool :=
  if pool.usedCount ≥ pool.capacity then (errObjpoolFull, pool)
  else
    let tempIdx := pool.freeHead
    let pool := allocRelink pool
    let pool := pool.setAccumulate tempIdx (int32 ((pool.idx tempIdx).accumulate + 1))
    let logicIdx := pool.logicIdx (pool.idx tempIdx).accumulate tempIdx
    if (pool.idx tempIdx).accumulate < 0 ∨ logicIdx < 0 then
      let pool := pool.setAccumulate tempIdx 1
      (pool.logicIdx (pool.idx tempIdx).accumulate tempIdx, pool)
    else (logicIdx, pool)

/-- The rewiring of `objpool_free`: a used slot becomes the tail of the free list. -/
def freeRelink (pool : TObjPool) (readIdx : Int) : TObjPool :=
  let lastFreeTail := pool.freeTail
  let nextUsedIdx := (pool.idx readIdx).nextIdx
  let prevUsedIdx := (pool.idx readIdx).prevIdx
  let pool := { pool with freeTail := readIdx }
  let pool := if lastFreeTail < 0 then { pool with freeHead := readIdx } else pool
  let pool := if pool.usedHead = readIdx then { pool with usedHead := nextUsedIdx } else pool
  let pool := { pool with usedCount := int32 (pool.usedCount - 1) }
  let pool := if prevUsedIdx ≥ 0 then pool.setNext prevUsedIdx (pool.idx readIdx).nextIdx else pool
  let pool := if nextUsedIdx ≥ 0 then pool.setPrev nextUsedIdx (pool.idx readIdx).prevIdx else pool
  let pool := if lastFreeTail ≥ 0 then pool.setNext lastFreeTail readIdx else pool
  let pool := pool.setUsedFlag readIdx 0
  let pool := pool.setNext readIdx (-1)
  pool.setPrev readIdx lastFreeTail

def objpoolFree (pool : TObjPool) (id : Int) : Int × TObjPool :=
  let readIdx := id.tmod pool.capacity
  if readIdx ≥ pool.capacity ∨ readIdx < 0 ∨ pool.usedCount ≤ 0 then (errObjpoolLogicerror, pool)
  else if (pool.idx readIdx).usedFlag ≠ 1 then (errObjpoolLogicerror, pool)
  else if id ≠ pool.logicIdx (pool.idx readIdx).accumulate readIdx then (errObjpoolLogicerror, pool)
  else (0, freeRelink pool readIdx)

def objpoolFreeBypos (pool : TObjPool) (pos : Int) : Int × TObjPool :=
  if pos ≥ pool.capacity ∨ pos < 0 ∨ pool.usedCount ≤ 0 then (errObjpoolLogicerror, pool)
  else objpoolFree pool (pool.logicIdx (pool.idx pos).accumulate pos)

def objpoolGetUsedItems (pool : TObjPool) : Int := pool.usedCount

def objpoolGetSize (pool : TObjPool) : Int := pool.capacity

section Travel

variable {σ : Type}

/-- The traversal loop with an explicit iteration budget. The callback sees the object it is
called on and its own state `σ`; it answers and may change that state. -/
def travelLoop (travel : σ → Option ObjPtr → TravelRet × σ) : Nat → TObjPool → Int → σ →
    Option (TObjPool × σ)
  | 0, _, _, _ => none
  | fuel + 1, pool, i, arg =>
    if i = -1 then some (pool, arg)
    else
      match travel arg (objpoolGetBypos pool i) with
      | (.breakTravel, arg) => some (pool, arg)
      | (.removeMe, arg) =>
        travelLoop travel fuel (objpoolFreeBypos pool i).2 (pool.idx i).nextIdx arg
      | (.doThing, arg) => travelLoop travel fuel pool (pool.idx i).nextIdx arg

/-- The budget is a proved bound on the iterations, not a cap on the traversal. -/
def objpoolTravelUsed (travel : σ → Option ObjPtr → TravelRet × σ) (pool : TObjPool) (arg : σ) :
    Option (TObjPool × σ) :=
  travelLoop travel (pool.usedCount.toNat + 1) pool pool.usedHead arg

end Travel

end Wddlib
