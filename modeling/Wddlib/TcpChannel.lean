import Wddlib.NetBuffer

namespace Wddlib

/-- The values of `errno` that the channel tells apart. -/
inductive Errno where
  | zero
  | eagain
  | eintr
  | epipe
  | econnreset
  | other
  deriving DecidableEq, Repr

/-- What a call of `::write` does: the socket takes the first `n` bytes, or it fails. -/
inductive WriteOutcome where
  | wrote (n : Nat)
  | failed (errno : Errno)
  deriving DecidableEq, Repr

namespace WriteOutcome

/-- The returned `ssize_t`. -/
def ret : WriteOutcome → Int
  | wrote n => n
  | failed _ => -1

/-- `errno` after the call; a successful call does not set it. -/
def errnoAfter (old : Errno) : WriteOutcome → Errno
  | wrote _ => old
  | failed errno => errno

def accepted (data : List UInt8) : WriteOutcome → List UInt8
  | wrote n => data.take n
  | failed _ => []

end WriteOutcome

def kMaxSendBufSize : Nat := 52428800
def kMaxRecvBufSize : Nat := 52428800

/-- A channel with the bytes its socket has accepted; `errno` is the calling thread's. -/
structure TcpChannel where
  recvBuf : Buffer
  sendBuf : Buffer
  isWriting : Bool
  errno : Errno
  accepted : List UInt8
  deriving DecidableEq, Repr

namespace TcpChannel

def create : TcpChannel := ⟨.create 1024, .create 1024, false, .zero, []⟩

def appendSendBuf (ch : TcpChannel) (data : List UInt8) : TcpChannel :=
  let sendBuf :=
    if ch.sendBuf.readableBytes > kMaxSendBufSize then (ch.sendBuf.retrieve ch.sendBuf.readableBytes).2
    else ch.sendBuf
  { ch with sendBuf := sendBuf.append data }

/-- The end of `DoSend`: `remaining` bytes at `data` were not written. -/
def queueRemaining (ch : TcpChannel) (data : List UInt8) (remaining : Nat) : TcpChannel :=
  if remaining > 0 then
    let ch := ch.appendSendBuf (data.take remaining)
    if ch.isWriting then ch else { ch with isWriting := true }
  else ch

/-- `outcome` is that of the direct `::write`, which is only made when nothing is pending. -/
def doSend (ch : TcpChannel) (buf : List UInt8) (outcome : WriteOutcome) : Int × TcpChannel :=
  if ch.sendBuf.readableBytes = 0 then
    let nwrote := int32 outcome.ret
    let ch := { ch with
      errno := outcome.errnoAfter ch.errno
      accepted := ch.accepted ++ outcome.accepted buf }
    if nwrote ≥ 0 then
      (0, ch.queueRemaining (buf.drop nwrote.toNat) (sizeSub buf.length nwrote.toNat))
    else if ch.errno ≠ .eagain ∧ (ch.errno = .epipe ∨ ch.errno = .econnreset) then (-1, ch)
    else (0, ch.queueRemaining buf buf.length)
  else (0, ch.queueRemaining buf buf.length)

/-- The result of `::write` is kept in a `size_t`. -/
def doContineSend (ch : TcpChannel) (outcome : WriteOutcome) : TcpChannel :=
  if ch.isWriting then
    let nwrote := (outcome.ret % 18446744073709551616).toNat
    let ch := { ch with
      errno := outcome.errnoAfter ch.errno
      accepted := ch.accepted ++ outcome.accepted (ch.sendBuf.peek.take ch.sendBuf.readableBytes) }
    if nwrote > 0 then
      let ch := { ch with sendBuf := (ch.sendBuf.retrieve nwrote).2 }
      if ch.sendBuf.readableBytes = 0 then { ch with isWriting := false } else ch
    else ch
  else ch

end TcpChannel

/-- The part of `DoRecv` after a successful `::readv` of `chunk`: what does not fit behind the
write index was read into `extrabuf`. -/
def Buffer.scatterRead (b : Buffer) (chunk : List UInt8) : Buffer :=
  let b := if b.readableBytes > kMaxRecvBufSize then (b.retrieve b.readableBytes).2 else b
  let writable := b.writableBytes
  let b := { b with buffer := copyInto b.buffer b.writeIndex (chunk.take writable) }
  if chunk.length ≤ writable then b.writed chunk.length
  else (b.writed writable).append (chunk.drop writable)

end Wddlib
