import Wddlib.RecvStream

namespace Wddlib

/-- A protobuf message type: its packet option, and the generated code that sizes, serialises and
parses its messages. The parser gets a size and the memory it may read. -/
structure Codec (M : Type) where
  protocolPacket : Bool
  byteSize : M → Nat
  serializeToArray : M → Option (List UInt8)
  parseFromArray : Int → (Nat → UInt8) → Option M

/-- What is relied on of protobuf: parsing inverts serialisation. -/
structure Codec.Lawful {M : Type} (codec : Codec M) : Prop where
  size : ∀ msg bytes, codec.serializeToArray msg = some bytes → bytes.length = codec.byteSize msg
  inverse : ∀ msg bytes mem, codec.serializeToArray msg = some bytes → bytes.length < 2147483648 →
    (∀ i, i < bytes.length → bytes[i]? = some (mem i)) → codec.parseFromArray bytes.length mem = some msg

/-- The bytes that storing `htonl(n)` leaves in memory. -/
def htonl (n : Nat) : List UInt8 :=
  [UInt8.ofNat (n / 16777216), UInt8.ofNat (n / 65536), UInt8.ofNat (n / 256), UInt8.ofNat n]

namespace PbParser

variable {M : Type}

/-- The buffer and the length that `Pack` reports, `none` for -1. -/
def pack (codec : Codec M) (msg : M) : Option (List UInt8 × Int) :=
  let len := int32 (codec.byteSize msg)
  if codec.protocolPacket then
    let len := int32 (len + 4)
    (codec.serializeToArray msg).map fun bytes => (htonl (len % 4294967296).toNat ++ bytes, len)
  else (codec.serializeToArray msg).map fun bytes => (bytes, len)

/-- The message and the length that `UnPack` reports, `none` for -1; `mem` is the memory at `buff`. -/
def unPack (codec : Codec M) (mem : Nat → UInt8) (len : Int) : Option (M × Int) :=
  if codec.protocolPacket then
    let reallen := ((bigEndian [mem 0, mem 1, mem 2, mem 3] : Int) - 4) % 4294967296
    if reallen > (len - 4) % 18446744073709551616 then none
    else (codec.parseFromArray (int32 reallen) fun i => mem (i + 4)).map fun msg => (msg, int32 (reallen + 4))
  else
    let reallen := len % 4294967296
    (codec.parseFromArray (int32 reallen) mem).map fun msg => (msg, int32 (reallen + 4))

end PbParser

/-- One turn of the loop of `ConnClient::OnRecvMsg`: the message handled and the number of bytes
retrieved after it. -/
def Codec.onRecvMsg {M : Type} (codec : Codec M) (behind : Nat → UInt8) (b : Buffer) : Option (M × Nat) :=
  let len := int32 b.readableBytes
  if len = 0 then none
  else (PbParser.unPack codec (b.byteAt behind) len).map fun r => (r.1, (r.2 % 18446744073709551616).toNat)

/-- What `SendMsg` puts on the wire for a message. -/
def Codec.packet {M : Type} (codec : Codec M) (msg : M) : List UInt8 :=
  match PbParser.pack codec msg with
  | none => []
  | some (buff, len) => buff.take len.toNat

theorem htonl_length (n : Nat) : (htonl n).length = 4 := rfl

theorem bigEndian_htonl {n : Nat} (h : n < 4294967296) : bigEndian (htonl n) = n := by
  simp only [bigEndian, htonl, List.foldl_cons, List.foldl_nil, UInt8.toNat_ofNat']
  omega
end Wddlib
