import Wddlib.PbRoundTrip

namespace Wddlib

section UnPackRange

variable {M : Type} {codec : Codec M} {mem : Nat → UInt8} {len : Nat}

/-- The bytes of `buff` that `UnPack` loads itself. -/
def PbParser.unPackLoads (codec : Codec M) : List Nat :=
  if codec.protocolPacket then [0, 1, 2, 3] else []

/-- The offset and the size that `UnPack` hands to `ParseFromArray`, `none` when it does not come to
that. -/
def PbParser.unPackRange (codec : Codec M) (mem : Nat → UInt8) (len : Int) : Option (Nat × Int) :=
  if codec.protocolPacket then
    let reallen := ((bigEndian [mem 0, mem 1, mem 2, mem 3] : Int) - 4) % 4294967296
    if reallen > (len - 4) % 18446744073709551616 then none else some (4, int32 reallen)
  else some (0, int32 (len % 4294967296))

/-- `UnPack` of a buffer of `len` bytes loads and parses nothing outside it and reports a length
that is not 0 and not beyond it. -/
structure UnPackInside (codec : Codec M) (mem : Nat → UInt8) (len : Nat) : Prop where
  loads : ∀ i ∈ PbParser.unPackLoads codec, i < len
  range : ∀ offset size, PbParser.unPackRange codec mem len = some (offset, size) →
    0 ≤ size ∧ (offset : Int) + size ≤ len
  consumed : ∀ msg consumed, PbParser.unPack codec mem len = some (msg, consumed) →
    1 ≤ consumed ∧ consumed ≤ len

/-- The message is what the parser makes of that range. -/
theorem unPack_eq_range (codec : Codec M) (mem : Nat → UInt8) (len : Int) :
    PbParser.unPack codec mem len =
      (PbParser.unPackRange codec mem len).bind fun r =>
        (codec.parseFromArray r.2 fun i => mem (i + r.1)).map fun msg => (msg, int32 (r.2 + 4)) := by
  unfold PbParser.unPack PbParser.unPackRange
  split
  · simp only [gt_iff_lt]
    split
    · rfl
    · rw [Option.bind_some, int32_int32_add]
  · simp only [Option.bind_some, Nat.add_zero, int32_int32_add]

theorem unPackInside_of_prefix (yes : codec.protocolPacket = true) (hfour : 4 ≤ len) (hlen : len < 2147483648) :
    UnPackInside codec mem len := by
  have hrange : ∀ offset size, PbParser.unPackRange codec mem len = some (offset, size) →
      offset = 4 ∧ 0 ≤ size ∧ size + 4 ≤ len := by
    intro offset size h
    simp only [PbParser.unPackRange, yes, if_true] at h
    split at h
    next => cases h
    next hle =>
      -- the length field minus 4 wraps at 32 bits, the bound minus 4 does not
      obtain ⟨rfl, rfl⟩ := Prod.mk.inj (Option.some.inj h)
      rw [int32_eq_self (by omega) (by omega)]
      omega
  refine ⟨?_, ?_, ?_⟩
  · intro i hi
    simp only [PbParser.unPackLoads, yes, if_true, List.mem_cons, List.not_mem_nil, or_false] at hi
    omega
  · intro offset size h
    obtain ⟨rfl, hsize, hle⟩ := hrange offset size h
    omega
  · intro msg consumed h
    rw [unPack_eq_range] at h
    obtain ⟨⟨offset, size⟩, hr, hmap⟩ := Option.bind_eq_some_iff.mp h
    obtain ⟨-, hsize, hle⟩ := hrange offset size hr
    obtain ⟨parsed, -, hpair⟩ := Option.map_eq_some_iff.mp hmap
    obtain ⟨-, rfl⟩ := Prod.mk.inj hpair
    rw [int32_eq_self (by omega) (by omega)]
    omega

theorem unPackRange_plain (no : codec.protocolPacket = false) (hlen : len < 2147483648) :
    PbParser.unPackRange codec mem len = some (0, (len : Int)) := by
  have hint : int32 ((len : Int) % 4294967296) = len := by
    rw [Int.emod_eq_of_lt (by omega) (by omega), int32_eq_self (by omega) (by omega)]
  simp only [PbParser.unPackRange, no, Bool.false_eq_true, if_false, hint]

/-- `UnPack` stays inside its input exactly when it may load a length field there or when there is
none and the bytes do not parse. -/
theorem unPack_inside_iff (hpos : 1 ≤ len) (hlen : len < 2147483648) :
    UnPackInside codec mem len ↔
      (codec.protocolPacket = true ∧ 4 ≤ len) ∨
        (codec.protocolPacket = false ∧ codec.parseFromArray len mem = none) := by
  constructor
  · intro inside
    cases hpacket : codec.protocolPacket with
    | true =>
      have hthree := inside.loads 3 (by simp [PbParser.unPackLoads, hpacket])
      exact .inl ⟨rfl, hthree⟩
    | false =>
      refine .inr ⟨rfl, Option.eq_none_iff_forall_not_mem.mpr ?_⟩
      intro msg hmsg
      have hun : PbParser.unPack codec mem len = some (msg, int32 ((len : Int) + 4)) := by
        rw [unPack_eq_range, unPackRange_plain hpacket hlen, Option.bind_some]
        exact Option.map_eq_some_iff.mpr ⟨msg, hmsg, rfl⟩
      obtain ⟨hlow, hhigh⟩ := inside.consumed msg _ hun
      unfold int32 at hlow hhigh
      split at hlow <;> omega
  · rintro (⟨yes, hfour⟩ | ⟨no, hparse⟩)
    · exact unPackInside_of_prefix yes hfour hlen
    · have hrange : PbParser.unPackRange codec mem len = some (0, (len : Int)) := unPackRange_plain no hlen
      refine ⟨?_, ?_, ?_⟩
      · intro i hi
        simp [PbParser.unPackLoads, no] at hi
      · intro offset size h
        rw [hrange] at h
        obtain ⟨rfl, rfl⟩ := Prod.mk.inj (Option.some.inj h)
        omega
      · intro msg consumed h
        rw [unPack_eq_range, hrange, Option.bind_some] at h
        simp only [Nat.add_zero, hparse, Option.map_none] at h
        cases h

end UnPackRange

/-- The messages of `stopCodec` without a length field. -/
def plainCodec : Codec UInt8 := { stopCodec with protocolPacket := false }

theorem unPack_inside_iff_stop :
    UnPackInside stopCodec (fun i => ([0, 0, 0, 24] ++ stopBytes 7).getD i 0) 24 ∧
      ¬ UnPackInside stopCodec (fun i => ([0, 0, 0] : List UInt8).getD i 0) 3 :=
  ⟨(unPack_inside_iff (by decide) (by decide)).mpr (.inl ⟨rfl, by decide⟩),
    fun h => absurd ((unPack_inside_iff (by decide) (by decide)).mp h) (by decide +kernel)⟩

/-- One byte with a length field announced: three more are loaded. Twenty bytes without one: 24 are
reported. -/
theorem unPack_leaves_input :
    ¬ UnPackInside stopCodec (fun _ => 0) 1 ∧
      ¬ UnPackInside plainCodec (fun i => (stopBytes 7).getD i 0) 20 := by
  constructor
  · intro inside
    exact absurd (inside.loads 3 (by decide)) (by decide)
  · intro inside
    exact absurd (inside.consumed 7 24 (by decide +kernel)) (by decide)

end Wddlib
