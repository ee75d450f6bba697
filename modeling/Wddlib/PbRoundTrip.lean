import Wddlib.PbParser

namespace Wddlib

section PrefixFree

variable {α β : Type} {code : α → List β} {valid : α → Prop}

/-- A code none of whose words starts another one is read in one way only. -/
theorem flatten_injective_of_prefix_free (nonempty : ∀ a, valid a → code a ≠ [])
    (free : ∀ a b, valid a → valid b → code a <+: code b → a = b) {as bs : List α} (has : ∀ a ∈ as, valid a)
    (hbs : ∀ b ∈ bs, valid b) (same : (as.map code).flatten = (bs.map code).flatten) :
    as = bs := by
  induction as generalizing bs with
  | nil =>
    cases bs with
    | nil => rfl
    | cons b bs =>
      rw [List.map_nil, List.flatten_nil, List.map_cons, List.flatten_cons] at same
      exact absurd (List.append_eq_nil_iff.mp same.symm).1 (nonempty b (hbs b (by simp)))
  | cons a as ih =>
    cases bs with
    | nil =>
      rw [List.map_nil, List.flatten_nil, List.map_cons, List.flatten_cons] at same
      exact absurd (List.append_eq_nil_iff.mp same).1 (nonempty a (has a (by simp)))
    | cons b bs =>
      simp only [List.map_cons, List.flatten_cons] at same
      have hab : a = b := by
        have hb : code b <+: code a ++ (as.map code).flatten := ⟨_, same.symm⟩
        rcases List.prefix_or_prefix_of_prefix (List.prefix_append (code a) _) hb with h | h
        · exact free a b (has a (by simp)) (hbs b (by simp)) h
        · exact (free b a (hbs b (by simp)) (has a (by simp)) h).symm
      subst hab
      have htail := ih (fun a h => has a (by simp [h])) (fun b h => hbs b (by simp [h]))
        (List.append_cancel_left same)
      rw [htail]

end PrefixFree

section Packet

variable {M : Type} {codec : Codec M} {msg : M} {bytes : List UInt8} {mem : Nat → UInt8}

/-- A message that serialises to less than `INT_MAX - 3` bytes. -/
def Codec.Packable (codec : Codec M) (msg : M) : Prop :=
  ∃ bytes, codec.serializeToArray msg = some bytes ∧ bytes.length + 4 < 2147483648

/-- The memory at `mem` starts with `bytes`. -/
def Holds (mem : Nat → UInt8) (bytes : List UInt8) : Prop :=
  ∀ i, i < bytes.length → bytes[i]? = some (mem i)

/-- What `UnPack` returns, the message it fills in and the value it leaves in `len`. -/
def PbParser.unPackCall (codec : Codec M) (mem : Nat → UInt8) (len : Int) : Int × Option M × Int :=
  match PbParser.unPack codec mem len with
  | some (msg, consumed) => (0, some msg, consumed)
  | none => (-1, none, len)

theorem Holds.of_prefix {part whole : List UInt8} (h : Holds mem whole) (hpre : part <+: whole) :
    Holds mem part := by
  intro i hi
  obtain ⟨tail, rfl⟩ := hpre
  rw [← h i (by rw [List.length_append]; omega), List.getElem?_append_left hi]

theorem Holds.drop {front back : List UInt8} (h : Holds mem (front ++ back)) :
    Holds (fun i => mem (i + front.length)) back := by
  intro i hi
  have hmem := h (i + front.length) (by rw [List.length_append]; omega)
  rw [List.getElem?_append_right (by omega), Nat.add_sub_cancel] at hmem
  exact hmem

theorem Holds.getD (bytes : List UInt8) (behind : UInt8) : Holds (fun i => bytes.getD i behind) bytes := by
  intro i hi
  simp [List.getD_eq_getElem?_getD, hi]

theorem bigEndian_of_holds {n : Nat} (hn : n < 4294967296) (held : Holds mem (htonl n)) :
    bigEndian [mem 0, mem 1, mem 2, mem 3] = n := by
  have hword : [mem 0, mem 1, mem 2, mem 3] = htonl n := by
    have h0 := held 0 (by simp [htonl])
    have h1 := held 1 (by simp [htonl])
    have h2 := held 2 (by simp [htonl])
    have h3 := held 3 (by simp [htonl])
    simp only [htonl, List.getElem?_cons_zero, List.getElem?_cons_succ, Option.some.injEq] at h0 h1 h2 h3
    rw [← h0, ← h1, ← h2, ← h3]
    rfl
  rw [hword, bigEndian_htonl hn]

theorem pack_eq (lawful : codec.Lawful) (yes : codec.protocolPacket = true)
    (hbytes : codec.serializeToArray msg = some bytes) (hlen : bytes.length + 4 < 2147483648) :
    PbParser.pack codec msg = some (htonl (bytes.length + 4) ++ bytes, (bytes.length : Int) + 4) := by
  have hsize := lawful.size msg bytes hbytes
  have hint : int32 (int32 (codec.byteSize msg) + 4) = (bytes.length + 4 : Int) := by
    rw [int32_int32_add, int32_eq_self (by omega) (by omega), hsize]
  simp only [PbParser.pack, yes, if_true, hbytes, Option.map_some, hint]
  rw [show ((bytes.length : Int) + 4) % 4294967296 = bytes.length + 4 by omega,
    show ((bytes.length : Int) + 4).toNat = bytes.length + 4 by omega]

theorem packet_eq (lawful : codec.Lawful) (yes : codec.protocolPacket = true)
    (hbytes : codec.serializeToArray msg = some bytes) (hlen : bytes.length + 4 < 2147483648) :
    codec.packet msg = htonl (bytes.length + 4) ++ bytes := by
  simp only [Codec.packet, pack_eq lawful yes hbytes hlen]
  exact List.take_of_length_le (by simp [htonl_length]; omega)

/-- A packet followed by anything is unpacked, whatever stands behind it. -/
theorem unPack_complete (lawful : codec.Lawful) (yes : codec.protocolPacket = true)
    (hbytes : codec.serializeToArray msg = some bytes) (hlen : bytes.length + 4 < 2147483648)
    (held : Holds mem (htonl (bytes.length + 4) ++ bytes)) {len : Nat} (hle : bytes.length + 4 ≤ len)
    (hmax : len < 2147483648) :
    PbParser.unPack codec mem len = some (msg, (bytes.length : Int) + 4) := by
  have hword := bigEndian_of_holds (show bytes.length + 4 < 4294967296 by omega)
    (held.of_prefix (List.prefix_append _ _))
  have hreal : (((bytes.length + 4 : Nat) : Int) - 4) % 4294967296 = bytes.length := by omega
  have hparse : codec.parseFromArray (int32 bytes.length) (fun i => mem (i + 4)) = some msg := by
    rw [int32_eq_self (by omega) (by omega)]
    exact lawful.inverse msg bytes _ hbytes (by omega) held.drop
  simp only [PbParser.unPack, yes, if_true, hword, hreal, hparse, Option.map_some]
  rw [if_neg (by omega), int32_eq_self (by omega) (by omega)]

/-- The whole length prefix and not the whole packet: `uncomplete buff`. -/
theorem unPack_short (yes : codec.protocolPacket = true) (hlen : bytes.length + 4 < 2147483648)
    (held : Holds mem (htonl (bytes.length + 4))) {len : Nat} (hfour : 4 ≤ len) (hlt : len < bytes.length + 4) :
    PbParser.unPack codec mem len = none := by
  have hword := bigEndian_of_holds (show bytes.length + 4 < 4294967296 by omega) held
  simp only [PbParser.unPack, yes, if_true, hword]
  rw [if_pos (by omega)]

theorem packet_prefix_free (lawful : codec.Lawful) (yes : codec.protocolPacket = true) {msg' : M}
    (hmsg : codec.Packable msg) (hmsg' : codec.Packable msg') (hpre : codec.packet msg <+: codec.packet msg') :
    msg = msg' := by
  obtain ⟨bytes, hbytes, hlen⟩ := hmsg
  obtain ⟨bytes', hbytes', hlen'⟩ := hmsg'
  rw [packet_eq lawful yes hbytes hlen, packet_eq lawful yes hbytes' hlen'] at hpre
  have held := Holds.getD (htonl (bytes'.length + 4) ++ bytes') 0
  have held' := held.of_prefix hpre
  -- both packets start at the same length field
  have hword := bigEndian_of_holds (by omega) (held'.of_prefix (List.prefix_append _ _))
  rw [bigEndian_of_holds (by omega) (held.of_prefix (List.prefix_append _ _))] at hword
  have hun := unPack_complete lawful yes hbytes hlen held' le_rfl hlen
  rw [← hword, unPack_complete lawful yes hbytes' hlen' held le_rfl hlen'] at hun
  exact (congrArg Prod.fst (Option.some.inj hun)).symm

/-- What `Pack` writes is unpacked to the same message and length with anything behind it, and is
`uncomplete` when it is cut behind its length field; so no packet starts another one and a stream
of packets is cut in one way only. -/
theorem pack_unPack_roundTrip (lawful : codec.Lawful) (yes : codec.protocolPacket = true) :
    (∀ msg, codec.Packable msg →
      (codec.packet msg).length = codec.byteSize msg + 4 ∧
      PbParser.pack codec msg = some (codec.packet msg, (codec.byteSize msg : Int) + 4) ∧
      (∀ rest mem, (codec.packet msg ++ rest).length < 2147483648 → Holds mem (codec.packet msg ++ rest) →
        PbParser.unPackCall codec mem (codec.packet msg ++ rest).length =
          (0, some msg, ((codec.packet msg).length : Int))) ∧
      (∀ part mem, part <+: codec.packet msg → part ≠ codec.packet msg → 4 ≤ part.length → Holds mem part →
        PbParser.unPackCall codec mem part.length = (-1, none, (part.length : Int)))) ∧
    (∀ msg msg', codec.Packable msg → codec.Packable msg' → codec.packet msg <+: codec.packet msg' →
      codec.packet msg = codec.packet msg') ∧
    (∀ msgs msgs' : List M, (∀ msg ∈ msgs, codec.Packable msg) → (∀ msg ∈ msgs', codec.Packable msg) →
      (msgs.map codec.packet).flatten = (msgs'.map codec.packet).flatten → msgs = msgs') := by
  refine ⟨?_, ?_, ?_⟩
  · rintro msg ⟨bytes, hbytes, hlen⟩
    have hpacket := packet_eq lawful yes hbytes hlen
    have hsize := lawful.size msg bytes hbytes
    have hlength : (codec.packet msg).length = codec.byteSize msg + 4 := by
      rw [hpacket, List.length_append, htonl_length, hsize, Nat.add_comm]
    refine ⟨hlength, ?_, ?_, ?_⟩
    · rw [pack_eq lawful yes hbytes hlen, hpacket, hsize]
    · intro rest mem hmax held
      have hun := unPack_complete lawful yes hbytes hlen
        (by rw [← hpacket]; exact held.of_prefix (List.prefix_append _ _))
        (show bytes.length + 4 ≤ (codec.packet msg ++ rest).length by
          rw [List.length_append, hlength, hsize]; omega) hmax
      simp only [PbParser.unPackCall, hun, hlength, hsize]
      rfl
    · intro part mem hpre hne hfour held
      have hlt : part.length < bytes.length + 4 := by
        rw [hsize, ← hlength]
        rcases hpre.length_le.lt_or_eq with h | h
        · exact h
        · exact absurd (hpre.eq_of_length h) hne
      have hfield : htonl (bytes.length + 4) <+: part := by
        refine List.prefix_of_prefix_length_le ?_ hpre (by rw [htonl_length]; exact hfour)
        rw [hpacket]
        exact List.prefix_append _ _
      have hun := unPack_short yes hlen (held.of_prefix hfield) hfour hlt
      simp only [PbParser.unPackCall, hun]
  · intro msg msg' hmsg hmsg' hpre
    rw [packet_prefix_free lawful yes hmsg hmsg' hpre]
  · intro msgs msgs' hmsgs hmsgs' same
    refine flatten_injective_of_prefix_free ?_ ?_ hmsgs hmsgs' same
    · rintro msg ⟨bytes, hbytes, hlen⟩
      rw [packet_eq lawful yes hbytes hlen]
      simp [htonl]
    · intro msg msg' hmsg hmsg' hpre
      exact packet_prefix_free lawful yes hmsg hmsg' hpre

end Packet

/-- A `ConnsvrMsg` with `cmdid: connsvr_stop`, a `connid` below 256, `port: 80`, an empty `ip` and
`timestamp: 1` on the wire. -/
def stopBytes (connid : UInt8) : List UInt8 :=
  [0x0a, 0x0e, 0x15, 2, 0, 0, 0, 0x1d, connid, 0, 0, 0, 0x20, 0x50, 0x2a, 0, 0x22, 2, 8, 1]

/-- Protobuf restricted to these messages. -/
def stopCodec : Codec UInt8 where
  protocolPacket := true
  byteSize _ := 20
  serializeToArray connid := some (stopBytes connid)
  parseFromArray size mem :=
    if size = 20 ∧ (List.range 20).map mem = stopBytes (mem 8) then some (mem 8) else none

theorem stopCodec_lawful : stopCodec.Lawful where
  size := by
    intro connid bytes h
    cases Option.some.inj h
    rfl
  inverse := by
    intro connid bytes mem h _ same
    cases Option.some.inj h
    have hid : connid = mem 8 := by simpa [stopBytes] using same 8 (by simp [stopBytes])
    have hmem : (List.range 20).map mem = stopBytes connid := by
      apply List.ext_getElem?
      intro i
      by_cases hi : i < 20
      · rw [same i hi]
        simp [hi]
      · simp [stopBytes, hi]
    simp [stopCodec, hmem, ← hid, stopBytes]

theorem stopCodec_packable (connid : UInt8) : stopCodec.Packable connid :=
  ⟨stopBytes connid, rfl, by simp [stopBytes]⟩

theorem pack_unPack_roundTrip_stop :
    PbParser.unPackCall stopCodec (fun i => ([0, 0, 0, 24] ++ stopBytes 7 ++ [0, 0]).getD i 9) 26 =
        (0, some 7, 24) ∧
      PbParser.unPackCall stopCodec (fun i => ([0, 0, 0, 24] ++ stopBytes 7 ++ [0, 0]).getD i 9) 23 =
        (-1, none, 23) := by
  have one := (pack_unPack_roundTrip stopCodec_lawful rfl).1 7 (stopCodec_packable 7)
  have held := Holds.getD ([0, 0, 0, 24] ++ stopBytes 7 ++ [0, 0]) 9
  refine ⟨?_, ?_⟩
  · exact one.2.2.1 [0, 0] _ (by decide) (held.of_prefix ⟨[], by decide⟩)
  · exact one.2.2.2 ([0, 0, 0, 24] ++ (stopBytes 7).take 19) _ ⟨[1], by decide⟩ (by decide) (by decide)
      (held.of_prefix ⟨[1, 0, 0], by decide⟩)

end Wddlib
