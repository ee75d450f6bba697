import Wddlib.FramedStream
import Wddlib.PbRoundTrip

namespace Wddlib

section Rule

variable {M : Type} {codec : Codec M} {msg : M} {bytes : List UInt8} {b : Buffer} {behind : Nat → UInt8}

/-- The range that the number loaded at `Peek()` delimits does not parse, where less than that
number has been received. -/
def Codec.StaleUnparsable (codec : Codec M) (behind : Nat → UInt8) (b : Buffer) : Prop :=
  0 < b.readableBytes → b.readableBytes < 4 →
    codec.parseFromArray
      (int32 (((bigEndian [b.byteAt behind 0, b.byteAt behind 1, b.byteAt behind 2, b.byteAt behind 3] : Int) - 4) %
        4294967296)) (fun i => b.byteAt behind (i + 4)) = none

theorem onRecvMsg_complete (lawful : codec.Lawful) (yes : codec.protocolPacket = true)
    (hbytes : codec.serializeToArray msg = some bytes) (hlen : bytes.length + 4 < 2147483648) {rest : List UInt8}
    (wf : b.Wf) (hcontent : b.content = (htonl (bytes.length + 4) ++ bytes) ++ rest)
    (hmax : b.content.length < 2147483648) :
    codec.onRecvMsg behind b = some (msg, bytes.length + 4) := by
  have htotal := congrArg List.length hcontent
  simp only [List.length_append, htonl_length] at htotal
  have hread : int32 b.readableBytes = b.content.length := by
    rw [Buffer.readableBytes_eq wf, int32_eq_self (by omega) (by omega)]
  have held : Holds (b.byteAt behind) b.content := fun i hi => Buffer.byteAt_content behind wf hi
  have hun := unPack_complete lawful yes hbytes hlen (held.of_prefix ⟨rest, hcontent.symm⟩)
    (show bytes.length + 4 ≤ b.content.length by omega) hmax
  simp only [Codec.onRecvMsg, hread, hun]
  rw [if_neg (by omega)]
  simp only [Option.map_some, Option.some.injEq, Prod.mk.injEq, true_and]
  omega

/-- With less than a length prefix received, the test for an incomplete packet always passes. -/
theorem onRecvMsg_partial (yes : codec.protocolPacket = true) (hlen : bytes.length + 4 < 2147483648) (wf : b.Wf)
    (hne : b.content ≠ []) (hlt : b.content.length < bytes.length + 4)
    (hpre : b.content <+: htonl (bytes.length + 4) ++ bytes) :
    codec.onRecvMsg behind b = none ↔ codec.StaleUnparsable behind b := by
  have hpos := List.length_pos_iff.mpr hne
  have hread : int32 b.content.length = b.content.length := int32_eq_self (by omega) (by omega)
  simp only [Codec.onRecvMsg, Codec.StaleUnparsable, PbParser.unPack, yes, if_true, Buffer.readableBytes_eq wf,
    hread]
  rw [if_neg (by omega)]
  by_cases hfour : 4 ≤ b.content.length
  · have hfield : htonl (bytes.length + 4) <+: b.content :=
      List.prefix_of_prefix_length_le (List.prefix_append _ _) hpre (by rw [htonl_length]; exact hfour)
    have held : Holds (b.byteAt behind) b.content := fun i hi => Buffer.byteAt_content behind wf hi
    rw [bigEndian_of_holds (by omega) (held.of_prefix hfield), if_pos (by omega)]
    simp only [Option.map_none, true_iff]
    omega
  · rw [if_neg (by omega), Option.map_eq_none_iff, Option.map_eq_none_iff]
    constructor
    · exact fun hparse _ _ => hparse
    · exact fun hstale => hstale hpos (by omega)

theorem backendFraming_rule (lawful : codec.Lawful) (yes : codec.protocolPacket = true) :
    FramingRule codec.onRecvMsg codec.packet codec.Packable codec.StaleUnparsable where
  nonempty := by
    rintro msg ⟨bytes, hbytes, hlen⟩
    rw [packet_eq lawful yes hbytes hlen]
    simp [htonl]
  complete := by
    rintro behind b msg rest wf ⟨bytes, hbytes, hlen⟩ hcontent hmax
    rw [packet_eq lawful yes hbytes hlen] at hcontent ⊢
    unfold kMaxRecvBufSize at hmax
    rw [onRecvMsg_complete lawful yes hbytes hlen wf hcontent (by omega), List.length_append, htonl_length,
      Nat.add_comm]
  quiet := by
    intro behind b msgs rest valid wait hmax
    by_cases hne : b.content = []
    · simp [Codec.onRecvMsg, Codec.StaleUnparsable, Buffer.readableBytes_eq wait.wf, hne, int32]
    · cases msgs with
      | nil =>
        have hstream := wait.stream
        rw [List.map_nil, List.flatten_nil] at hstream
        exact absurd (List.append_eq_nil_iff.mp hstream).1 hne
      | cons msg msgs =>
        obtain ⟨bytes, hbytes, hlen⟩ := valid msg (by simp)
        have hshort := wait.short (codec.packet msg) (by simp)
        have hheld : b.content <+: ((msg :: msgs).map codec.packet).flatten := ⟨_, wait.stream⟩
        have hpre := List.prefix_of_prefix_length_le hheld (by simp : codec.packet msg <+: _) hshort.le
        rw [packet_eq lawful yes hbytes hlen] at hshort hpre
        rw [List.length_append, htonl_length] at hshort
        exact onRecvMsg_partial yes hlen wait.wf hne (by omega) hpre

end Rule

/-- The messages of a backend are handled as soon as they are complete, each once and in order,
exactly when no cut inside a length prefix lets stale bytes parse; then nothing is left at the
end. -/
theorem backendFraming_iff {M : Type} {codec : Codec M} (lawful : codec.Lawful)
    (yes : codec.protocolPacket = true) {msgs : List M} (hmsgs : ∀ msg ∈ msgs, codec.Packable msg)
    {segs : List Segment} (cut : (segs.map Segment.chunk).flatten = (msgs.map codec.packet).flatten)
    (below : PendingBelowMax (msgs.map codec.packet) 0 segs) :
    ((∀ k, ∃ fuel b, recvRun codec.onRecvMsg fuel (.create 1024) (segs.take k) =
        some (msgs.take (completed (msgs.map codec.packet) (received segs k)), b)) ↔
      QuietCuts codec.onRecvMsg codec.StaleUnparsable (msgs.map codec.packet) (.create 1024) segs) ∧
    (QuietCuts codec.onRecvMsg codec.StaleUnparsable (msgs.map codec.packet) (.create 1024) segs →
      ∃ fuel b, recvRun codec.onRecvMsg fuel (.create 1024) segs = some (msgs, b) ∧ b.content = []) := by
  have rule := backendFraming_rule lawful yes
  have wait : Waiting (.create 1024) (msgs.map codec.packet) (segs.map Segment.chunk).flatten := by
    refine .create cut ?_
    intro frame hframe
    obtain ⟨msg, hmsg, rfl⟩ := List.mem_map.mp hframe
    exact rule.nonempty msg (hmsgs msg hmsg)
  have below' : PendingBelowMax (msgs.map codec.packet) (Buffer.create 1024).content.length segs := by
    rw [Buffer.content_create]
    exact below
  constructor
  · have each := framed_prefix_iff rule hmsgs wait below'
    simpa only [Buffer.content_create, List.length_nil, Nat.zero_add] using each
  · exact framed_run_complete rule hmsgs wait below'

def stopPacket (connid : UInt8) : Segment :=
  ⟨[0, 0, 0, 24] ++ stopBytes connid, fun _ => 0, by simp, by simp [stopBytes]⟩

def bodyStartOf (connid : UInt8) : Segment :=
  ⟨[0, 0, 0, 24] ++ (stopBytes connid).take 5, fun _ => 0, by simp, by simp [stopBytes]⟩
def bodyEndOf (connid : UInt8) : Segment :=
  ⟨(stopBytes connid).drop 5, fun _ => 0, by simp [stopBytes], by simp [stopBytes]⟩

/-- One packet, cut in its body. -/
theorem backendFraming_iff_body :
    ∃ fuel b, recvRun stopCodec.onRecvMsg fuel (.create 1024) [bodyStartOf 1, bodyEndOf 1] = some ([1], b) ∧
      b.content = [] := by
  refine (backendFraming_iff stopCodec_lawful rfl (fun msg _ => stopCodec_packable msg) ?_ ?_).2 ?_
  · decide
  · intro k
    rcases k with _ | _ | k
    · decide
    · decide
    · simp only [received, List.take_succ_cons, List.take_nil]
      decide
  · intro k seg hseg fuel out b run
    rcases k with _ | _ | k
    · obtain rfl := Option.some.inj hseg
      have none : recvRun stopCodec.onRecvMsg 0 (.create 1024) [] = some ([], .create 1024) := rfl
      rw [(Prod.mk.inj (recvRun_unique run none)).2]
      exact fun _ short => absurd short (by decide +kernel)
    · obtain rfl := Option.some.inj hseg
      have once : recvRun stopCodec.onRecvMsg 1 (.create 1024) [bodyStartOf 1] =
          some ([], (Buffer.create 1024).scatterRead (bodyStartOf 1).chunk) := by decide +kernel
      rw [(Prod.mk.inj (recvRun_unique run once)).2]
      exact fun pos _ => absurd pos (by decide +kernel)
    · cases hseg

def prefixStart : Segment := ⟨[0, 0, 0], fun _ => 0, by decide, by decide⟩
def prefixEnd : Segment := ⟨24 :: stopBytes 2, fun _ => 0, by simp, by simp [stopBytes]⟩

/-- Two packets of the same length, the second one cut inside its length prefix: the first message
is handled again from the bytes it has left behind, and the second one never. -/
theorem backendFraming_cut_repeats :
    stopCodec.Lawful ∧ stopCodec.protocolPacket = true ∧ (∀ msg ∈ [1, 2], stopCodec.Packable msg) ∧
      ([stopPacket 1, prefixStart, prefixEnd].map Segment.chunk).flatten =
        ([1, 2].map stopCodec.packet).flatten ∧
      PendingBelowMax ([1, 2].map stopCodec.packet) 0 [stopPacket 1, prefixStart, prefixEnd] ∧
      ¬ ∃ fuel b, recvRun stopCodec.onRecvMsg fuel (.create 1024) [stopPacket 1, prefixStart, prefixEnd] =
        some ([1, 2], b) ∧ b.content = [] := by
  refine ⟨stopCodec_lawful, rfl, fun msg _ => stopCodec_packable msg, by decide, ?_, ?_⟩
  · intro k
    rcases k with _ | _ | _ | k
    · decide
    · decide
    · decide
    · simp only [received, List.take_succ_cons, List.take_nil]
      decide
  · rintro ⟨fuel, b, run, -⟩
    have handled : (recvRun stopCodec.onRecvMsg 3 (.create 1024)
        [stopPacket 1, prefixStart, prefixEnd]).map Prod.fst = some [1, 1] := by decide +kernel
    obtain ⟨r, hr, hfst⟩ := Option.map_eq_some_iff.mp handled
    rw [← recvRun_unique run hr] at hfst
    simp at hfst

end Wddlib
