import Wddlib.FramedStream

namespace Wddlib

/-- The part of `ConnSvrCfg` that describes client frames. -/
structure FrameConf where
  msglenpos : Nat
  msglensize : Nat
  deriving DecidableEq, Repr

/-- The length field, loaded at `Peek()` whatever the number of readable bytes. -/
def FrameConf.msglen (conf : FrameConf) (behind : Nat → UInt8) (b : Buffer) : Nat :=
  match conf.msglensize with
  | 4 => bigEndian (b.readAt behind 4)
  | 2 => bigEndian (b.readAt behind 2)
  | _ => 0

/-- One turn of the loop of `EpollServer::OnMsgRecv` for a channel with a record: the payload that
is forwarded and the number of bytes that are then retrieved. -/
def FrameConf.onMsgRecv (conf : FrameConf) (behind : Nat → UInt8) (b : Buffer) : Option (List UInt8 × Nat) :=
  let len := b.readableBytes % 4294967296
  if len = 0 then none
  else if conf.msglenpos ≥ len then none
  else
    let msglen := conf.msglen behind b
    if msglen > len then none else some (b.peek.take msglen, msglen)

/-- A client frame: its length, header included, is in its first bytes. -/
structure IsFrame (size : Nat) (frame : List UInt8) : Prop where
  header : size ≤ frame.length
  length : bigEndian (frame.take size) = frame.length

instance (size : Nat) (frame : List UInt8) : Decidable (IsFrame size frame) :=
  decidable_of_iff (size ≤ frame.length ∧ bigEndian (frame.take size) = frame.length)
    ⟨fun h => ⟨h.1, h.2⟩, fun h => ⟨h.1, h.2⟩⟩

/-- A buffer that holds less than a length field: the number loaded from its bytes and from those
behind the write index is larger than the number of its bytes. -/
def SafeCut (size : Nat) (behind : Nat → UInt8) (b : Buffer) : Prop :=
  0 < b.readableBytes → b.readableBytes < size → b.readableBytes < bigEndian (b.readAt behind size)

section Rule

variable {size : Nat} {behind : Nat → UInt8} {b : Buffer} {frame : List UInt8}

theorem msglen_eq (hsize : size = 2 ∨ size = 4) (pos : Nat) (behind : Nat → UInt8) (b : Buffer) :
    FrameConf.msglen ⟨pos, size⟩ behind b = bigEndian (b.readAt behind size) := by
  rcases hsize with rfl | rfl <;> rfl

theorem onMsgRecv_eq (hsize : size = 2 ∨ size = 4) (wf : b.Wf) (hpos : b.content ≠ [])
    (hlen : b.content.length < 4294967296) :
    FrameConf.onMsgRecv ⟨0, size⟩ behind b =
      if bigEndian (b.readAt behind size) > b.content.length then none
      else some (b.peek.take (bigEndian (b.readAt behind size)), bigEndian (b.readAt behind size)) := by
  have hread := Buffer.readableBytes_eq wf
  have := List.length_pos_iff.mpr hpos
  simp only [FrameConf.onMsgRecv, msglen_eq hsize, hread, Nat.mod_eq_of_lt hlen]
  rw [if_neg (by omega), if_neg (by omega)]

theorem onMsgRecv_empty {conf : FrameConf} (wf : b.Wf) (hnil : b.content = []) :
    conf.onMsgRecv behind b = none := by
  simp [FrameConf.onMsgRecv, Buffer.readableBytes_eq wf, hnil]

theorem field_of_frame (h : IsFrame size frame) {bytes : List UInt8} (hlen : size ≤ bytes.length)
    (hpre : bytes <+: frame ∨ frame <+: bytes) : bigEndian (bytes.take size) = frame.length := by
  have hsame : bytes.take size = frame.take size := by
    rcases hpre with ⟨tail, rfl⟩ | ⟨tail, rfl⟩
    · rw [List.take_append_of_le_length hlen]
    · rw [List.take_append_of_le_length h.header]
  rw [hsame, h.length]

/-- The beginning of a frame hands out something only if its length field is not there yet. -/
theorem onMsgRecv_partial (hsize : size = 2 ∨ size = 4) (h : IsFrame size frame) (wf : b.Wf)
    (hne : b.content ≠ []) (hlt : b.content.length < frame.length) (hpre : b.content <+: frame)
    (hlen : b.content.length < 4294967296) :
    FrameConf.onMsgRecv ⟨0, size⟩ behind b = none ↔ SafeCut size behind b := by
  rw [onMsgRecv_eq hsize wf hne hlen, SafeCut, Buffer.readableBytes_eq wf]
  have hpos := List.length_pos_iff.mpr hne
  by_cases hfield : size ≤ b.content.length
  · rw [Buffer.readAt_content wf hfield, field_of_frame h hfield (Or.inl hpre)]
    simp only [hlt, if_true, true_iff]
    omega
  · split
    next big => simp [big]
    next small =>
      simp only [reduceCtorEq, false_iff]
      intro safe
      exact small (safe hpos (by omega))

theorem clientFraming_rule (hsize : size = 2 ∨ size = 4) :
    FramingRule (FrameConf.onMsgRecv ⟨0, size⟩) id (IsFrame size) (SafeCut size) where
  nonempty := by
    intro frame h hnil
    have := h.header
    rw [show frame = [] from hnil, List.length_nil] at this
    omega
  complete := by
    intro behind b frame rest wf h hcontent hlen
    simp only [id] at hcontent
    have hpos : size ≤ b.content.length := by
      have := h.header
      rw [hcontent, List.length_append]
      omega
    have hfield : bigEndian (b.readAt behind size) = frame.length := by
      rw [Buffer.readAt_content wf hpos]
      exact field_of_frame h hpos (Or.inr ⟨rest, hcontent.symm⟩)
    have hne : b.content ≠ [] := List.ne_nil_of_length_pos (by omega)
    unfold kMaxRecvBufSize at hlen
    rw [onMsgRecv_eq hsize wf hne (by omega), hfield, if_neg (by rw [hcontent, List.length_append]; omega),
      Buffer.peek_eq wf, hcontent, List.append_assoc, List.take_left]
    rfl
  quiet := by
    intro behind b frames rest valid wait hlen
    rw [List.map_id] at wait
    by_cases hne : b.content = []
    · rw [onMsgRecv_empty wait.wf hne]
      simp [SafeCut, Buffer.readableBytes_eq wait.wf, hne]
    · cases frames with
      | nil =>
        have hstream := wait.stream
        rw [List.flatten_nil] at hstream
        exact absurd (List.append_eq_nil_iff.mp hstream).1 hne
      | cons frame frames =>
        have hshort := wait.short frame (by simp)
        have hheld : b.content <+: (frame :: frames).flatten := ⟨_, wait.stream⟩
        have hpre := List.prefix_of_prefix_length_le hheld (by simp : frame <+: _) hshort.le
        unfold kMaxRecvBufSize at hlen
        exact onMsgRecv_partial hsize (valid frame (by simp)) wait.wf hne hshort hpre (by omega)

/-- What is handed out at a cut is shorter than a length field. -/
theorem onMsgRecv_bogus (hsize : size = 2 ∨ size = 4) {found : List UInt8} {len : Nat} (h : IsFrame size frame)
    (wf : b.Wf) (hlt : b.content.length < frame.length) (hpre : b.content <+: frame)
    (hfound : FrameConf.onMsgRecv ⟨0, size⟩ behind b = some (found, len)) : found.length < size := by
  simp only [FrameConf.onMsgRecv, msglen_eq hsize] at hfound
  have hread := Buffer.readableBytes_eq wf
  have hmod := Nat.mod_le b.readableBytes 4294967296
  split at hfound
  next => simp at hfound
  next some =>
    split at hfound
    next => simp at hfound
    next =>
      split at hfound
      next => simp at hfound
      next small =>
        obtain ⟨rfl, -⟩ := Prod.mk.inj (Option.some.inj hfound)
        rw [List.length_take]
        by_contra hbig
        have hfield : size ≤ b.content.length := by omega
        rw [Buffer.readAt_content wf hfield, field_of_frame h hfield (Or.inl hpre)] at small
        omega

end Rule

/-- The frames of a client arrive whole, once and in order, and nothing is left, exactly when
every cut inside a length field is safe. -/
theorem clientFraming_iff {size : Nat} (hsize : size = 2 ∨ size = 4) {frames : List (List UInt8)}
    (hframes : ∀ frame ∈ frames, IsFrame size frame) {segs : List Segment}
    (cut : (segs.map Segment.chunk).flatten = frames.flatten) (below : PendingBelowMax frames 0 segs) :
    (∃ fuel b, recvRun (FrameConf.onMsgRecv ⟨0, size⟩) fuel (.create 1024) segs = some (frames, b) ∧
        b.content = []) ↔
      QuietCuts (FrameConf.onMsgRecv ⟨0, size⟩) (SafeCut size) frames (.create 1024) segs := by
  have rule := clientFraming_rule hsize
  have wait : Waiting (.create 1024) (frames.map id) (segs.map Segment.chunk).flatten := by
    rw [List.map_id]
    exact .create cut fun frame hf => rule.nonempty frame (hframes frame hf)
  have below' : PendingBelowMax (frames.map id) (Buffer.create 1024).content.length segs := by
    rw [List.map_id, Buffer.content_create]
    exact below
  constructor
  · rintro ⟨fuel, b, run, -⟩
    have quiet := quietCuts_of_framed_run rule hframes ?_ wait below' run
    · rwa [List.map_id] at quiet
    · intro behind b' frame found len h wf hlt hpre hfound hvalid
      have := onMsgRecv_bogus hsize h wf hlt hpre hfound
      have := hvalid.header
      omega
  · intro quiet
    rw [← List.map_id frames] at quiet
    exact framed_run_complete rule hframes wait below' quiet

def bodyStart : Segment := ⟨[0, 3], fun _ => 0, by decide, by decide⟩
def bodyEnd : Segment := ⟨[9, 0, 4, 1, 2], fun _ => 0, by decide, by decide⟩

/-- Two frames, the first one cut between its length and its payload. -/
theorem clientFraming_iff_body :
    ∃ fuel b, recvRun (FrameConf.onMsgRecv ⟨0, 2⟩) fuel (.create 1024) [bodyStart, bodyEnd] =
      some ([[0, 3, 9], [0, 4, 1, 2]], b) ∧ b.content = [] := by
  refine (clientFraming_iff (Or.inl rfl) ?_ ?_ ?_).mpr ?_
  · decide
  · rfl
  · intro k
    rcases k with _ | _ | k
    · decide
    · decide
    · simp [received, bodyStart, bodyEnd, pendingAfter, kMaxRecvBufSize]
  · intro k seg hseg fuel out b run
    rcases k with _ | _ | k
    · obtain rfl := Option.some.inj hseg
      have none : recvRun (FrameConf.onMsgRecv ⟨0, 2⟩) 0 (.create 1024) [] = some ([], .create 1024) := rfl
      rw [(Prod.mk.inj (recvRun_unique run none)).2]
      exact fun _ short => absurd short (by decide +kernel)
    · obtain rfl := Option.some.inj hseg
      have once : recvRun (FrameConf.onMsgRecv ⟨0, 2⟩) 1 (.create 1024) [bodyStart] =
          some ([], (Buffer.create 1024).scatterRead [0, 3]) := by decide +kernel
      rw [(Prod.mk.inj (recvRun_unique run once)).2]
      exact fun pos _ => absurd pos (by decide +kernel)
    · cases hseg

def frameStart : Segment := ⟨[0], fun _ => 0, by decide, by decide⟩
def frameEnd : Segment := ⟨[0, 0, 5, 7], fun _ => 0, by decide, by decide⟩

/-- One frame of five bytes, cut after its first byte: the zeros of the new vector complete the
length field to 0 and the loop forwards empty payloads for ever. -/
theorem clientFraming_cut_diverges :
    IsFrame 4 [0, 0, 0, 5, 7] ∧
      ([frameStart, frameEnd].map Segment.chunk).flatten = [[0, 0, 0, 5, 7]].flatten ∧
      PendingBelowMax [[0, 0, 0, 5, 7]] 0 [frameStart, frameEnd] ∧
      ¬ ∃ fuel b, recvRun (FrameConf.onMsgRecv ⟨0, 4⟩) fuel (.create 1024) [frameStart, frameEnd] =
        some ([[0, 0, 0, 5, 7]], b) ∧ b.content = [] := by
  refine ⟨by decide, rfl, ?_, ?_⟩
  · intro k
    rcases k with _ | _ | k
    · decide
    · decide
    · simp [received, frameStart, frameEnd, pendingAfter, kMaxRecvBufSize]
  · rintro ⟨fuel, b, run, -⟩
    obtain ⟨out₁, b₁, out₂, h₁, -⟩ := recvRun_uncons run
    rw [drainLoop_stuck [] (by decide +kernel) (by decide +kernel)] at h₁
    simp at h₁

end Wddlib
