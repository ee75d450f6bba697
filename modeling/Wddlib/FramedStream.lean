import Wddlib.RecvStream

namespace Wddlib

/-- How many of the first `n` bytes of a stream of frames belong to a frame that is not complete. -/
def pendingAfter : List (List UInt8) → Nat → Nat
  | [], n => n
  | frame :: frames, n => if frame.length ≤ n then pendingAfter frames (n - frame.length) else n

/-- How many frames are complete within the first `n` bytes of their stream. -/
def completed : List (List UInt8) → Nat → Nat
  | [], _ => 0
  | frame :: frames, n => if frame.length ≤ n then completed frames (n - frame.length) + 1 else 0

/-- The bytes of the first `k` segments. -/
def received (segs : List Segment) (k : Nat) : Nat := ((segs.take k).map fun seg => seg.chunk.length).sum

/-- The receive buffer after a segment has arrived and all but the last `pending` bytes have been
removed. -/
def Buffer.settled (b : Buffer) (seg : Segment) (pending : Nat) : Buffer :=
  ((b.scatterRead seg.chunk).retrieve ((b.scatterRead seg.chunk).readableBytes - pending)).2

section Frames

variable {frames : List (List UInt8)}

theorem pendingAfter_append {done : List (List UInt8)} (n : Nat) :
    pendingAfter (done ++ frames) (done.flatten.length + n) = pendingAfter frames n := by
  induction done with
  | nil => simp
  | cons frame done ih =>
    simp only [List.cons_append, pendingAfter, List.flatten_cons, List.length_append]
    rw [if_pos (by omega), show frame.length + done.flatten.length + n - frame.length =
      done.flatten.length + n by omega, ih]

theorem completed_append {done : List (List UInt8)} (n : Nat) :
    completed (done ++ frames) (done.flatten.length + n) = done.length + completed frames n := by
  induction done with
  | nil => simp
  | cons frame done ih =>
    simp only [List.cons_append, completed, List.flatten_cons, List.length_append, List.length_cons]
    rw [if_pos (by omega), show frame.length + done.flatten.length + n - frame.length =
      done.flatten.length + n by omega, ih]
    omega

theorem pendingAfter_short {n : Nat} (h : ∀ frame ∈ frames.head?, n < frame.length) :
    pendingAfter frames n = n ∧ completed frames n = 0 := by
  cases frames with
  | nil => exact ⟨rfl, rfl⟩
  | cons frame frames =>
    have hlt : ¬ frame.length ≤ n := by
      have := h frame (by simp)
      omega
    simp [pendingAfter, completed, hlt]

/-- The frames of a stream that are complete after its first bytes, and what follows them. -/
theorem split_frames {bytes rest : List UInt8} (stream : bytes ++ rest = frames.flatten) :
    ∃ done todo partial_, frames = done ++ todo ∧ bytes = done.flatten ++ partial_ ∧
      partial_ ++ rest = todo.flatten ∧ ∀ frame ∈ todo.head?, partial_.length < frame.length := by
  induction frames generalizing bytes with
  | nil =>
    obtain ⟨rfl, rfl⟩ := List.append_eq_nil_iff.mp stream
    exact ⟨[], [], [], rfl, rfl, rfl, by simp⟩
  | cons frame frames ih =>
    rw [List.flatten_cons] at stream
    by_cases whole : frame.length ≤ bytes.length
    · obtain ⟨bytes', rfl⟩ : ∃ bytes', bytes = frame ++ bytes' := by
        obtain ⟨tail, htail, -⟩ | ⟨tail, htail, -⟩ := List.append_eq_append_iff.mp stream
        · have hnil : tail = [] := by
            have hlen := congrArg List.length htail
            rw [List.length_append] at hlen
            exact List.eq_nil_of_length_eq_zero (by omega)
          exact ⟨[], by rw [htail, hnil, List.append_nil, List.append_nil]⟩
        · exact ⟨tail, htail⟩
      rw [List.append_assoc, List.append_cancel_left_eq] at stream
      obtain ⟨done, todo, partial_, rfl, rfl, hrest, hshort⟩ := ih stream
      exact ⟨frame :: done, todo, partial_, rfl, by simp, hrest, hshort⟩
    · refine ⟨[], frame :: frames, bytes, rfl, rfl, stream, ?_⟩
      intro f hf
      simp only [List.head?_cons, Option.mem_def, Option.some.injEq] at hf
      subst hf
      omega

end Frames

section Stream

variable {α : Type} {next : (Nat → UInt8) → Buffer → Option (α × Nat)} {encode : α → List UInt8}
  {Valid : α → Prop} {Quiet : (Nat → UInt8) → Buffer → Prop}

/-- A buffer that holds the beginning of the first of the frames that are still to come. -/
structure Waiting (b : Buffer) (frames : List (List UInt8)) (rest : List UInt8) : Prop where
  wf : b.Wf
  stream : b.content ++ rest = frames.flatten
  short : ∀ frame ∈ frames.head?, b.content.length < frame.length

/-- `next` hands out the message whose encoding is at the front of the buffer; when only the
beginning of one is there, `Quiet` tells whether it hands out nothing. -/
structure FramingRule (next : (Nat → UInt8) → Buffer → Option (α × Nat)) (encode : α → List UInt8)
    (Valid : α → Prop) (Quiet : (Nat → UInt8) → Buffer → Prop) : Prop where
  nonempty : ∀ msg, Valid msg → encode msg ≠ []
  complete : ∀ behind b msg rest, b.Wf → Valid msg → b.content = encode msg ++ rest →
    b.content.length ≤ kMaxRecvBufSize + 1073741824 → next behind b = some (msg, (encode msg).length)
  quiet : ∀ behind b (msgs : List α) rest, (∀ msg ∈ msgs, Valid msg) → Waiting b (msgs.map encode) rest →
    b.content.length ≤ kMaxRecvBufSize → (next behind b = none ↔ Quiet behind b)

theorem Waiting.create {frames : List (List UInt8)} {rest : List UInt8} (h : rest = frames.flatten)
    (hne : ∀ frame ∈ frames, frame ≠ []) : Waiting (.create 1024) frames rest := by
  refine ⟨Buffer.create_wf (by decide), by simpa [Buffer.content_create] using h, ?_⟩
  intro frame hf
  rw [Buffer.content_create]
  exact List.length_pos_iff.mpr (hne frame (List.mem_of_mem_head? hf))

/-- Whole messages at the front of the buffer are handed out one by one. -/
theorem drainLoop_complete (rule : FramingRule next encode Valid Quiet) {behind : Nat → UInt8} {done : List α}
    {b : Buffer} {tail : List UInt8} (wf : b.Wf) (hne : b.content ≠ []) (valid : ∀ msg ∈ done, Valid msg)
    (hcontent : b.content = (done.map encode).flatten ++ tail)
    (hlen : b.content.length ≤ kMaxRecvBufSize + 1073741824) (fuel : Nat) :
    drainLoop (next behind) (fuel + done.length) b =
      (drainLoop (next behind) fuel (b.retrieve (done.map encode).flatten.length).2).map
        fun r => (done ++ r.1, r.2) := by
  induction done generalizing b with
  | nil => simp [Buffer.retrieve_zero wf hne]
  | cons msg done ih =>
    rw [List.map_cons, List.flatten_cons, List.append_assoc] at hcontent
    have hfirst := rule.complete behind b msg _ wf (valid msg (by simp)) hcontent hlen
    obtain ⟨wf', hcontent'⟩ := Buffer.retrieve_spec wf (encode msg).length
    rw [hcontent, List.drop_left] at hcontent'
    rw [List.length_cons, ← Nat.add_assoc]
    simp only [drainLoop, hfirst]
    by_cases hmore : (b.retrieve (encode msg).length).2.content = []
    · have hdone : done = [] := by
        rw [hcontent'] at hmore
        cases done with
        | nil => rfl
        | cons msg' done =>
          have hnil := (List.append_eq_nil_iff.mp hmore).1
          rw [List.map_cons, List.flatten_cons] at hnil
          exact absurd (List.append_eq_nil_iff.mp hnil).1 (rule.nonempty msg' (valid msg' (by simp)))
      subst hdone
      simp
    · have hpart : (encode msg).length < b.content.length := by
        rw [hcontent, List.length_append]
        rw [hcontent'] at hmore
        have := List.length_pos_iff.mpr hmore
        omega
      have hshort : (b.retrieve (encode msg).length).2.content.length ≤ kMaxRecvBufSize + 1073741824 := by
        rw [hcontent']
        rw [hcontent, List.length_append] at hlen
        omega
      rw [ih wf' hmore (fun m hm => valid m (by simp [hm])) hcontent' hshort,
        Buffer.retrieve_retrieve wf hpart, List.map_cons, List.flatten_cons, List.length_append, Option.map_map]
      rfl

/-- What a segment does to a waiting buffer: some messages are completed and handed out, and the
loop goes on with the settled buffer, which waits for the others. -/
theorem Waiting.receive (rule : FramingRule next encode Valid Quiet) {msgs : List α} {b : Buffer} {seg : Segment}
    {rest : List UInt8} (valid : ∀ msg ∈ msgs, Valid msg)
    (h : Waiting b (msgs.map encode) (seg.chunk ++ rest)) (pending : b.content.length ≤ kMaxRecvBufSize) :
    ∃ done todo, msgs = done ++ todo ∧
      b.content.length + seg.chunk.length = (done.map encode).flatten.length +
        pendingAfter (msgs.map encode) (b.content.length + seg.chunk.length) ∧
      (b.settled seg (pendingAfter (msgs.map encode) (b.content.length + seg.chunk.length))).content.length =
        pendingAfter (msgs.map encode) (b.content.length + seg.chunk.length) ∧
      Waiting (b.settled seg (pendingAfter (msgs.map encode) (b.content.length + seg.chunk.length)))
        (todo.map encode) rest ∧
      ∀ fuel, drainLoop (next seg.behind) (fuel + done.length) (b.scatterRead seg.chunk) =
        (drainLoop (next seg.behind) fuel
          (b.settled seg (pendingAfter (msgs.map encode) (b.content.length + seg.chunk.length)))).map
          fun r => (done ++ r.1, r.2) := by
  have hfits := seg.fits
  obtain ⟨wf, hcontent⟩ := Buffer.scatterRead_spec h.wf pending (show b.content.length + seg.chunk.length < _ by
    unfold kMaxRecvBufSize at pending
    omega)
  have hstream : (b.content ++ seg.chunk) ++ rest = (msgs.map encode).flatten := by
    rw [List.append_assoc]
    exact h.stream
  obtain ⟨front, back, part, hframes, hbytes, hrest, hshort⟩ := split_frames hstream
  obtain ⟨done, todo, rfl, rfl, rfl⟩ := List.map_eq_append_iff.mp hframes
  have htotal := congrArg List.length hbytes
  rw [List.length_append, List.length_append] at htotal
  have hpend : pendingAfter ((done ++ todo).map encode) (b.content.length + seg.chunk.length) = part.length := by
    rw [htotal, List.map_append, pendingAfter_append, (pendingAfter_short hshort).1]
  rw [hpend]
  have hamount : (b.scatterRead seg.chunk).readableBytes - part.length = (done.map encode).flatten.length := by
    rw [Buffer.readableBytes_eq wf, hcontent, List.length_append]
    omega
  obtain ⟨wf', hcontent'⟩ := Buffer.retrieve_spec wf (done.map encode).flatten.length
  rw [hcontent, hbytes, List.drop_left] at hcontent'
  unfold Buffer.settled
  rw [hamount]
  refine ⟨done, todo, rfl, htotal, by rw [hcontent'], ⟨wf', ?_, ?_⟩, ?_⟩
  · rw [hcontent']
    exact hrest
  · rw [hcontent']
    exact hshort
  · intro fuel
    refine drainLoop_complete rule wf ?_ (fun m hm => valid m (by simp [hm])) (hcontent.trans hbytes) ?_ fuel
    · rw [hcontent]
      exact fun hnil => seg.nonempty (List.append_eq_nil_iff.mp hnil).2
    · rw [hcontent, List.length_append]
      omega

/-- After every segment the buffer that is left when the complete messages are removed is quiet.
The segment arrives in the buffer that the previous calls have left. -/
def QuietCuts (next : (Nat → UInt8) → Buffer → Option (α × Nat)) (Quiet : (Nat → UInt8) → Buffer → Prop)
    (frames : List (List UInt8)) (b : Buffer) (segs : List Segment) : Prop :=
  ∀ (k : Nat) (seg : Segment), segs[k]? = some seg →
    ∀ (fuel : Nat) (out : List α) (b' : Buffer), recvRun next fuel b (segs.take k) = some (out, b') →
      Quiet seg.behind (b'.settled seg (pendingAfter frames (b.content.length + received segs (k + 1))))

/-- The pending bytes never exceed what `DoRecv` keeps. -/
def PendingBelowMax (frames : List (List UInt8)) (n : Nat) (segs : List Segment) : Prop :=
  ∀ k, pendingAfter frames (n + received segs k) ≤ kMaxRecvBufSize

section Run

variable {b : Buffer} {seg : Segment} {segs : List Segment} {msgs done todo : List α} {pending : Nat}

theorem received_cons (k : Nat) : received (seg :: segs) (k + 1) = seg.chunk.length + received segs k := by
  simp [received]

/-- Byte counts after a segment, counted from the frames it left incomplete. -/
theorem rebase (total : b.content.length + seg.chunk.length = (done.map encode).flatten.length + pending) (k : Nat) :
    b.content.length + received (seg :: segs) (k + 1) =
      (done.map encode).flatten.length + (pending + received segs k) := by
  rw [received_cons]
  omega

theorem Waiting.pending_le {frames : List (List UInt8)} {rest : List UInt8} (h : Waiting b frames rest)
    (below : PendingBelowMax frames b.content.length segs) : b.content.length ≤ kMaxRecvBufSize := by
  have hzero := below 0
  simp only [received, List.take_zero, List.map_nil, List.sum_nil, Nat.add_zero] at hzero
  rwa [(pendingAfter_short h.short).1] at hzero

theorem PendingBelowMax.tail
    (total : b.content.length + seg.chunk.length = (done.map encode).flatten.length + pending)
    (below : PendingBelowMax ((done ++ todo).map encode) b.content.length (seg :: segs)) :
    PendingBelowMax (todo.map encode) pending segs := by
  intro k
  have hk := below (k + 1)
  rwa [rebase total, List.map_append, pendingAfter_append] at hk

/-- A loop that finds nothing behind the messages it has handed out ends there. -/
theorem drainLoop_done {b₁ : Buffer}
    (loop : ∀ fuel, drainLoop (next seg.behind) (fuel + done.length) (b.scatterRead seg.chunk) =
      (drainLoop (next seg.behind) fuel b₁).map fun r => (done ++ r.1, r.2))
    (nothing : next seg.behind b₁ = none) :
    drainLoop (next seg.behind) (1 + done.length) (b.scatterRead seg.chunk) = some (done, b₁) := by
  rw [loop 1]
  simp [drainLoop, nothing]

/-- What the first segment of a run does: it completes the messages `done`, after which the loop
goes on with a buffer that waits for the others. -/
theorem Waiting.segment (rule : FramingRule next encode Valid Quiet) (valid : ∀ msg ∈ msgs, Valid msg)
    (h : Waiting b (msgs.map encode) ((seg :: segs).map Segment.chunk).flatten)
    (below : PendingBelowMax (msgs.map encode) b.content.length (seg :: segs)) :
    ∃ done todo b₁, msgs = done ++ todo ∧
      b.content.length + seg.chunk.length = (done.map encode).flatten.length + b₁.content.length ∧
      Waiting b₁ (todo.map encode) (segs.map Segment.chunk).flatten ∧
      PendingBelowMax (todo.map encode) b₁.content.length segs ∧
      (∀ fuel, drainLoop (next seg.behind) (fuel + done.length) (b.scatterRead seg.chunk) =
        (drainLoop (next seg.behind) fuel b₁).map fun r => (done ++ r.1, r.2)) ∧
      (QuietCuts next Quiet (msgs.map encode) b (seg :: segs) ↔
        next seg.behind b₁ = none ∧ QuietCuts next Quiet (todo.map encode) b₁ segs) := by
  have hwait : Waiting b (msgs.map encode) (seg.chunk ++ (segs.map Segment.chunk).flatten) := by
    simpa using h
  obtain ⟨done, todo, rfl, total, hlen, wait, loop⟩ := hwait.receive rule valid (h.pending_le below)
  have hone : received (seg :: segs) 1 = seg.chunk.length := by simp [received]
  have below' := below.tail total
  rw [← hlen] at total below'
  generalize hb₁ : b.settled seg _ = b₁ at *
  refine ⟨done, todo, b₁, rfl, total, wait, below', loop, ?_⟩
  have quiet_iff := rule.quiet seg.behind b₁ todo _ (fun msg hmsg => valid msg (by simp [hmsg])) wait
    (wait.pending_le below')
  constructor
  · intro quiet
    have hfirst := quiet 0 seg rfl 0 [] b rfl
    rw [hone, hb₁, ← quiet_iff] at hfirst
    refine ⟨hfirst, ?_⟩
    intro k seg' hk fuel out b' hrun
    have hcut := quiet (k + 1) seg' hk _ _ b' (recvRun_cons (drainLoop_done loop hfirst) hrun)
    rwa [rebase total, List.map_append, pendingAfter_append] at hcut
  · rintro ⟨hnone, quiet⟩ k seg' hk fuel out b' hrun
    cases k with
    | zero =>
      obtain rfl : seg = seg' := by simpa using hk
      obtain ⟨-, rfl⟩ : [] = out ∧ b = b' := by simpa [recvRun] using hrun
      rw [hone, hb₁]
      exact quiet_iff.mp hnone
    | succ k =>
      obtain ⟨out₁, b₂, out₂, h₁, h₂, -⟩ := recvRun_uncons hrun
      obtain ⟨-, rfl⟩ := Prod.mk.inj (drainLoop_unique h₁ (drainLoop_done loop hnone))
      rw [rebase total, List.map_append, pendingAfter_append]
      exact quiet k seg' (by simpa using hk) fuel out₂ b' h₂

/-- The first loop of a run that returns: after `done`, the settled buffer yields the rest. -/
theorem recvRun_first {b₁ b₂ : Buffer} {fuel : Nat} {out : List α}
    (loop : ∀ fuel, drainLoop (next seg.behind) (fuel + done.length) (b.scatterRead seg.chunk) =
      (drainLoop (next seg.behind) fuel b₁).map fun r => (done ++ r.1, r.2))
    (run : recvRun next fuel b (seg :: segs) = some (out, b₂)) :
    ∃ extra b₃ out', drainLoop (next seg.behind) fuel b₁ = some (extra, b₃) ∧
      recvRun next fuel b₃ segs = some (out', b₂) ∧ out = done ++ (extra ++ out') := by
  obtain ⟨out₁, b₃, out', h₁, h₂, rfl⟩ := recvRun_uncons run
  have hmore := drainLoop_mono h₁ (Nat.le_add_right fuel done.length)
  rw [loop fuel] at hmore
  obtain ⟨⟨extra, b₄⟩, h₃, h₄⟩ := Option.map_eq_some_iff.mp hmore
  obtain ⟨rfl, rfl⟩ := Prod.mk.inj h₄
  exact ⟨extra, b₄, out', h₃, h₂, List.append_assoc _ _ _⟩

/-- Quiet cuts are what it takes for the messages handed out after each segment to be those that
are complete. -/
theorem framed_prefix_iff (rule : FramingRule next encode Valid Quiet) (valid : ∀ msg ∈ msgs, Valid msg)
    (h : Waiting b (msgs.map encode) (segs.map Segment.chunk).flatten)
    (below : PendingBelowMax (msgs.map encode) b.content.length segs) :
    (∀ k, ∃ fuel b', recvRun next fuel b (segs.take k) =
        some (msgs.take (completed (msgs.map encode) (b.content.length + received segs k)), b')) ↔
      QuietCuts next Quiet (msgs.map encode) b segs := by
  induction segs generalizing b msgs with
  | nil =>
    have hzero := (pendingAfter_short h.short).2
    constructor
    · intro _ k seg hk
      simp at hk
    · intro _ k
      exact ⟨0, b, by simp [recvRun, received, hzero]⟩
  | cons seg segs ih =>
    obtain ⟨done, todo, b₁, rfl, total, wait, below', loop, quiet_iff⟩ := h.segment rule valid below
    have hrest := ih (fun msg hmsg => valid msg (by simp [hmsg])) wait below'
    have counted : ∀ k, (done ++ todo).take (completed ((done ++ todo).map encode)
        (b.content.length + received (seg :: segs) (k + 1))) =
        done ++ todo.take (completed (todo.map encode) (b₁.content.length + received segs k)) := by
      intro k
      rw [rebase total, List.map_append, completed_append, List.length_map, List.take_length_add_append]
    rw [quiet_iff, ← hrest]
    constructor
    · intro complete
      have hnone : next seg.behind b₁ = none := by
        obtain ⟨fuel, b', hrun⟩ := complete 1
        rw [counted 0] at hrun
        obtain ⟨extra, b₃, out', h₁, h₂, hout⟩ := recvRun_first loop hrun
        have hnow := (pendingAfter_short wait.short).2
        simp only [received, List.take_zero, List.map_nil, List.sum_nil, Nat.add_zero, hnow] at hout
        have hnil := (List.append_eq_nil_iff.mp (List.append_cancel_left hout).symm).1
        subst hnil
        exact drainLoop_nil h₁
      refine ⟨hnone, ?_⟩
      intro k
      obtain ⟨fuel, b', hrun⟩ := complete (k + 1)
      rw [counted k] at hrun
      obtain ⟨extra, b₃, out', h₁, h₂, hout⟩ := recvRun_first loop hrun
      have hstop : drainLoop (next seg.behind) 1 b₁ = some ([], b₁) := by simp [drainLoop, hnone]
      obtain ⟨rfl, rfl⟩ := Prod.mk.inj (drainLoop_unique h₁ hstop)
      exact ⟨fuel, b', by rw [h₂, List.append_cancel_left hout, List.nil_append]⟩
    · rintro ⟨hnone, complete⟩ k
      have hempty := (pendingAfter_short h.short).2
      cases k with
      | zero =>
        refine ⟨0, b, ?_⟩
        simp only [recvRun, received, List.take_zero, List.map_nil, List.sum_nil, Nat.add_zero, hempty]
      | succ k =>
        obtain ⟨fuel, b', hrun⟩ := complete k
        refine ⟨max (1 + done.length) fuel, b', ?_⟩
        rw [counted k]
        exact recvRun_cons (drainLoop_done loop hnone) hrun

theorem Waiting.ended {frames : List (List UInt8)} (h : Waiting b frames []) : frames = [] ∧ b.content = [] := by
  have hstream := h.stream
  rw [List.append_nil] at hstream
  cases frames with
  | nil => exact ⟨rfl, hstream⟩
  | cons frame frames =>
    have hshort := h.short frame (by simp)
    rw [hstream, List.flatten_cons, List.length_append] at hshort
    omega

/-- With quiet cuts a whole stream is handed out message by message, and nothing is left. -/
theorem framed_run_complete (rule : FramingRule next encode Valid Quiet) (valid : ∀ msg ∈ msgs, Valid msg)
    (h : Waiting b (msgs.map encode) (segs.map Segment.chunk).flatten)
    (below : PendingBelowMax (msgs.map encode) b.content.length segs)
    (quiet : QuietCuts next Quiet (msgs.map encode) b segs) :
    ∃ fuel b', recvRun next fuel b segs = some (msgs, b') ∧ b'.content = [] := by
  induction segs generalizing b msgs with
  | nil =>
    obtain ⟨hmsgs, hcontent⟩ := h.ended
    rw [List.map_eq_nil_iff] at hmsgs
    subst hmsgs
    exact ⟨0, b, rfl, hcontent⟩
  | cons seg segs ih =>
    obtain ⟨done, todo, b₁, rfl, total, wait, below', loop, quiet_iff⟩ := h.segment rule valid below
    obtain ⟨hnone, quiet'⟩ := quiet_iff.mp quiet
    obtain ⟨fuel, b', hrun, hcontent⟩ := ih (fun msg hmsg => valid msg (by simp [hmsg])) wait below' quiet'
    exact ⟨_, b', recvRun_cons (drainLoop_done loop hnone) hrun, hcontent⟩

/-- If what `next` finds at a cut is never a message, a stream handed out exactly has had quiet
cuts only. -/
theorem quietCuts_of_framed_run (rule : FramingRule next encode Valid Quiet) (valid : ∀ msg ∈ msgs, Valid msg)
    (bogus : ∀ behind b msg found len, Valid msg → b.Wf → b.content.length < (encode msg).length →
      b.content <+: encode msg → next behind b = some (found, len) → ¬ Valid found)
    (h : Waiting b (msgs.map encode) (segs.map Segment.chunk).flatten)
    (below : PendingBelowMax (msgs.map encode) b.content.length segs)
    {fuel : Nat} {b' : Buffer} (run : recvRun next fuel b segs = some (msgs, b')) :
    QuietCuts next Quiet (msgs.map encode) b segs := by
  induction segs generalizing b msgs with
  | nil =>
    intro k seg hk
    simp at hk
  | cons seg segs ih =>
    obtain ⟨done, todo, b₁, rfl, total, wait, below', loop, quiet_iff⟩ := h.segment rule valid below
    obtain ⟨extra, b₃, out', h₁, h₂, hout⟩ := recvRun_first loop run
    have htodo := List.append_cancel_left hout
    have validTodo : ∀ msg ∈ todo, Valid msg := fun msg hmsg => valid msg (by simp [hmsg])
    have hnone : next seg.behind b₁ = none := by
      cases hfound : next seg.behind b₁ with
      | none => rfl
      | some found =>
        obtain ⟨rest, rfl⟩ : ∃ rest, extra = found.1 :: rest := by
          cases fuel with
          | zero => simp [drainLoop] at h₁
          | succ fuel =>
            simp only [drainLoop, hfound] at h₁
            obtain ⟨r, -, hr⟩ := Option.map_eq_some_iff.mp h₁
            exact ⟨r.1, (Prod.mk.inj hr).1.symm⟩
        have hmem : found.1 ∈ todo := by simp [htodo]
        have hfirst : encode found.1 ∈ (todo.map encode).head? := by simp [htodo]
        have hheld : b₁.content <+: (todo.map encode).flatten := ⟨_, wait.stream⟩
        have hframe : encode found.1 <+: (todo.map encode).flatten := by simp [htodo]
        have hpre := List.prefix_of_prefix_length_le hheld hframe (wait.short _ hfirst).le
        exact absurd (validTodo _ hmem) (bogus seg.behind b₁ found.1 found.1 found.2 (validTodo _ hmem) wait.wf
          (wait.short _ hfirst) hpre hfound)
    have hstop : drainLoop (next seg.behind) 1 b₁ = some ([], b₁) := by simp [drainLoop, hnone]
    obtain ⟨rfl, rfl⟩ := Prod.mk.inj (drainLoop_unique h₁ hstop)
    rw [List.nil_append] at htodo
    rw [← htodo] at h₂
    exact quiet_iff.mpr ⟨hnone, ih validTodo wait below' h₂⟩

end Run

end Stream

end Wddlib
