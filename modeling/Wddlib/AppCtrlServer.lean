import Wddlib.RecvStream

namespace Wddlib

def carriageReturn : UInt8 := 13
def newline : UInt8 := 10

namespace AppCtrlServer

/-- One turn of the loop of `OnMsgRecv`: the string that is passed to `ControlCmd`, if any, and the number
of bytes that are then retrieved. `none` leaves the loop. -/
def nextLine (b : Buffer) : Option (Option (List UInt8) × Nat) :=
  if b.readableBytes > 0 then
    if b.peek.head? = some carriageReturn then some (none, 1)
    else
      match (b.peek.take b.readableBytes).findIdx? (· == newline) with
      | none => none
      | some i => some (if i ≠ 0 then some (b.peek.take i) else none, i + 1)
  else none

/-- The strings passed to `ControlCmd` and the receive buffer afterwards. -/
def onMsgRecv (fuel : Nat) (b : Buffer) : Option (List (List UInt8) × Buffer) :=
  (drainLoop nextLine fuel b).map fun r => (r.1.filterMap id, r.2)

/-- Successive `DoRecv` calls. -/
def recvChunks (fuel : Nat) : Buffer → List (List UInt8) → Option (List (List UInt8) × Buffer)
  | b, [] => some ([], b)
  | b, chunk :: chunks =>
    (onMsgRecv fuel (b.scatterRead chunk)).bind fun r =>
      (recvChunks fuel r.2 chunks).map fun r' => (r.1 ++ r'.1, r'.2)

end AppCtrlServer

/-- A line without the carriage returns in front. -/
def stripReturns (line : List UInt8) : List UInt8 := line.dropWhile (· == carriageReturn)

/-- The commands of a stream: its lines that end in a newline, without leading carriage returns and
without those that are then empty. -/
def commandLines (stream : List UInt8) : List (List UInt8) :=
  ((stream.splitOn newline).dropLast.map stripReturns).filter (· ≠ [])

/-- What stands behind the last newline. -/
def unfinishedLine (stream : List UInt8) : List UInt8 :=
  stripReturns ((stream.splitOn newline).getLastD [])

section Lines

variable {line rest stream chunk : List UInt8}

theorem commandLines_unfinished (h : newline ∉ line) : commandLines line = [] := by
  simp [commandLines, List.splitOn_eq_singleton h]

theorem unfinishedLine_unfinished (h : newline ∉ line) : unfinishedLine line = stripReturns line := by
  simp [unfinishedLine, List.splitOn_eq_singleton h]

theorem commandLines_line (h : newline ∉ line) (rest : List UInt8) :
    commandLines (line ++ newline :: rest) =
      (if stripReturns line = [] then [] else [stripReturns line]) ++ commandLines rest := by
  rw [commandLines, List.splitOn_append_cons_self_of_not_mem h,
    List.dropLast_cons_of_ne_nil (List.splitOn_ne_nil newline rest), List.map_cons, List.filter_cons]
  by_cases blank : stripReturns line = []
  · simp [blank, commandLines]
  · simp [blank, commandLines]

theorem unfinishedLine_line (h : newline ∉ line) (rest : List UInt8) :
    unfinishedLine (line ++ newline :: rest) = unfinishedLine rest := by
  have hne := List.splitOn_ne_nil newline rest
  rw [unfinishedLine, unfinishedLine, List.splitOn_append_cons_self_of_not_mem h]
  generalize rest.splitOn newline = lines at hne
  cases lines with
  | nil => exact absurd rfl hne
  | cons first lines => rfl

/-- A stream has no newline, or begins with a line that ends in one. -/
theorem line_cases (stream : List UInt8) :
    newline ∉ stream ∨ ∃ line rest, newline ∉ line ∧ stream = line ++ newline :: rest := by
  by_cases h : newline ∈ stream
  · obtain ⟨line, rest, hsplit, hline⟩ := List.eq_append_cons_of_mem h
    exact .inr ⟨line, rest, hline, hsplit⟩
  · exact .inl h

theorem stripReturns_return (line : List UInt8) : stripReturns (carriageReturn :: line) = stripReturns line := by
  simp [stripReturns]

theorem stripReturns_of_head (h : line.head? ≠ some carriageReturn) : stripReturns line = line := by
  cases line with
  | nil => rfl
  | cons byte line =>
    have hne : byte ≠ carriageReturn := fun same => h (congrArg some same)
    simp [stripReturns, hne]

/-- A carriage return in front of a stream is of no account. -/
theorem lines_return (stream : List UInt8) :
    commandLines (carriageReturn :: stream) = commandLines stream ∧
      unfinishedLine (carriageReturn :: stream) = unfinishedLine stream := by
  rcases line_cases stream with h | ⟨line, rest, h, rfl⟩
  · have h' : newline ∉ carriageReturn :: stream := by simpa [newline, carriageReturn] using h
    rw [commandLines_unfinished h, commandLines_unfinished h', unfinishedLine_unfinished h,
      unfinishedLine_unfinished h', stripReturns_return]
    exact ⟨rfl, rfl⟩
  · have h' : newline ∉ carriageReturn :: line := by simpa [newline, carriageReturn] using h
    have hcommands := commandLines_line h' rest
    have hunfinished := unfinishedLine_line h' rest
    rw [List.cons_append] at hcommands hunfinished
    rw [hcommands, hunfinished, commandLines_line h, unfinishedLine_line h, stripReturns_return]
    exact ⟨rfl, rfl⟩

theorem lines_stripReturns (line chunk : List UInt8) :
    commandLines (stripReturns line ++ chunk) = commandLines (line ++ chunk) ∧
      unfinishedLine (stripReturns line ++ chunk) = unfinishedLine (line ++ chunk) := by
  induction line with
  | nil => exact ⟨rfl, rfl⟩
  | cons byte line ih =>
    by_cases h : byte = carriageReturn
    · subst h
      obtain ⟨hcommands, hunfinished⟩ := lines_return (line ++ chunk)
      rw [stripReturns_return, List.cons_append, hcommands, hunfinished]
      exact ih
    · have hhead : (byte :: line).head? ≠ some carriageReturn := fun first => h (Option.some.inj first)
      rw [stripReturns_of_head hhead]
      exact ⟨rfl, rfl⟩

/-- The stream may be cut anywhere: what is left of the part before the cut stands for it. -/
theorem lines_append (stream chunk : List UInt8) :
    commandLines (stream ++ chunk) = commandLines stream ++ commandLines (unfinishedLine stream ++ chunk) ∧
      unfinishedLine (stream ++ chunk) = unfinishedLine (unfinishedLine stream ++ chunk) := by
  generalize hn : stream.length = n
  induction n using Nat.strong_induction_on generalizing stream with
  | _ n ih =>
    rcases line_cases stream with h | ⟨line, rest, h, rfl⟩
    · obtain ⟨hcommands, hunfinished⟩ := lines_stripReturns stream chunk
      rw [commandLines_unfinished h, unfinishedLine_unfinished h, hcommands, hunfinished, List.nil_append]
      exact ⟨rfl, rfl⟩
    · simp only [List.length_append, List.length_cons] at hn
      obtain ⟨hcommands, hunfinished⟩ := ih rest.length (by omega) rest rfl
      rw [List.append_assoc, List.cons_append, commandLines_line h, unfinishedLine_line h, commandLines_line h,
        unfinishedLine_line h, hcommands, hunfinished, List.append_assoc]
      exact ⟨rfl, rfl⟩

theorem unfinishedLine_clean (stream : List UInt8) :
    newline ∉ unfinishedLine stream ∧ (unfinishedLine stream).head? ≠ some carriageReturn := by
  generalize hn : stream.length = n
  induction n using Nat.strong_induction_on generalizing stream with
  | _ n ih =>
    rcases line_cases stream with h | ⟨line, rest, h, rfl⟩
    · rw [unfinishedLine_unfinished h]
      refine ⟨fun mem => h ((List.dropWhile_sublist _).subset mem), ?_⟩
      intro first
      have hfalse := List.head?_dropWhile_not (· == carriageReturn) stream
      rw [show stream.dropWhile (· == carriageReturn) = stripReturns stream from rfl, first] at hfalse
      simp at hfalse
    · simp only [List.length_append, List.length_cons] at hn
      rw [unfinishedLine_line h]
      exact ih rest.length (by omega) rest rfl

end Lines

namespace AppCtrlServer

variable {b : Buffer} {line rest : List UInt8}

theorem nextLine_empty (wf : b.Wf) (h : b.content = []) : nextLine b = none := by
  simp [nextLine, Buffer.readableBytes_eq wf, h]

theorem nextLine_return (wf : b.Wf) (h : b.content = carriageReturn :: rest) : nextLine b = some (none, 1) := by
  simp [nextLine, Buffer.readableBytes_eq wf, Buffer.peek_eq wf, h]

theorem nextLine_ne_return (wf : b.Wf) (hne : b.content ≠ []) (h : b.content.head? ≠ some carriageReturn) :
    nextLine b =
      match b.content.findIdx? (· == newline) with
      | none => none
      | some i => some (if i ≠ 0 then some (b.content.take i) else none, i + 1) := by
  have hread := Buffer.readableBytes_eq wf
  have hpos := List.length_pos_iff.mpr hne
  have hhead : b.peek.head? = b.content.head? := by
    obtain ⟨byte, bytes, hcontent⟩ := List.exists_cons_of_ne_nil hne
    rw [Buffer.peek_eq wf, hcontent]
    rfl
  have hpeek : b.peek.take b.readableBytes = b.content := by
    rw [hread, Buffer.peek_eq wf, List.take_left]
  rw [nextLine, if_pos (by omega), hhead, if_neg h, hpeek]
  split
  · rfl
  next i found =>
    have hi := (List.findIdx?_eq_some_iff_getElem.mp found).1
    rw [Buffer.peek_eq wf, List.take_append_of_le_length (by omega)]

theorem nextLine_unfinished (wf : b.Wf) (h : newline ∉ b.content) (first : b.content.head? ≠ some carriageReturn) :
    nextLine b = none := by
  by_cases hne : b.content = []
  · exact nextLine_empty wf hne
  · have absent : b.content.findIdx? (· == newline) = none := by
      rw [List.findIdx?_eq_none_iff]
      intro x hx
      exact beq_eq_false_iff_ne.mpr fun same => h (same ▸ hx)
    rw [nextLine_ne_return wf hne first, absent]

theorem nextLine_line (wf : b.Wf) (h : newline ∉ line) (hcontent : b.content = line ++ newline :: rest)
    (first : b.content.head? ≠ some carriageReturn) :
    nextLine b = some (if line = [] then none else some line, line.length + 1) := by
  have found : b.content.findIdx? (· == newline) = some line.length := by
    rw [hcontent, List.findIdx?_append, List.findIdx?_eq_none_iff.mpr]
    · simp [List.findIdx?_cons]
    · intro x hx
      exact beq_eq_false_iff_ne.mpr fun same => h (same ▸ hx)
  rw [nextLine_ne_return wf (by rw [hcontent]; simp) first, found, hcontent]
  simp only [List.take_left, List.length_eq_zero_iff.ne]
  by_cases hnil : line = []
  · simp [hnil]
  · simp [hnil]

/-- The loop ends, by induction on the number of readable bytes, which every turn lowers. -/
theorem drainLoop_nextLine (wf : b.Wf) :
    ∃ fuel out b', drainLoop nextLine fuel b = some (out, b') ∧ out.filterMap id = commandLines b.content ∧
      b'.Wf ∧ b'.content = unfinishedLine b.content := by
  generalize hn : b.content.length = n
  induction n using Nat.strong_induction_on generalizing b with
  | _ n ih =>
    have turn : ∀ (command : Option (List UInt8)) len, nextLine b = some (command, len) →
        (b.content.drop len).length < n → ∃ fuel out b', drainLoop nextLine fuel b = some (command :: out, b') ∧
          out.filterMap id = commandLines (b.content.drop len) ∧ b'.Wf ∧
          b'.content = unfinishedLine (b.content.drop len) := by
      intro command len next shorter
      obtain ⟨wf', hcontent⟩ := Buffer.retrieve_spec wf len
      obtain ⟨fuel, out, b', run, hout, hwf, hrest⟩ := ih _ shorter wf' (by rw [hcontent])
      rw [hcontent] at hout hrest
      exact ⟨fuel + 1, out, b', by simp only [drainLoop, next, run, Option.map_some], hout, hwf, hrest⟩
    by_cases first : b.content.head? = some carriageReturn
    · obtain ⟨rest, hcontent⟩ := List.head?_eq_some_iff.mp first
      rw [hcontent, List.length_cons] at hn
      have hdrop : b.content.drop 1 = rest := by rw [hcontent, List.drop_one, List.tail_cons]
      obtain ⟨fuel, out, b', run, hout, hwf, hrest⟩ :=
        turn none 1 (nextLine_return wf hcontent) (by rw [hdrop]; omega)
      obtain ⟨hcommands, hunfinished⟩ := lines_return rest
      rw [hdrop] at hout hrest
      rw [hcontent, hcommands, hunfinished]
      exact ⟨fuel, none :: out, b', run, by simpa using hout, hwf, hrest⟩
    · rcases line_cases b.content with h | ⟨line, rest, h, hcontent⟩
      · rw [commandLines_unfinished h, unfinishedLine_unfinished h, stripReturns_of_head first]
        exact ⟨1, [], b, drainLoop_none (nextLine_unfinished wf h first), rfl, wf, rfl⟩
      · have hdrop : b.content.drop (line.length + 1) = rest := by
          rw [hcontent, ← List.drop_drop, List.drop_left, List.drop_one, List.tail_cons]
        have hstrip : stripReturns line = line := by
          refine stripReturns_of_head ?_
          cases line with
          | nil => simp
          | cons byte line =>
            rw [hcontent] at first
            exact first
        have hlen := congrArg List.length hcontent
        rw [List.length_append, List.length_cons] at hlen
        obtain ⟨fuel, out, b', run, hout, hwf, hrest⟩ :=
          turn _ _ (nextLine_line wf h hcontent first) (by rw [hdrop]; omega)
        rw [hdrop] at hout hrest
        rw [hcontent, commandLines_line h, unfinishedLine_line h, hstrip, ← hout]
        refine ⟨fuel, _, b', run, ?_, hwf, hrest⟩
        by_cases hnil : line = []
        · simp [hnil]
        · simp [hnil]

theorem onMsgRecv_spec (wf : b.Wf) :
    ∃ fuel b', onMsgRecv fuel b = some (commandLines b.content, b') ∧ b'.Wf ∧
      b'.content = unfinishedLine b.content := by
  obtain ⟨fuel, out, b', run, hout, hwf, hrest⟩ := drainLoop_nextLine wf
  exact ⟨fuel, b', by rw [onMsgRecv, run, Option.map_some, hout], hwf, hrest⟩

theorem onMsgRecv_mono {fuel fuel' : Nat} {r : List (List UInt8) × Buffer} (h : onMsgRecv fuel b = some r)
    (hle : fuel ≤ fuel') : onMsgRecv fuel' b = some r := by
  obtain ⟨r', hr', rfl⟩ := Option.map_eq_some_iff.mp h
  rw [onMsgRecv, drainLoop_mono hr' hle, Option.map_some]

theorem onMsgRecv_enough {fuel : Nat} {r : List (List UInt8) × Buffer} (wf : b.Wf) (h : onMsgRecv fuel b = some r) :
    onMsgRecv (b.readableBytes + 1) b = some r := by
  obtain ⟨r', hr', rfl⟩ := Option.map_eq_some_iff.mp h
  rw [onMsgRecv, drainLoop_enough (fun b wf hnil => nextLine_empty wf hnil) wf hr', Option.map_some]

theorem recvChunks_mono {chunks : List (List UInt8)} {fuel fuel' : Nat} {r : List (List UInt8) × Buffer}
    (h : recvChunks fuel b chunks = some r) (hle : fuel ≤ fuel') : recvChunks fuel' b chunks = some r := by
  induction chunks generalizing b r with
  | nil => exact h
  | cons chunk chunks ih =>
    simp only [recvChunks] at h ⊢
    obtain ⟨r₁, h₁, h₂⟩ := Option.bind_eq_some_iff.mp h
    obtain ⟨r₂, h₃, rfl⟩ := Option.map_eq_some_iff.mp h₂
    simp [onMsgRecv_mono h₁ hle, ih h₃]

theorem recvChunks_unique {chunks : List (List UInt8)} {fuel fuel' : Nat} {r r' : List (List UInt8) × Buffer}
    (h : recvChunks fuel b chunks = some r) (h' : recvChunks fuel' b chunks = some r') : r = r' := by
  have hm := recvChunks_mono h (Nat.le_max_left fuel fuel')
  rw [recvChunks_mono h' (Nat.le_max_right fuel fuel')] at hm
  exact (Option.some.inj hm).symm

theorem recvChunks_snoc (fuel : Nat) (b : Buffer) (chunks : List (List UInt8)) (chunk : List UInt8) :
    recvChunks fuel b (chunks ++ [chunk]) =
      (recvChunks fuel b chunks).bind fun r =>
        (onMsgRecv fuel (r.2.scatterRead chunk)).map fun r' => (r.1 ++ r'.1, r'.2) := by
  induction chunks generalizing b with
  | nil =>
    simp only [List.nil_append, recvChunks, Option.bind_some]
    cases onMsgRecv fuel (b.scatterRead chunk) <;> simp
  | cons first chunks ih =>
    simp only [List.cons_append, recvChunks]
    cases onMsgRecv fuel (b.scatterRead first) with
    | none => rfl
    | some r =>
      simp only [Option.bind_some, ih]
      cases recvChunks fuel r.2 chunks with
      | none => rfl
      | some r' =>
        simp only [Option.bind_some, Option.map_some]
        cases onMsgRecv fuel (r'.2.scatterRead chunk) <;> simp

end AppCtrlServer

/-- What is received on a control channel: no chunk is empty, its length is an `int`, and less than the
limit is pending when it comes. -/
structure ControlStream (chunks : List (List UInt8)) : Prop where
  nonempty : ∀ chunk ∈ chunks, chunk ≠ []
  length_lt : ∀ chunk ∈ chunks, chunk.length < 2147483648
  pending : ∀ k fuel cmds b, AppCtrlServer.recvChunks fuel (.create 1024) (chunks.take k) = some (cmds, b) →
    b.readableBytes < kMaxRecvBufSize

/-- However a stream is cut, every `OnMsgRecv` ends, the commands are its finished lines, in order, without
leading carriage returns and without empty ones, and what is left has no newline and does not start with
a carriage return. -/
theorem control_lines {chunks : List (List UInt8)} (h : ControlStream chunks) (k : Nat) :
    ∃ fuel b, AppCtrlServer.recvChunks fuel (.create 1024) (chunks.take k) =
        some (commandLines (chunks.take k).flatten, b) ∧
      b.content = unfinishedLine (chunks.take k).flatten ∧
      newline ∉ b.content ∧ b.content.head? ≠ some carriageReturn := by
  have run : ∃ fuel b, AppCtrlServer.recvChunks fuel (.create 1024) (chunks.take k) =
      some (commandLines (chunks.take k).flatten, b) ∧ b.Wf ∧
      b.content = unfinishedLine (chunks.take k).flatten := by
    induction k with
    | zero => exact ⟨0, _, rfl, Buffer.create_wf (by decide), Buffer.content_create 1024⟩
    | succ k ih =>
      obtain ⟨fuel, b, run, wf, hcontent⟩ := ih
      cases hk : chunks[k]? with
      | none =>
        have hlen := List.getElem?_eq_none_iff.mp hk
        rw [List.take_of_length_le (by omega)]
        rw [List.take_of_length_le hlen] at run hcontent
        exact ⟨fuel, b, run, wf, hcontent⟩
      | some chunk =>
        have mem := List.mem_of_getElem? hk
        have hshort := h.length_lt chunk mem
        have hpending := h.pending k fuel _ b run
        rw [Buffer.readableBytes_eq wf] at hpending
        have hlen : b.content.length + chunk.length < 18446744073709551616 := by
          unfold kMaxRecvBufSize at hpending
          omega
        obtain ⟨wf₁, hcontent₁⟩ := Buffer.scatterRead_spec wf hpending.le hlen
        obtain ⟨fuel', b', handled, wf', hcontent'⟩ := AppCtrlServer.onMsgRecv_spec wf₁
        rw [hcontent₁, hcontent] at handled hcontent'
        obtain ⟨hcommands, hunfinished⟩ := lines_append (chunks.take k).flatten chunk
        have htake : chunks.take (k + 1) = chunks.take k ++ [chunk] := by
          rw [List.take_add_one, hk]
          rfl
        rw [htake, List.flatten_append, List.flatten_singleton, hcommands, hunfinished]
        refine ⟨max fuel fuel', b', ?_, wf', hcontent'⟩
        rw [AppCtrlServer.recvChunks_snoc, AppCtrlServer.recvChunks_mono run (Nat.le_max_left fuel fuel'),
          Option.bind_some, AppCtrlServer.onMsgRecv_mono handled (Nat.le_max_right fuel fuel')]
        rfl
  obtain ⟨fuel, b, run, -, hcontent⟩ := run
  have clean := unfinishedLine_clean (chunks.take k).flatten
  rw [← hcontent] at clean
  exact ⟨fuel, b, run, hcontent, clean⟩

/-- Two commands and a blank line, cut between a carriage return and a newline. -/
def cutCommands : List (List UInt8) := [[114, 13], [10, 13, 13, 10, 115], [10, 13, 120]]

theorem control_lines_cut :
    ControlStream cutCommands ∧ commandLines cutCommands.flatten = [[114, 13], [115]] ∧
    ∃ fuel b, AppCtrlServer.recvChunks fuel (.create 1024) cutCommands =
        some (commandLines cutCommands.flatten, b) ∧ newline ∉ b.content := by
  have stream : ControlStream cutCommands := by
    refine ⟨by decide, by decide, ?_⟩
    intro k fuel cmds b run
    have short : ∀ k : Fin 4, ((AppCtrlServer.recvChunks 9 (.create 1024) (cutCommands.take k)).any
        fun r => decide (r.2.readableBytes < kMaxRecvBufSize)) = true := by decide +kernel
    have htake : cutCommands.take k = cutCommands.take (min k 3) := by
      rw [List.take_eq_take_iff]
      simp [cutCommands]
    rw [htake] at run
    obtain ⟨r, hr, hlt⟩ := (Option.any_eq_true ..).mp (short ⟨min k 3, by omega⟩)
    rw [AppCtrlServer.recvChunks_unique hr run] at hlt
    exact of_decide_eq_true hlt
  obtain ⟨fuel, b, run, -, clean, -⟩ := control_lines stream 3
  exact ⟨stream, by decide +kernel, fuel, b, run, clean⟩

end Wddlib
