import Wddlib.MainLoop
import Wddlib.RunPrefix

namespace Wddlib

variable {Conf : Type}

/-- The bytes that a control channel gets in a list of reads. -/
def heardFrom (client : Nat) (reads : List CtrlRead) : List UInt8 :=
  (reads.filter (·.client = client)).flatMap CtrlRead.chunk

/-- The commands that a read completes. -/
def newCommands (before : List CtrlRead) (read : CtrlRead) : List (List UInt8) :=
  commandLines (unfinishedLine (heardFrom read.client before) ++ read.chunk)

/-- Some control channel has sent the command `word`. -/
def Commanded (word : String) (reads : List CtrlRead) : Prop :=
  ∃ client, ∃ instr ∈ commandLines (heardFrom client reads), firstWord instr = text word

/-- The answers that a control channel is sent, with the commands they answer. -/
def repliesTo (client : Nat) (replies : List Reply) : List (List UInt8 × List UInt8) :=
  (replies.filter (·.client = client)).map fun reply => (reply.instr, reply.outstr)

def answer (onCtrlCmd : List UInt8 → List UInt8 → Int × List UInt8) (instr : List UInt8) : List UInt8 :=
  if firstWord instr = text "reload" then text "Reload success" ++ text "\n"
  else if firstWord instr = text "stop" then text "Done" ++ text "\n"
  else if (onCtrlCmd instr []).1 < 0 then text "unsupport cmd " ++ instr ++ text "\n"
  else (onCtrlCmd instr []).2

/-- The configuration after the reads that follow `before`: it comes from the last one that completes a reload. -/
def confAfter (parse : TextFormat Conf) (before : List CtrlRead) (conf : Conf) : List CtrlRead → Conf
  | [] => conf
  | read :: reads =>
    confAfter parse (before ++ [read])
      (if ∃ instr ∈ newCommands before read, firstWord instr = text "reload" then (parse read.confFile).2 else conf)
      reads

/-- `DoRecv` finds no line so long that it throws its beginning away. -/
def FitsLines (reads : List CtrlRead) : Prop :=
  ∀ k read, reads[k]? = some read →
    (unfinishedLine (heardFrom read.client (reads.take k))).length ≤ kMaxRecvBufSize ∧ read.chunk.length ≤ 1073741824

instance (reads : List CtrlRead) : Decidable (FitsLines reads) :=
  decidable_of_iff _ (forall_event_iff (P := fun k (read : CtrlRead) =>
    (unfinishedLine (heardFrom read.client (reads.take k))).length ≤ kMaxRecvBufSize ∧
      read.chunk.length ≤ 1073741824)).symm

section Streams

variable {client : Nat} {before reads : List CtrlRead} {read : CtrlRead} {word : String}

theorem heardFrom_read (before : List CtrlRead) (read : CtrlRead) :
    heardFrom read.client (before ++ [read]) = heardFrom read.client before ++ read.chunk := by
  simp [heardFrom]

theorem heardFrom_other (before : List CtrlRead) (other : read.client ≠ client) :
    heardFrom client (before ++ [read]) = heardFrom client before := by
  simp [heardFrom, other]

theorem repliesTo_append (client : Nat) (replies replies' : List Reply) :
    repliesTo client (replies ++ replies') = repliesTo client replies ++ repliesTo client replies' := by
  simp only [repliesTo, List.filter_append, List.map_append]

/-- What was commanded before a read or is completed by it is commanded after it. -/
theorem commanded_read (word : String) (before : List CtrlRead) (read : CtrlRead) :
    Commanded word (before ++ [read]) ↔
      Commanded word before ∨ ∃ instr ∈ newCommands before read, firstWord instr = text word := by
  constructor
  · rintro ⟨client, instr, mem, hword⟩
    by_cases same : read.client = client
    · subst same
      rw [heardFrom_read, (lines_append _ _).1] at mem
      rcases List.mem_append.mp mem with old | new
      · exact .inl ⟨read.client, instr, old, hword⟩
      · exact .inr ⟨instr, new, hword⟩
    · rw [heardFrom_other before same] at mem
      exact .inl ⟨client, instr, mem, hword⟩
  · rintro (⟨client, instr, old, hword⟩ | ⟨instr, new, hword⟩)
    · by_cases same : read.client = client
      · subst same
        refine ⟨read.client, instr, ?_, hword⟩
        rw [heardFrom_read, (lines_append _ _).1]
        exact List.mem_append_left _ old
      · exact ⟨client, instr, by rwa [heardFrom_other before same], hword⟩
    · refine ⟨read.client, instr, ?_, hword⟩
      rw [heardFrom_read, (lines_append _ _).1]
      exact List.mem_append_right _ new

theorem confAfter_append (parse : TextFormat Conf) (before : List CtrlRead) (conf : Conf) (reads : List CtrlRead)
    (read : CtrlRead) :
    confAfter parse before conf (reads ++ [read]) =
      if ∃ instr ∈ newCommands (before ++ reads) read, firstWord instr = text "reload" then (parse read.confFile).2
      else confAfter parse before conf reads := by
  induction reads generalizing before conf with
  | nil => simp only [List.nil_append, List.append_nil, confAfter]
  | cons first reads ih =>
    simp only [List.cons_append, confAfter]
    rw [ih, List.append_assoc, List.singleton_append]

end Streams

section Commands

variable (parse : TextFormat Conf) (onCtrlCmd : List UInt8 → List UInt8 → Int × List UInt8)

theorem controlCmd_answer (file : ConfFile) (app : ServerApp Conf) (instr : List UInt8) :
    app.controlCmd parse onCtrlCmd file instr [] =
      ({ conf := if firstWord instr = text "reload" then (parse file).2 else app.conf
         isStop := app.isStop || firstWord instr = text "stop" }, answer onCtrlCmd instr) := by
  have other : text "reload" ≠ text "stop" := by decide
  unfold ServerApp.controlCmd ServerApp.loadConf answer
  by_cases reload : firstWord instr = text "reload"
  · simp [reload, other]
  · by_cases stop : firstWord instr = text "stop"
    · simp [stop, other.symm]
    · simp only [reload, stop, if_false, decide_false, Bool.or_false]

theorem controlCmds_spec (client : Nat) (file : ConfFile) (app : ServerApp Conf) (instrs : List (List UInt8)) :
    MainLoop.controlCmds parse onCtrlCmd client file app instrs =
      ({ conf := if ∃ instr ∈ instrs, firstWord instr = text "reload" then (parse file).2 else app.conf
         isStop := app.isStop || decide (∃ instr ∈ instrs, firstWord instr = text "stop") },
        instrs.map fun instr => ⟨client, instr, answer onCtrlCmd instr⟩) := by
  induction instrs generalizing app with
  | nil => simp [MainLoop.controlCmds]
  | cons instr instrs ih =>
    simp only [MainLoop.controlCmds, controlCmd_answer, ih, List.map_cons, List.exists_mem_cons_iff, Bool.decide_or,
      Bool.or_assoc]
    by_cases later : ∃ instr ∈ instrs, firstWord instr = text "reload"
    · simp only [later, if_true, or_true]
    · simp only [later, if_false, or_false]

end Commands

namespace MainLoop

variable {parse : TextFormat Conf} {onCtrlCmd : List UInt8 → List UInt8 → Int × List UInt8} {conf : Conf}
  {loop : MainLoop Conf} {before reads : List CtrlRead} {replies : List Reply} {read : CtrlRead}

/-- Where the control channels and the configuration stand after the reads `before`, which were sent `replies`. -/
structure Session (parse : TextFormat Conf) (onCtrlCmd : List UInt8 → List UInt8 → Int × List UInt8) (conf : Conf)
    (loop : MainLoop Conf) (before : List CtrlRead) (replies : List Reply) : Prop where
  wf : ∀ client, (loop.recvBuf client).Wf
  line : ∀ client, (loop.recvBuf client).content = unfinishedLine (heardFrom client before)
  answered : ∀ client, repliesTo client replies =
    (commandLines (heardFrom client before)).map fun instr => (instr, answer onCtrlCmd instr)
  stop : loop.app.isStop = true ↔ Commanded "stop" before
  conf_eq : loop.app.conf = confAfter parse [] conf before

theorem create_session (time : TimeVal) : Session parse onCtrlCmd conf (.create conf time) [] [] where
  wf _ := Buffer.create_wf (by decide)
  line _ := Buffer.content_create 1024
  answered _ := rfl
  stop := by
    constructor
    · intro h
      cases h
    · rintro ⟨client, instr, mem, -⟩
      cases mem
  conf_eq := rfl

/-- `DoRecv` puts a read behind the line that its channel has begun, and the loop of `OnMsgRecv` ends. -/
theorem recv_eq (s : Session parse onCtrlCmd conf loop before replies)
    (fits : (unfinishedLine (heardFrom read.client before)).length ≤ kMaxRecvBufSize ∧
      read.chunk.length ≤ 1073741824) :
    ∃ b, b.Wf ∧ b.content = unfinishedLine (heardFrom read.client (before ++ [read])) ∧
      loop.recv parse onCtrlCmd read =
        ({ loop with
            app := (controlCmds parse onCtrlCmd read.client read.confFile loop.app (newCommands before read)).1
            recvBuf := Function.update loop.recvBuf read.client b },
          (newCommands before read).map fun instr => ⟨read.client, instr, answer onCtrlCmd instr⟩) := by
  obtain ⟨short, small⟩ := fits
  have hline := s.line read.client
  rw [← hline] at short
  have hlen : (loop.recvBuf read.client).content.length + read.chunk.length < 18446744073709551616 := by
    unfold kMaxRecvBufSize at short
    omega
  obtain ⟨wf, hcontent⟩ := Buffer.scatterRead_spec (s.wf read.client) short hlen
  obtain ⟨fuel, b, found, wf', hrest⟩ := AppCtrlServer.onMsgRecv_spec wf
  have ended := AppCtrlServer.onMsgRecv_enough wf found
  rw [hcontent, hline] at ended hrest
  refine ⟨b, wf', ?_, ?_⟩
  · rw [heardFrom_read]
    exact hrest.trans (lines_append _ _).2.symm
  · simp only [recv, ended, controlCmds_spec, newCommands]

theorem Session.recv (s : Session parse onCtrlCmd conf loop before replies)
    (fits : (unfinishedLine (heardFrom read.client before)).length ≤ kMaxRecvBufSize ∧
      read.chunk.length ≤ 1073741824) :
    Session parse onCtrlCmd conf (loop.recv parse onCtrlCmd read).1 (before ++ [read])
      (replies ++ (loop.recv parse onCtrlCmd read).2) := by
  obtain ⟨b, wf, hline, heq⟩ := recv_eq s fits
  rw [heq, controlCmds_spec]
  refine ⟨fun client => ?_, fun client => ?_, fun client => ?_, ?_, ?_⟩
  · by_cases same : client = read.client
    · subst same
      simpa only [Function.update_self] using wf
    · simpa only [Function.update_of_ne same] using s.wf client
  · by_cases same : client = read.client
    · subst same
      simpa only [Function.update_self] using hline
    · simpa only [Function.update_of_ne same, heardFrom_other before (Ne.symm same)] using s.line client
  · rw [repliesTo_append, s.answered]
    by_cases same : read.client = client
    · subst same
      rw [heardFrom_read, (lines_append _ _).1, List.map_append]
      simp [repliesTo, newCommands, List.filter_map, Function.comp_def]
    · rw [heardFrom_other before same]
      simp [repliesTo, List.filter_map, Function.comp_def, same]
  · simp only [Bool.or_eq_true, decide_eq_true_eq]
    rw [commanded_read, s.stop]
  · simp only [confAfter_append, List.nil_append, s.conf_eq]

/-- A prefix of reads that fit fits. -/
theorem fitsLines_head (fits : FitsLines (before ++ read :: reads)) :
    (unfinishedLine (heardFrom read.client before)).length ≤ kMaxRecvBufSize ∧ read.chunk.length ≤ 1073741824 := by
  have here := fits before.length read (by simp)
  rwa [List.take_left] at here

theorem Session.poll (s : Session parse onCtrlCmd conf loop before replies) (fits : FitsLines (before ++ reads)) :
    Session parse onCtrlCmd conf (loop.poll parse onCtrlCmd reads).1 (before ++ reads)
      (replies ++ (loop.poll parse onCtrlCmd reads).2) := by
  induction reads generalizing loop before replies with
  | nil => simpa only [MainLoop.poll, List.append_nil] using s
  | cons read reads ih =>
    have next := s.recv (fitsLines_head fits)
    have rest := ih next (by simpa only [List.append_assoc, List.singleton_append] using fits)
    simpa only [MainLoop.poll, List.append_assoc, List.singleton_append] using rest

theorem Session.pass {round : Round} (s : Session parse onCtrlCmd conf loop before replies)
    (fits : FitsLines (before ++ round.reads)) :
    Session parse onCtrlCmd conf (loop.pass parse onCtrlCmd round).1 (before ++ round.reads)
      (replies ++ (loop.pass parse onCtrlCmd round).2.replies) :=
  -- the pace of the loop is no part of a session
  have polled := s.poll fits
  ⟨polled.wf, polled.line, polled.answered, polled.stop, polled.conf_eq⟩

theorem fitsLines_left (fits : FitsLines (before ++ reads)) : FitsLines before := by
  intro k read hk
  obtain ⟨hlt, -⟩ := List.getElem?_eq_some_iff.mp hk
  have here := fits k read (by rw [List.getElem?_append_left hlt, hk])
  rwa [List.take_append_of_le_length (by omega)] at here

/-- The passes are those for the first rounds, and only `m_is_stop` leaves rounds without one. -/
theorem Session.run {rounds : List Round} (s : Session parse onCtrlCmd conf loop before replies)
    (fits : FitsLines (before ++ rounds.flatMap Round.reads)) {last : MainLoop Conf} {turns : List LoopTurn}
    (h : loop.run parse onCtrlCmd rounds = (last, turns)) :
    Session parse onCtrlCmd conf last (before ++ (rounds.take turns.length).flatMap Round.reads)
        (replies ++ turns.flatMap LoopTurn.replies) ∧
      turns.length ≤ rounds.length ∧ (turns.length < rounds.length → last.app.isStop = true) ∧
      ∀ k < turns.length, ¬ Commanded "stop" (before ++ (rounds.take k).flatMap Round.reads) := by
  induction rounds generalizing loop before replies turns with
  | nil =>
    obtain ⟨rfl, rfl⟩ := Prod.mk.inj h
    simpa using s
  | cons round rounds ih =>
    simp only [MainLoop.run] at h
    split at h
    next stopped =>
      obtain ⟨rfl, rfl⟩ := Prod.mk.inj h
      simpa [stopped] using s
    next goes =>
      obtain ⟨rfl, rfl⟩ := Prod.mk.inj h
      simp only [List.flatMap_cons, ← List.append_assoc] at fits
      have passed := s.pass (fitsLines_left fits)
      obtain ⟨done, hle, early, before_stop⟩ := ih passed fits rfl
      simp only [List.length_cons, List.take_succ_cons, List.flatMap_cons, ← List.append_assoc]
      refine ⟨done, by omega, fun hlt => early (by omega), ?_⟩
      intro k hk
      cases k with
      | zero =>
        rw [s.stop] at goes
        simpa using goes
      | succ k =>
        simpa only [List.take_succ_cons, List.flatMap_cons, ← List.append_assoc] using before_stop k (by omega)

end MainLoop

/-- However the bytes of the control channels are cut and mixed, each channel gets one answer for each of its
commands, in order. The loop ends behind the first round in which a `stop` is completed and not before, what follows
it in that round is still answered, and the configuration is that of the last `reload`. -/
theorem control_session (parse : TextFormat Conf) (onCtrlCmd : List UInt8 → List UInt8 → Int × List UInt8)
    (conf : Conf) (time : TimeVal) {rounds : List Round} (fits : FitsLines (rounds.flatMap Round.reads))
    {last : MainLoop Conf} {turns : List LoopTurn}
    (h : (MainLoop.create conf time).run parse onCtrlCmd rounds = (last, turns)) :
    (∀ client, repliesTo client (turns.flatMap LoopTurn.replies) =
      (commandLines (heardFrom client ((rounds.take turns.length).flatMap Round.reads))).map
        fun instr => (instr, answer onCtrlCmd instr)) ∧
    last.app.conf = confAfter parse [] conf ((rounds.take turns.length).flatMap Round.reads) ∧
    turns.length ≤ rounds.length ∧
    (turns.length < rounds.length → Commanded "stop" ((rounds.take turns.length).flatMap Round.reads)) ∧
    ∀ k < turns.length, ¬ Commanded "stop" ((rounds.take k).flatMap Round.reads) := by
  obtain ⟨session, hle, early, earlier⟩ := (MainLoop.create_session time).run (by simpa using fits) h
  simp only [List.nil_append] at session earlier
  exact ⟨session.answered, session.conf_eq, hle, fun hlt => session.stop.mp (early hlt), earlier⟩

/-- Two channels whose commands are cut; the third round comes after the `stop`. -/
def cutSession : List Round :=
  [⟨[⟨0, text "re", .missing⟩, ⟨1, text "\rst", .missing⟩], .sleep, { sec := 0, usec := 1000 }⟩,
    ⟨[⟨0, text "load\nx", .readable [8, 1]⟩, ⟨1, text "op\n", .missing⟩, ⟨0, text "y\n", .missing⟩], .sleep,
      { sec := 0, usec := 2000 }⟩,
    ⟨[⟨0, text "stop\n", .missing⟩], .sleep, { sec := 0, usec := 3000 }⟩]

theorem control_session_cut :
    ∃ last turns, (MainLoop.create none .epoch).run ServerApp.portFormat defaultOnCtrlCmd cutSession = (last, turns) ∧
      turns.length = 2 ∧ Commanded "stop" ((cutSession.take turns.length).flatMap Round.reads) ∧
      repliesTo 0 (turns.flatMap LoopTurn.replies) =
        [(text "reload", text "Reload success\n"), (text "xy", text "unsupport cmd xy\n")] := by
  have two : ((MainLoop.create none .epoch).run ServerApp.portFormat defaultOnCtrlCmd cutSession).2.length = 2 := by
    decide +kernel
  obtain ⟨answered, -, -, early, -⟩ := control_session ServerApp.portFormat defaultOnCtrlCmd none .epoch
    (show FitsLines (cutSession.flatMap Round.reads) by decide +kernel) (Prod.mk.eta ..).symm
  refine ⟨_, _, (Prod.mk.eta ..).symm, two, early (by rw [two]; decide), (answered 0).trans ?_⟩
  rw [two]
  decide +kernel

end Wddlib
