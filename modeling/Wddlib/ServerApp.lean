import Wddlib.PbRoundTrip
import Wddlib.CMemory

namespace Wddlib

/-- The generated code of a message class as `Pack` uses it: `serializeToArray msg n` is what is written at
the target of size `n`, `none` for false. -/
structure Serializer (M : Type) where
  byteSize : M → Nat
  serializeToArray : M → Nat → Option (List UInt8)

/-- What is relied on of protobuf: serialising fails for want of room only, and fills in `ByteSize()` bytes. -/
structure Serializer.Lawful {M : Type} (ser : Serializer M) : Prop where
  fails : ∀ msg n, ser.serializeToArray msg n = none ↔ n < ser.byteSize msg
  size : ∀ msg n bytes, ser.serializeToArray msg n = some bytes → bytes.length = ser.byteSize msg

def isSpace (c : UInt8) : Bool := c == 32 || (9 ≤ c && c ≤ 13)

/-- What `instream >> cmd` reads. -/
def firstWord (instr : List UInt8) : List UInt8 := (instr.dropWhile isSpace).takeWhile (! isSpace ·)

/-- The configuration file on disk: `open` finds none, or `read` fails, or it has bytes. -/
inductive ConfFile where
  | missing
  | unreadable
  | readable (bytes : List UInt8)
  deriving DecidableEq

/-- `TextFormat::Parse` on the file, which starts from a cleared message: its result and what it leaves in
the message. -/
abbrev TextFormat (Conf : Type) := ConfFile → Bool × Conf

/-- `conf` is the message behind `GetConf()`. -/
structure ServerApp (Conf : Type) where
  conf : Conf
  isStop : Bool

namespace ServerApp

/-- `_Max_Msg_Len`, the size of `m_Buff`. -/
def maxMsgLen : Nat := 1024 * 1024

/-- A call of `Pack`: the offset in `m_Buff` of the pointer it returns, the value it leaves in `len`, its
stores, and the memory from `m_Buff` on, of which `m_Buff` is the first `maxMsgLen` bytes. -/
structure PackCall where
  ret : Option Nat
  len : Nat
  stores : List Store
  mem : Nat → UInt8

variable {M Conf : Type}

def pack (ser : Serializer M) (mem : Nat → UInt8) (msg : M) : PackCall :=
  match ser.serializeToArray msg maxMsgLen with
  | some bytes =>
    let len := (ser.byteSize msg + 4) % 4294967296
    let stores := [⟨4, bytes⟩, ⟨0, htonl len⟩]
    ⟨some 0, len, stores, stores.foldl (fun mem st => st.apply mem) mem⟩
  | none => ⟨none, 0, [], mem⟩

/-- What `GetMsg` returns and leaves in `len`; `buff` is the memory at `buff`. -/
def getMsg (buff : Nat → UInt8) (len : Nat) : Option (Nat → UInt8) × Nat :=
  let msglen := bigEndian [buff 0, buff 1, buff 2, buff 3]
  if len < msglen then (none, 0) else (some buff, msglen)

def loadConf (parse : TextFormat Conf) (file : ConfFile) (app : ServerApp Conf) : ServerApp Conf × Int :=
  -- a parse that fails is logged and nothing else
  ({ app with conf := (parse file).2 }, 0)

/-- `ControlCmd` with the `OnCtrlCmd` of the class, which gets and leaves `outstr`. The `OnReload` of the
servers only logs. -/
def controlCmd (parse : TextFormat Conf) (onCtrlCmd : List UInt8 → List UInt8 → Int × List UInt8) (file : ConfFile)
    (app : ServerApp Conf) (instr outstr : List UInt8) : ServerApp Conf × List UInt8 :=
  if firstWord instr = text "reload" then
    ((loadConf parse file app).1, text "Reload success" ++ text "\n")
  else if firstWord instr = text "stop" then
    ({ app with isStop := true }, text "Done" ++ text "\n")
  else
    let r := onCtrlCmd instr outstr
    (app, if r.1 < 0 then text "unsupport cmd " ++ instr ++ text "\n" else r.2)

end ServerApp

/-- `ServerApp::OnCtrlCmd`, which a server may override. -/
def defaultOnCtrlCmd (_instr outstr : List UInt8) : Int × List UInt8 := (-1, outstr)

/-- `ConnSvr::OnCtrlCmd`. -/
def connSvrOnCtrlCmd (_instr outstr : List UInt8) : Int × List UInt8 := (0, outstr)

/-- `testConnSvr::OnCtrlCmd`. -/
def testConnSvrOnCtrlCmd (_instr outstr : List UInt8) : Int × List UInt8 := (0, outstr)

namespace ServerApp

variable {M Conf : Type} {ser : Serializer M} {mem buff : Nat → UInt8} {msg : M} {bytes rest part : List UInt8}

/-- The bytes between the pointer that `Pack` returns and the length it reports. -/
def PackCall.frame (call : PackCall) : List UInt8 := bytesAt call.mem call.len

/-- `GetMsg` finds the frame in front of any bytes, and nothing in a shorter piece with the whole length. -/
def Undone (frame : List UInt8) : Prop :=
  (∀ rest buff, (frame ++ rest).length < 4294967296 → Holds buff (frame ++ rest) →
    getMsg buff (frame ++ rest).length = (some buff, frame.length)) ∧
  ∀ part buff, part <+: frame → part ≠ frame → 4 ≤ part.length → Holds buff part →
    getMsg buff part.length = (none, 0)

/-- `Pack` fails and reports nothing, or gives a frame within `m_Buff` that `GetMsg` finds again. -/
def PackFits (ser : Serializer M) (mem : Nat → UInt8) (msg : M) : Prop :=
  let call := pack ser mem msg
  (∀ st ∈ call.stores, st.Within maxMsgLen) ∧
    ((call.ret = none ∧ call.len = 0) ∨
      (call.ret = some 0 ∧ call.len = ser.byteSize msg + 4 ∧ call.len ≤ maxMsgLen ∧ Undone call.frame))

theorem getMsg_whole (hlen : bytes.length + 4 < 4294967296) (held : Holds buff (htonl (bytes.length + 4)))
    {len : Nat} (hle : bytes.length + 4 ≤ len) : getMsg buff len = (some buff, bytes.length + 4) := by
  simp only [getMsg, bigEndian_of_holds hlen held]
  rw [if_neg (by omega)]

theorem getMsg_short (hlen : bytes.length + 4 < 4294967296) (held : Holds buff (htonl (bytes.length + 4)))
    {len : Nat} (hlt : len < bytes.length + 4) : getMsg buff len = (none, 0) := by
  simp only [getMsg, bigEndian_of_holds hlen held]
  rw [if_pos hlt]

/-- Nothing but the length in front decides what `GetMsg` finds. -/
theorem undone_htonl (hlen : bytes.length + 4 < 4294967296) : Undone (htonl (bytes.length + 4) ++ bytes) := by
  have hframe : (htonl (bytes.length + 4) ++ bytes).length = bytes.length + 4 := by
    rw [List.length_append, htonl_length, Nat.add_comm]
  constructor
  · intro rest buff _ held
    rw [hframe]
    refine getMsg_whole hlen (held.of_prefix ?_) (by rw [List.length_append, hframe]; omega)
    rw [List.append_assoc]
    exact List.prefix_append _ _
  · intro part buff hpre hne hfour held
    have hle := hpre.length_le
    have hlt : part.length < bytes.length + 4 := by
      have hneq : part.length ≠ (htonl (bytes.length + 4) ++ bytes).length := fun h => hne (hpre.eq_of_length h)
      omega
    refine getMsg_short hlen (held.of_prefix ?_) hlt
    exact List.prefix_of_prefix_length_le (List.prefix_append _ _) hpre (by rw [htonl_length]; exact hfour)

/-- The frame is the length and the serialised message, whatever stood in `m_Buff`. -/
theorem pack_frame (hbytes : ser.serializeToArray msg maxMsgLen = some bytes)
    (hsize : bytes.length = ser.byteSize msg) (hlen : bytes.length + 4 < 4294967296) :
    (pack ser mem msg).frame = htonl (bytes.length + 4) ++ bytes := by
  have hmod : (ser.byteSize msg + 4) % 4294967296 = bytes.length + 4 := by
    rw [← hsize, Nat.mod_eq_of_lt hlen]
  simp only [PackCall.frame, pack, hbytes, hmod, List.foldl_cons, List.foldl_nil]
  refine bytesAt_append (by rw [htonl_length, Nat.add_comm]) ?_ ?_
  · intro i hi
    have hat := @Store.apply_at (Store.apply mem ⟨4, bytes⟩) ⟨0, htonl (bytes.length + 4)⟩ i hi
    rw [Nat.zero_add] at hat
    exact hat
  · intro i hi
    rw [htonl_length, Store.apply_behind (by simp only [htonl_length]; omega)]
    exact @Store.apply_at mem ⟨4, bytes⟩ i hi

theorem pack_none (hnone : ser.serializeToArray msg maxMsgLen = none) :
    pack ser mem msg = ⟨none, 0, [], mem⟩ := by
  simp only [pack, hnone]

theorem pack_some (mem : Nat → UInt8) (hbytes : ser.serializeToArray msg maxMsgLen = some bytes)
    (hsize : bytes.length = ser.byteSize msg) (hlen : bytes.length + 4 < 4294967296) :
    (pack ser mem msg).ret = some 0 ∧ (pack ser mem msg).len = ser.byteSize msg + 4 ∧
      (pack ser mem msg).stores = [⟨4, bytes⟩, ⟨0, htonl (ser.byteSize msg + 4)⟩] := by
  have hmod : (ser.byteSize msg + 4) % 4294967296 = ser.byteSize msg + 4 := Nat.mod_eq_of_lt (by omega)
  simp only [pack, hbytes, hmod, and_self]

/-- A message that is serialised fits exactly when there is room for the length in front of it. -/
theorem packFits_some (mem : Nat → UInt8) (hbytes : ser.serializeToArray msg maxMsgLen = some bytes)
    (hsize : bytes.length = ser.byteSize msg) (hlen : bytes.length + 4 < 4294967296) :
    PackFits ser mem msg ↔ ser.byteSize msg + 4 ≤ maxMsgLen := by
  obtain ⟨hret, hplen, hstores⟩ := pack_some mem hbytes hsize hlen
  constructor
  · rintro ⟨-, ⟨hnull, -⟩ | ⟨-, hlen', hle, -⟩⟩
    · rw [hret] at hnull
      exact absurd hnull (Option.some_ne_none 0)
    · exact hlen' ▸ hle
  · intro hfit
    refine ⟨?_, .inr ⟨hret, hplen, hplen ▸ hfit, ?_⟩⟩
    · rw [hstores]
      simp only [List.forall_mem_cons, List.not_mem_nil, false_implies, implies_true, and_true, Store.Within,
        htonl_length]
      omega
    · rw [pack_frame hbytes hsize hlen]
      exact undone_htonl hlen

/-- `Pack` keeps to `m_Buff` but for the four sizes between the room it has and the room it promises. -/
theorem pack_fits_iff (lawful : ser.Lawful) (mem : Nat → UInt8) (msg : M) :
    PackFits ser mem msg ↔ ser.byteSize msg + 4 ≤ maxMsgLen ∨ maxMsgLen < ser.byteSize msg := by
  cases hser : ser.serializeToArray msg maxMsgLen with
  | none =>
    have hover : maxMsgLen < ser.byteSize msg := (lawful.fails msg maxMsgLen).mp hser
    simp [PackFits, pack_none hser, hover]
  | some bytes =>
    have hsize := lawful.size msg maxMsgLen bytes hser
    have hroom : ¬ maxMsgLen < ser.byteSize msg := by
      rw [← lawful.fails msg maxMsgLen, hser]
      exact Option.some_ne_none bytes
    have hlen : bytes.length + 4 < 4294967296 := by
      unfold maxMsgLen at hroom
      omega
    rw [packFits_some mem hser hsize hlen, or_iff_left hroom]

/-- Messages given by the bytes they are encoded to. -/
def encodedSerializer : Serializer (List UInt8) where
  byteSize msg := msg.length
  serializeToArray msg n := if msg.length ≤ n then some msg else none

theorem encodedSerializer_lawful : encodedSerializer.Lawful where
  fails msg n := by simp [encodedSerializer]
  size msg n bytes h := by
    obtain ⟨-, rfl⟩ : msg.length ≤ n ∧ msg = bytes := by simpa [encodedSerializer] using h
    rfl

theorem pack_fits_iff_largest :
    PackFits encodedSerializer (fun _ => 0) (List.replicate 1048572 7) ∧
      PackFits encodedSerializer (fun _ => 0) (List.replicate 1048577 7) := by
  have fits : ∀ msg : List UInt8, msg.length = 1048572 ∨ msg.length = 1048577 →
      PackFits encodedSerializer (fun _ => 0) msg := by
    intro msg hlen
    refine (pack_fits_iff encodedSerializer_lawful _ _).mpr ?_
    simp only [encodedSerializer, maxMsgLen]
    omega
  exact ⟨fits _ (.inl List.length_replicate), fits _ (.inr List.length_replicate)⟩

/-- One byte more than the room behind the length: the last byte of the message is stored behind `m_Buff`. -/
theorem encoded_overruns {msg : List UInt8} (hlength : msg.length = 1048573) :
    (⟨4, msg⟩ : Store) ∈ (pack encodedSerializer (fun _ => 0) msg).stores ∧ ¬ Store.Within maxMsgLen ⟨4, msg⟩ ∧
      ¬ PackFits encodedSerializer (fun _ => 0) msg := by
  have hser : encodedSerializer.serializeToArray msg maxMsgLen = some msg := if_pos (by rw [maxMsgLen]; omega)
  have hlen : msg.length + 4 < 4294967296 := by omega
  obtain ⟨-, -, hstores⟩ := pack_some (fun _ => 0) hser rfl hlen
  refine ⟨?_, ?_, ?_⟩
  · rw [hstores]
    exact List.mem_cons_self
  · simp only [Store.Within, maxMsgLen]
    omega
  · rw [packFits_some (fun _ => 0) hser rfl hlen]
    simp only [encodedSerializer, maxMsgLen]
    omega

theorem pack_overruns :
    encodedSerializer.Lawful ∧
      (⟨4, List.replicate 1048573 7⟩ : Store) ∈
        (pack encodedSerializer (fun _ => 0) (List.replicate 1048573 7)).stores ∧
      ¬ Store.Within maxMsgLen ⟨4, List.replicate 1048573 7⟩ ∧
      ¬ PackFits encodedSerializer (fun _ => 0) (List.replicate 1048573 7) :=
  ⟨encodedSerializer_lawful, encoded_overruns List.length_replicate⟩

section Reload

variable {parse : TextFormat Conf} {onCtrlCmd : List UInt8 → List UInt8 → Int × List UInt8} {file : ConfFile}
  {app : ServerApp Conf} {instr outstr : List UInt8}

/-- A command whose parse fails keeps the configuration and is not answered as a success. -/
def ReloadKeeps (parse : TextFormat Conf) (onCtrlCmd : List UInt8 → List UInt8 → Int × List UInt8)
    (file : ConfFile) (app : ServerApp Conf) (instr outstr : List UInt8) : Prop :=
  (parse file).1 = false →
    (controlCmd parse onCtrlCmd file app instr outstr).1.conf = app.conf ∧
      (controlCmd parse onCtrlCmd file app instr outstr).2 ≠ text "Reload success" ++ text "\n"

theorem controlCmd_reload (hcmd : firstWord instr = text "reload") :
    controlCmd parse onCtrlCmd file app instr outstr =
      ({ app with conf := (parse file).2 }, text "Reload success" ++ text "\n") := by
  rw [controlCmd, if_pos hcmd, loadConf]

/-- A reload reports a success and leaves what the parser left, so that no failed one is safe. -/
theorem reload_keeps_iff (hcmd : firstWord instr = text "reload") :
    ReloadKeeps parse onCtrlCmd file app instr outstr ↔ (parse file).1 = true := by
  rw [ReloadKeeps, controlCmd_reload hcmd]
  constructor
  · intro keeps
    by_contra hfail
    exact (keeps (Bool.eq_false_of_not_eq_true hfail)).2 rfl
  · intro hok hfail
    rw [hok] at hfail
    cases hfail

/-- The configuration of `testConnSvr`, whose only field is the required `port`, and a file of one line. -/
def portFormat : TextFormat (Option Nat)
  | .readable bytes => if bytes = text "port: 8000\n" then (true, some 8000) else (false, none)
  | _ => (false, none)

theorem reload_keeps_iff_port :
    ReloadKeeps portFormat testConnSvrOnCtrlCmd (.readable (text "port: 8000\n")) ⟨some 80, false⟩
      (text " reload x") [] :=
  (reload_keeps_iff (by decide +kernel)).mpr (by decide +kernel)

/-- The file is gone: the port of the running server is lost and the answer is a success. -/
theorem reload_loses_conf :
    (portFormat .missing).1 = false ∧
      (controlCmd portFormat testConnSvrOnCtrlCmd .missing ⟨some 80, false⟩ (text "reload") []).1.conf = none ∧
      ¬ ReloadKeeps portFormat testConnSvrOnCtrlCmd .missing ⟨some 80, false⟩ (text "reload") [] := by
  refine ⟨rfl, by decide +kernel, fun keeps => ?_⟩
  have hconf := (keeps rfl).1
  rw [controlCmd_reload (by decide +kernel)] at hconf
  cases hconf

end Reload

end ServerApp

end Wddlib
