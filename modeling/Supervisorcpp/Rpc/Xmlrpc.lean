/-
# XML-RPC values as text

`xmlrpc.cpp` and `util::escape_xml`: the values a response is made of, and how they are written.
-/
import Supervisorcpp.Lib.Bytes
import Supervisorcpp.Process.Basic

namespace Supervisorcpp

open Bytes (ascii)

/-! ## Escaping -/

/-- A character and its replacement. -/
abbrev Needles := List (UInt8 × Bytes)

/-- The loop of `escape_str`: `segment` is the text since the last needle. -/
def escapeLoop (needles : Needles) (out segment : Bytes) : Bytes → Bytes
  | [] => out ++ segment
  | c :: str =>
    match needles.lookup c with
    | some replacement => escapeLoop needles (out ++ segment ++ replacement) [] str
    | none => escapeLoop needles out (segment ++ [c]) str

/-- `util::escape_str`. -/
def escapeStr (str : Bytes) (needles : Needles) : Bytes := escapeLoop needles [] [] str

/-- What `escape_str` writes for one character. -/
def replacement (needles : Needles) (c : UInt8) : Bytes := (needles.lookup c).getD [c]

/-- The loop writes the replacement of every character behind what is written already. -/
theorem escapeLoop_eq (needles : Needles) (out segment str : Bytes) :
    escapeLoop needles out segment str = out ++ segment ++ str.flatMap (replacement needles) := by
  induction str generalizing out segment with
  | nil => simp [escapeLoop]
  | cons c str ih =>
      simp only [escapeLoop, List.flatMap_cons]
      cases hc : needles.lookup c with
      | none => simp [ih, replacement, hc]
      | some text => simp [ih, replacement, hc]

/-- Each character is replaced on its own. -/
theorem escapeStr_eq (str : Bytes) (needles : Needles) :
    escapeStr str needles = str.flatMap (replacement needles) :=
  escapeLoop_eq needles [] [] str

/-- The five characters with a meaning of their own in XML, and what stands for them. -/
def xmlNeedles : Needles :=
  [(34, ascii "&quot;"), (39, ascii "&apos;"), (60, ascii "&lt;"), (62, ascii "&gt;"),
    (38, ascii "&amp;")]

/-- `util::escape_xml`. -/
def escapeXml (str : Bytes) : Bytes := escapeStr str xmlNeedles

/-! ## Values -/

namespace Xmlrpc

/-- A value of a response. -/
inductive Value where
  | string (str : Bytes)
  | int (i : Int)
  | bool (b : Bool)
  deriving DecidableEq, Repr

/-- The text of a value. -/
def Value.str : Value → Bytes
  | .string s => ascii "<string>" ++ escapeXml s ++ ascii "</string>"
  | .int i => ascii "<int>" ++ ascii (toString i) ++ ascii "</int>"
  | .bool b => ascii "<boolean>" ++ ascii (if b then "1" else "0") ++ ascii "</boolean>"

/-- A named value. -/
structure Member where
  name : Bytes
  value : Value
  deriving DecidableEq, Repr

/-- The text of a member. -/
def Member.str (m : Member) : Bytes :=
  ascii "<member>" ++ (ascii "<name>" ++ escapeXml m.name ++ ascii "</name>") ++
    (ascii "<value>" ++ m.value.str ++ ascii "</value>") ++ ascii "</member>"

/-- `Struct{…}.str()`. -/
def structStr (items : List Member) : Bytes :=
  ascii "<struct>" ++ items.flatMap Member.str ++ ascii "</struct>"

end Xmlrpc

/-! ## Process information -/

/-- `operator<<` for `State`. -/
def State.text : State → Bytes
  | .stopped => ascii "STOPPED"
  | .starting => ascii "STARTING"
  | .running => ascii "RUNNING"
  | .backoff => ascii "BACKOFF"
  | .stopping => ascii "STOPPING"
  | .exited => ascii "EXITED"
  | .fatal => ascii "FATAL"

/-- `static_cast<int>` of a `State`. -/
def State.code : State → Int
  | .stopped => 0
  | .starting => 10
  | .running => 20
  | .backoff => 30
  | .stopping => 40
  | .exited => 100
  | .fatal => 200

/-- What a response tells about a process. -/
structure ProcessInfo where
  name : Bytes
  state : State
  pid : Int32
  exitstatus : Int32
  stdoutLogfile : Bytes
  spawnerr : Bytes
  description : Bytes
  deriving DecidableEq, Repr

namespace Xmlrpc

/-- The members of the struct written for a `ProcessInfo`. -/
def infoMembers (info : ProcessInfo) : List Member :=
  [⟨ascii "name", .string info.name⟩,
    -- groups are not supported
    ⟨ascii "group", .string info.name⟩,
    ⟨ascii "statename", .string info.state.text⟩,
    ⟨ascii "state", .int info.state.code⟩,
    ⟨ascii "pid", .int info.pid.toInt⟩,
    ⟨ascii "exitstatus", .int info.exitstatus.toInt⟩,
    ⟨ascii "stdout_logfile", .string info.stdoutLogfile⟩,
    ⟨ascii "spawnerr", .string info.spawnerr⟩,
    ⟨ascii "description", .string info.description⟩]

/-- `wrap(info).str()`. -/
def wrapInfo (info : ProcessInfo) : Bytes := structStr (infoMembers info)

/-- `wrap(infos).str()`, the result of `supervisor.getAllProcessInfo`. -/
def wrapInfos (infos : List ProcessInfo) : Bytes :=
  ascii "<array><data>" ++
    infos.flatMap (fun info => ascii "<value>" ++ wrapInfo info ++ ascii "</value>") ++
    ascii "</data></array>"

end Xmlrpc

end Supervisorcpp
