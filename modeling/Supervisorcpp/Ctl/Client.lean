/-
# The client's side of a call

`supervisorctl.h`: how `supervisorctl` writes a request and what it makes of the response. The
bytes that `read_until` has put in the stream buffer and the bytes the socket delivers afterwards are
given separately: where the buffer ends is up to the socket.

The system calls and their errors are in `Ctl.Retries`; what is printed is not modelled, nor is a
`Content-Length` for which there is no memory.
-/
import Supervisorcpp.Rpc.Connection

namespace Supervisorcpp

namespace CtlClient

open Bytes (ascii)

/-! ## The request -/

/-- `build_xmlrpc_request_`. -/
def buildXmlrpcRequest (methodName : Bytes) (params : List Bytes) : Bytes :=
  ascii "<?xml version=\"1.0\"?>\n" ++
  ascii "<methodCall>\n" ++
  ascii "  <methodName>" ++ escapeXml methodName ++ ascii "</methodName>\n" ++
  ascii "  <params>" ++
  params.flatMap (fun param =>
    ascii "<param><value>" ++ (Xmlrpc.Value.string param).str ++ ascii "</value></param>") ++
  ascii "  </params>\n" ++
  ascii "</methodCall>\n"

/-- `build_http_request_`. -/
def buildHttpRequest (body : Bytes) : Bytes :=
  ascii "POST /RPC2 HTTP/1.1\r\n" ++
  ascii "Content-Type: text/xml\r\n" ++
  ascii "Content-Length: " ++ ascii (toString body.length) ++ ascii "\r\n" ++
  ascii "Connection: close\r\n" ++
  ascii "\r\n" ++
  body

/-! ## The response -/

/-- The exceptions of the client: `XmlRpcError`, and every other `std::exception`. -/
inductive Error where
  | xmlRpcError (code name message : Bytes)
  | runtimeError (what : Bytes)
  deriving DecidableEq, Repr

/-- `content_length` after one header line. -/
def headerLength (line : Bytes) (contentLength : Nat) : Except Bytes.NumberError Nat :=
  if Bytes.find (ascii "Content-Length:") line = some 0 then Bytes.stoull (line.drop 15)
  else .ok contentLength

/-- The loop over the header lines in the buffer: `content_length`, and what the loop leaves. `line`
is what `std::getline` has read of the current line. -/
def readHeaders (line : Bytes) (contentLength : Nat) :
    Bytes → Except Bytes.NumberError (Nat × Bytes)
  | [] =>
    -- the buffer ends without a line break: `getline` fails, or this line is the last
    if line = [] ∨ line = ascii "\r" then .ok (contentLength, [])
    else (headerLength line contentLength).map fun n => (n, [])
  | b :: buffer =>
    if b = 10 then
      if line = ascii "\r" then .ok (contentLength, buffer)
      else (headerLength line contentLength).bind fun n => readHeaders [] n buffer
    else readHeaders (line ++ [b]) contentLength buffer

/-- The body of the response: from the buffer as far as it goes, the rest from the socket. -/
def readBody (buffered rest : Bytes) : Except Bytes Bytes :=
  match readHeaders [] 0 buffered with
  | .error _ => .error (ascii "stoull")
  | .ok (contentLength, buffer) =>
    let missing := contentLength - buffer.length
    if missing ≤ rest.length then .ok (buffer.take contentLength ++ rest.take missing)
    else .error (ascii "End of file")

/-- The text of the first member named "faultString". -/
def faultString (faultStruct : Ptree) : Bytes :=
  match faultStruct.children.find? fun member =>
      member.1 == ascii "member" &&
        (member.2.getString [ascii "name"]).getD [] == ascii "faultString" with
  | none => []
  | some member => (member.2.getString [ascii "value", ascii "string"]).getD []

/-- The fault codes and their texts. -/
def translations : List (Bytes × Bytes) :=
  [(ascii "BAD_NAME", ascii "no such process"),
    (ascii "NOT_RUNNING", ascii "not running"),
    (ascii "ALREADY_STARTED", ascii "already running"),
    (ascii "SPAWN_ERROR", ascii "spawn error")]

/-- The exception for a fault "CODE: name", if `code` is its code. -/
def translate (fault code friendly : Bytes) : Option Error :=
  let sep := code ++ ascii ": "
  if sep.isPrefixOf fault then
    let name := fault.drop sep.length
    some (.xmlRpcError code name (name ++ ascii " - " ++ friendly))
  else none

/-- `check_fault_`. -/
def checkFault (tree : Ptree) : Except Error Unit :=
  match tree.getChildOptional
      [ascii "methodResponse", ascii "fault", ascii "value", ascii "struct"] with
  | none => .ok ()
  | some faultStruct =>
    let fault := if faultString faultStruct = [] then ascii "Unknown RPC fault"
      else faultString faultStruct
    match translations.findSome? fun t => translate fault t.1 t.2 with
    | some e => .error e
    | none => .error (.runtimeError fault)

/-- `call_method_` once the request is sent: everything but an `XmlRpcError` is reported as an RPC
error. -/
def callMethod (readXml : Bytes → Except Bytes Ptree) (buffered rest : Bytes) : Except Error Ptree :=
  let rpcError := fun what => Except.error (.runtimeError (ascii "RPC error: " ++ what))
  match (readBody buffered rest).bind readXml with
  | .error what => rpcError what
  | .ok tree =>
    match checkFault tree with
    | .ok _ => .ok tree
    | .error (.runtimeError what) => rpcError what
    | .error e => .error e

/-! ## Process information -/

/-- What the client keeps of a process. -/
structure ProcessInfo where
  name : Bytes
  statename : Bytes
  pid : Int
  description : Bytes
  deriving DecidableEq, Repr

/-- One turn of the loop in `ProcessInfo::from`. -/
def ProcessInfo.readMember (info : ProcessInfo) (member : Bytes × Ptree) :
    Except Bytes ProcessInfo :=
  let string := fun default =>
    (member.2.getString [ascii "value", ascii "string"]).getD default
  if member.1 == ascii "member" then
    match member.2.getString [ascii "name"] with
    | none => .error (ascii "No such node (name)")
    | some name =>
      if name = ascii "name" then .ok { info with name := string [] }
      else if name = ascii "statename" then .ok { info with statename := string (ascii "UNKNOWN") }
      else if name = ascii "pid" then
        .ok { info with pid := (member.2.getInt [ascii "value", ascii "int"]).getD (-1) }
      else if name = ascii "description" then .ok { info with description := string [] }
      else .ok info
  else .ok info

/-- `ProcessInfo::from`. `pid` is not initialised: `uninit` is what it happens to hold. -/
def processInfoFrom (uninit : Int) (pt : Ptree) : Except Bytes ProcessInfo :=
  match pt.getChildOptional [ascii "struct"] with
  | none => .error (ascii "ProcessInfo expected struct")
  | some ptStruct => ptStruct.children.foldlM ProcessInfo.readMember ⟨[], [], uninit, []⟩

/-- The body of the `try` in `parse_process_info_array_`. -/
def infoArray (uninit : Int) (tree : Ptree) : Except Bytes (List ProcessInfo) :=
  match tree.getChildOptional
      [ascii "methodResponse", ascii "params", ascii "param", ascii "value"] with
  | none => .error (ascii "No such node (methodResponse.params.param.value)")
  | some valueNode =>
    match valueNode.getChildOptional [ascii "array", ascii "data"] with
    | none => .ok []
    | some arrayNode =>
      (arrayNode.children.filter fun item => item.1 == ascii "value").mapM fun item =>
        processInfoFrom uninit item.2

/-- `parse_process_info_array_`. -/
def parseProcessInfoArray (uninit : Int) (tree : Ptree) : Except Bytes (List ProcessInfo) :=
  match infoArray uninit tree with
  | .ok infos => .ok infos
  | .error what => .error (ascii "Failed to parse response: " ++ what)

end CtlClient

end Supervisorcpp
