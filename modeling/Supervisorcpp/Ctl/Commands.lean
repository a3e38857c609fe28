/-
# The commands of `supervisorctl`

`supervisorctl.h`: the table of commands, what each calls and prints, and the interactive mode. A
command works on the two output streams and on the daemon behind the socket; how a call gets there is
a parameter, a `Remote`.

There are two of these. Over the wire a call is a request that reaches the connection in pieces and
a response that reaches the client in pieces; directly it is the handler's answer. Whatever the
pieces are, no command can tell the two apart.

Two remotes that answer the calls of a command alike make it end alike, whatever it prints in
between; this is proved once for each command, and then used with the two remotes. The calls are
assumed to be ones that get through: no NUL bytes, texts for faults, a size the connection accepts,
and a reader of XML that reads the documents both sides write.
-/
import Supervisorcpp.Config.Options
import Supervisorcpp.Lib.Programs
import Supervisorcpp.Rpc.Responses

namespace Supervisorcpp

namespace CtlClient

open Bytes (ascii isSpace)
open Programs (Alike Program Same run)

/-! ## What a command works on -/

/-- The streams of a client, and the daemon it talks to. -/
structure Session (σ : Type) where
  out : Bytes
  err : Bytes
  daemon : σ

/-- After `out_ << text`. -/
def Session.put {σ : Type} (s : Session σ) (text : Bytes) : Session σ :=
  { s with out := s.out ++ text }

/-- After `err_ << text`. -/
def Session.putErr {σ : Type} (s : Session σ) (text : Bytes) : Session σ :=
  { s with err := s.err ++ text }

/-- `call_method_`, and how its result is read: `parse_process_info_array_` and
`parse_process_info_`. -/
structure Remote (σ τ : Type) where
  callMethod : Bytes → List Bytes → σ → Except Error τ × σ
  infos : τ → Except Bytes (List ProcessInfo)
  info : τ → Except Bytes ProcessInfo

/-- A command; what it throws is caught by `execute_command`. -/
abbrev Command (σ α : Type) := Program Error (Session σ) α

section Commands

variable {σ τ : Type}

/-- `out_ << text`. -/
def print (text : Bytes) : Command σ PUnit := modify fun s => s.put text

/-- `err_ << text`. -/
def printErr (text : Bytes) : Command σ PUnit := modify fun s => s.putErr text

/-- `what()`. -/
def Error.what : Error → Bytes
  | .xmlRpcError _ _ message => message
  | .runtimeError what => what

variable (r : Remote σ τ)

/-- A call, with its result. -/
def Remote.fetch (method : Bytes) (params : List Bytes) : Command σ τ :=
  ExceptT.mk fun s =>
    let answer := r.callMethod method params s.daemon
    (answer.1, { s with daemon := answer.2 })

/-- A call whose result is dropped. -/
def Remote.call (method : Bytes) (params : List Bytes) : Command σ PUnit :=
  r.fetch method params >>= fun _ => pure ⟨⟩

/-- What a parser throws is a `std::runtime_error`. -/
def parsed {α : Type} (result : Except Bytes α) : Command σ α :=
  match result with
  | .ok a => pure a
  | .error what => throw (.runtimeError what)

/-! ## Printing -/

/-- `std::left << std::setw(w) << text`. -/
def padRight (w : Nat) (text : Bytes) : Bytes :=
  text ++ List.replicate (w - text.length) 32

/-- The line `print_process_info_` prints. -/
def infoLine (info : ProcessInfo) : Bytes :=
  padRight 20 info.name ++ padRight 15 info.statename ++ info.description ++ ascii "\n"

/-- `print_process_info_` of a `vector`. -/
def printProcessInfos (infos : List ProcessInfo) : Command σ PUnit :=
  infos.forM fun info => print (infoLine info)

/-! ## The table -/

/-- The member functions in `commands_`. -/
inductive CommandFunc where
  | status
  | start
  | stop
  | restart
  | shutdown
  | reload
  | help
  | exit
  deriving DecidableEq, Repr

/-- A row of `commands_`: what is typed, what `help` says about it, and the member function behind
it. -/
structure CommandInfo where
  method : Bytes
  descArgs : Bytes
  desc : Bytes
  func : CommandFunc
  deriving DecidableEq, Repr

/-- `commands_`. -/
def commands : List CommandInfo :=
  [⟨ascii "status", ascii "[name]", ascii "Show process status", .status⟩,
    ⟨ascii "start", ascii "<name|all>", ascii "Start process(es)", .start⟩,
    ⟨ascii "stop", ascii "<name|all>", ascii "Stop process(es)", .stop⟩,
    ⟨ascii "restart", ascii "<name|all>", ascii "Restart process(es)", .restart⟩,
    ⟨ascii "shutdown", [], ascii "Shutdown supervisord", .shutdown⟩,
    ⟨ascii "reload", [], ascii "Reload configuration", .reload⟩,
    ⟨ascii "help", [], ascii "Show this help", .help⟩,
    ⟨ascii "exit", [], ascii "Exit supervisorctl", .exit⟩,
    ⟨ascii "quit", [], [], .exit⟩]

/-- A line of `cmdHelp`; the width is what is left of 22 unless name and arguments fill it. -/
def helpLine (cmd : CommandInfo) : Bytes :=
  let w := cmd.method.length + cmd.descArgs.length
  let w := if w < 22 then 22 - cmd.method.length - 1 else w
  ascii "  " ++ cmd.method ++ ascii " " ++ padRight w cmd.descArgs ++ cmd.desc ++ ascii "\n"

/-! ## The commands -/

/-- The commands that have a description, one a line. -/
def cmdHelp : Command σ Int := do
  print (ascii "Commands:\n")
  (commands.filter fun cmd => !cmd.desc.isEmpty).forM fun cmd => print (helpLine cmd)
  return 0

/-- `reload`: announces it, asks for it, and reports it done when the call comes back without a
fault. -/
def cmdReload : Command σ Int := do
  print (ascii "Reloading supervisord configuration...\n")
  r.call (ascii "supervisor.reloadConfig") []
  print (ascii "Configuration reloaded\n")
  return 0

/-- `shutdown`: announces it and asks for it. -/
def cmdShutdown : Command σ Int := do
  print (ascii "Shutting down supervisord\n")
  r.call (ascii "supervisor.shutdown") []
  return 0

/-- The commands that need the name of a process, or `all`. -/
def withName (args : List Bytes) (all : Command σ PUnit) (one : Bytes → Command σ PUnit) :
    Command σ Int :=
  match args with
  | [] => do
    printErr (ascii "Error: process name required\n")
    return 1
  | name :: _ => do
    if name = ascii "all" then all else one name
    return 0

/-- `start`: a process by its name, or all of them. -/
def cmdStart (args : List Bytes) : Command σ Int :=
  withName args
    (do r.call (ascii "supervisor.startAllProcesses") []
        print (ascii "All processes started\n"))
    fun name => do
      r.call (ascii "supervisor.startProcess") [name]
      print (name ++ ascii ": started\n")

/-- `stop`: a process by its name, or all of them. -/
def cmdStop (args : List Bytes) : Command σ Int :=
  withName args
    (do r.call (ascii "supervisor.stopAllProcesses") []
        print (ascii "All processes stopped\n"))
    fun name => do
      r.call (ascii "supervisor.stopProcess") [name]
      print (name ++ ascii ": stopped\n")

/-- The `catch` of `cmdRestart_`: the process may be stopped already. -/
def tolerateNotRunning : Error → Command σ PUnit
  | .xmlRpcError code name message =>
    if code = ascii "NOT_RUNNING" then pure ⟨⟩ else throw (.xmlRpcError code name message)
  | e => throw e

/-- `restart`: a stop and a start. That the process was not running is no reason not to start it. -/
def cmdRestart (args : List Bytes) : Command σ Int :=
  withName args
    (do r.call (ascii "supervisor.stopAllProcesses") []
        r.call (ascii "supervisor.startAllProcesses") []
        print (ascii "All processes restarted\n"))
    fun name => do
      tryCatch (r.call (ascii "supervisor.stopProcess") [name]) tolerateNotRunning
      r.call (ascii "supervisor.startProcess") [name]
      print (name ++ ascii ": restarted\n")

/-- The status of every process. -/
def allStatus : Command σ Int := do
  let answer ← r.fetch (ascii "supervisor.getAllProcessInfo") []
  let infos ← parsed (r.infos answer)
  printProcessInfos infos
  return 0

/-- The status of one process. -/
def oneStatus (name : Bytes) : Command σ Int := do
  let answer ← r.fetch (ascii "supervisor.getProcessInfo") [name]
  let info ← parsed (r.info answer)
  print (infoLine info)
  return 0

/-- `status`: a process by its name; without a name, as with `all`, every process. -/
def cmdStatus : List Bytes → Command σ Int
  | [] => allStatus r
  | name :: _ => if name = ascii "all" then allStatus r else oneStatus r name

/-- The member function a command is bound to. -/
def CommandFunc.run (func : CommandFunc) (args : List Bytes) : Command σ Int :=
  match func with
  | .status => cmdStatus r args
  | .start => cmdStart r args
  | .stop => cmdStop r args
  | .restart => cmdRestart r args
  | .shutdown => cmdShutdown r
  | .reload => cmdReload r
  | .help => cmdHelp
  -- the signal to exit
  | .exit => return -1

/-- `execute_command`. -/
def executeCommand (method : Bytes) (args : List Bytes) : Command σ Int :=
  if method = [] then return 0
  else
    tryCatch
      (match commands.find? fun cmd => cmd.method = method with
        | some cmd => cmd.func.run r args
        | none => do
          printErr (ascii "Error: unknown command '" ++ method ++ ascii "'\n")
          printErr (ascii "Use 'help' for available commands\n")
          return 1)
      fun e => do
        printErr (ascii "Error: " ++ e.what ++ ascii "\n")
        return 1

/-! ## Interactive mode -/

/-- `boost::split` at white space with `token_compress_on`; `token` is what has been read of the
current token, and `compress` says that a separator came just before. -/
def splitSpaces (token : Bytes) (compress : Bool) : Bytes → List Bytes
  | [] => [token]
  | b :: s =>
    if isSpace b then
      if compress then splitSpaces token true s else token :: splitSpaces [] true s
    else splitSpaces (token ++ [b]) false s

/-- The words of a line; none for an empty one. -/
def commandWords (line : Bytes) : List Bytes :=
  if (trim line).isEmpty then [] else splitSpaces [] false (trim line)

/-- `interactive_mode` on the lines of the standard input. -/
def interactiveMode : List Bytes → Command σ PUnit
  | [] => do
    print (ascii "supervisor> ")
    print (ascii "\n")
  | line :: lines => do
    print (ascii "supervisor> ")
    match commandWords line with
    | [] => interactiveMode lines
    | method :: args =>
      let code ← executeCommand r method args
      -- exit requested
      if code = -1 then print (ascii "\n") else interactiveMode lines

end Commands

/-! ## The daemon behind the socket -/

/-- What the handlers of the calls answer with. -/
inductive Answer where
  | value (v : Xmlrpc.Value)
  | info (record : Supervisorcpp.ProcessInfo)
  | infos (records : List Supervisorcpp.ProcessInfo)

/-- The result a handler returns. -/
def Answer.str : Answer → Bytes
  | .value v => v.str
  | .info record => Xmlrpc.wrapInfo record
  | .infos records => Xmlrpc.wrapInfos records

/-- What a handler returns, as the value of the response. -/
def Answer.node : Answer → Xml.Node
  | .value v => v.node
  | .info record => Xmlrpc.structNode (Xmlrpc.infoMembers record)
  | .infos records => Xmlrpc.infosNode records

/-- `dispatch_method` of a daemon in some state: the handler answers or throws, and leaves the daemon
in another state. -/
abbrev Server (σ : Type) := σ → Bytes → List Bytes → Except Bytes Answer × σ

/-- How the bytes of a call travel: in which reads the request arrives, and how much of the response
`read_until` has put in the buffer. It may be different at every call. -/
structure Wire (σ : Type) where
  chunks : σ → Bytes → List Bytes
  chunks_flatten : ∀ s bytes, (chunks s bytes).flatten = bytes
  buffered : σ → Bytes → Nat
  buffered_headers : ∀ s bytes, (Bytes.find (ascii "\r\n\r\n") bytes).isSome = true →
    (Bytes.find (ascii "\r\n\r\n") (bytes.take (buffered s bytes))).isSome = true

section Remotes

variable {σ : Type} (readXml : Bytes → Except Bytes Ptree) (server : Server σ) (wire : Wire σ)

/-- The request of a call. -/
def httpRequest (method : Bytes) (params : List Bytes) : Bytes :=
  buildHttpRequest (buildXmlrpcRequest method params)

/-- The dispatcher of a connection that is accepted in this state. -/
def dispatcher (s : σ) : DispatchFunction := fun method params =>
  (server s method params).1.map Answer.str

/-- What the connection of a call does. -/
def serve (s : σ) (request : Bytes) : List ReadOutcome :=
  RpcConnection.session readXml (RpcConnection.create (some (dispatcher server s)))
    ((wire.chunks s request).map fun chunk => ⟨none, chunk⟩)

/-- `parse_process_info_`. -/
def parseProcessInfo (uninit : Int) (tree : Ptree) : Except Bytes ProcessInfo :=
  match tree.getChildOptional
      [ascii "methodResponse", ascii "params", ascii "param", ascii "value"] with
  | none => .error (ascii "Failed to parse response: " ++
      ascii "No such node (methodResponse.params.param.value)")
  | some valueNode =>
    match processInfoFrom uninit valueNode with
    | .ok info => .ok info
    | .error what => .error (ascii "Failed to parse response: " ++ what)

/-- The calls as they go over the socket. -/
def overWire (uninit : Int) : Remote σ Ptree where
  callMethod method params s :=
    let outcomes := serve readXml server wire s (httpRequest method params)
    let response := (RpcConnection.responses outcomes).flatten
    let n := wire.buffered s response
    (callMethod readXml (response.take n) (response.drop n),
      (RpcConnection.calls outcomes).foldl (fun s call => (server s call.1 call.2).2) s)
  infos := parseProcessInfoArray uninit
  info := parseProcessInfo uninit

/-- What `call_method_` throws for a fault. -/
def thrownFor (fault : Bytes) : Error :=
  match faultError fault with
  | .runtimeError what => .runtimeError (ascii "RPC error: " ++ what)
  | e => e

/-- The calls as the handlers answer them. -/
def direct : Remote σ Answer where
  callMethod method params s :=
    ((server s method params).1.mapError thrownFor, (server s method params).2)
  infos
    | .infos infos => .ok (infos.map .of)
    -- there is no array in any other answer
    | _ => .ok []
  info
    | .info info => .ok (.of info)
    | _ => .error (ascii "Failed to parse response: ProcessInfo expected struct")

end Remotes

/-! ## A call gets through -/

/-- The strings of an answer have no NUL bytes. -/
def Answer.NulFree : Answer → Prop
  | .value v => ∀ s, v = .string s → 0 ∉ s
  | .info record => record.NulFree
  | .infos records => ∀ record ∈ records, record.NulFree

/-- The document of what a handler has returned or thrown. -/
def answerDocument : Except Bytes Answer → Xml.Node
  | .ok answer => resultDocument answer.node
  | .error what => faultDocument 1 what

/-- An answer that can be sent and read: no NUL bytes, a text for every fault, a length that fits in
a `size_t`, and a document that the reader reads verbatim. -/
structure Sendable (readXml : Bytes → Except Bytes Ptree) (answer : Except Bytes Answer) : Prop where
  result : ∀ a, answer = .ok a → a.NulFree
  fault : ∀ what, answer = .error what → what ≠ [] ∧ 0 ∉ what
  size : (handlerResponse (answer.map Answer.str)).length < 2 ^ 64
  reads : ReadsVerbatim readXml (answerDocument answer)

/-- A call that can be sent and read, and its answers too: parameters without NUL bytes, a request
that the connection accepts, and a document that the reader reads verbatim. -/
structure GetsThrough {σ : Type} (readXml : Bytes → Except Bytes Ptree) (server : Server σ)
    (method : Bytes) (params : List Bytes) : Prop where
  plainMethod : 0 ∉ method
  plainParams : ∀ param ∈ params, 0 ∉ param
  fits : (httpRequest method params).length ≤ RpcConnection.maxRequestSize
  reads : ReadsVerbatim readXml (methodCall method params)
  answers : ∀ s, Sendable readXml (server s method params).1

section Answers

variable {answer : Answer} {child : Bytes × Ptree}

/-- The text of an answer is that of its document. -/
theorem Answer.str_eq (answer : Answer) : answer.str = answer.node.render := by
  cases answer with
  | value v => exact value_render v
  | info record => exact struct_render _
  | infos records => exact infos_render records

/-- A value without NUL bytes has one reading. -/
theorem value_wellFormed {v : Xmlrpc.Value} (h : ∀ s, v = .string s → 0 ∉ s) :
    v.node.WellFormed := by
  have hmember := member_wellFormed (m := ⟨[], v⟩) ⟨List.not_mem_nil, h⟩
  simp only [Xmlrpc.Member.node, Xml.Node.WellFormed, Xml.AllWellFormed] at hmember
  exact hmember.2.2.1.2.1

/-- So has an answer. -/
theorem Answer.NulFree.wellFormed (h : answer.NulFree) : answer.node.WellFormed := by
  cases answer with
  | value v => exact value_wellFormed h
  | info record => exact struct_wellFormed (infoMembers_nulFree h)
  | infos records => exact infos_wellFormed h

/-- The tree of a result: no fault, and the answer where the parsers look for it. -/
theorem resultDocument_represents (data : Bytes)
    (h : Represents (resultDocument answer.node) child) :
    checkFault (.node data [child]) = .ok () ∧
      ∃ value, Represents (.element (ascii "value") [answer.node]) value ∧
        (Ptree.node data [child]).getChildOptional [ascii "methodResponse", ascii "params",
          ascii "param", ascii "value"] = some value.2 := by
  obtain ⟨_, params, rfl, hparams⟩ := h.only rfl
  obtain ⟨_, param, rfl, hparam⟩ := hparams.only rfl
  obtain ⟨_, value, rfl, hvalue⟩ := hparam.only rfl
  have hne : ascii "params" ≠ ascii "fault" := by decide
  refine ⟨?_, value, hvalue, ?_⟩
  · simp only [checkFault, getChild_hit, getChild_miss hne, getChild_none]
  · obtain ⟨_, _, rfl, _⟩ := hvalue.element_inv
    simp only [getChild_hit, getChild_here]

/-- An answer that is a value has neither a struct nor an array in it. -/
theorem value_represents {v : Xmlrpc.Value}
    (h : Represents (.element (ascii "value") [v.node]) child) :
    child.2.getChildOptional [ascii "struct"] = none ∧
      child.2.getChildOptional [ascii "array", ascii "data"] = none := by
  have hone : Xml.elements [v.node] = [v.node] := by cases v <;> rfl
  obtain ⟨data, typed, rfl, htyped⟩ := h.only hone
  cases v with
  | string s =>
      cases htyped
      exact ⟨getChild_miss (by decide), getChild_miss (by decide)⟩
  | int i =>
      cases htyped
      exact ⟨getChild_miss (by decide), getChild_miss (by decide)⟩
  | bool b =>
      cases htyped
      exact ⟨getChild_miss (by decide), getChild_miss (by decide)⟩

/-- A record is a struct. -/
theorem processInfoFrom_none {uninit : Int} {pt : Ptree}
    (h : pt.getChildOptional [ascii "struct"] = none) :
    processInfoFrom uninit pt = .error (ascii "ProcessInfo expected struct") := by
  rw [processInfoFrom, h]

/-- **Both parsers make of the tree what they should make of the answer.** -/
theorem parsers_represent {σ : Type} (server : Server σ) (uninit : Int) (data : Bytes)
    (h : Represents (resultDocument answer.node) child) :
    parseProcessInfoArray uninit (.node data [child]) = (direct server).infos answer ∧
      parseProcessInfo uninit (.node data [child]) = (direct server).info answer := by
  obtain ⟨-, value, hvalue, hfound⟩ := resultDocument_represents data h
  unfold parseProcessInfoArray infoArray parseProcessInfo
  simp only [hfound]
  cases answer with
  | value v =>
      obtain ⟨hstruct, harray⟩ := value_represents hvalue
      simp only [harray, processInfoFrom_none hstruct]
      exact ⟨rfl, rfl⟩
  | info record =>
      have hinfo := (processInfoFrom_represents uninit hvalue).2
      obtain ⟨_, members, rfl, hmembers⟩ := hvalue.only rfl
      obtain ⟨_, _, rfl, _⟩ := hmembers.element_inv
      have hne : ascii "struct" ≠ ascii "array" := by decide
      simp only [hinfo, getChild_miss hne, getChild_none]
      exact ⟨rfl, rfl⟩
  | infos records =>
      obtain ⟨_, array, rfl, harray⟩ := hvalue.only rfl
      obtain ⟨_, items, rfl, hitems⟩ := harray.only rfl
      obtain ⟨_, kids, rfl, hkids⟩ := hitems.element_inv
      rw [Xml.elements_map fun _ => rfl] at hkids
      have hne : ascii "array" ≠ ascii "struct" := by decide
      rw [processInfoFrom_none ((getChild_miss hne).trans getChild_none)]
      simp only [getChild_hit, getChild_here, Ptree.children, infos_represents uninit hkids]
      exact ⟨rfl, rfl⟩

end Answers

/-- A tree from which the parsers take what they should take from the answer. -/
def ReadsAs {σ : Type} (server : Server σ) (uninit : Int) (tree : Ptree) (answer : Answer) : Prop :=
  parseProcessInfoArray uninit tree = (direct server).infos answer ∧
    parseProcessInfo uninit tree = (direct server).info answer

section Call

variable {σ : Type} {readXml : Bytes → Except Bytes Ptree} {server : Server σ} {method : Bytes}
  {params : List Bytes}

/-- The connection calls the handler once and sends its answer, in whatever reads the request
arrives. -/
theorem serve_eq (wire : Wire σ) (s : σ) (h : GetsThrough readXml server method params) :
    let outcomes := serve readXml server wire s (httpRequest method params)
    RpcConnection.calls outcomes = [(method, params)] ∧ RpcConnection.responses outcomes =
      [handlerResponse ((server s method params).1.map Answer.str)] := by
  have htotal := RpcConnection.length_buildHttpRequest (buildXmlrpcRequest method params)
  have hfits : (buildHttpRequest (buildXmlrpcRequest method params)).length ≤
      RpcConnection.maxRequestSize := h.fits
  have hlimit : RpcConnection.maxRequestSize < 2 ^ 64 := by decide
  have hsize : (buildXmlrpcRequest method params).length < 2 ^ 64 := by omega
  have hpart : ([] : Bytes).length <
      (buildHttpRequest (buildXmlrpcRequest method params)).length := by
    rw [List.length_nil]
    omega
  have hsplit : [] ++ (wire.chunks s (httpRequest method params)).flatten =
      buildHttpRequest (buildXmlrpcRequest method params) := wire.chunks_flatten s _
  obtain ⟨hcalls, hresponses⟩ := RpcConnection.session_request readXml
    (some (dispatcher server s)) hsize _ hsplit hpart
  rw [if_pos hfits] at hcalls hresponses
  obtain ⟨_, child, hdoc, hrep⟩ :=
    h.reads (methodCall_wellFormed h.plainMethod h.plainParams)
  have hparse : parseXmlrpcRequest readXml (buildXmlrpcRequest method params) =
      .ok (method, params) := by
    rw [parseXmlrpcRequest, buildXmlrpcRequest_eq, hdoc]
    simp only [Except.bind, parseTree_methodCall hrep]
  constructor
  · exact hcalls.trans
      (RpcConnection.processRequest_calls _ _ h.plainMethod h.plainParams h.reads)
  · rw [← RpcConnection.drop_headers (buildXmlrpcRequest method params)] at hparse
    have hdispatch : RpcConnection.dispatcher ⟨some (dispatcher server s),
        buildHttpRequest (buildXmlrpcRequest method params)⟩ = some (dispatcher server s) := rfl
    have hsends := RpcConnection.processRequest_sends
      (RpcConnection.bodyStart_request _) hparse hdispatch
    exact hresponses.trans hsends

/-- What can be sent is a well-formed document. -/
theorem answerDocument_wellFormed {answer : Except Bytes Answer} (h : Sendable readXml answer) :
    (answerDocument answer).WellFormed := by
  cases answer with
  | ok a => exact resultDocument_wellFormed (h.result a rfl).wellFormed
  | error what => exact faultDocument_wellFormed 1 (h.fault what rfl).2

/-- A response is the document of the answer. -/
theorem handlerResponse_eq (answer : Except Bytes Answer) :
    handlerResponse (answer.map Answer.str) =
      generateHttpResponse (Xml.document (answerDocument answer)) := by
  cases answer with
  | ok a =>
      show generateHttpResponse (generateXmlrpcResponse a.str) = _
      rw [a.str_eq, generateXmlrpcResponse_eq]
      rfl
  | error what =>
      show generateHttpResponse (generateXmlrpcFault 1 what) = _
      rw [generateXmlrpcFault_eq]
      rfl

/-- A response has an end of its headers. -/
theorem find_response (body : Bytes) :
    (Bytes.find (ascii "\r\n\r\n") (generateHttpResponse body)).isSome = true := by
  have hfirst : Bytes.find (ascii "\r\n\r\n") responseFirst = none := by decide
  have hparts : generateHttpResponse body =
      responseFirst ++ (ascii (toString body.length) ++ (lastLines ++ body)) := by
    simp [generateHttpResponse_eq, responseHead]
  rw [hparts, find_emptyLine hfirst]
  rfl

/-- **The client receives what the handler has answered.** -/
theorem callMethod_sendable (server : Server σ) {answer : Except Bytes Answer}
    (h : Sendable readXml answer) (uninit : Int) {n : Nat} (hheaders : (Bytes.find (ascii "\r\n\r\n")
      ((handlerResponse (answer.map Answer.str)).take n)).isSome = true) :
    Same (ReadsAs server uninit)
      (callMethod readXml ((handlerResponse (answer.map Answer.str)).take n)
        ((handlerResponse (answer.map Answer.str)).drop n))
      (answer.mapError thrownFor) := by
  have hdelivered : Delivered readXml (answerDocument answer)
      (handlerResponse (answer.map Answer.str))
      ((handlerResponse (answer.map Answer.str)).take n)
      ((handlerResponse (answer.map Answer.str)).drop n) :=
    ⟨List.take_append_drop n _, hheaders, h.size, h.reads⟩
  obtain ⟨data, child, hbody, hread, hrep⟩ :=
    hdelivered.reaches (answerDocument_wellFormed h) (handlerResponse_eq answer)
  cases answer with
  | ok a =>
      obtain ⟨hfault, -⟩ := resultDocument_represents data hrep
      simp only [callMethod, hbody, Except.bind, hread, hfault]
      exact .ok (parsers_represent server uninit data hrep)
  | error what =>
      have hfault : checkFault (.node data [child]) = .error (faultError what) :=
        checkFault_represents (h.fault what rfl).1 hrep
      simp only [callMethod, hbody, Except.bind, hread, hfault, Except.mapError, thrownFor]
      cases faultError what with
      | xmlRpcError code name message => exact .error _
      | runtimeError what => exact .error _

/-- **One call.**  Over the wire it does what it does directly. -/
theorem fetch_alike (wire : Wire σ) (uninit : Int) (h : GetsThrough readXml server method params) :
    Alike (ReadsAs server uninit) ((overWire readXml server wire uninit).fetch method params)
      ((direct server).fetch method params) := by
  intro s
  obtain ⟨hcalls, hresponses⟩ := serve_eq wire s.daemon h
  have hanswer := h.answers s.daemon
  have hheaders := wire.buffered_headers s.daemon
    (handlerResponse ((server s.daemon method params).1.map Answer.str)) (by
      rw [handlerResponse_eq]
      exact find_response _)
  have hsame := callMethod_sendable server hanswer uninit hheaders
  simp only [Programs.run, Remote.fetch, ExceptT.run_mk, StateT.run, overWire, direct, hcalls,
    hresponses, List.flatten_cons, List.flatten_nil, List.append_nil, List.foldl_cons,
    List.foldl_nil]
  exact ⟨hsame, trivial⟩

end Call

/-! ## Commands cannot tell remotes apart -/

/-- The methods that are called without parameters. -/
def plainMethods : List Bytes :=
  [ascii "supervisor.getAllProcessInfo", ascii "supervisor.startAllProcesses",
    ascii "supervisor.stopAllProcesses", ascii "supervisor.shutdown",
    ascii "supervisor.reloadConfig"]

/-- The methods that are called with the name of a process. -/
def namedMethods : List Bytes :=
  [ascii "supervisor.getProcessInfo", ascii "supervisor.startProcess",
    ascii "supervisor.stopProcess"]

/-- The calls a command with these arguments can make. -/
def clientCalls (args : List Bytes) : List (Bytes × List Bytes) :=
  plainMethods.map (fun method => (method, [])) ++
    args.head?.toList.flatMap fun name => namedMethods.map fun method => (method, [name])

/-- Two remotes that do the same for these calls. -/
structure SameFor {σ τ τ' : Type} (R : τ → τ' → Prop) (r : Remote σ τ) (r' : Remote σ τ')
    (calls : List (Bytes × List Bytes)) : Prop where
  infos : ∀ t t', R t t' → r.infos t = r'.infos t'
  info : ∀ t t', R t t' → r.info t = r'.info t'
  fetch : ∀ call ∈ calls, Alike R (r.fetch call.1 call.2) (r'.fetch call.1 call.2)

section Alike

variable {σ τ τ' : Type} {R : τ → τ' → Prop} {r : Remote σ τ} {r' : Remote σ τ'}
  {calls : List (Bytes × List Bytes)} {args : List Bytes}

theorem mem_clientCalls_plain {method : Bytes} (h : method ∈ plainMethods) (args : List Bytes) :
    (method, []) ∈ clientCalls args :=
  List.mem_append_left _ (List.mem_map_of_mem h)

theorem mem_clientCalls_named {method : Bytes} (h : method ∈ namedMethods) (name : Bytes)
    (args : List Bytes) : (method, [name]) ∈ clientCalls (name :: args) := by
  apply List.mem_append_right
  simpa using h

/-- Calls that matter only for their success are alike. -/
theorem SameFor.call (h : SameFor R r r' calls) {method : Bytes} {params : List Bytes}
    (hmem : (method, params) ∈ calls) :
    Alike (· = ·) (r.call method params) (r'.call method params) :=
  (h.fetch _ hmem).bind fun _ _ _ => .refl _

/-- A command on one process or on all is alike if both are. -/
theorem withName_alike {all all' : Command σ PUnit} {one one' : Bytes → Command σ PUnit}
    (hall : Alike (· = ·) all all')
    (hone : ∀ name rest, args = name :: rest → Alike (· = ·) (one name) (one' name)) :
    Alike (· = ·) (withName args all one) (withName args all' one') := by
  cases args with
  | nil => exact .refl _
  | cons name rest =>
      unfold withName
      by_cases hname : name = ascii "all"
      · simp only [hname, if_true]
        exact hall.seq fun _ => .refl _
      · simp only [hname, if_false]
        exact (hone name rest rfl).seq fun _ => .refl _

theorem cmdReload_alike (h : SameFor R r r' (clientCalls args)) :
    Alike (· = ·) (cmdReload r) (cmdReload r') := by
  have hreload : (ascii "supervisor.reloadConfig", []) ∈ clientCalls args :=
    mem_clientCalls_plain (by decide) args
  unfold cmdReload
  exact (Alike.refl _).seq fun _ => (h.call hreload).seq fun _ => .refl _

theorem cmdShutdown_alike (h : SameFor R r r' (clientCalls args)) :
    Alike (· = ·) (cmdShutdown r) (cmdShutdown r') := by
  have hshutdown : (ascii "supervisor.shutdown", []) ∈ clientCalls args :=
    mem_clientCalls_plain (by decide) args
  unfold cmdShutdown
  exact (Alike.refl _).seq fun _ => (h.call hshutdown).seq fun _ => .refl _

theorem cmdStart_alike (h : SameFor R r r' (clientCalls args)) :
    Alike (· = ·) (cmdStart r args) (cmdStart r' args) := by
  have hall : (ascii "supervisor.startAllProcesses", []) ∈ clientCalls args :=
    mem_clientCalls_plain (by decide) args
  refine withName_alike ((h.call hall).seq fun _ => .refl _) ?_
  rintro name rest rfl
  have hone : (ascii "supervisor.startProcess", [name]) ∈ clientCalls (name :: rest) :=
    mem_clientCalls_named (by decide) name rest
  exact (h.call hone).seq fun _ => .refl _

theorem cmdStop_alike (h : SameFor R r r' (clientCalls args)) :
    Alike (· = ·) (cmdStop r args) (cmdStop r' args) := by
  have hall : (ascii "supervisor.stopAllProcesses", []) ∈ clientCalls args :=
    mem_clientCalls_plain (by decide) args
  refine withName_alike ((h.call hall).seq fun _ => .refl _) ?_
  rintro name rest rfl
  have hone : (ascii "supervisor.stopProcess", [name]) ∈ clientCalls (name :: rest) :=
    mem_clientCalls_named (by decide) name rest
  exact (h.call hone).seq fun _ => .refl _

/-- The stop of a restart throws the same exception on both sides, so both tolerate it. -/
theorem cmdRestart_alike (h : SameFor R r r' (clientCalls args)) :
    Alike (· = ·) (cmdRestart r args) (cmdRestart r' args) := by
  have hstopAll : (ascii "supervisor.stopAllProcesses", []) ∈ clientCalls args :=
    mem_clientCalls_plain (by decide) args
  have hstartAll : (ascii "supervisor.startAllProcesses", []) ∈ clientCalls args :=
    mem_clientCalls_plain (by decide) args
  refine withName_alike
    ((h.call hstopAll).seq fun _ => (h.call hstartAll).seq fun _ => .refl _) ?_
  rintro name rest rfl
  have hstop : (ascii "supervisor.stopProcess", [name]) ∈ clientCalls (name :: rest) :=
    mem_clientCalls_named (by decide) name rest
  have hstart : (ascii "supervisor.startProcess", [name]) ∈ clientCalls (name :: rest) :=
    mem_clientCalls_named (by decide) name rest
  have htolerated := (h.call hstop).tryCatch fun e => Alike.refl (tolerateNotRunning e)
  exact htolerated.seq fun _ => (h.call hstart).seq fun _ => .refl _

theorem allStatus_alike (h : SameFor R r r' calls)
    (hmem : (ascii "supervisor.getAllProcessInfo", []) ∈ calls) :
    Alike (· = ·) (allStatus r) (allStatus r') := by
  refine (h.fetch _ hmem).bind fun t t' ht => ?_
  rw [h.infos t t' ht]
  exact .refl _

theorem oneStatus_alike {name : Bytes} (h : SameFor R r r' calls)
    (hmem : (ascii "supervisor.getProcessInfo", [name]) ∈ calls) :
    Alike (· = ·) (oneStatus r name) (oneStatus r' name) := by
  refine (h.fetch _ hmem).bind fun t t' ht => ?_
  rw [h.info t t' ht]
  exact .refl _

theorem cmdStatus_alike (h : SameFor R r r' (clientCalls args)) :
    Alike (· = ·) (cmdStatus r args) (cmdStatus r' args) := by
  have hall : (ascii "supervisor.getAllProcessInfo", []) ∈ clientCalls args :=
    mem_clientCalls_plain (by decide) args
  cases args with
  | nil => exact allStatus_alike h hall
  | cons name rest =>
      have hone : (ascii "supervisor.getProcessInfo", [name]) ∈ clientCalls (name :: rest) :=
        mem_clientCalls_named (by decide) name rest
      by_cases hname : name = ascii "all"
      · simp only [cmdStatus, if_pos hname]
        exact allStatus_alike h hall
      · simp only [cmdStatus, if_neg hname]
        exact oneStatus_alike h hone

/-- Every member function in the table. -/
theorem run_alike (h : SameFor R r r' (clientCalls args)) (func : CommandFunc) :
    Alike (· = ·) (func.run r args) (func.run r' args) := by
  cases func with
  | status => exact cmdStatus_alike h
  | start => exact cmdStart_alike h
  | stop => exact cmdStop_alike h
  | restart => exact cmdRestart_alike h
  | shutdown => exact cmdShutdown_alike h
  | reload => exact cmdReload_alike h
  | help => exact .refl _
  | exit => exact .refl _

/-- A command is alike over two remotes that answer its calls alike. -/
theorem executeCommand_alike (method : Bytes) (h : SameFor R r r' (clientCalls args)) :
    Alike (· = ·) (executeCommand r method args) (executeCommand r' method args) := by
  unfold executeCommand
  split
  · exact .refl _
  · refine Alike.tryCatch ?_ fun _ => .refl _
    split
    · exact run_alike h _
    · exact .refl _

/-- By induction on the lines: every command of the session is the same, so the session goes on with
the same streams and the same daemon. -/
theorem interactiveMode_alike {lines : List Bytes}
    (h : ∀ line ∈ lines, SameFor R r r' (clientCalls (commandWords line).tail)) :
    Alike (· = ·) (interactiveMode r lines) (interactiveMode r' lines) := by
  induction lines with
  | nil => exact .refl _
  | cons line lines ih =>
      obtain ⟨hline, hlines⟩ := List.forall_mem_cons.mp h
      have hrest := ih hlines
      unfold interactiveMode
      refine (Alike.refl _).seq fun _ => ?_
      cases hwords : commandWords line with
      | nil => exact hrest
      | cons method args =>
          rw [hwords] at hline
          refine (executeCommand_alike method hline).seq fun code => ?_
          split
          · exact .refl _
          · exact hrest

end Alike

/-! ## Over the wire -/

section OverWire

variable {σ : Type} {readXml : Bytes → Except Bytes Ptree}

/-- The wire answers as the handlers do, for calls that get through. -/
theorem overWire_sameFor (server : Server σ) (wire : Wire σ) (uninit : Int)
    {calls : List (Bytes × List Bytes)}
    (h : ∀ call ∈ calls, GetsThrough readXml server call.1 call.2) :
    SameFor (ReadsAs server uninit) (overWire readXml server wire uninit) (direct server) calls :=
  ⟨fun _ _ ht => ht.1, fun _ _ ht => ht.2, fun call hcall => fetch_alike wire uninit (h call hcall)⟩

/-- **No command can tell the wire from the handlers.**  However the bytes of its calls travel, a
command, and a whole interactive session, ends with the same exit code, the same text on both streams
and the same daemon as if the handlers had been called and their faults thrown. Nor does the value
that `pid` happens to hold before it is read matter. The calls are assumed to be ones that can be
sent and read. -/
theorem commands_over_wire (server : Server σ) (wire : Wire σ) (uninit : Int) :
    (∀ method args, (∀ call ∈ clientCalls args, GetsThrough readXml server call.1 call.2) →
      executeCommand (overWire readXml server wire uninit) method args =
        executeCommand (direct server) method args) ∧
    (∀ lines, (∀ line ∈ lines, ∀ call ∈ clientCalls (commandWords line).tail,
        GetsThrough readXml server call.1 call.2) →
      interactiveMode (overWire readXml server wire uninit) lines =
        interactiveMode (direct server) lines) := by
  constructor
  · intro method args h
    exact (executeCommand_alike method (overWire_sameFor server wire uninit h)).eq
  · intro lines h
    have hsame := fun line hline => overWire_sameFor server wire uninit (h line hline)
    exact (interactiveMode_alike hsame).eq

end OverWire

/-! ### A session -/

/-- A reader that knows the documents with these roots. -/
def readAnyOf (roots : List Xml.Node) (xml : Bytes) : Except Bytes Ptree :=
  match roots.find? fun root => Xml.document root = xml with
  | some root => .ok (.node [] [treeOf root])
  | none => .error (ascii "unexpected data")

/-- The reader reads each of its documents verbatim. -/
theorem readAnyOf_verbatim {roots : List Xml.Node} {root : Xml.Node}
    (hnodup : (roots.map Xml.document).Nodup) (hmem : root ∈ roots) (hroot : root.isSpace = false) :
    ReadsVerbatim (readAnyOf roots) root := by
  intro _
  refine ⟨[], treeOf root, ?_, represents_treeOf root hroot⟩
  have hfind : roots.find? (fun r => Xml.document r = Xml.document root) = some root := by
    cases hfound : roots.find? fun r => Xml.document r = Xml.document root with
    | none =>
        have hno := List.find?_eq_none.mp hfound root hmem
        simp at hno
    | some r =>
        have hdoc : Xml.document r = Xml.document root := by
          simpa using List.find?_some hfound
        rw [List.inj_on_of_nodup_map hnodup (List.mem_of_find?_eq_some hfound) hmem hdoc]
  rw [readAnyOf, hfind]

/-- A daemon with one process, which is up or not. -/
def webServer : Server Bool := fun up method _ =>
  let record := fun up => Answer.infos
    [⟨ascii "web", if up then .running else .stopped, -1, 0, [], [], []⟩]
  if method = ascii "supervisor.startProcess" then
    (if up then .error (ascii "ALREADY_STARTED: web") else .ok (.value (.bool true)), true)
  else if method = ascii "supervisor.stopProcess" then
    (if up then .ok (.value (.bool true)) else .error (ascii "NOT_RUNNING: web"), false)
  else if method = ascii "supervisor.getAllProcessInfo" then (.ok (record up), up)
  else (.ok (.value (.bool true)), up)

/-- What it answers with. -/
def webAnswers : List (Except Bytes Answer) :=
  [.ok (.value (.bool true)), .error (ascii "ALREADY_STARTED: web"),
    .error (ascii "NOT_RUNNING: web"),
    .ok (.infos [⟨ascii "web", .running, -1, 0, [], [], []⟩]),
    .ok (.infos [⟨ascii "web", .stopped, -1, 0, [], [], []⟩])]

/-- The documents of its calls and answers. -/
def webDocuments : List Xml.Node :=
  (clientCalls [ascii "web"]).map (fun call => methodCall call.1 call.2) ++
    webAnswers.map answerDocument

/-- Everything arrives in two reads, and `read_until` takes the whole response. -/
def twoReads : Wire Bool where
  chunks _ bytes := [bytes.take 60, bytes.drop 60]
  chunks_flatten _ bytes := by simp
  buffered _ bytes := bytes.length
  buffered_headers _ bytes h := by rwa [List.take_length]

theorem webDocuments_nodup : (webDocuments.map Xml.document).Nodup := by decide +kernel

theorem webServer_answers (up : Bool) (method : Bytes) (params : List Bytes) :
    (webServer up method params).1 ∈ webAnswers := by
  unfold webServer webAnswers
  cases up <;> split_ifs <;> simp

theorem webAnswers_sendable {answer : Except Bytes Answer} (h : answer ∈ webAnswers) :
    Sendable (readAnyOf webDocuments) answer := by
  have hsize : ∀ answer ∈ webAnswers,
      (handlerResponse (answer.map Answer.str)).length < 2 ^ 64 := by decide +kernel
  have hdocument : answerDocument answer ∈ webDocuments :=
    List.mem_append_right _ (List.mem_map_of_mem h)
  refine ⟨?_, ?_, hsize answer h, readAnyOf_verbatim webDocuments_nodup hdocument ?_⟩
  · rintro a rfl
    simp only [webAnswers, List.mem_cons, Except.ok.injEq, reduceCtorEq, List.not_mem_nil,
      or_false, false_or] at h
    rcases h with rfl | rfl | rfl
    · rintro s hs
      cases hs
    · exact List.forall_mem_singleton.mpr ⟨by decide, by decide, by decide, by decide⟩
    · exact List.forall_mem_singleton.mpr ⟨by decide, by decide, by decide, by decide⟩
  · rintro what rfl
    simp only [webAnswers, List.mem_cons, Except.error.injEq, reduceCtorEq, List.not_mem_nil,
      or_false, false_or] at h
    rcases h with rfl | rfl
    · decide
    · decide
  · cases answer <;> rfl

theorem webServer_getsThrough {call : Bytes × List Bytes} (h : call ∈ clientCalls [ascii "web"]) :
    GetsThrough (readAnyOf webDocuments) webServer call.1 call.2 := by
  have hplain : ∀ call ∈ clientCalls [ascii "web"], 0 ∉ call.1 ∧ (∀ param ∈ call.2, 0 ∉ param) ∧
      (httpRequest call.1 call.2).length ≤ RpcConnection.maxRequestSize := by decide +kernel
  obtain ⟨hmethod, hparams, hfits⟩ := hplain call h
  refine ⟨hmethod, hparams, hfits, readAnyOf_verbatim webDocuments_nodup ?_ rfl, fun up => ?_⟩
  · exact List.mem_append_left _ (List.mem_map_of_mem h)
  · exact webAnswers_sendable (webServer_answers up _ _)

/-- A restart of a process that is not running, its status, and the end. -/
theorem commands_over_wire_web :
    let lines := [ascii "restart web", ascii " ", ascii "status", ascii "exit"]
    interactiveMode (overWire (readAnyOf webDocuments) webServer twoReads 0) lines =
        interactiveMode (direct webServer) lines ∧
      (run (interactiveMode (direct webServer) lines) ⟨[], [], false⟩).2.out =
        ascii "supervisor> web: restarted\nsupervisor> supervisor> " ++
          ascii "web                 RUNNING        \nsupervisor> \n" := by
  intro lines
  refine ⟨(commands_over_wire webServer twoReads 0).2 lines fun line hline call hcall => ?_, ?_⟩
  · have hcalls : ∀ line ∈ lines, ∀ call ∈ clientCalls (commandWords line).tail,
        call ∈ clientCalls [ascii "web"] := by decide +kernel
    exact webServer_getsThrough (hcalls line hline call hcall)
  · decide +kernel

end CtlClient

end Supervisorcpp
