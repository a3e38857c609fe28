/-
# One RPC connection

`rpc_connection.cpp`: bytes are collected until a header block and the body it announces are
complete, the body is parsed as an XML-RPC call, and the answer goes out as one HTTP response. A
read event is one completion of `async_read_some`; what the connection does in it is an outcome: the
reads it starts, the calls of the dispatcher, the responses it sends, and the exception that leaves
`handle_read_`, if one does.

The XML reader is a parameter: a tree, or the text of the `std::exception` it throws. So is the
dispatcher, which answers or throws a `std::exception`.
-/
import Supervisorcpp.Rpc.Xmlrpc

namespace Supervisorcpp

open Bytes (ascii)

/-! ## The property tree -/

/-- `boost::property_tree::ptree`. -/
inductive Ptree where
  | node (data : Bytes) (children : List (Bytes × Ptree))

namespace Ptree

/-- The text of an element. -/
def data : Ptree → Bytes
  | .node data _ => data

/-- The elements in an element, in order, each with its name. -/
def children : Ptree → List (Bytes × Ptree)
  | .node _ children => children

/-- `get_child_optional`: at each level the first child of that name. -/
def getChildOptional : List Bytes → Ptree → Option Ptree
  | [], t => some t
  | key :: path, t =>
    (t.children.find? fun child => child.1 == key).bind fun child => getChildOptional path child.2

/-- `get_optional<std::string>`. -/
def getString (path : List Bytes) (t : Ptree) : Option Bytes := (getChildOptional path t).map data

/-- `get_optional<int>`. -/
def getInt (path : List Bytes) (t : Ptree) : Option Int :=
  (getChildOptional path t).bind fun child => Bytes.readInt child.data

end Ptree

/-! ## Requests -/

/-- The text of a parameter: a string, an int, or a value without a type. -/
def paramValue (param : Ptree) : Option Bytes :=
  match param.getString [ascii "value", ascii "string"] with
  | some str => some str
  | none =>
    match param.getInt [ascii "value", ascii "int"] with
    | some int => some (ascii (toString int))
    | none => param.getString [ascii "value"]

/-- The body of the `try` in `parse_xmlrpc_request_`. -/
def parseTree (tree : Ptree) : Except Bytes (Bytes × List Bytes) :=
  match tree.getString [ascii "methodCall", ascii "methodName"] with
  | none => .error (ascii "No such node (methodCall.methodName)")
  | some methodName =>
    let params := match tree.getChildOptional [ascii "methodCall", ascii "params"] with
      | some paramsTree =>
        paramsTree.children.filterMap fun child =>
          if child.1 == ascii "param" then paramValue child.2 else none
      | none => []
    .ok (methodName, params)

/-- `parse_xmlrpc_request_`. -/
def parseXmlrpcRequest (readXml : Bytes → Except Bytes Ptree) (xml : Bytes) :
    Except Bytes (Bytes × List Bytes) :=
  match (readXml xml).bind parseTree with
  | .ok call => .ok call
  | .error what => .error (ascii "Failed to parse XML-RPC request: " ++ what)

/-! ## Responses -/

/-- `generate_xmlrpc_response_`. -/
def generateXmlrpcResponse (result : Bytes) : Bytes :=
  ascii "<?xml version=\"1.0\"?>\n" ++
  ascii "<methodResponse>\n" ++
  ascii "  <params>\n" ++
  ascii "    <param><value>" ++ result ++ ascii "</value></param>\n" ++
  ascii "  </params>\n" ++
  ascii "</methodResponse>\n"

/-- `generate_xmlrpc_fault_`. -/
def generateXmlrpcFault (code : Int) (message : Bytes) : Bytes :=
  ascii "<?xml version=\"1.0\"?>\n" ++
  ascii "<methodResponse>\n" ++
  ascii "  <fault>\n" ++
  ascii "    <value>" ++
  Xmlrpc.structStr [⟨ascii "faultCode", .int code⟩, ⟨ascii "faultString", .string message⟩] ++
  ascii "</value>\n" ++
  ascii "  </fault>\n" ++
  ascii "</methodResponse>\n"

/-- `generate_http_response_`. -/
def generateHttpResponse (body : Bytes) : Bytes :=
  ascii "HTTP/1.1 200 OK\r\n" ++
  ascii "Content-Type: text/xml\r\n" ++
  ascii "Content-Length: " ++ ascii (toString body.length) ++ ascii "\r\n" ++
  ascii "Connection: close\r\n" ++
  ascii "\r\n" ++
  body

/-! ## The connection -/

/-- What `dispatcher_` is called for: the result of a method, or what it throws. -/
abbrev DispatchFunction := Bytes → List Bytes → Except Bytes Bytes

/-- A connection: who answers its requests, and what it has read and not yet processed. -/
structure RpcConnection where
  dispatcher : Option DispatchFunction
  requestData : Bytes

/-- Why a read ended without the bytes that were asked for. -/
inductive ReadError where
  | eof
  | other
  deriving DecidableEq, Repr

/-- A completion of `async_read_some`: the error code and the bytes put in `buffer_`. -/
structure ReadEvent where
  error : Option ReadError
  bytes : Bytes
  deriving DecidableEq, Repr

/-- What one call of `handle_read_` did. -/
structure ReadOutcome where
  requestData : Bytes
  /-- `begin_read_` calls -/
  reads : Nat := 0
  /-- calls of the dispatcher -/
  calls : List (Bytes × List Bytes) := []
  /-- data given to `async_write` -/
  responses : List Bytes := []
  /-- the exception that left the function -/
  thrown : Option Bytes.NumberError := none
  deriving DecidableEq, Repr

namespace RpcConnection

variable (readXml : Bytes → Except Bytes Ptree)

/-- A connection as it is accepted. -/
def create (dispatcher : Option DispatchFunction) : RpcConnection := ⟨dispatcher, []⟩

/-- `send_response_`, with what the dispatcher was called with before. -/
def sendResponse (requestData : Bytes) (calls : List (Bytes × List Bytes)) (body : Bytes) :
    ReadOutcome where
  requestData := requestData
  calls := calls
  responses := [generateHttpResponse body]

/-- Where `process_request_` lets the body start. -/
def bodyStart (request : Bytes) : Option Nat :=
  match Bytes.find (ascii "\r\n\r\n") request with
  | some i => some (i + 4)
  | none => (Bytes.find (ascii "\n\n") request).map (· + 2)

/-- `process_request_`; everything it does is inside its `try`. -/
def processRequest (c : RpcConnection) (request : Bytes) : ReadOutcome :=
  let fault := fun calls what => sendResponse c.requestData calls (generateXmlrpcFault 1 what)
  match bodyStart request with
  | none => fault [] (ascii "Invalid HTTP request")
  | some start =>
    match parseXmlrpcRequest readXml (request.drop start) with
    | .error what => fault [] what
    | .ok (methodName, params) =>
      match c.dispatcher with
      | none => fault [] (ascii "No method dispatcher")
      | some dispatch =>
        match dispatch methodName params with
        | .error what => fault [(methodName, params)] what
        | .ok result =>
          sendResponse c.requestData [(methodName, params)] (generateXmlrpcResponse result)

/-- `MAX_REQUEST_SIZE`: one MiB. -/
def maxRequestSize : Nat := 1024 * 1024

/-- `header_end` and `body_offset`. -/
def headerEnd (data : Bytes) : Option (Nat × Nat) :=
  match Bytes.find (ascii "\r\n\r\n") data with
  | some i => some (i, i + 4)
  | none => (Bytes.find (ascii "\n\n") data).map fun i => (i, i + 2)

/-- The Content-Length field of a header block: `none` without one, `some none` where nothing but
blanks follows it, else its value up to the end of the line. -/
def contentLengthField (headers : Bytes) : Option (Option Bytes) :=
  (Bytes.ifind (ascii "content-length:") headers).map fun pos =>
    let afterName := headers.drop (pos + (ascii "content-length:").length)
    let value := afterName.dropWhile fun b => b == 32 || b == 9
    if value.isEmpty then none else some (value.takeWhile fun b => b != 13 && b != 10)

/-- `std::string::resize`. -/
def resize (data : Bytes) (n : Nat) : Bytes := data.take n ++ List.replicate (n - data.length) 0

/-- Another read unless the peer has closed its side. -/
def readOn (c : RpcConnection) (gotEof : Bool) : ReadOutcome where
  requestData := c.requestData
  reads := if gotEof then 0 else 1

/-- Trim to exactly headers and body, and process. -/
def processTrimmed (c : RpcConnection) (bodyOffset contentLength : Nat) : ReadOutcome :=
  let c := { c with requestData := resize c.requestData (bodyOffset + contentLength) }
  processRequest readXml c c.requestData

/-- `handle_read_` once the data has been appended and the end of the headers is known.
`std::stoull` is called outside any `try`. -/
def handleBody (c : RpcConnection) (gotEof : Bool) (headerEnd bodyOffset : Nat) : ReadOutcome :=
  match contentLengthField (c.requestData.take headerEnd) with
  | none => c.processTrimmed readXml bodyOffset 0
  | some value =>
    match value.elim (.ok 0) Bytes.stoull with
    | .error e => { requestData := c.requestData, thrown := some e }
    | .ok contentLength =>
      if c.requestData.length - bodyOffset < contentLength then c.readOn gotEof
      else c.processTrimmed readXml bodyOffset contentLength

/-- `handle_read_`. -/
def handleRead (c : RpcConnection) (event : ReadEvent) : ReadOutcome :=
  if event.error = some .other then { requestData := c.requestData }
  else if maxRequestSize < c.requestData.length + event.bytes.length then
    sendResponse c.requestData [] (generateXmlrpcFault 1 (ascii "Request too large (max 1MB)"))
  else
    let gotEof := event.error = some .eof
    let c := { c with requestData := c.requestData ++ event.bytes }
    match headerEnd c.requestData with
    | none => c.readOn gotEof
    | some (headerEnd, bodyOffset) => c.handleBody readXml gotEof headerEnd bodyOffset

/-- The outcomes of a sequence of read events. There is a next event only while a read is
outstanding. -/
def session (c : RpcConnection) : List ReadEvent → List ReadOutcome
  | [] => []
  | event :: events =>
    let o := c.handleRead readXml event
    if o.reads = 0 then [o]
    else o :: session { c with requestData := o.requestData } events

end RpcConnection

end Supervisorcpp
