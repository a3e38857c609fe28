/-
# From the client's call to the dispatcher

What `supervisorctl` sends for a method and its parameters is a well-formed document, and what
`parse_xmlrpc_request_` takes out of it is that method and those parameters. With the framing of the
connection this makes the round trip of a request.

The parameters are any bytes but NUL: what has a meaning in XML is escaped on the way and decoded by
the reader, of which only that is assumed.
-/
import Supervisorcpp.Rpc.Documents
import Supervisorcpp.Rpc.Framing

namespace Supervisorcpp

open Bytes (ascii)
open CtlClient (buildXmlrpcRequest buildHttpRequest)

/-! ## The document of a call -/

/-- A parameter: a string, escaped. -/
def paramNode (param : Bytes) : Xml.Node :=
  .element (ascii "param") [.element (ascii "value") [.text (ascii "string") (escapeXml param)]]

/-- The document `build_xmlrpc_request_` writes, with its line breaks. -/
def methodCall (method : Bytes) (params : List Bytes) : Xml.Node :=
  .element (ascii "methodCall")
    [.space (ascii "\n  "), .text (ascii "methodName") (escapeXml method), .space (ascii "\n  "),
      .element (ascii "params") (params.map paramNode ++ [.space (ascii "  ")]),
      .space (ascii "\n")]

section Document

variable {method : Bytes} {params : List Bytes}

/-- What the client writes is the document of the call. -/
theorem buildXmlrpcRequest_eq (method : Bytes) (params : List Bytes) :
    buildXmlrpcRequest method params = Xml.document (methodCall method params) := by
  have hparam : (fun param => ascii "<param><value>" ++ (Xmlrpc.Value.string param).str ++
      ascii "</value></param>") = fun param => (paramNode param).render := by
    funext param
    simp [paramNode, Xml.Node.render, Xml.renderAll, Xml.startTag, Xml.endTag, Xmlrpc.Value.str,
      ascii]
  rw [buildXmlrpcRequest, hparam]
  simp [methodCall, Xml.document, Xml.declaration, Xml.Node.render, Xml.renderAll,
    Xml.renderAll_append, Xml.renderAll_map, Xml.startTag, Xml.endTag, ascii]

/-- A call whose method and parameters have no NUL byte has one reading. -/
theorem methodCall_wellFormed (hmethod : 0 ∉ method) (hparams : ∀ param ∈ params, 0 ∉ param) :
    (methodCall method params).WellFormed := by
  have hparam : ∀ param ∈ params, (paramNode param).WellFormed := by
    intro param hmem
    have htext := charData_escapeXml (hparams param hmem)
    have hnames : Xml.isName (ascii "param") = true ∧ Xml.isName (ascii "value") = true ∧
        Xml.isName (ascii "string") = true := by decide
    simp [paramNode, Xml.Node.WellFormed, Xml.AllWellFormed, hnames, htext]
  have hnames : Xml.isName (ascii "methodCall") = true ∧ Xml.isName (ascii "methodName") = true ∧
      Xml.isName (ascii "params") = true := by decide
  have hspaces : (ascii "\n  ").all Xml.isBlank = true ∧ (ascii "  ").all Xml.isBlank = true ∧
      (ascii "\n").all Xml.isBlank = true := by decide
  have htext := charData_escapeXml hmethod
  simp only [methodCall, Xml.Node.WellFormed, Xml.AllWellFormed, Xml.allWellFormed_append,
    Xml.allWellFormed_map, hnames, hspaces, htext, true_and, and_true]
  exact hparam

end Document

/-! ## What the server takes out of it -/

section Parse

variable {method : Bytes} {params : List Bytes} {kids : List (Bytes × Ptree)}

/-- A parameter is read as it was given. -/
theorem paramValue_represents {param : Bytes} {child : Bytes × Ptree}
    (h : Represents (paramNode param) child) :
    child.1 = ascii "param" ∧ paramValue child.2 = some param := by
  obtain ⟨_, value, rfl, hvalue⟩ := h.only rfl
  obtain ⟨_, string, rfl, hstring⟩ := hvalue.only rfl
  obtain rfl := hstring.escaped
  refine ⟨rfl, ?_⟩
  simp only [paramValue, Ptree.getString, getChild_hit, getChild_here, Option.map_some, Ptree.data]

/-- The parameters come out in order. -/
theorem params_represents (params : List Bytes)
    (h : List.Forall₂ Represents (params.map paramNode) kids) :
    (kids.filterMap fun child =>
      if child.1 == ascii "param" then paramValue child.2 else none) = params := by
  induction params generalizing kids with
  | nil =>
      cases h
      rfl
  | cons param params ih =>
      cases h with
      | cons hparam hparams =>
          obtain ⟨hname, hvalue⟩ := paramValue_represents hparam
          rw [List.filterMap_cons_some (b := param), ih hparams]
          simp [hname, hvalue]

/-- **The server's parse undoes the client's writing.** -/
theorem parseTree_methodCall {data : Bytes} {child : Bytes × Ptree}
    (h : Represents (methodCall method params) child) :
    parseTree (.node data [child]) = .ok (method, params) := by
  obtain ⟨_, name, rest, rfl, hname, hrest⟩ := h.pair rfl
  obtain rfl := hname.escaped
  obtain ⟨_, kids, rfl, hkids⟩ := hrest.element_inv
  have hspace : Xml.elements [.space (ascii "  ")] = [] := rfl
  rw [Xml.elements_append, hspace, List.append_nil, Xml.elements_map fun _ => rfl] at hkids
  have hparams := params_represents params hkids
  have hne : ascii "methodName" ≠ ascii "params" := by decide
  simp only [parseTree, Ptree.getString, getChild_hit, getChild_here, getChild_miss hne,
    Option.map_some, Ptree.data, Ptree.children, hparams]

end Parse

/-! ## The round trip -/

namespace RpcConnection

variable {readXml : Bytes → Except Bytes Ptree} {method : Bytes} {params : List Bytes}

/-- The body starts behind the headers. -/
theorem bodyStart_request (body : Bytes) :
    bodyStart (buildHttpRequest body) = some (requestHeaderEnd body + 4) := by
  have hfirst : Bytes.find (ascii "\r\n\r\n") requestFirst = none := by decide
  rw [bodyStart, buildHttpRequest_eq, find_emptyLine hfirst]
  rfl

theorem drop_headers (body : Bytes) :
    (buildHttpRequest body).drop (requestHeaderEnd body + 4) = body := by
  have htotal := length_buildHttpRequest body
  have hsplit : buildHttpRequest body =
      (requestFirst ++ (ascii (toString body.length) ++ lastLines)) ++ body := by
    simp [buildHttpRequest_eq]
  have hlength : requestHeaderEnd body + 4 =
      (requestFirst ++ (ascii (toString body.length) ++ lastLines)).length := by
    rw [hsplit, List.length_append] at htotal
    omega
  rw [hsplit, hlength, List.drop_left]

/-- The whole request makes one call of the dispatcher. -/
theorem processRequest_calls (dispatch : DispatchFunction) (data : Bytes) (hmethod : 0 ∉ method)
    (hparams : ∀ param ∈ params, 0 ∉ param)
    (hread : ReadsVerbatim readXml (methodCall method params)) :
    (processRequest readXml ⟨some dispatch, data⟩
      (buildHttpRequest (buildXmlrpcRequest method params))).calls = [(method, params)] := by
  obtain ⟨_, child, hdoc, hrep⟩ := hread (methodCall_wellFormed hmethod hparams)
  have hparse : parseXmlrpcRequest readXml (buildXmlrpcRequest method params) =
      .ok (method, params) := by
    rw [parseXmlrpcRequest, buildXmlrpcRequest_eq, hdoc]
    simp only [Except.bind, parseTree_methodCall hrep]
  simp only [processRequest, bodyStart_request, drop_headers, hparse]
  cases dispatch method params with
  | error what => rfl
  | ok result => rfl

/-- **The round trip of a request.**  For every method and parameters without NUL bytes, and however
the client's bytes are split into reads, the connection calls the dispatcher once, with that method
and those parameters, when the request has at most 1 MiB; when it has more, the dispatcher is not
called and the one response is the fault "Request too large". The reader is assumed to read this
document verbatim, and the body to be no longer than a `size_t` can say. -/
theorem request_round_trip (dispatch : DispatchFunction) (chunks : List Bytes)
    (hmethod : 0 ∉ method) (hparams : ∀ param ∈ params, 0 ∉ param)
    (hread : ReadsVerbatim readXml (methodCall method params))
    (hsize : (buildXmlrpcRequest method params).length < 2 ^ 64)
    (hsplit : chunks.flatten = buildHttpRequest (buildXmlrpcRequest method params)) :
    let request := buildHttpRequest (buildXmlrpcRequest method params)
    let outcomes := session readXml (create (some dispatch))
      (chunks.map fun chunk => ⟨none, chunk⟩)
    (request.length ≤ maxRequestSize → calls outcomes = [(method, params)]) ∧
      (maxRequestSize < request.length → calls outcomes = [] ∧ responses outcomes =
        [generateHttpResponse (generateXmlrpcFault 1 (ascii "Request too large (max 1MB)"))]) := by
  have hpart : ([] : Bytes).length <
      (buildHttpRequest (buildXmlrpcRequest method params)).length := by
    rw [length_buildHttpRequest]
    simp only [List.length_nil]
    omega
  obtain ⟨hcalls, hresponses⟩ := session_request readXml (some dispatch) hsize chunks hsplit hpart
  constructor
  · intro hsmall
    rw [if_pos hsmall] at hcalls
    exact hcalls.trans (processRequest_calls dispatch _ hmethod hparams hread)
  · intro hlarge
    have hbig : ¬ (buildHttpRequest (buildXmlrpcRequest method params)).length ≤
        maxRequestSize := by omega
    rw [if_neg hbig] at hcalls hresponses
    exact ⟨hcalls, hresponses⟩

/-- A parameter with a character that is escaped, in two reads. -/
theorem request_round_trip_start :
    let root := methodCall (ascii "supervisor.startProcess") [ascii "a<b"]
    let request := buildHttpRequest
      (buildXmlrpcRequest (ascii "supervisor.startProcess") [ascii "a<b"])
    ReadsVerbatim (readOnly root) root ∧ request.length ≤ maxRequestSize ∧
      calls (session (readOnly root) (create (some fun _ _ => .ok []))
        ([request.take 60, request.drop 60].map fun chunk => ⟨none, chunk⟩)) =
        [(ascii "supervisor.startProcess", [ascii "a<b"])] := by
  intro root request
  have hread : ReadsVerbatim (readOnly root) root := readOnly_verbatim rfl
  have hsmall : request.length ≤ maxRequestSize := by decide +kernel
  refine ⟨hread, hsmall, ?_⟩
  refine (request_round_trip (fun _ _ => .ok []) _ (by decide) (by decide) hread
    (by decide +kernel) ?_).1 hsmall
  rw [List.flatten_cons, List.flatten_cons, List.flatten_nil, List.append_nil,
    List.take_append_drop]

end RpcConnection

end Supervisorcpp
