/-
# From the server's answer to the client

The server writes its answers with string streams and the client walks the tree of what it has read.
The two agree: the header loop of the client finds the body, the list of `supervisor.getAllProcessInfo`
comes out as it went in, and a fault is thrown with the code and the name it was made of.

The value that `int` members have before they are read is a parameter: the code leaves it
uninitialised, and no result depends on it.
-/
import Supervisorcpp.Rpc.Requests

namespace Supervisorcpp

open Bytes (ascii)

/-! ## The documents of answers -/

namespace Xmlrpc

/-- A value, as the document says it. -/
def Value.node : Value → Xml.Node
  | .string s => .text (ascii "string") (escapeXml s)
  | .int i => .text (ascii "int") (ascii (toString i))
  | .bool b => .text (ascii "boolean") (ascii (if b then "1" else "0"))

/-- A member of a struct: its name and its value. -/
def Member.node (m : Member) : Xml.Node :=
  .element (ascii "member") [.text (ascii "name") (escapeXml m.name),
    .element (ascii "value") [m.value.node]]

/-- A struct of these members. -/
def structNode (items : List Member) : Xml.Node :=
  .element (ascii "struct") (items.map Member.node)

/-- A process record, as a value of an array. -/
def infoNode (info : ProcessInfo) : Xml.Node :=
  .element (ascii "value") [structNode (infoMembers info)]

/-- The array of the process records. -/
def infosNode (infos : List ProcessInfo) : Xml.Node :=
  .element (ascii "array") [.element (ascii "data") (infos.map infoNode)]

end Xmlrpc

/-- The document of `generate_xmlrpc_response_`, for a result that is an element. -/
def resultDocument (result : Xml.Node) : Xml.Node :=
  .element (ascii "methodResponse")
    [.space (ascii "\n  "), .element (ascii "params") [.space (ascii "\n    "),
      .element (ascii "param") [.element (ascii "value") [result]], .space (ascii "\n  ")],
      .space (ascii "\n")]

/-- The members of a fault. -/
def faultMembers (code : Int) (message : Bytes) : List Xmlrpc.Member :=
  [⟨ascii "faultCode", .int code⟩, ⟨ascii "faultString", .string message⟩]

/-- The document of `generate_xmlrpc_fault_`. -/
def faultDocument (code : Int) (message : Bytes) : Xml.Node :=
  .element (ascii "methodResponse")
    [.space (ascii "\n  "), .element (ascii "fault") [.space (ascii "\n    "),
      .element (ascii "value") [Xmlrpc.structNode (faultMembers code message)],
      .space (ascii "\n  ")], .space (ascii "\n")]

section Written

open Xmlrpc

/-- The text of a value is that of its piece. -/
theorem value_render (v : Value) : v.str = v.node.render := by
  cases v <;> simp [Value.str, Value.node, Xml.Node.render, Xml.startTag, Xml.endTag, ascii]

/-- The same for a struct. -/
theorem struct_render (items : List Member) : structStr items = (structNode items).render := by
  have hmember : Member.str = fun m => m.node.render := by
    funext m
    simp [Member.str, value_render, Member.node, Xml.Node.render, Xml.renderAll, Xml.startTag,
      Xml.endTag, ascii]
  rw [structStr, hmember]
  simp [structNode, Xml.Node.render, Xml.renderAll_map, Xml.startTag, Xml.endTag, ascii]

/-- The same for the array of records. -/
theorem infos_render (infos : List ProcessInfo) : wrapInfos infos = (infosNode infos).render := by
  have hinfo : (fun info => ascii "<value>" ++ wrapInfo info ++ ascii "</value>") =
      fun info => (infoNode info).render := by
    funext info
    simp [wrapInfo, struct_render, infoNode, Xml.Node.render, Xml.renderAll, Xml.startTag,
      Xml.endTag, ascii]
  rw [wrapInfos, hinfo]
  simp [infosNode, Xml.Node.render, Xml.renderAll, Xml.renderAll_map, Xml.startTag, Xml.endTag,
    ascii]

/-- A response is the document of its result. -/
theorem generateXmlrpcResponse_eq (result : Xml.Node) :
    generateXmlrpcResponse result.render = Xml.document (resultDocument result) := by
  simp [generateXmlrpcResponse, resultDocument, Xml.document, Xml.declaration, Xml.Node.render,
    Xml.renderAll, Xml.startTag, Xml.endTag, ascii]

/-- A fault is the document of its code and its message. -/
theorem generateXmlrpcFault_eq (code : Int) (message : Bytes) :
    generateXmlrpcFault code message = Xml.document (faultDocument code message) := by
  have hstruct : structStr [⟨ascii "faultCode", .int code⟩, ⟨ascii "faultString", .string message⟩] =
      (structNode (faultMembers code message)).render := struct_render _
  rw [generateXmlrpcFault, hstruct]
  simp [faultDocument, Xml.document, Xml.declaration, Xml.Node.render, Xml.renderAll, Xml.startTag,
    Xml.endTag, ascii]

end Written

/-! ## Answers are well-formed -/

/-- A member without NUL bytes. -/
def Xmlrpc.Member.NulFree (m : Xmlrpc.Member) : Prop :=
  0 ∉ m.name ∧ ∀ s, m.value = .string s → 0 ∉ s

/-- The strings of the record have no NUL bytes. -/
structure ProcessInfo.NulFree (info : ProcessInfo) : Prop where
  name : 0 ∉ info.name
  stdoutLogfile : 0 ∉ info.stdoutLogfile
  spawnerr : 0 ∉ info.spawnerr
  description : 0 ∉ info.description

section WellFormed

open Xmlrpc

/-- The text of a number has no markup in it. -/
theorem charData_toString (i : Int) :
    Xml.CharData (ascii (toString i)) ∧ Xml.decode (ascii (toString i)) = ascii (toString i) := by
  apply charData_plain
  intro b hb
  refine ⟨?_, ?_, ?_, ?_⟩ <;>
  · rintro rfl
    rcases Bytes.mem_toString_int hb with hd | hd <;> exact absurd hd (by decide)

/-- A member without NUL bytes has one reading. -/
theorem member_wellFormed {m : Member} (h : m.NulFree) : m.node.WellFormed := by
  have hname := charData_escapeXml h.1
  have hvalue : m.value.node.WellFormed := by
    cases hv : m.value with
    | string s => exact ⟨by decide, charData_escapeXml (h.2 s hv)⟩
    | int i => exact ⟨by decide, (charData_toString i).1⟩
    | bool b =>
        refine ⟨by decide, ?_⟩
        cases b with
        | false => exact (charData_toString 0).1
        | true => exact (charData_toString 1).1
  have hnames : Xml.isName (ascii "member") = true ∧ Xml.isName (ascii "name") = true ∧
      Xml.isName (ascii "value") = true := by decide
  simp only [Member.node, Xml.Node.WellFormed, Xml.AllWellFormed, hnames, hname, hvalue, and_self]

theorem struct_wellFormed {items : List Member} (h : ∀ m ∈ items, m.NulFree) :
    (structNode items).WellFormed := by
  have hname : Xml.isName (ascii "struct") = true := by decide
  rw [structNode, Xml.Node.WellFormed, Xml.allWellFormed_map]
  exact ⟨hname, fun m hm => member_wellFormed (h m hm)⟩

theorem nulFree_string {name s : Bytes} (hname : 0 ∉ name) (hs : 0 ∉ s) :
    Member.NulFree ⟨name, .string s⟩ := by
  refine ⟨hname, fun s' heq => ?_⟩
  obtain rfl := Value.string.inj heq
  exact hs

theorem nulFree_int {name : Bytes} (i : Int) (hname : 0 ∉ name) : Member.NulFree ⟨name, .int i⟩ :=
  ⟨hname, fun _ heq => nomatch heq⟩

/-- The members of a record have no NUL byte if its texts have none. -/
theorem infoMembers_nulFree {info : ProcessInfo} (h : info.NulFree) :
    ∀ m ∈ infoMembers info, m.NulFree := by
  have hstate : 0 ∉ info.state.text := by cases info.state <;> decide
  simp only [infoMembers, List.forall_mem_cons]
  refine ⟨nulFree_string (by decide) h.name, nulFree_string (by decide) h.name,
    nulFree_string (by decide) hstate, nulFree_int _ (by decide), nulFree_int _ (by decide),
    nulFree_int _ (by decide), nulFree_string (by decide) h.stdoutLogfile,
    nulFree_string (by decide) h.spawnerr, nulFree_string (by decide) h.description, ?_⟩
  exact List.forall_mem_nil _

theorem infos_wellFormed {infos : List ProcessInfo} (h : ∀ info ∈ infos, info.NulFree) :
    (infosNode infos).WellFormed := by
  have hnames : Xml.isName (ascii "array") = true ∧ Xml.isName (ascii "data") = true ∧
      Xml.isName (ascii "value") = true := by decide
  have hinfo : ∀ info ∈ infos, (infoNode info).WellFormed := by
    intro info hmem
    have hstruct := struct_wellFormed (infoMembers_nulFree (h info hmem))
    simp only [infoNode, Xml.Node.WellFormed, Xml.AllWellFormed, hnames, hstruct, and_self]
  simp only [infosNode, Xml.Node.WellFormed, Xml.AllWellFormed, Xml.allWellFormed_map, hnames,
    true_and, and_true]
  exact hinfo

/-- The document of a result is well formed if the result is. -/
theorem resultDocument_wellFormed {result : Xml.Node} (h : result.WellFormed) :
    (resultDocument result).WellFormed := by
  have hnames : Xml.isName (ascii "methodResponse") = true ∧ Xml.isName (ascii "params") = true ∧
      Xml.isName (ascii "param") = true ∧ Xml.isName (ascii "value") = true := by decide
  have hspaces : (ascii "\n").all Xml.isBlank = true ∧ (ascii "\n  ").all Xml.isBlank = true ∧
      (ascii "\n    ").all Xml.isBlank = true := by decide
  simp only [resultDocument, Xml.Node.WellFormed, Xml.AllWellFormed, hnames, hspaces, h, and_self]

/-- The document of a fault is well formed if its message has no NUL byte. -/
theorem faultDocument_wellFormed (code : Int) {message : Bytes} (h : 0 ∉ message) :
    (faultDocument code message).WellFormed := by
  have hnames : Xml.isName (ascii "methodResponse") = true ∧ Xml.isName (ascii "fault") = true ∧
      Xml.isName (ascii "value") = true := by decide
  have hspaces : (ascii "\n").all Xml.isBlank = true ∧ (ascii "\n  ").all Xml.isBlank = true ∧
      (ascii "\n    ").all Xml.isBlank = true := by decide
  have hmembers : ∀ m ∈ faultMembers code message, m.NulFree := by
    simp only [faultMembers, List.forall_mem_cons]
    exact ⟨nulFree_int _ (by decide), nulFree_string (by decide) h, List.forall_mem_nil _⟩
  have hstruct := struct_wellFormed hmembers
  simp only [faultDocument, Xml.Node.WellFormed, Xml.AllWellFormed, hnames, hspaces, hstruct,
    and_self]

end WellFormed

/-! ## The body of a response -/

namespace CtlClient

/-- What comes before the Content-Length of a response. -/
def responseFirst : Bytes :=
  ascii "HTTP/1.1 200 OK\r\n" ++ ascii "Content-Type: text/xml\r\n" ++ ascii "Content-Length: "

/-- The header block of a response with this body. -/
def responseHead (body : Bytes) : Bytes :=
  responseFirst ++ (ascii (toString body.length) ++ lastLines)

section Body

variable {body buffered rest : Bytes}

theorem generateHttpResponse_eq (body : Bytes) :
    generateHttpResponse body = responseHead body ++ body := by
  simp [generateHttpResponse, responseHead, responseFirst, lastLines]

/-- `std::getline` takes the bytes up to the line break. -/
theorem readHeaders_line (line : Bytes) (n : Nat) (buffer : Bytes) {text : Bytes}
    (htext : 10 ∉ text) :
    readHeaders line n (text ++ 10 :: buffer) =
      if line ++ text = ascii "\r" then .ok (n, buffer)
      else (headerLength (line ++ text) n).bind fun n => readHeaders [] n buffer := by
  induction text generalizing line with
  | nil => simp [readHeaders]
  | cons b text ih =>
      rw [List.mem_cons, not_or] at htext
      have hb : b ≠ 10 := Ne.symm htext.1
      rw [List.cons_append, readHeaders, if_neg hb, ih _ htext.2]
      simp

/-- One turn of the header loop, for a line that is not the empty one. -/
theorem readHeaders_field {text : Bytes} {n m : Nat} (buffer : Bytes) (htext : 10 ∉ text)
    (hempty : text ≠ ascii "\r") (hlength : headerLength text n = .ok m) :
    readHeaders [] n (text ++ 10 :: buffer) = readHeaders [] m buffer := by
  rw [readHeaders_line [] n buffer htext, List.nil_append, if_neg hempty, hlength]
  rfl

/-- The line that gives the length. -/
theorem readHeaders_contentLength {n : Nat} (hn : n < 2 ^ 64) (m : Nat) (buffer : Bytes) :
    readHeaders [] m ((ascii "Content-Length: " ++ ascii (toString n) ++ [13]) ++ 10 :: buffer) =
      readHeaders [] n buffer := by
  apply readHeaders_field
  · intro hmem
    simp only [List.mem_append, List.mem_singleton] at hmem
    rcases hmem with (hmem | hmem) | hmem
    · exact absurd hmem (by decide)
    · exact absurd (Bytes.isDigit_of_mem_toString hmem) (by decide)
    · exact absurd hmem (by decide)
  · intro heq
    have hlen := congrArg List.length heq
    simp only [List.length_append] at hlen
    have hname : (ascii "Content-Length: ").length = 16 := rfl
    have hcr : (ascii "\r").length = 1 := rfl
    omega
  · have hname : Bytes.find (ascii "Content-Length:") (ascii "Content-Length: ") = some 0 := by
      decide
    rw [headerLength, List.append_assoc, if_pos (Bytes.find_append_of_some (by decide) hname)]
    show Bytes.stoull (32 :: (ascii (toString n) ++ [13])) = _
    rw [Bytes.stoull_blank, Bytes.stoull_digits _ hn]
    simp [Bytes.isDigit]

/-- The client's header loop stops behind the header block, with the Content-Length. -/
theorem readHeaders_response (hsize : body.length < 2 ^ 64) (buffer : Bytes) :
    readHeaders [] 0 (responseHead body ++ buffer) = .ok (body.length, buffer) := by
  have hlines : responseHead body ++ buffer =
      ascii "HTTP/1.1 200 OK\r" ++ 10 :: (ascii "Content-Type: text/xml\r" ++ 10 ::
        ((ascii "Content-Length: " ++ ascii (toString body.length) ++ [13]) ++ 10 ::
          (ascii "Connection: close\r" ++ 10 :: (ascii "\r" ++ 10 :: buffer)))) := by
    simp [responseHead, responseFirst, lastLines, ascii]
  have hclose : headerLength (ascii "Connection: close\r") body.length = .ok body.length := by
    rw [headerLength, if_neg (by decide)]
  rw [hlines, readHeaders_field (m := 0) _ (by decide) (by decide) (by decide),
    readHeaders_field (m := 0) _ (by decide) (by decide) (by decide),
    readHeaders_contentLength hsize, readHeaders_field _ (by decide) (by decide) hclose,
    readHeaders_line [] _ _ (by decide), List.nil_append, if_pos rfl]

/-- `read_until` has the whole header block. -/
theorem responseHead_buffered (hsplit : buffered ++ rest = generateHttpResponse body)
    (hfound : (Bytes.find (ascii "\r\n\r\n") buffered).isSome = true) :
    ∃ buffer, buffered = responseHead body ++ buffer ∧ buffer ++ rest = body := by
  have hlength : (responseHead body).length =
      lastLineLength + (responseFirst ++ ascii (toString body.length)).length + 4 := by
    have hlast : lastLines.length = lastLineLength + 4 := rfl
    simp only [responseHead, List.length_append, hlast]
    omega
  -- the empty line is in the buffer, so the header block is
  have hlong : (responseHead body).length ≤ buffered.length := by
    have hfirst : Bytes.find (ascii "\r\n\r\n") responseFirst = none := by decide
    have hwhole : Bytes.find (ascii "\r\n\r\n") (buffered ++ rest) =
        some (lastLineLength + (responseFirst ++ ascii (toString body.length)).length) := by
      have hparts : responseHead body ++ body =
          responseFirst ++ (ascii (toString body.length) ++ (lastLines ++ body)) := by
        simp [responseHead]
      rw [hsplit, generateHttpResponse_eq, hparts, find_emptyLine hfirst]
    have htake := Bytes.find_take (show ascii "\r\n\r\n" ≠ [] by decide)
      (buffered ++ rest) buffered.length
    rw [List.take_left, hwhole] at htake
    obtain ⟨i, hi⟩ := Option.isSome_iff_exists.mp hfound
    rw [hi] at htake
    have hfits := (Option.filter_eq_some_iff.mp htake.symm).2
    obtain rfl := Option.some.inj (Option.filter_eq_some_iff.mp htake.symm).1
    rw [decide_eq_true_eq] at hfits
    have hpat : (ascii "\r\n\r\n").length = 4 := rfl
    omega
  rw [generateHttpResponse_eq] at hsplit
  rcases List.append_eq_append_iff.mp hsplit with ⟨extra, hhead, hrest⟩ | ⟨buffer, hbuf, hbody⟩
  · have hnil : extra = [] := by
      rw [hhead, List.length_append] at hlong
      apply List.eq_nil_of_length_eq_zero
      omega
    subst hnil
    exact ⟨[], by simpa using hhead.symm, hrest⟩
  · exact ⟨buffer, hbuf, hbody.symm⟩

/-- Whatever the first read had of a response, the body is read whole. -/
theorem readBody_response (hsize : body.length < 2 ^ 64)
    (hsplit : buffered ++ rest = generateHttpResponse body)
    (hfound : (Bytes.find (ascii "\r\n\r\n") buffered).isSome = true) :
    readBody buffered rest = .ok body := by
  obtain ⟨buffer, rfl, rfl⟩ := responseHead_buffered hsplit hfound
  simp only [readBody, readHeaders_response hsize]
  have hmissing : (buffer ++ rest).length - buffer.length = rest.length := by
    rw [List.length_append]
    omega
  have hlong : buffer.length ≤ (buffer ++ rest).length := by
    rw [List.length_append]
    omega
  rw [hmissing, if_pos (Nat.le_refl _), List.take_length, List.take_of_length_le hlong]

end Body

/-! ## What the client reads in a member -/

/-- The string of a value. -/
def asString : Xmlrpc.Value → Option Bytes
  | .string s => some s
  | _ => none

/-- The number of a value. -/
def asInt : Xmlrpc.Value → Option Int
  | .int i => some i
  | _ => none

/-- The numbers among the members fit in an `int`. -/
def FitsInt (m : Xmlrpc.Member) : Prop := ∀ i, m.value = .int i → -2 ^ 31 ≤ i ∧ i < 2 ^ 31

/-- The tree of a member: its name, and its value by type. -/
structure ReadsMember (m : Xmlrpc.Member) (child : Bytes × Ptree) : Prop where
  tag : child.1 = ascii "member"
  name : child.2.getString [ascii "name"] = some m.name
  string : child.2.getString [ascii "value", ascii "string"] = asString m.value
  int : child.2.getInt [ascii "value", ascii "int"] = asInt m.value

section Members

variable {m : Xmlrpc.Member} {child : Bytes × Ptree}

theorem fitsInt_string (name s : Bytes) : FitsInt ⟨name, .string s⟩ := fun _ heq => nomatch heq

theorem fitsInt_int {i : Int} (name : Bytes) (h : -2 ^ 31 ≤ i ∧ i < 2 ^ 31) :
    FitsInt ⟨name, .int i⟩ := by
  intro i' heq
  obtain rfl := Xmlrpc.Value.int.inj heq
  exact h

/-- The tree of a value answers to its own type only. -/
theorem readsValue_of_represents {v : Xmlrpc.Value} (h : Represents v.node child)
    (hfits : ∀ i, v = .int i → -2 ^ 31 ≤ i ∧ i < 2 ^ 31) (data : Bytes) :
    (Ptree.node data [child]).getString [ascii "string"] = asString v ∧
      (Ptree.node data [child]).getInt [ascii "int"] = asInt v := by
  unfold Ptree.getString Ptree.getInt
  cases v with
  | string s =>
      have hne : ascii "string" ≠ ascii "int" := by decide
      obtain rfl := h.escaped
      rw [getChild_hit, getChild_here, getChild_miss hne, getChild_none]
      exact ⟨rfl, rfl⟩
  | int i =>
      have hne : ascii "int" ≠ ascii "string" := by decide
      obtain ⟨hlow, hhigh⟩ := hfits i rfl
      cases h with
      | text =>
          rw [getChild_hit, getChild_here, getChild_miss hne, getChild_none]
          simp only [Option.bind_some, Ptree.data, (charData_toString i).2,
            Bytes.readInt_toString hlow hhigh, Option.map_none, asString, asInt, and_self]
  | bool b =>
      have hne : ascii "boolean" ≠ ascii "string" ∧ ascii "boolean" ≠ ascii "int" := by decide
      cases h with
      | text =>
          rw [getChild_miss hne.1, getChild_miss hne.2, getChild_none, getChild_none]
          exact ⟨rfl, rfl⟩

/-- What represents a member is read as that member. -/
theorem readsMember_of_represents (h : Represents m.node child) (hfits : FitsInt m) :
    ReadsMember m child := by
  obtain ⟨_, name, value, rfl, hname, hvalue⟩ := h.pair rfl
  obtain rfl := hname.escaped
  have hone : Xml.elements [m.value.node] = [m.value.node] := by cases m.value <;> rfl
  obtain ⟨data, typed, rfl, htyped⟩ := hvalue.only hone
  have hne : ascii "name" ≠ ascii "value" := by decide
  obtain ⟨hstring, hint⟩ := readsValue_of_represents htyped hfits data
  refine ⟨rfl, ?_, ?_, ?_⟩
  · simp only [Ptree.getString, getChild_hit, getChild_here, Option.map_some, Ptree.data]
  · rw [← hstring]
    simp only [Ptree.getString, getChild_miss hne, getChild_hit]
  · rw [← hint]
    simp only [Ptree.getInt, getChild_miss hne, getChild_hit]

/-- The trees of the members of a struct. -/
theorem readsMembers_of_represents {items : List Xmlrpc.Member}
    (h : Represents (Xmlrpc.structNode items) child) (hfits : ∀ m ∈ items, FitsInt m) :
    ∃ data kids, child = (ascii "struct", .node data kids) ∧
      List.Forall₂ ReadsMember items kids := by
  obtain ⟨data, kids, rfl, hkids⟩ := h.element_inv
  rw [Xml.elements_map fun _ => rfl, List.forall₂_map_left_iff] at hkids
  refine ⟨data, kids, rfl, ?_⟩
  clear h
  induction hkids with
  | nil => exact .nil
  | cons hm _ ih =>
      obtain ⟨hfit, hfits⟩ := List.forall_mem_cons.mp hfits
      exact .cons (readsMember_of_represents hm hfit) (ih hfits)

end Members

/-! ## Faults -/

section Fault

variable {message data : Bytes} {child : Bytes × Ptree}

/-- What `check_fault_` throws for the text of a fault. -/
def faultError (message : Bytes) : Error :=
  (translations.findSome? fun t => translate message t.1 t.2).getD (.runtimeError message)

/-- A fault is found, and thrown as the exception of its message. -/
theorem checkFault_represents (hne : message ≠ [])
    (h : Represents (faultDocument 1 message) child) :
    checkFault (.node data [child]) = .error (faultError message) := by
  obtain ⟨_, fault, rfl, hfault⟩ := h.only rfl
  obtain ⟨_, value, rfl, hvalue⟩ := hfault.only rfl
  obtain ⟨_, members, rfl, hmembers⟩ := hvalue.only rfl
  have hfits : ∀ m ∈ faultMembers 1 message, FitsInt m := by
    simp only [faultMembers, List.forall_mem_cons]
    exact ⟨fitsInt_int _ (by decide), fitsInt_string _ _, List.forall_mem_nil _⟩
  obtain ⟨_, kids, rfl, hkids⟩ := readsMembers_of_represents hmembers hfits
  obtain ⟨code, kids, hcode, hrest, rfl⟩ := List.forall₂_cons_left_iff.mp hkids
  obtain ⟨text, kids, htext, hnil, rfl⟩ := List.forall₂_cons_left_iff.mp hrest
  obtain rfl := List.forall₂_nil_left_iff.mp hnil
  have hcodeNo : (code.1 == ascii "member" &&
      (code.2.getString [ascii "name"]).getD [] == ascii "faultString") = false := by
    rw [hcode.tag, hcode.name]
    decide
  have htextYes : (text.1 == ascii "member" &&
      (text.2.getString [ascii "name"]).getD [] == ascii "faultString") = true := by
    rw [htext.tag, htext.name]
    simp
  have hstring : ∀ data, faultString (.node data [code, text]) = message := by
    intro data
    simp only [faultString, Ptree.children, List.find?_cons, hcodeNo, htextYes, htext.string,
      asString, Option.getD_some]
  simp only [checkFault, getChild_hit, getChild_here, hstring, if_neg hne, faultError]
  cases translations.findSome? fun t => translate message t.1 t.2 with
  | none => rfl
  | some e => rfl

/-- A fault "CODE: name" is thrown with its code and its name. -/
theorem faultError_translated {code friendly : Bytes} (name : Bytes)
    (h : (code, friendly) ∈ translations) : faultError (code ++ ascii ": " ++ name) =
      .xmlRpcError code name (name ++ ascii " - " ++ friendly) := by
  simp only [translations, List.mem_cons, Prod.mk.injEq, List.not_mem_nil, or_false] at h
  rcases h with ⟨rfl, rfl⟩ | ⟨rfl, rfl⟩ | ⟨rfl, rfl⟩ | ⟨rfl, rfl⟩ <;> rfl

/-- Any other fault is thrown as it is. -/
theorem faultError_other (h : ∀ t ∈ translations, ¬ t.1 ++ ascii ": " <+: message) :
    faultError message = .runtimeError message := by
  have hnone : (translations.findSome? fun t => translate message t.1 t.2) = none := by
    rw [List.findSome?_eq_none_iff]
    intro t ht
    have hno : (t.1 ++ ascii ": ").isPrefixOf message = false := by
      rw [Bool.eq_false_iff, Ne, List.isPrefixOf_iff_prefix]
      exact h t ht
    simp only [translate, hno, Bool.false_eq_true, if_false]
  rw [faultError, hnone]
  rfl

end Fault

/-! ## Process information -/

/-- What the client keeps of a member. -/
def ProcessInfo.withMember (info : ProcessInfo) (m : Xmlrpc.Member) : ProcessInfo :=
  if m.name = ascii "name" then { info with name := (asString m.value).getD [] }
  else if m.name = ascii "statename" then
    { info with statename := (asString m.value).getD (ascii "UNKNOWN") }
  else if m.name = ascii "pid" then { info with pid := (asInt m.value).getD (-1) }
  else if m.name = ascii "description" then
    { info with description := (asString m.value).getD [] }
  else info

/-- What the client keeps of a record. -/
def ProcessInfo.of (info : Supervisorcpp.ProcessInfo) : ProcessInfo where
  name := info.name
  statename := info.state.text
  pid := info.pid.toInt
  description := info.description

section Info

variable {info : Supervisorcpp.ProcessInfo} {infos : List Supervisorcpp.ProcessInfo}
  {child : Bytes × Ptree}

/-- A member sets the field of its name. -/
theorem readMember_eq {m : Xmlrpc.Member} (h : ReadsMember m child) (info : ProcessInfo) :
    info.readMember child = .ok (info.withMember m) := by
  have htag : (child.1 == ascii "member") = true := by simp [h.tag]
  simp only [ProcessInfo.readMember, ProcessInfo.withMember, htag, h.name, h.string, h.int, if_true]
  split
  · rfl
  · split
    · rfl
    · split
      · rfl
      · split <;> rfl

/-- All members set their fields, one after the other. -/
theorem readMembers_eq {items : List Xmlrpc.Member} {kids : List (Bytes × Ptree)}
    (h : List.Forall₂ ReadsMember items kids) (info : ProcessInfo) :
    kids.foldlM ProcessInfo.readMember info = .ok (items.foldl ProcessInfo.withMember info) := by
  induction h generalizing info with
  | nil => rfl
  | cons hm _ ih =>
      rw [List.foldlM_cons, readMember_eq hm]
      exact ih _

theorem infoMembers_fitsInt (info : Supervisorcpp.ProcessInfo) :
    ∀ m ∈ Xmlrpc.infoMembers info, FitsInt m := by
  have hstate : -2 ^ 31 ≤ info.state.code ∧ info.state.code < 2 ^ 31 := by
    cases info.state <;> decide
  have hint : ∀ i : Int32, -2 ^ 31 ≤ i.toInt ∧ i.toInt < 2 ^ 31 := fun i =>
    ⟨i.le_toInt, i.toInt_lt⟩
  simp only [Xmlrpc.infoMembers, List.forall_mem_cons]
  exact ⟨fitsInt_string _ _, fitsInt_string _ _, fitsInt_string _ _, fitsInt_int _ hstate,
    fitsInt_int _ (hint _), fitsInt_int _ (hint _), fitsInt_string _ _, fitsInt_string _ _,
    fitsInt_string _ _, List.forall_mem_nil _⟩

/-- Every field that the client keeps is set by the member that carries it. -/
theorem withMember_infoMembers (uninit : Int) (info : Supervisorcpp.ProcessInfo) :
    (Xmlrpc.infoMembers info).foldl ProcessInfo.withMember ⟨[], [], uninit, []⟩ = .of info := rfl

/-- A record is read back as it was sent. -/
theorem processInfoFrom_represents (uninit : Int) (h : Represents (Xmlrpc.infoNode info) child) :
    child.1 = ascii "value" ∧ processInfoFrom uninit child.2 = .ok (.of info) := by
  obtain ⟨_, members, rfl, hmembers⟩ := h.only rfl
  obtain ⟨_, kids, rfl, hkids⟩ := readsMembers_of_represents hmembers (infoMembers_fitsInt info)
  refine ⟨rfl, ?_⟩
  simp only [processInfoFrom, getChild_hit, getChild_here, Ptree.children, readMembers_eq hkids,
    withMember_infoMembers]

/-- So is the array of all records. -/
theorem infos_represents (uninit : Int) {kids : List (Bytes × Ptree)}
    (h : List.Forall₂ Represents (infos.map Xmlrpc.infoNode) kids) :
    ((kids.filter fun item => item.1 == ascii "value").mapM fun item =>
      processInfoFrom uninit item.2) = .ok (infos.map .of) := by
  induction infos generalizing kids with
  | nil =>
      obtain rfl := List.forall₂_nil_left_iff.mp h
      rfl
  | cons info infos ih =>
      obtain ⟨kid, kids, hkid, hkids, rfl⟩ := List.forall₂_cons_left_iff.mp h
      obtain ⟨htag, hinfo⟩ := processInfoFrom_represents uninit hkid
      rw [List.filter_cons_of_pos (by simp [htag]), List.mapM_cons, hinfo, ih hkids]
      rfl

/-- The client reads the list the server has written, and no fault. -/
theorem parseProcessInfoArray_represents (uninit : Int) (data : Bytes)
    (h : Represents (resultDocument (Xmlrpc.infosNode infos)) child) :
    checkFault (.node data [child]) = .ok () ∧
      parseProcessInfoArray uninit (.node data [child]) = .ok (infos.map .of) := by
  obtain ⟨_, params, rfl, hparams⟩ := h.only rfl
  obtain ⟨_, param, rfl, hparam⟩ := hparams.only rfl
  obtain ⟨_, value, rfl, hvalue⟩ := hparam.only rfl
  obtain ⟨_, array, rfl, harray⟩ := hvalue.only rfl
  obtain ⟨_, items, rfl, hitems⟩ := harray.only rfl
  obtain ⟨_, kids, rfl, hkids⟩ := hitems.element_inv
  rw [Xml.elements_map fun _ => rfl] at hkids
  have hne : ascii "params" ≠ ascii "fault" := by decide
  constructor
  · simp only [checkFault, getChild_hit, getChild_miss hne, getChild_none]
  · simp only [parseProcessInfoArray, infoArray, getChild_hit, getChild_here, Ptree.children,
      infos_represents uninit hkids]

end Info

/-! ## The round trip -/

end CtlClient

/-- The HTTP response to a call whose handler has returned or thrown. -/
def handlerResponse : Except Bytes Bytes → Bytes
  | .ok result => generateHttpResponse (generateXmlrpcResponse result)
  | .error what => generateHttpResponse (generateXmlrpcFault 1 what)

/-- It is what `process_request_` sends. -/
theorem RpcConnection.processRequest_sends {readXml : Bytes → Except Bytes Ptree}
    {c : RpcConnection} {request methodName : Bytes} {params : List Bytes} {start : Nat}
    {dispatch : DispatchFunction} (hstart : bodyStart request = some start)
    (hparse : parseXmlrpcRequest readXml (request.drop start) = .ok (methodName, params))
    (hdispatch : c.dispatcher = some dispatch) :
    (processRequest readXml c request).responses =
      [handlerResponse (dispatch methodName params)] := by
  simp only [processRequest, hstart, hparse, hdispatch]
  cases dispatch methodName params with
  | error what => rfl
  | ok result => rfl

namespace CtlClient

/-- The client receives this response, with this document in it: `read_until` has put at least the
header block in the buffer and the rest is still in the socket, the length fits in a `size_t`, and
the reader reads the document verbatim. -/
structure Delivered (readXml : Bytes → Except Bytes Ptree) (root : Xml.Node)
    (response buffered rest : Bytes) : Prop where
  split : buffered ++ rest = response
  headers : (Bytes.find (ascii "\r\n\r\n") buffered).isSome = true
  size : response.length < 2 ^ 64
  reads : ReadsVerbatim readXml root

/-- The codes the handlers put before a name. -/
def handlerCodes : List Bytes :=
  [ascii "BAD_NAME", ascii "NOT_RUNNING", ascii "ALREADY_STARTED", ascii "SPAWN_ERROR"]

theorem handlerCodes_plain : ∀ code ∈ handlerCodes, code ≠ [] ∧ 0 ∉ code ++ ascii ": " := by
  decide

section RoundTrip

variable {readXml : Bytes → Except Bytes Ptree} {root : Xml.Node} {buffered rest : Bytes}

/-- The document reaches the client. -/
theorem Delivered.reaches {response : Bytes} (h : Delivered readXml root response buffered rest)
    (hwf : root.WellFormed) (hresponse : response = generateHttpResponse (Xml.document root)) :
    ∃ data child, readBody buffered rest = .ok (Xml.document root) ∧
      readXml (Xml.document root) = .ok (.node data [child]) ∧ Represents root child := by
  have hsize : (Xml.document root).length < 2 ^ 64 := by
    have htotal := h.size
    rw [hresponse, generateHttpResponse_eq, List.length_append] at htotal
    omega
  obtain ⟨data, child, hread, hrep⟩ := h.reads hwf
  exact ⟨data, child, readBody_response hsize (hresponse ▸ h.split) h.headers, hread, hrep⟩

/-- A fault reaches `check_fault_`. -/
theorem Delivered.fault {what : Bytes} (hne : what ≠ []) (hnul : 0 ∉ what)
    (h : Delivered readXml (faultDocument 1 what) (handlerResponse (.error what)) buffered rest) :
    ∃ body tree, readBody buffered rest = .ok body ∧ readXml body = .ok tree ∧
      checkFault tree = .error (faultError what) := by
  have hresponse : handlerResponse (.error what) =
      generateHttpResponse (Xml.document (faultDocument 1 what)) := by
    rw [handlerResponse, generateXmlrpcFault_eq]
  obtain ⟨data, child, hbody, hread, hrep⟩ :=
    h.reaches (faultDocument_wellFormed 1 hnul) hresponse
  exact ⟨_, _, hbody, hread, checkFault_represents hne hrep⟩

/-- **The round trip of a response.**  A list of records without NUL bytes that the server answers
`supervisor.getAllProcessInfo` with is what the client reads, in the same order and without a fault.
A failure "CODE: name" of a handler, with one of the four codes, is thrown by `check_fault_` with that
code and that name; any other failure with a text is thrown with that text. -/
theorem response_round_trip (readXml : Bytes → Except Bytes Ptree) :
    (∀ infos uninit buffered rest, (∀ info ∈ infos, info.NulFree) →
      Delivered readXml (resultDocument (Xmlrpc.infosNode infos))
        (handlerResponse (.ok (Xmlrpc.wrapInfos infos))) buffered rest →
      ∃ tree, callMethod readXml buffered rest = .ok tree ∧
        parseProcessInfoArray uninit tree = .ok (infos.map ProcessInfo.of)) ∧
    (∀ code ∈ handlerCodes, ∀ name buffered rest, 0 ∉ name →
      Delivered readXml (faultDocument 1 (code ++ ascii ": " ++ name))
        (handlerResponse (.error (code ++ ascii ": " ++ name))) buffered rest →
      ∃ body tree message, readBody buffered rest = .ok body ∧ readXml body = .ok tree ∧
        checkFault tree = .error (.xmlRpcError code name message)) ∧
    (∀ what buffered rest, what ≠ [] → 0 ∉ what →
      (∀ code ∈ handlerCodes, ¬ code ++ ascii ": " <+: what) →
      Delivered readXml (faultDocument 1 what) (handlerResponse (.error what)) buffered rest →
      ∃ body tree, readBody buffered rest = .ok body ∧ readXml body = .ok tree ∧
        checkFault tree = .error (.runtimeError what)) := by
  refine ⟨?_, ?_, ?_⟩
  · intro infos uninit buffered rest hnul h
    have hresponse : handlerResponse (.ok (Xmlrpc.wrapInfos infos)) =
        generateHttpResponse (Xml.document (resultDocument (Xmlrpc.infosNode infos))) := by
      rw [handlerResponse, infos_render, generateXmlrpcResponse_eq]
    obtain ⟨data, child, hbody, hread, hrep⟩ :=
      h.reaches (resultDocument_wellFormed (infos_wellFormed hnul)) hresponse
    obtain ⟨hfault, hinfos⟩ := parseProcessInfoArray_represents uninit data hrep
    refine ⟨.node data [child], ?_, hinfos⟩
    simp only [callMethod, hbody, Except.bind, hread, hfault]
  · intro code hcode name buffered rest hnul h
    obtain ⟨friendly, htable⟩ : ∃ friendly, (code, friendly) ∈ translations := by
      have hmem : code ∈ translations.map (·.1) := hcode
      obtain ⟨t, ht, rfl⟩ := List.mem_map.mp hmem
      exact ⟨t.2, ht⟩
    have hplain := handlerCodes_plain code hcode
    have hne : code ++ ascii ": " ++ name ≠ [] := by
      simp [hplain.1]
    have hwhole : 0 ∉ code ++ ascii ": " ++ name := by
      rw [List.mem_append, not_or]
      exact ⟨hplain.2, hnul⟩
    obtain ⟨body, tree, hbody, hread, hthrow⟩ := h.fault hne hwhole
    rw [faultError_translated name htable] at hthrow
    exact ⟨body, tree, _, hbody, hread, hthrow⟩
  · intro what buffered rest hne hnul hother h
    obtain ⟨body, tree, hbody, hread, hthrow⟩ := h.fault hne hnul
    have htable : ∀ t ∈ translations, ¬ t.1 ++ ascii ": " <+: what := by
      intro t ht
      have hmem : t.1 ∈ translations.map (·.1) := List.mem_map_of_mem ht
      exact hother t.1 hmem
    rw [faultError_other htable] at hthrow
    exact ⟨body, tree, hbody, hread, hthrow⟩

theorem delivered_readOnly (hroot : root.isSpace = false) {response : Bytes} (n : Nat)
    (hresponse : (Bytes.find (ascii "\r\n\r\n") (response.take n)).isSome = true ∧
      response.length < 2 ^ 64) :
    Delivered (readOnly root) root response (response.take n) (response.drop n) :=
  ⟨List.take_append_drop n response, hresponse.1, hresponse.2, readOnly_verbatim hroot⟩

/-- A running process with a name that is escaped, a fault with such a name, and another fault; each
response in two pieces. -/
theorem response_round_trip_escaped :
    let info : Supervisorcpp.ProcessInfo :=
      ⟨ascii "a<b", .running, 100, 0, [], [], ascii "pid 100, uptime 0:00:01"⟩
    let list := handlerResponse (.ok (Xmlrpc.wrapInfos [info]))
    let badName := handlerResponse (.error (ascii "BAD_NAME" ++ ascii ": " ++ ascii "a<b"))
    let other := handlerResponse (.error (ascii "Process name required"))
    (∃ tree, callMethod (readOnly (resultDocument (Xmlrpc.infosNode [info]))) (list.take 100)
        (list.drop 100) = .ok tree ∧ parseProcessInfoArray 0 tree = .ok [ProcessInfo.of info]) ∧
      (∃ body tree message, readBody (badName.take 100) (badName.drop 100) = .ok body ∧
        readOnly (faultDocument 1 (ascii "BAD_NAME" ++ ascii ": " ++ ascii "a<b")) body = .ok tree ∧
        checkFault tree = .error (.xmlRpcError (ascii "BAD_NAME") (ascii "a<b") message)) ∧
      ∃ body tree, readBody (other.take 100) (other.drop 100) = .ok body ∧
        readOnly (faultDocument 1 (ascii "Process name required")) body = .ok tree ∧
        checkFault tree = .error (.runtimeError (ascii "Process name required")) := by
  intro info list badName other
  refine ⟨?_, ?_, ?_⟩
  · refine (response_round_trip _).1 [info] 0 _ _ ?_ (delivered_readOnly rfl 100 ?_)
    · rw [List.forall_mem_singleton]
      exact ⟨by decide, by decide, by decide, by decide⟩
    · decide +kernel
  · refine (response_round_trip _).2.1 _ (by decide) _ _ _ (by decide)
      (delivered_readOnly rfl 100 ?_)
    decide +kernel
  · refine (response_round_trip _).2.2 _ _ _ (by decide) (by decide) (by decide)
      (delivered_readOnly rfl 100 ?_)
    decide +kernel

end RoundTrip

end CtlClient

end Supervisorcpp
