/-
# Where the body starts

The end of the headers is looked for twice: by `handle_read_` in all that has been received, and by
`process_request_` in what is left of it when it has been cut behind the body. The cut is behind
the end that the first search has found, and what comes before the cut has no other one that either
search would prefer, so both find the same.

The argument is one about prefixes: the second search sees a prefix of what the first one saw, which
ends at or behind the end that was found, and an end that is found in a text is found in its
prefixes that have it.
-/
import Supervisorcpp.Rpc.Splits

namespace Supervisorcpp

open Bytes (ascii)

namespace RpcConnection

/-! ## Reaching `process_request_` -/

/-- `content_length` as `handle_read_` computes it from the header block. -/
inductive Announces (headers : Bytes) : Nat → Prop
  | absent : contentLengthField headers = none → Announces headers 0
  | field {value : Option Bytes} {n : Nat} : contentLengthField headers = some value →
      value.elim (.ok 0) Bytes.stoull = .ok n → Announces headers n

/-- `handle_read_` comes to `process_request_`, with these values of `header_end`, `body_offset` and
`content_length`. -/
structure ReachesProcess (c : RpcConnection) (event : ReadEvent)
    (end_ bodyOffset contentLength : Nat) : Prop where
  noError : event.error ≠ some .other
  fits : c.requestData.length + event.bytes.length ≤ maxRequestSize
  found : headerEnd (c.requestData ++ event.bytes) = some (end_, bodyOffset)
  announced : Announces ((c.requestData ++ event.bytes).take end_) contentLength
  arrived : ¬(c.requestData ++ event.bytes).length - bodyOffset < contentLength

variable (readXml : Bytes → Except Bytes Ptree) {c : RpcConnection} {event : ReadEvent}
  {data : Bytes} {end_ bodyOffset contentLength : Nat}

/-- Where `handle_read_` comes to `process_request_`, that is what it does. -/
theorem ReachesProcess.handleRead_eq (h : ReachesProcess c event end_ bodyOffset contentLength) :
    handleRead readXml c event =
      processTrimmed readXml { c with requestData := c.requestData ++ event.bytes } bodyOffset
        contentLength := by
  have hfits : ¬maxRequestSize < c.requestData.length + event.bytes.length := Nat.not_lt.mpr h.fits
  simp only [handleRead, if_neg h.noError, if_neg hfits, h.found, handleBody]
  cases h.announced with
  | absent hfield => simp only [hfield]
  | field hfield hvalue => simp only [hfield, hvalue, if_neg h.arrived]

/-! ## The second search -/

/-- Both searches on the same bytes find the same end. -/
theorem bodyStart_eq (data : Bytes) : bodyStart data = (headerEnd data).map Prod.snd := by
  unfold bodyStart headerEnd
  cases Bytes.find (ascii "\r\n\r\n") data with
  | some i => rfl
  | none =>
      rw [Option.map_map]
      rfl

/-- What `process_request_` does with what it has parsed. -/
def answer (c : RpcConnection) (parsed : Except Bytes (Bytes × List Bytes)) : ReadOutcome :=
  let fault := fun calls what => sendResponse c.requestData calls (generateXmlrpcFault 1 what)
  match parsed with
  | .error what => fault [] what
  | .ok (methodName, params) =>
    match c.dispatcher with
    | none => fault [] (ascii "No method dispatcher")
    | some dispatch =>
      match dispatch methodName params with
      | .error what => fault [(methodName, params)] what
      | .ok result =>
        sendResponse c.requestData [(methodName, params)] (generateXmlrpcResponse result)

/-- What `process_request_` gives to the parser. -/
theorem processRequest_parses {request : Bytes} {start : Nat}
    (hstart : bodyStart request = some start) :
    processRequest readXml c request =
      answer c (parseXmlrpcRequest readXml (request.drop start)) := by
  unfold processRequest
  simp only [hstart]
  rfl

/-- **The two searches agree.**  Whenever `handle_read_` comes to `process_request_`, the resize
trims, far from any overflow, `process_request_` lets the body start at `body_offset`, and what is
parsed is the `content_length` bytes that follow it in the data received. -/
theorem body_is_content (h : ReachesProcess c event end_ bodyOffset contentLength) :
    let data := c.requestData ++ event.bytes
    let request := resize data (bodyOffset + contentLength)
    let body := (data.drop bodyOffset).take contentLength
    (bodyOffset + contentLength ≤ data.length ∧ bodyOffset + contentLength < 2 ^ 64) ∧
      bodyStart request = some bodyOffset ∧ request.drop bodyOffset = body ∧
      body.length = contentLength ∧
      handleRead readXml c event =
        answer { c with requestData := request } (parseXmlrpcRequest readXml body) := by
  intro data request body
  have hoffset : bodyOffset ≤ data.length := (headerEnd_le h.found).2
  have harrived : ¬data.length - bodyOffset < contentLength := h.arrived
  have hsize : data.length ≤ maxRequestSize := by
    rw [List.length_append]
    exact h.fits
  have hle : bodyOffset + contentLength ≤ data.length := by omega
  have hcut : request = data.take (bodyOffset + contentLength) := resize_of_le hle
  have hstart : bodyStart request = some bodyOffset := by
    rw [hcut, bodyStart_eq, headerEnd_cut h.found (Nat.le_add_right _ _)]
    rfl
  have hbody : request.drop bodyOffset = body := by
    rw [hcut, List.drop_take, Nat.add_sub_cancel_left]
  refine ⟨⟨hle, ?_⟩, hstart, hbody, ?_, ?_⟩
  · have hlimit : maxRequestSize < 2 ^ 64 := by decide
    omega
  · show ((data.drop bodyOffset).take contentLength).length = contentLength
    rw [List.length_take, List.length_drop]
    omega
  · rw [h.handleRead_eq, ← hbody]
    exact processRequest_parses readXml hstart

/-- LF LF ends the headers, and CRLF CRLF has begun to arrive behind the body. -/
def lfEvent : ReadEvent := ⟨none, ascii "Content-Length: 2\n\nhi\r\n\r"⟩

theorem body_is_content_lf :
    ReachesProcess (create none) lfEvent 17 19 2 ∧
      bodyStart (resize (ascii "Content-Length: 2\n\nhi\r\n\r") 21) = some 19 ∧
      (resize (ascii "Content-Length: 2\n\nhi\r\n\r") 21).drop 19 = ascii "hi" := by
  have hfield : contentLengthField (([] ++ lfEvent.bytes).take 17) = some (some (ascii "2")) := by
    decide
  have hvalue : (some (ascii "2")).elim (.ok 0) Bytes.stoull = .ok 2 := by decide
  have hreaches : ReachesProcess (create none) lfEvent 17 19 2 :=
    ⟨by decide, by decide, by decide, .field hfield hvalue, by decide⟩
  have h := body_is_content (fun _ => .error []) hreaches
  exact ⟨hreaches, h.2.1, h.2.2.1⟩

end RpcConnection

end Supervisorcpp
