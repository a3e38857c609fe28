/-
# How a read event ends

A read event should end in waiting for more data, in dropping the connection or in exactly one
response. The one way out that is none of these is `std::stoull`, which runs outside the `try` of
`process_request_`: the events of a connection all end well exactly when no Content-Length value it
gets to look at is one that `std::stoull` rejects.

That a length parses is a condition on the bytes alone, on those that have been received up to a
read that finds the end of the headers. It decides the end of each event, whatever the reader and
the dispatcher do.
-/
import Supervisorcpp.Rpc.Connection

namespace Supervisorcpp

open Bytes (ascii)

namespace ReadOutcome

/-- Waiting for more data. -/
def Waits (o : ReadOutcome) : Prop := o.reads = 1 ∧ o.responses = []

/-- The connection is dropped: no read is started and nothing is sent. -/
def Drops (o : ReadOutcome) : Prop := o.reads = 0 ∧ o.responses = []

/-- Exactly one HTTP response, and no further read. -/
def Responds (o : ReadOutcome) : Prop :=
  o.reads = 0 ∧ ∃ body, o.responses = [generateHttpResponse body]

/-- No exception leaves the handler, and the event ends in one of the three ways. -/
def Settled (o : ReadOutcome) : Prop := o.thrown = none ∧ (o.Waits ∨ o.Drops ∨ o.Responds)

end ReadOutcome

namespace RpcConnection

variable (readXml : Bytes → Except Bytes Ptree) {c : RpcConnection} {data : Bytes}

/-! ## The condition -/

/-- The Content-Length value in `data`, if the header block is complete and has one, is a number
below 2^64, as far as its digits go. -/
def LengthParses (data : Bytes) : Prop :=
  ∀ h ∈ headerEnd data, ∀ value ∈ contentLengthField (data.take h.1), ∀ text ∈ value,
    Bytes.StartsWithNumber text

/-- `data` is not yet a whole request: its header block is open, or its body is shorter than its
Content-Length says. -/
def Incomplete (data : Bytes) : Prop :=
  ∀ h ∈ headerEnd data, ∃ text n, contentLengthField (data.take h.1) = some (some text) ∧
    Bytes.stoull text = .ok n ∧ data.length - h.2 < n

/-- On a connection that has received `data`, every event up to the one that completes the request
(or closes, breaks or overfills the connection) leaves a Content-Length that parses. -/
def LengthsParse (data : Bytes) : List ReadEvent → Prop
  | [] => True
  | event :: events =>
    let data' := data ++ event.bytes
    event.error ≠ some .other → data'.length ≤ maxRequestSize →
      LengthParses data' ∧ (event.error = none → Incomplete data' → LengthsParse data' events)

/-! ## One event -/

/-- An event that responds is settled. -/
theorem sendResponse_settled (data : Bytes) (calls : List (Bytes × List Bytes)) (body : Bytes) :
    (sendResponse data calls body).Settled := ⟨rfl, .inr (.inr ⟨rfl, body, rfl⟩)⟩

/-- Whatever the request, `process_request_` sends one response. -/
theorem processRequest_responds (c : RpcConnection) (request : Bytes) :
    ∃ calls body, processRequest readXml c request = sendResponse c.requestData calls body := by
  unfold processRequest
  dsimp only
  cases bodyStart request with
  | none => exact ⟨_, _, rfl⟩
  | some start =>
      dsimp only
      cases parseXmlrpcRequest readXml (request.drop start) with
      | error what => exact ⟨_, _, rfl⟩
      | ok call =>
          cases hd : c.dispatcher with
          | none => exact ⟨_, _, rfl⟩
          | some dispatch =>
              dsimp only
              cases dispatch call.1 call.2 with
              | error what => exact ⟨_, _, rfl⟩
              | ok result => exact ⟨_, _, rfl⟩

/-- Resizing to no more than there is trims. -/
theorem resize_of_le {n : Nat} (h : n ≤ data.length) : resize data n = data.take n := by
  rw [resize, Nat.sub_eq_zero_of_le h, List.replicate_zero, List.append_nil]

/-- An event that comes to `process_request_` is settled, and reads no more. -/
theorem processTrimmed_settled (c : RpcConnection) (bodyOffset contentLength : Nat) :
    (c.processTrimmed readXml bodyOffset contentLength).Settled ∧
      (c.processTrimmed readXml bodyOffset contentLength).reads = 0 := by
  obtain ⟨calls, body, heq⟩ := processRequest_responds readXml
    { c with requestData := resize c.requestData (bodyOffset + contentLength) }
    (resize c.requestData (bodyOffset + contentLength))
  unfold processTrimmed
  dsimp only
  rw [heq]
  exact ⟨sendResponse_settled _ _ _, rfl⟩

/-- An event that needs more bytes starts a read, or drops the connection at its end. -/
theorem readOn_settled (c : RpcConnection) (gotEof : Bool) : (c.readOn gotEof).Settled := by
  refine ⟨rfl, ?_⟩
  cases gotEof with
  | false => exact .inl ⟨rfl, rfl⟩
  | true => exact .inr (.inl ⟨rfl, rfl⟩)

/-- What a spec of one event has to say: when it is settled, and when and with which data the
connection reads on. -/
structure EndsIn (o : ReadOutcome) (data : Bytes) (settled reads : Prop) : Prop where
  settled_iff : o.Settled ↔ settled
  reads_iff : o.reads ≠ 0 ↔ reads
  kept : o.reads ≠ 0 → o.requestData = data

/-- The two conditions may be said in other words. -/
theorem EndsIn.congr {o : ReadOutcome} {settled settled' reads reads' : Prop}
    (h : EndsIn o data settled reads) (hs : settled ↔ settled') (hr : reads ↔ reads') :
    EndsIn o data settled' reads' :=
  ⟨h.settled_iff.trans hs, h.reads_iff.trans hr, h.kept⟩

theorem processTrimmed_endsIn (c : RpcConnection) (bodyOffset contentLength : Nat) :
    EndsIn (c.processTrimmed readXml bodyOffset contentLength) c.requestData True False := by
  obtain ⟨hsettled, hreads⟩ := processTrimmed_settled readXml c bodyOffset contentLength
  refine ⟨iff_of_true hsettled trivial, by simp [hreads], ?_⟩
  intro hno
  exact absurd hreads hno

theorem readOn_endsIn (c : RpcConnection) (gotEof : Bool) :
    EndsIn (c.readOn gotEof) c.requestData True (gotEof = false) := by
  refine ⟨iff_of_true (readOn_settled c gotEof) trivial, ?_, fun _ => rfl⟩
  cases gotEof <;> simp [readOn]

/-- With the header block complete: only a value that `std::stoull` rejects is not settled. -/
theorem handleBody_endsIn (c : RpcConnection) (gotEof : Bool) (h : Nat × Nat) :
    EndsIn (c.handleBody readXml gotEof h.1 h.2) c.requestData
      (∀ value ∈ contentLengthField (c.requestData.take h.1), ∀ text ∈ value,
        Bytes.StartsWithNumber text)
      (gotEof = false ∧ ∃ text n,
        contentLengthField (c.requestData.take h.1) = some (some text) ∧
          Bytes.stoull text = .ok n ∧ c.requestData.length - h.2 < n) := by
  unfold handleBody
  cases contentLengthField (c.requestData.take h.1) with
  | none => exact (processTrimmed_endsIn readXml c h.2 0).congr (by simp) (by simp)
  | some value =>
      cases value with
      | none => exact (processTrimmed_endsIn readXml c h.2 0).congr (by simp) (by simp)
      | some text =>
          have htext : (∀ value ∈ some (some text), ∀ t ∈ value, Bytes.StartsWithNumber t) ↔
              Bytes.StartsWithNumber text := by simp
          have hok := Bytes.stoull_ok_iff text
          dsimp only [Option.elim]
          cases hnum : Bytes.stoull text with
          | error e =>
              -- the exception leaves the handler
              have hnot : ¬ Bytes.StartsWithNumber text := by
                rw [← hok, hnum]
                rintro ⟨n, hn⟩
                cases hn
              refine ⟨?_, ?_, by simp⟩
              · rw [htext]
                exact iff_of_false (fun hs => by cases hs.1) hnot
              · apply iff_of_false (by simp)
                rintro ⟨_, text', n, htext', hn, _⟩
                obtain rfl : text = text' := by simpa using htext'
                exact hnot (hok.mp ⟨n, hn⟩)
          | ok n =>
              have hyes : Bytes.StartsWithNumber text := hok.mp ⟨n, hnum⟩
              dsimp only
              split
              · next hshort =>
                  refine (readOn_endsIn c gotEof).congr ?_ ?_
                  · exact iff_of_true trivial (htext.mpr hyes)
                  · exact ⟨fun he => ⟨he, text, n, rfl, hnum, hshort⟩, fun he => he.1⟩
              · next hfull =>
                  refine (processTrimmed_endsIn readXml c h.2 n).congr ?_ ?_
                  · exact iff_of_true trivial (htext.mpr hyes)
                  · apply iff_of_false id
                    rintro ⟨_, text', n', htext', hn', hshort⟩
                    obtain rfl : text = text' := by simpa using htext'
                    rw [hnum] at hn'
                    obtain rfl := Except.ok.inj hn'
                    exact hfull hshort

/-- An event that is neither an error nor over the limit. -/
theorem handleRead_endsIn {event : ReadEvent} (hother : event.error ≠ some .other)
    (hsize : (c.requestData ++ event.bytes).length ≤ maxRequestSize) :
    EndsIn (c.handleRead readXml event) (c.requestData ++ event.bytes)
      (LengthParses (c.requestData ++ event.bytes))
      (event.error = none ∧ Incomplete (c.requestData ++ event.bytes)) := by
  have hfits : ¬ maxRequestSize < c.requestData.length + event.bytes.length := by
    rw [List.length_append] at hsize
    omega
  have heof : decide (event.error = some .eof) = false ↔ event.error = none := by
    cases herr : event.error with
    | none => simp
    | some e =>
        cases e with
        | eof => simp
        | other => exact absurd herr hother
  unfold handleRead
  rw [if_neg hother, if_neg hfits]
  dsimp only
  cases hend : headerEnd (c.requestData ++ event.bytes) with
  | none =>
      refine (readOn_endsIn _ _).congr ?_ ?_
      · exact iff_of_true trivial (by simp [LengthParses, hend])
      · rw [heof]
        exact ⟨fun he => ⟨he, by simp [Incomplete, hend]⟩, fun he => he.1⟩
  | some h =>
      refine (handleBody_endsIn readXml { c with requestData := c.requestData ++ event.bytes } _
        h).congr ?_ ?_
      · simp [LengthParses, hend]
      · rw [heof]
        simp [Incomplete, hend]

/-! ## Every stream, however it is split -/

/-- Every event of a session is settled exactly if every length that is announced parses. -/
theorem session_settled_iff (events : List ReadEvent) (c : RpcConnection) :
    (∀ o ∈ session readXml c events, o.Settled) ↔ LengthsParse c.requestData events := by
  induction events generalizing c with
  | nil => simp [session, LengthsParse]
  | cons event events ih =>
      unfold LengthsParse session
      dsimp only
      by_cases hother : event.error = some .other
      -- dropped at once
      · have hdrop : c.handleRead readXml event = { requestData := c.requestData } := by
          simp [handleRead, hother]
        have hsettled : (c.handleRead readXml event).Settled := by
          rw [hdrop]
          exact ⟨rfl, .inr (.inl ⟨rfl, rfl⟩)⟩
        simp [hdrop ▸ hsettled, hdrop, hother]
      · by_cases hsize : (c.requestData ++ event.bytes).length ≤ maxRequestSize
        · have hends := handleRead_endsIn readXml hother hsize
          by_cases hreads : (c.handleRead readXml event).reads = 0
          -- the last event of this connection
          · have hlast : ¬ (event.error = none ∧ Incomplete (c.requestData ++ event.bytes)) :=
              fun hmore => hends.reads_iff.mpr hmore hreads
            rw [if_pos hreads, List.forall_mem_singleton, hends.settled_iff]
            constructor
            · intro hparses _ _
              exact ⟨hparses, fun herr hinc => absurd ⟨herr, hinc⟩ hlast⟩
            · intro h
              exact (h hother hsize).1
          -- the connection reads on, with all it has received so far
          · obtain ⟨herr, hinc⟩ := hends.reads_iff.mp hreads
            rw [if_neg hreads, List.forall_mem_cons, hends.settled_iff, ih, hends.kept hreads]
            constructor
            · intro h _ _
              exact ⟨h.1, fun _ _ => h.2⟩
            · intro h
              exact ⟨(h hother hsize).1, (h hother hsize).2 herr hinc⟩
        -- answered with a fault
        · have hlarge : maxRequestSize < c.requestData.length + event.bytes.length := by
            rw [List.length_append] at hsize
            omega
          have hfault : c.handleRead readXml event = sendResponse c.requestData []
              (generateXmlrpcFault 1 (ascii "Request too large (max 1MB)")) := by
            simp only [handleRead, if_neg hother, if_pos hlarge]
          have hsettled := sendResponse_settled c.requestData []
            (generateXmlrpcFault 1 (ascii "Request too large (max 1MB)"))
          rw [hfault, if_pos (show (sendResponse _ _ _).reads = 0 from rfl),
            List.forall_mem_singleton]
          exact iff_of_true hsettled fun _ h => absurd h hsize

/-- **Every read event ends well exactly when every Content-Length parses.**  For every XML reader
and dispatcher and every sequence of read events on a new connection, no exception leaves
`handle_read_` and each event ends in waiting, in dropping the connection or in exactly one response
if and only if every Content-Length value the connection looks at starts with a number below 2^64. -/
theorem read_events_settled_iff (dispatcher : Option DispatchFunction) (events : List ReadEvent) :
    (∀ o ∈ session readXml (create dispatcher) events, o.Settled) ↔ LengthsParse [] events :=
  session_settled_iff readXml events (create dispatcher)

/-- One read with a Content-Length that is no number. -/
theorem bad_length_escapes :
    ∃ o ∈ session (fun _ => .error []) (create none) [⟨none, ascii "Content-Length: abc\n\n"⟩],
      o.thrown = some .invalidArgument ∧ ¬ o.Settled := by
  refine ⟨_, List.mem_singleton.mpr rfl, ?_, ?_⟩
  · decide
  · rintro ⟨hthrown, _⟩
    exact absurd hthrown (by decide)

end RpcConnection

end Supervisorcpp
