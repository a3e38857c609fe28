/-
# Interrupted system calls

`retry_eintr_` and the four operations `call_method_` passes to it. An operation is a function of
how often it has been invoked: the error code of each invocation, `none` for success. What the peer
sends is given with them, the contents of the buffers after each invocation.

The loop of `retry_eintr_` has the condition `false`, and that is where its `continue` goes: an
interrupted operation is not invoked again, and no exception says so.

A call goes on only after completed operations if none of those it comes to reports an interruption
at its first invocation. Which operations it comes to depends on the earlier ones, and the read of
the rest on whether the buffer already has the whole body.
-/
import Supervisorcpp.Lib.Loops
import Supervisorcpp.Ctl.Client

namespace Supervisorcpp

namespace CtlClient

open Bytes (ascii)

/-! ## Operations -/

/-- `boost::system::system_category`, and every other category. -/
inductive Category where
  | system
  | misc
  deriving DecidableEq, Repr

/-- `boost::system::error_code`, when it is one. -/
structure ErrorCode where
  category : Category
  value : Nat
  deriving DecidableEq, Repr

/-- `boost::asio::error::interrupted`. -/
def interrupted : ErrorCode := ⟨.system, 4⟩

/-- `boost::asio::error::connection_refused`. -/
def connectionRefused : ErrorCode := ⟨.system, 111⟩

/-- What the invocations of an operation report. -/
abbrev Operation := Nat → Option ErrorCode

/-! ## `retry_eintr_` -/

/-- What a call of `retry_eintr_` did. -/
structure Retried where
  invocations : Nat
  thrown : Option ErrorCode
  deriving DecidableEq, Repr

/-- The body of the loop, after `invoked` passes. -/
def retryBody (op : Operation) (invoked : Nat) : Nat × Loops.Pass ErrorCode :=
  (invoked + 1,
    match op invoked with
    | none => .falls
    | some ec => if ec = interrupted then .continues else .throws ec)

/-- `retry_eintr_`. -/
def retryEintr (op : Operation) : Retried :=
  let r := Loops.once (retryBody op) 0
  ⟨r.1, r.2⟩

/-- `retry_eintr_` is `do body while (false)`. -/
theorem retryEintr_iff {op : Operation} {r : Retried} :
    Loops.DoWhile (retryBody op) (fun _ => false) 0 (r.invocations, r.thrown) ↔
      r = retryEintr op := by
  rw [Loops.doWhile_false_iff, retryEintr]
  constructor
  · intro h
    rw [← h]
  · rintro rfl
    rfl

/-- **One invocation.**  What it reports is thrown, but for an interruption. -/
theorem retryEintr_eq (op : Operation) :
    retryEintr op = ⟨1, if op 0 = some interrupted then none else op 0⟩ := by
  unfold retryEintr Loops.once retryBody
  cases h : op 0 with
  | none => rfl
  | some ec =>
      by_cases hec : ec = interrupted
      · simp [hec]
      · simp [hec]

/-! ## `call_method_` -/

/-- The operations of a call. -/
inductive Step where
  | connect
  | write
  | readUntil
  | read
  deriving DecidableEq, Repr

/-- What the system and the peer do during a call. -/
structure CallIo where
  operation : Step → Operation
  /-- `response` after that many invocations of `read_until` -/
  response : Nat → Bytes
  /-- what that many invocations of `read` have put behind the buffered part of the body -/
  received : Nat → Bytes

/-- `error_code::message`, the socket and the XML reader of a client. -/
structure Client where
  message : ErrorCode → Bytes
  socketPath : Bytes
  readXml : Bytes → Except Bytes Ptree

/-- What a call did: the operations it went through, in order, and its result. -/
structure CallTrace where
  steps : List (Step × Retried)
  result : Except Error Ptree

/-- What is thrown for a `system_error`; the first text has a long dash in it. -/
def Client.systemError (c : Client) (ec : ErrorCode) : Error :=
  if ec = connectionRefused then
    .runtimeError (ascii "Connection refused " ++ [226, 128, 148] ++
      ascii " is supervisord running?")
  else if ec.category = .system then
    .runtimeError (ascii "Connection failed: " ++ c.message ec ++ ascii " (" ++ c.socketPath ++
      ascii ")")
  else .runtimeError (ascii "RPC error: " ++ c.message ec)

/-- An operation is retried, and the call goes on unless that has thrown. -/
def attempt (c : Client) (io : CallIo) (step : Step) (next : Nat → CallTrace) : CallTrace :=
  let r := retryEintr (io.operation step)
  match r.thrown with
  | some ec => ⟨[(step, r)], .error (c.systemError ec)⟩
  | none =>
    let rest := next r.invocations
    ⟨(step, r) :: rest.steps, rest.result⟩

/-- What is made of the body of a response, or of an exception before it is there. -/
def processResponse (readXml : Bytes → Except Bytes Ptree) (response : Except Bytes Bytes) :
    Except Error Ptree :=
  let rpcError := fun what => Except.error (.runtimeError (ascii "RPC error: " ++ what))
  match response.bind readXml with
  | .error what => rpcError what
  | .ok tree =>
    match checkFault tree with
    | .ok _ => .ok tree
    | .error (.runtimeError what) => rpcError what
    | .error e => .error e

/-- The body of the response: what was buffered, and what `read` has put behind it. The string has
its size already, so a part that was not read is zeros. -/
def responseBody (contentLength : Nat) (buffer received : Bytes) : Bytes :=
  let missing := contentLength - buffer.length
  buffer.take contentLength ++ received.take missing ++
    List.replicate (missing - received.length) 0

/-- The bytes that are read complete what the buffer has of the body. -/
theorem responseBody_whole {n : Nat} {buffer rest : Bytes} (h : n - buffer.length ≤ rest.length) :
    responseBody n buffer (rest.take (n - buffer.length)) =
      buffer.take n ++ rest.take (n - buffer.length) := by
  have hall : n - buffer.length - (rest.take (n - buffer.length)).length = 0 := by
    rw [List.length_take]
    omega
  simp only [responseBody, hall, List.replicate_zero, List.append_nil, List.take_take, Nat.min_self]

/-- `call_method_`, from the headers on. -/
def readResponse (c : Client) (io : CallIo) (invocations : Nat) : CallTrace :=
  match readHeaders [] 0 (io.response invocations) with
  | .error _ => ⟨[], processResponse c.readXml (.error (ascii "stoull"))⟩
  | .ok (contentLength, buffer) =>
    if buffer.length < contentLength then
      attempt c io .read fun n =>
        ⟨[], processResponse c.readXml (.ok (responseBody contentLength buffer (io.received n)))⟩
    else ⟨[], processResponse c.readXml (.ok (buffer.take contentLength))⟩

/-- `call_method_`. -/
def callMethodOver (c : Client) (io : CallIo) : CallTrace :=
  attempt c io .connect fun _ =>
    attempt c io .write fun _ =>
      attempt c io .readUntil (readResponse c io)

/-- With no error and all of the body there, a call is what it is without its operations. -/
theorem callMethodOver_result (c : Client) (io : CallIo) {rest : Bytes}
    (hdone : ∀ step, io.operation step 0 = none)
    (hread : ∀ n buffer, readHeaders [] 0 (io.response 1) = .ok (n, buffer) →
      n - buffer.length ≤ rest.length ∧ io.received 1 = rest.take (n - buffer.length)) :
    (callMethodOver c io).result = callMethod c.readXml (io.response 1) rest := by
  have hstep : ∀ step, retryEintr (io.operation step) = ⟨1, none⟩ := by
    intro step
    rw [retryEintr_eq, hdone]
    rfl
  have hcall : callMethod c.readXml (io.response 1) rest =
      processResponse c.readXml (readBody (io.response 1) rest) := rfl
  simp only [callMethodOver, attempt, hstep, readResponse]
  rw [hcall, readBody]
  cases hheaders : readHeaders [] 0 (io.response 1) with
  | error => rfl
  | ok headers =>
      obtain ⟨n, buffer⟩ := headers
      obtain ⟨hfits, hreceived⟩ := hread n buffer hheaders
      simp only [hfits, if_true]
      by_cases hmore : buffer.length < n
      · simp only [if_pos hmore, hreceived, responseBody_whole hfits]
      · have hnothing : n - buffer.length = 0 := by omega
        simp only [if_neg hmore, hnothing, List.take_zero, List.append_nil]

/-! ## What is complete when the call goes on -/

/-- The last invocation reported success. -/
def Completed (op : Operation) (r : Retried) : Prop :=
  0 < r.invocations ∧ op (r.invocations - 1) = none

/-- The headers in the buffer announce more than the buffer has. -/
def NeedsMore (response : Bytes) : Prop :=
  ∃ contentLength buffer, readHeaders [] 0 response = .ok (contentLength, buffer) ∧
    buffer.length < contentLength

/-- The operations the call comes to. -/
def ComesTo (io : CallIo) : Step → Prop
  | .connect => True
  | .write => io.operation .connect 0 = none
  | .readUntil => io.operation .connect 0 = none ∧ io.operation .write 0 = none
  | .read => io.operation .connect 0 = none ∧ io.operation .write 0 = none ∧
      io.operation .readUntil 0 = none ∧ NeedsMore (io.response 1)

/-- No operation that the call comes to is interrupted. -/
def Uninterrupted (io : CallIo) : Prop :=
  ∀ step, ComesTo io step → io.operation step 0 ≠ some interrupted

/-- Whenever a call goes on behind an operation, the operation is complete. -/
def GoesOnCompleted (io : CallIo) (t : CallTrace) : Prop :=
  ∀ p ∈ t.steps, p.2.thrown = none → Completed (io.operation p.1) p.2

variable {io : CallIo}

theorem goesOnCompleted_nil (result : Except Error Ptree) : GoesOnCompleted io ⟨[], result⟩ :=
  fun _ hp => absurd hp List.not_mem_nil

/-- **One operation**: only an interruption lets the call go on with the operation incomplete. -/
theorem attempt_goesOnCompleted (c : Client) (step : Step) (next : Nat → CallTrace) :
    GoesOnCompleted io (attempt c io step next) ↔
      io.operation step 0 ≠ some interrupted ∧
        (io.operation step 0 = none → GoesOnCompleted io (next 1)) := by
  have hretried := retryEintr_eq (io.operation step)
  cases hop : io.operation step 0 with
  | none =>
      rw [hop] at hretried
      have hattempt : attempt c io step next =
          ⟨(step, ⟨1, none⟩) :: (next 1).steps, (next 1).result⟩ := by
        simp only [attempt, hretried, reduceCtorEq, if_false]
      have hdone : Completed (io.operation step) ⟨1, none⟩ := ⟨Nat.one_pos, hop⟩
      rw [hattempt]
      unfold GoesOnCompleted
      rw [List.forall_mem_cons]
      simp [hdone]
  | some ec =>
      rw [hop] at hretried
      by_cases hec : ec = interrupted
      · subst hec
        have hattempt : attempt c io step next =
            ⟨(step, ⟨1, none⟩) :: (next 1).steps, (next 1).result⟩ := by
          simp only [attempt, hretried, if_true]
        rw [hattempt]
        refine iff_of_false (fun h => ?_) fun h => h.1 rfl
        have hdone : Completed (io.operation step) ⟨1, none⟩ := h _ List.mem_cons_self rfl
        have hnone : io.operation step 0 = none := hdone.2
        rw [hop] at hnone
        cases hnone
      -- another error is thrown, and the call ends there
      · have hattempt : attempt c io step next =
            ⟨[(step, ⟨1, some ec⟩)], .error (c.systemError ec)⟩ := by
          simp [attempt, hretried, hec]
        rw [hattempt]
        refine iff_of_true ?_ ⟨by simpa using hec, fun h => by cases h⟩
        intro p hp hthrown
        rw [List.mem_singleton.mp hp] at hthrown
        cases hthrown

/-- Reading the answer goes on only after completed operations exactly if the read of the rest,
where one is needed, is not interrupted. -/
theorem readResponse_goesOnCompleted (c : Client) :
    GoesOnCompleted io (readResponse c io 1) ↔
      (NeedsMore (io.response 1) → io.operation .read 0 ≠ some interrupted) := by
  unfold readResponse
  cases hheaders : readHeaders [] 0 (io.response 1) with
  | error =>
      refine iff_of_true (goesOnCompleted_nil _) ?_
      rintro ⟨_, _, hok, -⟩
      rw [hheaders] at hok
      cases hok
  | ok headers =>
      obtain ⟨n, buffer⟩ := headers
      have hneeds : NeedsMore (io.response 1) ↔ buffer.length < n := by
        constructor
        · rintro ⟨_, _, hok, hmore⟩
          rw [hheaders] at hok
          cases hok
          exact hmore
        · exact fun hmore => ⟨n, buffer, hheaders, hmore⟩
      rw [hneeds]
      by_cases hmore : buffer.length < n
      · simp only [if_pos hmore]
        rw [attempt_goesOnCompleted]
        simp [hmore, goesOnCompleted_nil]
      · simp [hmore, goesOnCompleted_nil]

/-- **When interrupted operations are invoked again.**  `retry_eintr_` invokes an operation whose
first `n` invocations are interrupted, and no more of them, `n + 1` times and reports what the last
one does exactly if `n` is 0. So a call only goes on behind operations that are complete exactly if
none that it comes to is interrupted. -/
theorem interrupted_retried_iff (op : Operation) (n : Nat)
    (hfirst : ∀ i < n, op i = some interrupted) (hlast : op n ≠ some interrupted) (c : Client)
    (io : CallIo) :
    (retryEintr op = ⟨n + 1, op n⟩ ↔ n = 0) ∧
      (GoesOnCompleted io (callMethodOver c io) ↔ Uninterrupted io) := by
  constructor
  · rw [retryEintr_eq]
    constructor
    · intro h
      have hcount := congrArg Retried.invocations h
      exact (Nat.succ.inj hcount).symm
    · rintro rfl
      rw [if_neg hlast]
  · unfold callMethodOver
    rw [attempt_goesOnCompleted, attempt_goesOnCompleted, attempt_goesOnCompleted,
      readResponse_goesOnCompleted]
    constructor
    · rintro ⟨hconnect, hwrite⟩ step hcomes
      cases step with
      | connect => exact hconnect
      | write => exact (hwrite hcomes).1
      | readUntil => exact ((hwrite hcomes.1).2 hcomes.2).1
      | read => exact ((hwrite hcomes.1).2 hcomes.2.1).2 hcomes.2.2.1 hcomes.2.2.2
    · intro h
      refine ⟨h .connect trivial, fun hconnected => ⟨h .write hconnected, fun hwritten => ?_⟩⟩
      refine ⟨h .readUntil ⟨hconnected, hwritten⟩, fun hread hmore => ?_⟩
      exact h .read ⟨hconnected, hwritten, hread, hmore⟩

/-- A client that reads no XML. -/
def plainClient : Client := ⟨fun _ => [], [], fun _ => .error []⟩

/-- All operations succeed; one of the two bytes of the body comes with the headers. -/
def answerInTwo : CallIo where
  operation := fun _ _ => none
  response := fun _ => ascii "HTTP/1.1 200 OK\r\nContent-Length: 2\r\n\r\na"
  received := fun _ => ascii "b"

theorem interrupted_retried_never :
    retryEintr (fun _ => none) = ⟨1, none⟩ ∧
      GoesOnCompleted answerInTwo (callMethodOver plainClient answerInTwo) ∧
      (callMethodOver plainClient answerInTwo).steps.map (·.1) =
        [.connect, .write, .readUntil, .read] ∧
      (callMethodOver plainClient answerInTwo).result =
        callMethod plainClient.readXml (answerInTwo.response 1) (ascii "b") := by
  obtain ⟨hretry, hcall⟩ := interrupted_retried_iff (fun _ => none) 0 (by simp) (by simp) plainClient
    answerInTwo
  refine ⟨hretry.mpr rfl, hcall.mpr ?_, by decide, ?_⟩
  · intro step _ hop
    cases hop
  · refine callMethodOver_result plainClient answerInTwo (fun _ => rfl) fun n buffer hheaders => ?_
    have hread : readHeaders [] 0 (answerInTwo.response 1) = .ok (2, ascii "a") := by decide
    obtain ⟨rfl, rfl⟩ := Prod.mk.inj (Except.ok.inj (hread.symm.trans hheaders))
    decide

/-- Interrupted once, then done. -/
def interruptedOnce : Operation := fun i => if i = 0 then some interrupted else none

/-- A signal arrives while the request is written. -/
def interruptedWrite : CallIo where
  operation := fun step => if step = .write then interruptedOnce else fun _ => none
  response := fun _ => ascii "HTTP/1.1 200 OK\r\n\r\n"
  received := fun _ => []

/-- An interrupted operation is invoked once, and counts as done: the client waits for the answer to
a request it has not written. -/
theorem interrupted_write_counts_as_done :
    (∀ i < 1, interruptedOnce i = some interrupted) ∧ interruptedOnce 1 = none ∧
      retryEintr interruptedOnce = ⟨1, none⟩ ∧
      retryEintr interruptedOnce ≠ ⟨1 + 1, interruptedOnce 1⟩ ∧
      (callMethodOver plainClient interruptedWrite).steps =
        [(.connect, ⟨1, none⟩), (.write, ⟨1, none⟩), (.readUntil, ⟨1, none⟩)] ∧
      ¬GoesOnCompleted interruptedWrite (callMethodOver plainClient interruptedWrite) := by
  have hsteps : (callMethodOver plainClient interruptedWrite).steps =
      [(.connect, ⟨1, none⟩), (.write, ⟨1, none⟩), (.readUntil, ⟨1, none⟩)] := by decide
  refine ⟨by decide, rfl, by decide, by decide, hsteps, fun h => ?_⟩
  have hwrite : Completed interruptedOnce ⟨1, none⟩ :=
    h (.write, ⟨1, none⟩) (by rw [hsteps]; decide) rfl
  have hnone : interruptedOnce 0 = none := hwrite.2
  exact absurd hnone (by decide)

end CtlClient

end Supervisorcpp
