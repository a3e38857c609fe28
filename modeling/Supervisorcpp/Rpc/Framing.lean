/-
# Requests on a connection, however they are split

A request of `supervisorctl` is a header block with a Content-Length and a body. The connection sees
it in pieces that the socket chooses; on every proper prefix of it `handle_read_` waits for more, and
on the whole of it the body is processed. The header block is found in a prefix exactly when it is
complete there, whatever bytes the body is made of.

A session is the list of outcomes of the reads. What matters of it are the calls of the dispatcher
and the responses, and both are those of the one read that completes the request.
-/
import Supervisorcpp.Ctl.Client
import Supervisorcpp.Rpc.ReadEvents

namespace Supervisorcpp

open Bytes (ascii)
open CtlClient (buildHttpRequest)

/-! ## Header blocks -/

/-- What follows the Content-Length of a message, up to its body. -/
def lastLines : Bytes := ascii "\r\n" ++ ascii "Connection: close\r\n" ++ ascii "\r\n"

/-- The length of `lastLines` without the empty line. -/
def lastLineLength : Nat := 19

section Block

variable {first : Bytes}

/-- A digit is in none of the separators. -/
theorem digit_not_mem {b : UInt8} {pat : Bytes} (h : Bytes.isDigit b = true)
    (hpat : pat.all (fun c => !Bytes.isDigit c) = true) : b ∉ pat := by
  intro hmem
  have hno := List.all_eq_true.mp hpat b hmem
  simp [h] at hno

/-- A search that finds nothing before the Content-Length goes on behind its digits. -/
theorem find_behind_digits {pat : Bytes} (hpat : pat ≠ [])
    (hdigits : pat.all (fun c => !Bytes.isDigit c) = true) (hfirst : Bytes.find pat first = none)
    (n : Nat) (tail : Bytes) :
    Bytes.find pat (first ++ (ascii (toString n) ++ tail)) =
      (Bytes.find pat tail).map (· + (first ++ ascii (toString n)).length) := by
  have hmem : ∀ b ∈ ascii (toString n), b ∉ pat := fun b hb =>
    digit_not_mem (Bytes.isDigit_of_mem_toString hb) hdigits
  have hhead : ∀ b ∈ (ascii (toString n) ++ tail).head?, b ∉ pat := by
    intro b hb
    cases hds : ascii (toString n) with
    | nil => exact absurd hds (Bytes.ascii_toString_ne_nil n)
    | cons d ds =>
        rw [hds] at hb
        obtain rfl : d = b := by simpa using hb
        exact hmem d (hds ▸ List.mem_cons_self)
  rw [Bytes.find_append_of_none hfirst hhead, Bytes.find_skip hpat hmem, Option.map_map]
  congr 1
  funext i
  simp only [Function.comp_apply, List.length_append]
  omega

/-- The empty line is found at the end of the header block, whatever the body is. -/
theorem find_emptyLine (hfirst : Bytes.find (ascii "\r\n\r\n") first = none) (n : Nat)
    (body : Bytes) :
    Bytes.find (ascii "\r\n\r\n") (first ++ (ascii (toString n) ++ (lastLines ++ body))) =
      some (lastLineLength + (first ++ ascii (toString n)).length) := by
  have hlast : Bytes.find (ascii "\r\n\r\n") lastLines = some lastLineLength := by decide
  rw [find_behind_digits (by decide) (by decide) hfirst,
    Bytes.find_append_of_some (by decide) hlast]
  rfl

/-- There is no other empty line in the header block. -/
theorem find_lf_none (hfirst : Bytes.find (ascii "\n\n") first = none) (n : Nat) :
    Bytes.find (ascii "\n\n") (first ++ (ascii (toString n) ++ lastLines)) = none := by
  have hlast : Bytes.find (ascii "\n\n") lastLines = none := by decide
  rw [find_behind_digits (by decide) (by decide) hfirst, hlast]
  rfl

end Block

/-! ## Prefixes of a request -/

/-- What comes before the Content-Length of a request. -/
def requestFirst : Bytes :=
  ascii "POST /RPC2 HTTP/1.1\r\n" ++ ascii "Content-Type: text/xml\r\n" ++ ascii "Content-Length: "

/-- The length of the header block of a request with this body, without its empty line. -/
def requestHeaderEnd (body : Bytes) : Nat :=
  lastLineLength + (requestFirst ++ ascii (toString body.length)).length

namespace RpcConnection

variable {body : Bytes}

/-- A request: its first lines, the length, and the body behind an empty line. -/
theorem buildHttpRequest_eq (body : Bytes) : buildHttpRequest body =
    requestFirst ++ (ascii (toString body.length) ++ (lastLines ++ body)) := by
  simp [buildHttpRequest, requestFirst, lastLines]

theorem length_buildHttpRequest (body : Bytes) :
    (buildHttpRequest body).length = requestHeaderEnd body + 4 + body.length := by
  have hlast : lastLines.length = lastLineLength + 4 := rfl
  rw [buildHttpRequest_eq, requestHeaderEnd]
  simp only [List.length_append, hlast]
  omega

/-- The end of the headers is seen as soon as the empty line is complete, and not before. -/
theorem headerEnd_take (body : Bytes) (n : Nat) :
    headerEnd ((buildHttpRequest body).take n) =
      if requestHeaderEnd body + 4 ≤ n then some (requestHeaderEnd body, requestHeaderEnd body + 4)
      else none := by
  have hfirst : Bytes.find (ascii "\r\n\r\n") requestFirst = none := by decide
  have hcrlf : Bytes.find (ascii "\r\n\r\n") ((buildHttpRequest body).take n) =
      if requestHeaderEnd body + 4 ≤ n then some (requestHeaderEnd body) else none := by
    rw [Bytes.find_take (by decide), buildHttpRequest_eq, find_emptyLine hfirst]
    have hpat : (ascii "\r\n\r\n").length = 4 := rfl
    simp only [Option.filter, hpat, decide_eq_true_eq]
    rfl
  by_cases hn : requestHeaderEnd body + 4 ≤ n
  · rw [headerEnd, hcrlf, if_pos hn, if_pos hn]
  · have hshort : (buildHttpRequest body).take n =
        (requestFirst ++ (ascii (toString body.length) ++ lastLines)).take n := by
      have happ : buildHttpRequest body =
          (requestFirst ++ (ascii (toString body.length) ++ lastLines)) ++ body := by
        simp [buildHttpRequest_eq]
      rw [happ, List.take_append_of_le_length]
      have hlast : lastLines.length = lastLineLength + 4 := rfl
      simp only [requestHeaderEnd, List.length_append, hlast] at hn ⊢
      omega
    have hlf : Bytes.find (ascii "\n\n") ((buildHttpRequest body).take n) = none := by
      rw [hshort, Bytes.find_take (by decide), find_lf_none (by decide)]
      rfl
    rw [headerEnd, hcrlf, if_neg hn, if_neg hn, hlf]
    rfl

/-- The header block of a request, without its empty line. -/
theorem take_headers (body : Bytes) : (buildHttpRequest body).take (requestHeaderEnd body) =
    requestFirst ++ (ascii (toString body.length) ++ ascii "\r\nConnection: close") := by
  have hsplit : buildHttpRequest body = (requestFirst ++ (ascii (toString body.length) ++
      ascii "\r\nConnection: close")) ++ (ascii "\r\n\r\n" ++ body) := by
    have hlast : lastLines = ascii "\r\nConnection: close" ++ ascii "\r\n\r\n" := rfl
    simp [buildHttpRequest_eq, hlast]
  have hlength : requestHeaderEnd body = (requestFirst ++ (ascii (toString body.length) ++
      ascii "\r\nConnection: close")).length := by
    have hconn : (ascii "\r\nConnection: close").length = lastLineLength := rfl
    simp only [requestHeaderEnd, List.length_append, hconn]
    omega
  rw [hsplit, hlength, List.take_left]

/-- The digits are the value of the Content-Length field. -/
theorem contentLengthField_request (n : Nat) :
    contentLengthField (requestFirst ++ (ascii (toString n) ++ ascii "\r\nConnection: close")) =
      some (some (ascii (toString n))) := by
  have hfound : Bytes.ifind (ascii "content-length:")
      (requestFirst ++ (ascii (toString n) ++ ascii "\r\nConnection: close")) = some 45 := by
    have hfirst : Bytes.ifind (ascii "content-length:") requestFirst = some 45 := by decide
    rw [Bytes.ifind, List.map_append]
    exact Bytes.find_append_of_some (by decide) hfirst
  have hafter : (requestFirst ++ (ascii (toString n) ++ ascii "\r\nConnection: close")).drop
      (45 + (ascii "content-length:").length) =
        32 :: (ascii (toString n) ++ ascii "\r\nConnection: close") := rfl
  have hdigit : ∀ b ∈ ascii (toString n), b ≠ 32 ∧ b ≠ 9 ∧ b ≠ 13 ∧ b ≠ 10 := by
    intro b hb
    have hd := Bytes.isDigit_of_mem_toString hb
    refine ⟨?_, ?_, ?_, ?_⟩ <;>
    · rintro rfl
      exact absurd hd (by decide)
  -- the blank is dropped, and nothing of the number with it
  have hvalue : (32 :: (ascii (toString n) ++ ascii "\r\nConnection: close")).dropWhile
      (fun b => b == 32 || b == 9) = ascii (toString n) ++ ascii "\r\nConnection: close" := by
    rw [List.dropWhile_cons_of_pos (by decide)]
    cases hds : ascii (toString n) with
    | nil => exact absurd hds (Bytes.ascii_toString_ne_nil n)
    | cons d ds =>
        have hd := hdigit d (hds ▸ List.mem_cons_self)
        rw [List.cons_append, List.dropWhile_cons_of_neg]
        simp [hd]
  have hline : (ascii (toString n) ++ ascii "\r\nConnection: close").takeWhile
      (fun b => b != 13 && b != 10) = ascii (toString n) := by
    rw [List.takeWhile_append_of_pos]
    · have htail : (ascii "\r\nConnection: close").takeWhile
          (fun b => b != 13 && b != 10) = [] := by decide
      rw [htail, List.append_nil]
    · intro b hb
      simp [hdigit b hb]
  have hempty : (ascii (toString n) ++ ascii "\r\nConnection: close").isEmpty = false := by
    rw [List.isEmpty_eq_false_iff]
    exact fun h => Bytes.ascii_toString_ne_nil n (List.append_eq_nil_iff.mp h).1
  simp only [contentLengthField, hfound, Option.map_some, hafter, hvalue, hempty, hline,
    Bool.false_eq_true, if_false]

variable (readXml : Bytes → Except Bytes Ptree) (dispatcher : Option DispatchFunction)

/-- With the header block complete: the body is waited for, and processed when it is there. -/
theorem handleBody_take (hsize : body.length < 2 ^ 64) {n : Nat}
    (hn : requestHeaderEnd body + 4 ≤ n) (hle : n ≤ (buildHttpRequest body).length) :
    handleBody readXml ⟨dispatcher, (buildHttpRequest body).take n⟩ false
        (requestHeaderEnd body) (requestHeaderEnd body + 4) =
      if n < (buildHttpRequest body).length then
        { requestData := (buildHttpRequest body).take n, reads := 1 }
      else processRequest readXml ⟨dispatcher, buildHttpRequest body⟩
        (buildHttpRequest body) := by
  have hheaders : ((buildHttpRequest body).take n).take (requestHeaderEnd body) =
      requestFirst ++ (ascii (toString body.length) ++ ascii "\r\nConnection: close") := by
    rw [List.take_take, Nat.min_eq_left (by omega), take_headers]
  have hnumber : Bytes.stoull (ascii (toString body.length)) = .ok body.length := by
    have hread := Bytes.stoull_digits [] hsize (by simp)
    rwa [List.append_nil] at hread
  have htotal := length_buildHttpRequest body
  have hlength : ((buildHttpRequest body).take n).length = n := by
    rw [List.length_take]
    omega
  simp only [handleBody, hheaders, contentLengthField_request, Option.elim_some, hnumber, hlength]
  by_cases hwhole : n < (buildHttpRequest body).length
  · have hshort : n - (requestHeaderEnd body + 4) < body.length := by omega
    rw [if_pos hshort, if_pos hwhole]
    rfl
  · have hfull : ¬ n - (requestHeaderEnd body + 4) < body.length := by omega
    have htake : (buildHttpRequest body).take n = buildHttpRequest body :=
      List.take_of_length_le (by omega)
    have hresize : resize (buildHttpRequest body) (requestHeaderEnd body + 4 + body.length) =
        buildHttpRequest body := by
      rw [resize_of_le (Nat.le_of_eq htotal.symm), ← htotal, List.take_length]
    rw [if_neg hfull, if_neg hwhole, htake]
    simp only [processTrimmed, hresize]

/-- A read that does not fill the connection leaves a prefix of the request: the connection waits
until the prefix is all of it. -/
theorem handleRead_part (hsize : body.length < 2 ^ 64) {data chunk : Bytes}
    (hstart : data ++ chunk <+: buildHttpRequest body)
    (hfits : (data ++ chunk).length ≤ maxRequestSize) :
    handleRead readXml ⟨dispatcher, data⟩ ⟨none, chunk⟩ =
      if (data ++ chunk).length < (buildHttpRequest body).length then
        { requestData := data ++ chunk, reads := 1 }
      else processRequest readXml ⟨dispatcher, buildHttpRequest body⟩
        (buildHttpRequest body) := by
  have htake : data ++ chunk = (buildHttpRequest body).take (data ++ chunk).length :=
    List.prefix_iff_eq_take.mp hstart
  have hle := hstart.length_le
  have hnot : ¬ maxRequestSize < data.length + chunk.length := by
    rw [List.length_append] at hfits
    omega
  have htotal := length_buildHttpRequest body
  simp only [handleRead, reduceCtorEq, if_false, hnot, decide_false]
  generalize hk : (data ++ chunk).length = k at htake hle ⊢
  rw [htake, headerEnd_take]
  by_cases hblock : requestHeaderEnd body + 4 ≤ k
  · rw [if_pos hblock]
    exact handleBody_take readXml dispatcher hsize hblock hle
  · have hshort : k < (buildHttpRequest body).length := by omega
    rw [if_neg hblock, if_pos hshort]
    rfl

/-- Reads that overfill the connection are answered at once. -/
theorem handleRead_overfull {data chunk : Bytes}
    (hlarge : maxRequestSize < (data ++ chunk).length) :
    handleRead readXml ⟨dispatcher, data⟩ ⟨none, chunk⟩ = sendResponse data []
      (generateXmlrpcFault 1 (ascii "Request too large (max 1MB)")) := by
  rw [List.length_append] at hlarge
  simp only [handleRead, reduceCtorEq, if_false, hlarge, if_true]

/-- What the connection does in the course of some reads. -/
def calls (outcomes : List ReadOutcome) : List (Bytes × List Bytes) := outcomes.flatMap (·.calls)

/-- Everything that was sent, in order. -/
def responses (outcomes : List ReadOutcome) : List Bytes := outcomes.flatMap (·.responses)

/-- **However a request is split, it is processed once, when it is complete; or, when it is too
large, answered with a fault.** -/
theorem session_request (hsize : body.length < 2 ^ 64) (chunks : List Bytes) {data : Bytes}
    (hsplit : data ++ chunks.flatten = buildHttpRequest body)
    (hpart : data.length < (buildHttpRequest body).length) :
    let outcomes := session readXml ⟨dispatcher, data⟩ (chunks.map fun chunk => ⟨none, chunk⟩)
    let last := if (buildHttpRequest body).length ≤ maxRequestSize then
        processRequest readXml ⟨dispatcher, buildHttpRequest body⟩ (buildHttpRequest body)
      else sendResponse [] [] (generateXmlrpcFault 1 (ascii "Request too large (max 1MB)"))
    calls outcomes = last.calls ∧ responses outcomes = last.responses := by
  induction chunks generalizing data with
  | nil =>
      simp only [List.flatten_nil, List.append_nil] at hsplit
      rw [hsplit] at hpart
      exact absurd hpart (by omega)
  | cons chunk chunks ih =>
      have hstart : data ++ chunk <+: buildHttpRequest body :=
        ⟨chunks.flatten, by rw [← hsplit, List.flatten_cons, List.append_assoc]⟩
      have hle := hstart.length_le
      rw [List.map_cons, session]
      by_cases hfits : (data ++ chunk).length ≤ maxRequestSize
      · have hread := handleRead_part readXml dispatcher hsize hstart hfits
        by_cases hwhole : (data ++ chunk).length < (buildHttpRequest body).length
        · rw [if_pos hwhole] at hread
          rw [hread]
          simp only [Nat.one_ne_zero, if_false, calls, responses, List.flatMap_cons, List.nil_append]
          apply ih _ hwhole
          rw [← hsplit, List.flatten_cons, List.append_assoc]
        · rw [if_neg hwhole] at hread
          have hsmall : (buildHttpRequest body).length ≤ maxRequestSize := by omega
          obtain ⟨made, text, hresp⟩ := processRequest_responds readXml
            ⟨dispatcher, buildHttpRequest body⟩ (buildHttpRequest body)
          rw [hread, if_pos hsmall, hresp]
          simp [sendResponse, calls, responses]
      · have hlarge : maxRequestSize < (data ++ chunk).length := by omega
        have hbig : ¬ (buildHttpRequest body).length ≤ maxRequestSize := by omega
        rw [handleRead_overfull readXml dispatcher hlarge, if_neg hbig]
        simp [sendResponse, calls, responses]

end RpcConnection

end Supervisorcpp
