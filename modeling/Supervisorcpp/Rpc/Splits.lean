/-
# When framing depends on how the bytes arrive

`handle_read_` searches all it has received for CRLF CRLF first and for LF LF only if there is none.
So a request that is complete behind LF LF is processed if a read ends before a later CRLF CRLF is
complete, and framed by the CRLF CRLF if one read carries the connection past both. Whether there is
such a read is a question about the stream: the distance of the two ends and the read size.

The first prefix that is complete in one way or the other decides; later bytes are never looked at.
So independence of the split is a property of the stream and can be tested on it.
-/
import Supervisorcpp.Rpc.ReadEvents

namespace Supervisorcpp

open Bytes (ascii)

namespace RpcConnection

/-! ## Streams and their splits -/

/-- `buffer_`. -/
def readSize : Nat := 8192

/-- Ways of splitting a stream into reads. -/
def Splits (stream : Bytes) (chunks : List Bytes) : Prop :=
  chunks.flatten = stream ∧ ∀ chunk ∈ chunks, chunk ≠ [] ∧ chunk.length ≤ readSize

/-- The bytes passed to `process_request_` in the course of some reads. -/
def passed (outcomes : List ReadOutcome) : Option Bytes :=
  outcomes.findSome? fun o => if o.responses = [] then none else some o.requestData

/-- The request a new connection takes from a split stream. -/
def framed (readXml : Bytes → Except Bytes Ptree) (dispatcher : Option DispatchFunction)
    (chunks : List Bytes) : Option Bytes :=
  passed (session readXml (create dispatcher) (chunks.map fun chunk => ⟨none, chunk⟩))

/-- The value of the Content-Length field of a header block, 0 without one. -/
def contentLength (headers : Bytes) : Nat :=
  match contentLengthField headers with
  | some (some text) => (Bytes.stoull text).toOption.getD 0
  | _ => 0

/-- Where the request ends that LF LF frames. -/
def lfEnd (stream : Bytes) : Option Nat :=
  (Bytes.find (ascii "\n\n") stream).map fun i => i + 2 + contentLength (stream.take i)

/-- A request framed by LF LF ends before the first CRLF CRLF does, and so near to it that one read
can begin before the one end and finish behind the other. -/
def TerminatorsRace (stream : Bytes) : Prop :=
  ∃ n i, lfEnd stream = some n ∧ Bytes.find (ascii "\r\n\r\n") stream = some i ∧
    n < i + 4 ∧ i + 4 < n + readSize

/-! ## What is complete -/

/-- The length of the request at the front of the data, if all of it is there. -/
def complete (data : Bytes) : Option Nat :=
  (headerEnd data).bind fun h =>
    let n := h.2 + contentLength (data.take h.1)
    if n ≤ data.length then some n else none

variable (readXml : Bytes → Except Bytes Ptree) {c : RpcConnection} {data chunk stream : Bytes}

/-- The headers end in the data, and the body starts there or behind. -/
theorem headerEnd_le {h : Nat × Nat} (hend : headerEnd data = some h) :
    h.1 ≤ h.2 ∧ h.2 ≤ data.length := by
  unfold headerEnd at hend
  split at hend
  · next i hi =>
      obtain rfl := Option.some.inj hend
      exact ⟨Nat.le_add_right i 4, Bytes.find_length (by decide) hi⟩
  · obtain ⟨i, hi, rfl⟩ := Option.map_eq_some_iff.mp hend
    exact ⟨Nat.le_add_right i 2, Bytes.find_length (by decide) hi⟩

/-- **Cut off anywhere behind the end of the headers**, the data has its end of the headers there
still. -/
theorem headerEnd_cut {found : Nat × Nat} (h : headerEnd data = some found) {n : Nat}
    (hn : found.2 ≤ n) : headerEnd (data.take n) = some found := by
  have htake : ∀ {pat : Bytes} {i : Nat}, pat ≠ [] → Bytes.find pat data = some i →
      i + pat.length ≤ n → Bytes.find pat (data.take n) = some i := by
    intro pat i hpat hi hfits
    rw [Bytes.find_take hpat, hi]
    exact Option.filter_eq_some_iff.mpr ⟨rfl, decide_eq_true hfits⟩
  unfold headerEnd at h ⊢
  cases hcrlf : Bytes.find (ascii "\r\n\r\n") data with
  | some i =>
      rw [hcrlf] at h
      obtain rfl := Option.some.inj h
      rw [htake (by decide) hcrlf hn]
  -- what is not there before the cut is not there behind it
  | none =>
      have hnone : Bytes.find (ascii "\r\n\r\n") (data.take n) = none := by
        rw [Bytes.find_take (by decide), hcrlf]
        rfl
      rw [hcrlf] at h
      obtain ⟨i, hlf, rfl⟩ := Option.map_eq_some_iff.mp h
      rw [hnone, htake (by decide) hlf hn]
      rfl

/-- What an outcome has to do with the request that is complete, or not. -/
def Passes (data : Bytes) (n : Option Nat) (o : ReadOutcome) : Prop :=
  match n with
  | none => o.reads = 1 ∧ o.responses = [] ∧ o.requestData = data
  | some n => o.reads = 0 ∧ o.responses ≠ [] ∧ o.requestData = data.take n

/-- Reading on passes the data on. -/
theorem readOn_passes (c : RpcConnection) : Passes c.requestData none (c.readOn false) :=
  ⟨rfl, rfl, rfl⟩

theorem processTrimmed_passes (c : RpcConnection) {bodyOffset n : Nat}
    (h : bodyOffset + n ≤ c.requestData.length) :
    Passes c.requestData (some (bodyOffset + n)) (c.processTrimmed readXml bodyOffset n) := by
  obtain ⟨calls, body, heq⟩ := processRequest_responds readXml
    { c with requestData := resize c.requestData (bodyOffset + n) }
    (resize c.requestData (bodyOffset + n))
  unfold processTrimmed
  dsimp only
  rw [heq]
  exact ⟨rfl, List.cons_ne_nil _ _, resize_of_le h⟩

theorem handleBody_passes (c : RpcConnection) {h : Nat × Nat}
    (hend : headerEnd c.requestData = some h)
    (hparses : LengthParses c.requestData) :
    Passes c.requestData (complete c.requestData) (c.handleBody readXml false h.1 h.2) := by
  have hle := (headerEnd_le hend).2
  have hcomplete : complete c.requestData =
      if h.2 + contentLength (c.requestData.take h.1) ≤ c.requestData.length then
        some (h.2 + contentLength (c.requestData.take h.1)) else none := by
    rw [complete, hend]
    rfl
  rw [hcomplete]
  unfold handleBody contentLength
  cases hfield : contentLengthField (c.requestData.take h.1) with
  | none =>
      simp only [Nat.add_zero, hle, if_true]
      exact processTrimmed_passes readXml c hle
  | some value =>
      cases value with
      | none =>
          simp only [Option.elim_none, Nat.add_zero, hle, if_true, Nat.not_lt_zero, if_false]
          exact processTrimmed_passes readXml c hle
      | some text =>
          have hstarts : Bytes.StartsWithNumber text := hparses h hend _ hfield text rfl
          obtain ⟨n, hn⟩ := (Bytes.stoull_ok_iff text).mpr hstarts
          simp only [Option.elim_some, hn, Except.toOption, Option.getD_some]
          by_cases hwhole : h.2 + n ≤ c.requestData.length
          · have hfull : ¬c.requestData.length - h.2 < n := by omega
            rw [if_neg hfull, if_pos hwhole]
            exact processTrimmed_passes readXml c hwhole
          · have hshort : c.requestData.length - h.2 < n := by omega
            rw [if_pos hshort, if_neg hwhole]
            exact readOn_passes c

/-- **A read** without error on a connection that stays within its limit: it waits, or it passes the
request on that is complete. -/
theorem handleRead_passes (hsize : (c.requestData ++ chunk).length ≤ maxRequestSize)
    (hparses : LengthParses (c.requestData ++ chunk)) :
    Passes (c.requestData ++ chunk) (complete (c.requestData ++ chunk))
      (c.handleRead readXml ⟨none, chunk⟩) := by
  have hfits : ¬maxRequestSize < c.requestData.length + chunk.length := by
    rw [List.length_append] at hsize
    omega
  simp only [handleRead, reduceCtorEq, if_false, hfits, decide_false]
  cases hend : headerEnd (c.requestData ++ chunk) with
  | none =>
      have hcomplete : complete (c.requestData ++ chunk) = none := by
        rw [complete, hend]
        rfl
      rw [hcomplete]
      exact readOn_passes { c with requestData := c.requestData ++ chunk }
  | some h =>
      exact handleBody_passes readXml { c with requestData := c.requestData ++ chunk } hend hparses

/-- What has been read is a prefix of the stream. -/
theorem read_prefix {rest : Bytes} (hstream : data ++ chunk ++ rest = stream) :
    data ++ chunk = stream.take (data ++ chunk).length ∧
      (data ++ chunk).length ≤ stream.length ∧
      (data ++ chunk).length = data.length + chunk.length := by
  refine ⟨?_, ?_, List.length_append⟩
  · rw [← hstream, List.take_left]
  · have hlen := congrArg List.length hstream
    simp only [List.length_append] at hlen ⊢
    omega

/-- The request that is complete first, at the ends of reads. -/
def firstComplete : Bytes → List Bytes → Option Bytes
  | _, [] => none
  | data, chunk :: chunks =>
    match complete (data ++ chunk) with
    | some n => some ((data ++ chunk).take n)
    | none => firstComplete (data ++ chunk) chunks

/-- **A session** passes on the request that is complete first. -/
theorem passed_session (dispatcher : Option DispatchFunction) (chunks : List Bytes) {data : Bytes}
    (hstream : data ++ chunks.flatten = stream) (hsize : stream.length ≤ maxRequestSize)
    (hparses : ∀ n, LengthParses (stream.take n)) :
    passed (session readXml ⟨dispatcher, data⟩ (chunks.map fun chunk => ⟨none, chunk⟩)) =
      firstComplete data chunks := by
  induction chunks generalizing data with
  | nil => rfl
  | cons chunk chunks ih =>
      rw [List.flatten_cons, ← List.append_assoc] at hstream
      obtain ⟨hstart, hle, -⟩ := read_prefix hstream
      have hread := handleRead_passes readXml (c := ⟨dispatcher, data⟩) (Nat.le_trans hle hsize)
        (by
          show LengthParses (data ++ chunk)
          rw [hstart]
          exact hparses _)
      rw [List.map_cons, session, firstComplete]
      cases hcomplete : complete (data ++ chunk) with
      | none =>
          simp only [hcomplete, Passes] at hread
          obtain ⟨hreads, hresponses, hdata⟩ := hread
          simp only [hreads, Nat.one_ne_zero, if_false, passed, List.findSome?_cons, hresponses,
            if_true, hdata]
          exact ih hstream
      | some n =>
          simp only [hcomplete, Passes] at hread
          obtain ⟨hreads, hresponses, hdata⟩ := hread
          simp only [hreads, if_true, passed, List.findSome?_cons, hresponses, if_false, hdata]

/-! ## What is complete in a prefix -/

/-- Where the request ends that CRLF CRLF frames. -/
def crlfEnd (stream : Bytes) : Option Nat :=
  (Bytes.find (ascii "\r\n\r\n") stream).map fun i => i + 4 + contentLength (stream.take i)

/-- Behind the first CRLF CRLF it alone counts. -/
theorem complete_take_crlf {i k : Nat} (hi : Bytes.find (ascii "\r\n\r\n") stream = some i)
    (hk : i + 4 ≤ k) (hle : k ≤ stream.length) :
    complete (stream.take k) = (crlfEnd stream).filter (· ≤ k) := by
  have hwhole : headerEnd stream = some (i, i + 4) := by rw [headerEnd, hi]
  have hend : headerEnd (stream.take k) = some (i, i + 4) := headerEnd_cut hwhole hk
  have htake : (stream.take k).take i = stream.take i := by
    rw [List.take_take, Nat.min_eq_left (by omega)]
  have hlen : (stream.take k).length = k := by
    rw [List.length_take]
    exact Nat.min_eq_left hle
  simp only [complete, hend, Option.bind_some, htake, hlen, crlfEnd, hi, Option.map_some,
    Option.filter_some, decide_eq_true_eq]

/-- Before that, LF LF does. -/
theorem complete_take_lf {k : Nat}
    (hno : ∀ i, Bytes.find (ascii "\r\n\r\n") stream = some i → k < i + 4)
    (hle : k ≤ stream.length) :
    complete (stream.take k) = (lfEnd stream).filter (· ≤ k) := by
  have hnone : Bytes.find (ascii "\r\n\r\n") (stream.take k) = none := by
    rw [Bytes.find_take (by decide), Option.filter_eq_none_iff]
    intro i hi hk
    exact absurd (of_decide_eq_true hk) (Nat.not_le_of_lt (hno i hi))
  have hlen : (stream.take k).length = k := by
    rw [List.length_take]
    exact Nat.min_eq_left hle
  simp only [complete, headerEnd, hnone, Bytes.find_take (by decide : ascii "\n\n" ≠ []), lfEnd]
  cases hfind : Bytes.find (ascii "\n\n") stream with
  | none => rfl
  | some j =>
      have hpat : (ascii "\n\n").length = 2 := rfl
      simp only [Option.map_some, Option.filter_some, hpat, decide_eq_true_eq]
      by_cases hvisible : j + 2 ≤ k
      · have htake : (stream.take k).take j = stream.take j := by
          rw [List.take_take, Nat.min_eq_left (by omega)]
        simp only [hvisible, if_true, Option.map_some, Option.bind_some, htake, hlen]
      · have hlater : ¬j + 2 + contentLength (stream.take j) ≤ k := by omega
        simp only [hvisible, hlater, if_false, Option.map_none, Option.bind_none]

/-! ## Reads and ends -/

/-- A request that is complete from `n` on, and seen to be so by every read that ends less than
`size` bytes behind `n`, is the one that reads of at most `size` bytes take. -/
theorem firstComplete_stable {n size : Nat}
    (hbefore : ∀ k, k ≤ stream.length → k < n → complete (stream.take k) = none)
    (hat : ∀ k, k ≤ stream.length → n ≤ k → k < n + size → complete (stream.take k) = some n)
    (chunks : List Bytes) {data : Bytes} (hstream : data ++ chunks.flatten = stream)
    (hdata : data.length < n) (hsize : ∀ chunk ∈ chunks, chunk.length ≤ size) :
    firstComplete data chunks = if n ≤ stream.length then some (stream.take n) else none := by
  induction chunks generalizing data with
  | nil =>
      have hshort : ¬n ≤ stream.length := by
        rw [← hstream, List.flatten_nil, List.append_nil]
        omega
      rw [if_neg hshort]
      rfl
  | cons chunk chunks ih =>
      obtain ⟨hchunk, hchunks⟩ := List.forall_mem_cons.mp hsize
      rw [List.flatten_cons, ← List.append_assoc] at hstream
      obtain ⟨hstart, hle, hlen⟩ := read_prefix hstream
      rw [firstComplete]
      by_cases hreached : n ≤ (data ++ chunk).length
      · have hcomplete := hat _ hle hreached (by omega)
        rw [← hstart] at hcomplete
        have hn : n ≤ stream.length := by omega
        have htake : (data ++ chunk).take n = stream.take n := by
          rw [hstart, List.take_take, Nat.min_eq_left hreached]
        rw [hcomplete, if_pos hn, ← htake]
      · have hnone := hbefore _ hle (by omega)
        rw [← hstart] at hnone
        rw [hnone]
        exact ih hstream (by omega) hchunks

/-- A request that is taken was complete at the end of a read, the first one or a later one. -/
theorem firstComplete_some {request : Bytes} (chunks : List Bytes) {data chunk : Bytes}
    (hstream : data ++ chunk ++ chunks.flatten = stream)
    (h : firstComplete data (chunk :: chunks) = some request) :
    ∃ k n, (data ++ chunk).length ≤ k ∧ k ≤ stream.length ∧ complete (stream.take k) = some n ∧
      request = (stream.take k).take n := by
  obtain ⟨hstart, hle, -⟩ := read_prefix hstream
  unfold firstComplete at h
  split at h
  · next n hn =>
      rw [hstart] at hn
      refine ⟨_, n, Nat.le_refl _, hle, hn, ?_⟩
      rw [← hstart]
      exact (Option.some.inj h).symm
  · cases chunks with
    | nil => cases h
    | cons next chunks =>
        rw [List.flatten_cons, ← List.append_assoc] at hstream
        obtain ⟨k, n, hk, hrest⟩ := firstComplete_some chunks hstream h
        rw [List.length_append] at hk
        exact ⟨k, n, by omega, hrest⟩

/-- What was not complete may be completed by later reads. -/
theorem firstComplete_append (xs ys : List Bytes) (data : Bytes)
    (h : firstComplete data xs = none) :
    firstComplete data (xs ++ ys) = firstComplete (data ++ xs.flatten) ys := by
  induction xs generalizing data with
  | nil => simp
  | cons x xs ih =>
      unfold firstComplete at h
      split at h
      · cases h
      · next hnone =>
          rw [List.cons_append, firstComplete, hnone]
          simpa using ih _ h

/-! ## Streams whose terminators race -/

/-- Reads of one byte. -/
def byteReads (bytes : Bytes) : List Bytes := bytes.map fun b => [b]

@[simp] theorem flatten_byteReads (bytes : Bytes) : (byteReads bytes).flatten = bytes := by
  induction bytes with
  | nil => rfl
  | cons b bytes ih => simpa [byteReads] using ih

/-- Every read brings one byte. -/
theorem byteReads_small {bytes chunk : Bytes} (h : chunk ∈ byteReads bytes) :
    chunk ≠ [] ∧ chunk.length = 1 := by
  obtain ⟨b, -, rfl⟩ := List.mem_map.mp h
  exact ⟨List.cons_ne_nil _ _, rfl⟩

/-- Reads of one byte, but one read from byte `lo` to byte `hi`. -/
def jumpReads (stream : Bytes) (lo hi : Nat) : List Bytes :=
  byteReads (stream.take lo) ++ (stream.take hi).drop lo :: byteReads (stream.drop hi)

theorem flatten_jumpReads {lo hi : Nat} (h : lo ≤ hi) :
    (jumpReads stream lo hi).flatten = stream := by
  have hlo : stream.take lo = (stream.take hi).take lo := by
    rw [List.take_take, Nat.min_eq_left h]
  simp only [jumpReads, List.flatten_append, List.flatten_cons, flatten_byteReads, hlo]
  rw [← List.append_assoc, List.take_append_drop, List.take_append_drop]

section Race

variable {n i : Nat}

/-- One byte at a time, the request behind LF LF is taken. -/
theorem firstComplete_byteReads (hlf : lfEnd stream = some n) (hpos : 0 < n)
    (hcrlf : Bytes.find (ascii "\r\n\r\n") stream = some i) (hbefore : n < i + 4)
    (hle : n ≤ stream.length) :
    firstComplete [] (byteReads stream) = some (stream.take n) := by
  have hseen : ∀ k, k ≤ stream.length → k < i + 4 →
      complete (stream.take k) = (some n).filter (· ≤ k) := by
    intro k hk hki
    rw [complete_take_lf ?_ hk, hlf]
    intro j hj
    obtain rfl := Option.some.inj (hcrlf.symm.trans hj)
    exact hki
  have hnone : ∀ k, k ≤ stream.length → k < n → complete (stream.take k) = none := by
    intro k hk hkn
    rw [hseen k hk (by omega)]
    simp [Option.filter_some, hkn]
  have hsome : ∀ k, k ≤ stream.length → n ≤ k → k < n + 1 → complete (stream.take k) = some n := by
    intro k hk hnk hkn
    rw [hseen k hk (by omega)]
    simp [Option.filter_some, hnk]
  have hstream : [] ++ (byteReads stream).flatten = stream := by simp
  rw [firstComplete_stable hnone hsome (byteReads stream) hstream hpos fun chunk hchunk =>
    Nat.le_of_eq (byteReads_small hchunk).2, if_pos hle]

/-- A read that jumps over the end of that request and the CRLF CRLF leaves it alone. -/
theorem firstComplete_jumpReads (hlf : lfEnd stream = some n) (hpos : 0 < n)
    (hcrlf : Bytes.find (ascii "\r\n\r\n") stream = some i) (hbefore : n < i + 4)
    (hle : i + 4 ≤ stream.length) :
    firstComplete [] (jumpReads stream (n - 1) (i + 4)) ≠ some (stream.take n) := by
  have hlo : (stream.take (i + 4)).take (n - 1) = stream.take (n - 1) := by
    rw [List.take_take, Nat.min_eq_left (by omega)]
  -- before the jump nothing is complete
  have hfront : firstComplete [] (byteReads (stream.take (n - 1))) = none := by
    cases hreads : byteReads (stream.take (n - 1)) with
    | nil => rfl
    | cons chunk chunks =>
        have hflat : [] ++ chunk ++ chunks.flatten = stream.take (n - 1) := by
          rw [List.nil_append, ← List.flatten_cons, ← hreads, flatten_byteReads]
        cases hfirst : firstComplete [] (chunk :: chunks) with
        | none => rfl
        | some request =>
            obtain ⟨k, m, -, hk, hcomplete, -⟩ := firstComplete_some chunks hflat hfirst
            rw [List.length_take] at hk
            have hkn : ¬n ≤ k := by omega
            rw [List.take_take, Nat.min_eq_left (by omega), complete_take_lf ?_ (by omega), hlf,
              Option.filter_some, decide_eq_false hkn] at hcomplete
            · cases hcomplete
            · intro j hj
              obtain rfl := Option.some.inj (hcrlf.symm.trans hj)
              omega
  rw [jumpReads, firstComplete_append _ _ _ hfront, flatten_byteReads, List.nil_append]
  intro htaken
  have hflat : stream.take (n - 1) ++ (stream.take (i + 4)).drop (n - 1) ++
      (byteReads (stream.drop (i + 4))).flatten = stream := by
    rw [flatten_byteReads, ← hlo, List.take_append_drop, List.take_append_drop]
  obtain ⟨k, m, hk, hkle, hcomplete, hrequest⟩ := firstComplete_some _ hflat htaken
  -- behind it CRLF CRLF frames the request, which is longer
  rw [← hlo, List.take_append_drop, List.length_take, Nat.min_eq_left hle] at hk
  rw [complete_take_crlf hcrlf hk hkle] at hcomplete
  obtain ⟨hend, hmk⟩ := Option.filter_eq_some_iff.mp hcomplete
  simp only [crlfEnd, hcrlf, Option.map_some, Option.some.injEq] at hend
  have hmk' : m ≤ k := of_decide_eq_true hmk
  have hlen := congrArg List.length hrequest
  simp only [List.length_take] at hlen
  omega

end Race

theorem lfEnd_pos {n : Nat} (h : lfEnd stream = some n) : 0 < n := by
  obtain ⟨j, -, rfl⟩ := Option.map_eq_some_iff.mp h
  omega

/-- Without a race there is one end that every read of at most 8192 bytes which passes it sees. -/
theorem stable_of_not_race (h : ¬TerminatorsRace stream) : ∃ n, 0 < n ∧
    (∀ k, k ≤ stream.length → k < n → complete (stream.take k) = none) ∧
    ∀ k, k ≤ stream.length → n ≤ k → k < n + readSize → complete (stream.take k) = some n := by
  cases hcrlf : Bytes.find (ascii "\r\n\r\n") stream with
  | none =>
      have hlf : ∀ k, k ≤ stream.length →
          complete (stream.take k) = (lfEnd stream).filter (· ≤ k) := by
        intro k hk
        apply complete_take_lf _ hk
        intro i hi
        rw [hcrlf] at hi
        cases hi
      cases hend : lfEnd stream with
      | none =>
          refine ⟨stream.length + 1, Nat.succ_pos _, fun k hk _ => ?_, fun k hk hnk => ?_⟩
          · rw [hlf k hk, hend]
            rfl
          · omega
      | some n =>
          refine ⟨n, lfEnd_pos hend, fun k hk hkn => ?_, fun k hk hnk _ => ?_⟩
          · rw [hlf k hk, hend]
            simp [Option.filter_some, hkn]
          · rw [hlf k hk, hend]
            simp [Option.filter_some, hnk]
  | some i =>
      have hlf : ∀ k, k ≤ stream.length → k < i + 4 →
          complete (stream.take k) = (lfEnd stream).filter (· ≤ k) := by
        intro k hk hki
        apply complete_take_lf _ hk
        intro j hj
        obtain rfl := Option.some.inj (hcrlf.symm.trans hj)
        exact hki
      by_cases hfirst : ∃ n, lfEnd stream = some n ∧ n < i + 4
      -- LF LF ends its request first, and no read reaches from before it behind the CRLF CRLF
      · obtain ⟨n, hend, hn⟩ := hfirst
        have hfar : n + readSize ≤ i + 4 := by
          by_contra hnear
          exact h ⟨n, i, hend, hcrlf, hn, by omega⟩
        refine ⟨n, lfEnd_pos hend, fun k hk hkn => ?_, fun k hk hnk hkn => ?_⟩
        · rw [hlf k hk (by omega), hend]
          simp [Option.filter_some, hkn]
        · rw [hlf k hk (by omega), hend]
          simp [Option.filter_some, hnk]
      -- CRLF CRLF is there before a request behind LF LF is complete
      · have hend : crlfEnd stream = some (i + 4 + contentLength (stream.take i)) := by
          rw [crlfEnd, hcrlf]
          rfl
        refine ⟨i + 4 + contentLength (stream.take i), by omega, fun k hk hkn => ?_,
          fun k hk hnk _ => ?_⟩
        · by_cases hki : i + 4 ≤ k
          · rw [complete_take_crlf hcrlf hki hk, hend]
            simp [Option.filter_some, hkn]
          · rw [hlf k hk (by omega), Option.filter_eq_none_iff]
            intro n hn hnk
            have hnk' : n ≤ k := of_decide_eq_true hnk
            exact hfirst ⟨n, hn, by omega⟩
        · rw [complete_take_crlf hcrlf (by omega) hk, hend]
          simp [Option.filter_some, hnk]

/-- **Framing does not depend on the split** of a stream of at most 1 MiB with valid Content-Length
values, except where its terminators race. -/
theorem framing_split_iff (dispatcher : Option DispatchFunction) (stream : Bytes)
    (hsize : stream.length ≤ maxRequestSize) (hparses : ∀ n, LengthParses (stream.take n)) :
    (∀ chunks chunks', Splits stream chunks → Splits stream chunks' →
      framed readXml dispatcher chunks = framed readXml dispatcher chunks') ↔
      ¬TerminatorsRace stream := by
  have hframed : ∀ {chunks : List Bytes}, chunks.flatten = stream →
      framed readXml dispatcher chunks = firstComplete [] chunks := fun hflat =>
    passed_session readXml dispatcher _ (by rw [List.nil_append]; exact hflat) hsize hparses
  constructor
  · rintro hsame ⟨n, i, hlf, hcrlf, hbefore, hnear⟩
    have hpos := lfEnd_pos hlf
    have hle : i + 4 ≤ stream.length := Bytes.find_length (by decide) hcrlf
    have hread : 1 ≤ readSize := by decide
    have hbytes : Splits stream (byteReads stream) := by
      refine ⟨flatten_byteReads stream, fun chunk hchunk => ?_⟩
      obtain ⟨hne, hone⟩ := byteReads_small hchunk
      exact ⟨hne, by omega⟩
    have hjump : Splits stream (jumpReads stream (n - 1) (i + 4)) := by
      refine ⟨flatten_jumpReads (by omega), fun chunk hchunk => ?_⟩
      rcases List.mem_append.mp hchunk with hfront | hrest
      · obtain ⟨hne, hone⟩ := byteReads_small hfront
        exact ⟨hne, by omega⟩
      · rcases List.mem_cons.mp hrest with rfl | hback
        · have hlen : ((stream.take (i + 4)).drop (n - 1)).length = i + 4 - (n - 1) := by
            rw [List.length_drop, List.length_take, Nat.min_eq_left hle]
          refine ⟨fun hnil => ?_, by omega⟩
          rw [hnil, List.length_nil] at hlen
          omega
        · obtain ⟨hne, hone⟩ := byteReads_small hback
          exact ⟨hne, by omega⟩
    have hboth := hsame _ _ hbytes hjump
    rw [hframed hbytes.1, hframed hjump.1,
      firstComplete_byteReads hlf hpos hcrlf hbefore (by omega)] at hboth
    exact firstComplete_jumpReads hlf hpos hcrlf hbefore hle hboth.symm
  · intro hrace chunks chunks' hsplit hsplit'
    obtain ⟨n, hpos, hnone, hsome⟩ := stable_of_not_race hrace
    have hone : ∀ {chunks : List Bytes}, Splits stream chunks → firstComplete [] chunks =
        if n ≤ stream.length then some (stream.take n) else none := fun hs =>
      firstComplete_stable hnone hsome _ (by rw [List.nil_append]; exact hs.1) hpos
        fun chunk hchunk => (hs.2 chunk hchunk).2
    rw [hframed hsplit.1, hframed hsplit'.1, hone hsplit, hone hsplit']

/-- A stream without the field has only prefixes without it. -/
theorem lengthParses_take (h : Bytes.ifind (ascii "content-length:") stream = none) (n : Nat) :
    LengthParses (stream.take n) := by
  intro e _ value hvalue
  have hnone : contentLengthField ((stream.take n).take e.1) = none := by
    have hfind : Bytes.ifind (ascii "content-length:") ((stream.take n).take e.1) = none := by
      rw [List.take_take, Bytes.ifind, List.map_take, Bytes.find_take (by decide)]
      unfold Bytes.ifind at h
      rw [h]
      rfl
    rw [contentLengthField, hfind]
    rfl
  rw [hnone] at hvalue
  cases hvalue

/-- A line, and the CRLF CRLF in two reads or in one. -/
theorem framing_split_crlf :
    framed (fun _ => .error []) none [[65, 13, 10], [13, 10]] =
      framed (fun _ => .error []) none [[65, 13, 10, 13, 10]] := by
  have hno : ¬TerminatorsRace [65, 13, 10, 13, 10] := by
    rintro ⟨n, i, hlf, -⟩
    have hnone : lfEnd [65, 13, 10, 13, 10] = none := by decide
    rw [hnone] at hlf
    cases hlf
  refine (framing_split_iff (fun _ => .error []) none [65, 13, 10, 13, 10] (by decide)
    (lengthParses_take (by decide))).mpr hno _ _ ⟨rfl, ?_⟩ ⟨rfl, ?_⟩
  · decide
  · decide

/-- A header block that ends in LF LF and a CRLF CRLF right behind it: in one read the request is
all of it, byte by byte it is the header block alone. -/
theorem framing_depends_on_split :
    (∀ n, LengthParses (([65, 10, 10, 13, 10, 13, 10] : Bytes).take n)) ∧
      Splits [65, 10, 10, 13, 10, 13, 10] [[65, 10, 10, 13, 10, 13, 10]] ∧
      Splits [65, 10, 10, 13, 10, 13, 10] [[65], [10], [10], [13], [10], [13], [10]] ∧
      framed (fun _ => .error []) none [[65, 10, 10, 13, 10, 13, 10]] =
        some [65, 10, 10, 13, 10, 13, 10] ∧
      framed (fun _ => .error []) none [[65], [10], [10], [13], [10], [13], [10]] =
        some [65, 10, 10] := by
  refine ⟨lengthParses_take (by decide), ⟨rfl, ?_⟩, ⟨rfl, ?_⟩, ?_, ?_⟩
  · decide
  · decide
  · decide
  · decide

end RpcConnection

end Supervisorcpp
