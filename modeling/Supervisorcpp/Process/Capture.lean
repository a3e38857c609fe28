/-
# From the child's output to the log files

The whole way of a byte: the child writes it into the pipe, a read of `stdout_stream_` or
`stderr_stream_` takes it out, the completion handler hands it to the log writer, and the log writer
puts it in its files. `Process.Streams` has the reads and `Logger.LogWriter` the files; here the pipe
decides how a read completes, and the calls of the handlers are what the log writer is given.

Only the pipe of the open stream counts: a pipe whose read end is closed takes no more bytes.
-/
import Supervisorcpp.Lib.Bytes
import Supervisorcpp.Logger.Retention
import Supervisorcpp.Process.Streams

namespace Supervisorcpp

/-! ## The pipes -/

/-- The streams of a process, with the pipe of each channel's open stream. -/
structure Capture where
  streams : Streams
  unread : Fd → Bytes
  /-- the last writer of the pipe has closed it -/
  hungUp : Fd → Bool
  /-- ghost: everything the children wrote on the channel -/
  written : Fd → Bytes

/-- What happens on the way of the bytes: at the daemon's end, and at the child's. -/
inductive CaptureInput where
  | spawn (stdoutSetUp stderrSetUp : Bool)
  /-- the child, or a descendant, writes -/
  | output (fd : Fd) (bytes : Bytes)
  | hangUp (fd : Fd)
  /-- read `k` takes `n` bytes out of the pipe -/
  | readable (fd : Fd) (k n : Nat)
  /-- read `k` finds the end -/
  | ended (fd : Fd) (k : Nat)
  /-- read `k` fails -/
  | broken (fd : Fd) (k : Nat)
  | deliver (fd : Fd) (k : Nat)
  | destroy

/-- `stdout_buffer_` and `stderr_buffer_`. -/
def readBuffer : Nat := 4096

namespace Capture

/-- The pipe of the open stream can be written to. -/
def writable (s : Capture) (fd : Fd) : Bool :=
  (s.streams.channel fd).isOpen && (s.streams.channel fd).stream.isSome && !s.hungUp fd

/-- A new stream reads from a new pipe. -/
def freshPipe (config : ProgramConfig) (stdoutSetUp stderrSetUp : Bool) (fd : Fd) : Bool :=
  Streams.captured config fd && match fd with
    | .stdout => stdoutSetUp
    | .stderr => stderrSetUp

/-- One step. A read completes with what is in the pipe: some of it where there is something, the
end where the last writer is gone, an error at any time. There is no step for what cannot happen. -/
def step (config : ProgramConfig) (s : Capture) : CaptureInput → Option Capture
  | .spawn out err =>
    (Streams.step config s.streams (.spawn out err)).map fun streams =>
      { s with
        streams := streams
        unread := fun fd => if freshPipe config out err fd then [] else s.unread fd
        hungUp := fun fd => if freshPipe config out err fd then false else s.hungUp fd }
  | .output fd bytes =>
    if s.writable fd then
      some { s with
        unread := Function.update s.unread fd (s.unread fd ++ bytes)
        written := Function.update s.written fd (s.written fd ++ bytes) }
    else none
  | .hangUp fd =>
    if s.writable fd then some { s with hungUp := Function.update s.hungUp fd true } else none
  | .readable fd k n =>
    if 0 < n ∧ n ≤ readBuffer ∧ n ≤ (s.unread fd).length then
      (Streams.step config s.streams (.complete fd k (.data ((s.unread fd).take n)))).map
        fun streams =>
          { s with
            streams := streams
            unread := Function.update s.unread fd ((s.unread fd).drop n) }
    else none
  | .ended fd k =>
    if s.unread fd = [] ∧ s.hungUp fd = true then
      (Streams.step config s.streams (.complete fd k .eof)).map fun streams =>
        { s with streams := streams }
    else none
  | .broken fd k =>
    (Streams.step config s.streams (.complete fd k .error)).map fun streams =>
      { s with streams := streams }
  | .deliver fd k =>
    (Streams.step config s.streams (.deliver fd k)).map fun streams => { s with streams := streams }
  | .destroy =>
    (Streams.step config s.streams .destroy).map fun streams => { s with streams := streams }

/-- The process has just been created. -/
structure Initial (s : Capture) : Prop where
  streams : s.streams = Streams.init
  unread : ∀ fd, s.unread fd = []
  written : ∀ fd, s.written fd = []

/-- No read of a pipe fails, and a spawn finds no read of an earlier stream in flight. -/
def calm (config : ProgramConfig) (s : Capture) : CaptureInput → Bool
  | .spawn out err => spawnsDrained config s.streams (.spawn out err)
  | .broken _ _ => false
  | _ => true

end Capture

/-! ## What is on its way -/

/-- The bytes a completed read carries. -/
def Read.bytes (r : Read) : Bytes :=
  match r.result with
  | some (.data bytes) => bytes
  | _ => []

/-- The bytes a call logs. -/
def LogCall.bytes : LogCall → Bytes
  | .write bytes => bytes
  | .flush => []

namespace Channel

/-- Taken out of the pipe, and not yet with the log writer. -/
def inFlight (c : Channel) : Bytes := c.reads.flatMap Read.bytes

/-- Handed to the log writer, in order. -/
def logged (c : Channel) : Bytes := c.log.reverse.flatMap LogCall.bytes

@[simp] theorem logged_write (c : Channel) (bytes : Bytes) (log : List LogCall) :
    ({ c with log := .write bytes :: log } : Channel).logged =
      ({ c with log := log } : Channel).logged ++ bytes := by
  simp [logged, LogCall.bytes]

@[simp] theorem logged_flush (c : Channel) (log : List LogCall) :
    ({ c with log := .flush :: log } : Channel).logged = ({ c with log := log } : Channel).logged := by
  simp [logged, LogCall.bytes]

/-! ## The invariant of a channel -/

/-- Of what was written, some is logged, some in flight and the rest in the pipe; only an empty pipe
whose writers are gone ends a stream, and what ends it flushes the log. -/
structure Flows (c : Channel) (unread : Bytes) (hungUp : Bool) (written : Bytes) : Prop where
  sum : c.logged ++ c.inFlight ++ unread = written
  calm : ∀ r ∈ c.reads, r.result ≠ some .error ∧ r.result ≠ some .aborted
  ended : ∀ r ∈ c.reads, r.result = some .eof → unread = [] ∧ hungUp = true
  shut : c.Shut → unread = []
  flushed : c.Shut → c.log = [] ∨ c.log.head? = some .flush

variable {c c' : Channel} {unread bytes written : Bytes} {hungUp : Bool} {k n : Nat}

/-- A new stream on a drained channel has one read waiting. -/
theorem install_startRead (hdrained : c.reads = []) : c.install.startRead = { c with
    stream := some c.nextStream
    isOpen := true
    reads := [⟨c.nextStream, none⟩]
    nextStream := c.nextStream + 1 } := by
  simp [install, startRead, hdrained, cancel]

/-- A new stream, once the pipe before it is drained. -/
theorem Flows.install (h : c.Flows unread hungUp written) (htidy : c.Tidy true)
    (hdrained : c.reads = []) : c.install.startRead.Flows [] false written := by
  have hshut : c.Shut := by
    by_contra hno
    rw [Shut, not_or] at hno
    obtain ⟨s, hs⟩ := Option.ne_none_iff_exists'.mp hno.1
    obtain ⟨r, hr, -⟩ := htidy.opened s hs (by simpa using hno.2)
    rw [hdrained] at hr
    cases hr
  have hsum := h.sum
  rw [h.shut hshut, inFlight, hdrained] at hsum
  rw [install_startRead hdrained]
  refine ⟨?_, by simp, by simp, fun hsh => absurd hsh (not_shut rfl rfl),
    fun hsh => absurd hsh (not_shut rfl rfl)⟩
  simpa [logged, inFlight, Read.bytes] using hsum

/-- The child writes: the bytes are in the pipe. -/
theorem Flows.output (h : c.Flows unread hungUp written) (hopen : ¬ c.Shut) (hhung : hungUp = false)
    (bytes : Bytes) : c.Flows (unread ++ bytes) hungUp (written ++ bytes) := by
  refine ⟨by rw [← h.sum, List.append_assoc, List.append_assoc, List.append_assoc], h.calm,
    fun r hr hres => ?_, fun hsh => absurd hsh hopen, h.flushed⟩
  rw [hhung] at h
  exact absurd (h.ended r hr hres).2 (by simp)

/-- The last writer closes the pipe. -/
theorem Flows.hangUp (h : c.Flows unread hungUp written) : c.Flows unread true written :=
  ⟨h.sum, h.calm, fun r hr hres => ⟨(h.ended r hr hres).1, rfl⟩, h.shut, h.flushed⟩

/-- The one read of the open stream completes. -/
theorem complete_one (htidy : c.Tidy true) {result : Completion}
    (hc : c.complete k result = some c') : ∃ r, c.reads = [r] ∧ r.result = none ∧ ¬ c.Shut ∧
      c' = { c with reads := [{ r with result := some result }] } := by
  obtain ⟨r, hr, hc⟩ := Option.bind_eq_some_iff.mp hc
  split at hc
  · next hwait =>
      obtain ⟨hnone, hstream, hopen, -⟩ := hwait
      obtain ⟨r₀, hreads, -⟩ := htidy.opened _ hstream hopen
      rw [hreads] at hr
      cases k with
      | zero =>
          obtain rfl : r₀ = r := by simpa using hr
          refine ⟨r₀, hreads, hnone, not_shut hstream hopen, ?_⟩
          rw [← Option.some.inj hc, hreads]
          rfl
      | succ k => simp at hr
  · cases hc

/-- A read takes bytes out of the pipe; they are in flight then. -/
theorem Flows.readable (h : c.Flows unread hungUp written) (htidy : c.Tidy true)
    (hc : c.complete k (.data (unread.take n)) = some c') :
    c'.Flows (unread.drop n) hungUp written := by
  obtain ⟨r, hreads, hnone, hopen, rfl⟩ := complete_one htidy hc
  have hsum := h.sum
  rw [inFlight, hreads] at hsum
  refine ⟨?_, by simp, by simp, fun hsh => absurd hsh hopen, h.flushed⟩
  simpa [logged, inFlight, Read.bytes, hnone] using hsum

/-- A read finds the end: the pipe is empty and stays so. -/
theorem Flows.end (h : c.Flows unread hungUp written) (htidy : c.Tidy true)
    (hended : unread = [] ∧ hungUp = true) (hc : c.complete k .eof = some c') :
    c'.Flows unread hungUp written := by
  obtain ⟨r, hreads, hnone, hopen, rfl⟩ := complete_one htidy hc
  have hsum := h.sum
  rw [inFlight, hreads] at hsum
  refine ⟨?_, by simp, fun _ _ _ => hended, fun hsh => absurd hsh hopen, h.flushed⟩
  simpa [logged, inFlight, Read.bytes, hnone] using hsum

/-- A handler of the living object. -/
theorem Flows.handle (h : c.Flows unread hungUp written) (htidy : c.Tidy true) {r : Read}
    {result : Completion} (hc : c.take k = some (r, result, c')) :
    (c'.handleRead r.stream result).Flows unread hungUp written := by
  obtain ⟨r₀, hr, hc⟩ := Option.bind_eq_some_iff.mp hc
  obtain ⟨result₀, hres, hc⟩ := Option.map_eq_some_iff.mp hc
  obtain ⟨rfl, rfl, rfl⟩ : r₀ = r ∧ result₀ = result ∧ _ = c' := by simpa using hc
  obtain ⟨hstream, hopen, herase⟩ := htidy.current hr
  have hin := List.mem_of_getElem? hr
  obtain ⟨r₁, hreads, -⟩ := htidy.opened _ hstream hopen
  obtain rfl : r₀ = r₁ := by
    rw [hreads] at hin
    exact List.mem_singleton.mp hin
  have hsum := h.sum
  rw [inFlight, hreads] at hsum
  rw [herase]
  cases result₀ with
  | data bytes =>
      have hgo : ∀ log, startRead { c with reads := [], log := log } =
          { c with reads := [⟨r₀.stream, none⟩], log := log } := by
        intro log
        simp [startRead, hstream, hopen]
      have hopen' : ∀ log, ¬ ({ c with reads := [⟨r₀.stream, none⟩], log := log } : Channel).Shut :=
        fun _ => not_shut hstream hopen
      unfold handleRead
      dsimp only
      split
      · next hempty =>
          have hnil : bytes = [] := List.isEmpty_iff.mp hempty
          rw [hgo c.log]
          refine ⟨?_, by simp, by simp, fun hsh => absurd hsh (hopen' _),
            fun hsh => absurd hsh (hopen' _)⟩
          simpa [logged, inFlight, Read.bytes, hres, hnil] using hsum
      · rw [hgo (.write bytes :: c.log)]
        refine ⟨?_, by simp, by simp, fun hsh => absurd hsh (hopen' _),
          fun hsh => absurd hsh (hopen' _)⟩
        simpa [logged, inFlight, Read.bytes, hres, LogCall.bytes] using hsum
  | eof =>
      simp only [handleRead, hstream, hopen, close, cancel]
      refine ⟨?_, by simp, by simp, fun _ => (h.ended r₀ hin hres).1, fun _ => .inr rfl⟩
      simpa [logged, inFlight, Read.bytes, hres, LogCall.bytes] using hsum
  | error => exact absurd hres (h.calm r₀ hin).1
  | aborted => exact absurd hres (h.calm r₀ hin).2

/-- Handed over and on its way, what the object has taken begins what was written; once the object is
gone, what it had not handed over is lost. -/
def Kept (c : Channel) (written : Bytes) : Prop := c.logged <+: written

/-- What flows is kept. -/
theorem Flows.kept (h : c.Flows unread hungUp written) : c.Kept written :=
  ⟨c.inFlight ++ unread, by rw [← List.append_assoc, h.sum]⟩

theorem Kept.destroy (h : c.Kept written) : c.destroy.Kept written := by
  unfold Channel.destroy
  split
  · exact h
  · exact h

/-- A completion logs nothing, only its handler does. -/
theorem logged_complete {result : Completion} (hc : c.complete k result = some c') :
    c'.logged = c.logged := by
  obtain ⟨r, -, hc⟩ := Option.bind_eq_some_iff.mp hc
  split at hc
  · rw [← Option.some.inj hc]
    rfl
  · cases hc

end Channel

/-! ## Runs -/

namespace Streams

variable {s s' : Streams} {i : StreamInput}

/-- A spawn puts a new stream into the channels it makes a pipe for. -/
theorem channel_spawn (config : ProgramConfig) (s : Streams) (out err : Bool) (fd : Fd) :
    (s.spawn config out err).channel fd =
      if Capture.freshPipe config out err fd then (s.channel fd).install.startRead
      else s.channel fd := by
  unfold Streams.spawn
  cases fd with
  | stdout =>
      show _ = if (captured config .stdout && out) = true then _ else _
      split_ifs <;> rfl
  | stderr =>
      show _ = if (captured config .stderr && err) = true then _ else _
      split_ifs <;> rfl

theorem alive_setChannel (s : Streams) (c : Channel) (fd : Fd) :
    (s.setChannel c fd).alive = s.alive := by
  cases fd <;> rfl

end Streams

namespace Capture

variable {config : ProgramConfig} {s s' : Capture} {i : CaptureInput}

/-- The channels are tidy; while the object lives every byte is accounted for, and afterwards the
log has a front part of what was written. -/
structure Sound (s : Capture) : Prop where
  tidy : s.streams.Tidy
  flows : s.streams.alive = true → ∀ fd,
    (s.streams.channel fd).Flows (s.unread fd) (s.hungUp fd) (s.written fd)
  kept : ∀ fd, (s.streams.channel fd).Kept (s.written fd)

/-- A step of the living object that keeps the channels tidy and every byte. -/
theorem Sound.of_flows (htidy : s.streams.Tidy)
    (h : ∀ fd, (s.streams.channel fd).Flows (s.unread fd) (s.hungUp fd) (s.written fd)) :
    Sound s := ⟨htidy, fun _ => h, fun fd => (h fd).kept⟩

theorem Sound.tidy_channel (h : Sound s) (halive : s.streams.alive = true) (fd : Fd) :
    (s.streams.channel fd).Tidy true := by
  have hfd := h.tidy fd
  rwa [halive] at hfd

/-- A spawn that finds the channels drained. -/
theorem Sound.spawn (h : Sound s) {out err : Bool} (hcalm : calm config s (.spawn out err) = true)
    (hstep : step config s (.spawn out err) = some s') : Sound s' := by
  obtain ⟨streams, hstreams, rfl⟩ := Option.map_eq_some_iff.mp hstep
  have htidy : streams.Tidy := h.tidy.step (i := .spawn out err) hcalm hstreams
  obtain ⟨halive, hspawn⟩ := Option.ite_none_right_eq_some.mp hstreams
  refine .of_flows htidy fun fd => ?_
  obtain rfl := Option.some.inj hspawn
  simp only [Streams.channel_spawn]
  split
  · next hfresh =>
      have hdrained : (s.streams.channel fd).reads = [] := by
        simp only [calm, spawnsDrained, Bool.and_eq_true, Bool.or_eq_true, Bool.not_eq_true',
          List.isEmpty_iff] at hcalm
        cases fd with
        | stdout => exact hcalm.1.resolve_left (by rw [show (_ && _) = true from hfresh]; simp)
        | stderr => exact hcalm.2.resolve_left (by rw [show (_ && _) = true from hfresh]; simp)
      exact (h.flows halive fd).install (h.tidy_channel halive fd) hdrained
  · exact h.flows halive fd

/-- The child writes. -/
theorem Sound.output (h : Sound s) {fd : Fd} {bytes : Bytes}
    (hstep : step config s (.output fd bytes) = some s') : Sound s' := by
  obtain ⟨hwritable, heq⟩ := Option.ite_none_right_eq_some.mp hstep
  obtain rfl := Option.some.inj heq
  have hopen : ¬ (s.streams.channel fd).Shut ∧ s.hungUp fd = false := by
    simp only [writable, Bool.and_eq_true, Bool.not_eq_true'] at hwritable
    obtain ⟨⟨hopen, hsome⟩, hhung⟩ := hwritable
    obtain ⟨stream, hstream⟩ := Option.isSome_iff_exists.mp hsome
    exact ⟨Channel.not_shut hstream hopen, hhung⟩
  refine ⟨h.tidy, fun halive fd' => ?_, fun fd' => ?_⟩
  · by_cases hfd : fd' = fd
    · subst hfd
      simpa using (h.flows halive fd').output hopen.1 hopen.2 bytes
    · simpa [hfd] using h.flows halive fd'
  · by_cases hfd : fd' = fd
    · subst hfd
      simpa [Channel.Kept] using (h.kept fd').trans (List.prefix_append _ bytes)
    · simpa [hfd] using h.kept fd'

/-- The pipe is closed at the other end. -/
theorem Sound.hangUp (h : Sound s) {fd : Fd} (hstep : step config s (.hangUp fd) = some s') :
    Sound s' := by
  obtain ⟨-, heq⟩ := Option.ite_none_right_eq_some.mp hstep
  obtain rfl := Option.some.inj heq
  refine ⟨h.tidy, fun halive fd' => ?_, h.kept⟩
  by_cases hfd : fd' = fd
  · subst hfd
    simpa using (h.flows halive fd').hangUp
  · simpa [hfd] using h.flows halive fd'

/-- One channel changes, and of the pipes only its own. -/
theorem Sound.setChannel (h : Sound s) {c : Channel} {fd : Fd} (unread : Bytes)
    (htidy : (s.streams.setChannel c fd).Tidy)
    (hflows : s.streams.alive = true → c.Flows unread (s.hungUp fd) (s.written fd))
    (hkept : c.Kept (s.written fd)) :
    Sound { s with
      streams := s.streams.setChannel c fd
      unread := Function.update s.unread fd unread } := by
  refine ⟨htidy, fun halive fd' => ?_, fun fd' => ?_⟩
  · rw [Streams.alive_setChannel] at halive
    rw [Streams.channel_setChannel]
    by_cases hfd : fd' = fd
    · subst hfd
      simpa using hflows halive
    · simpa [hfd] using h.flows halive fd'
  · rw [Streams.channel_setChannel]
    by_cases hfd : fd' = fd
    · subst hfd
      simpa using hkept
    · simpa [hfd] using h.kept fd'

/-- A read completes. -/
theorem Sound.complete (h : Sound s) {fd : Fd} {k : Nat} {result : Completion} {streams : Streams}
    (unread : Bytes) (hc : Streams.step config s.streams (.complete fd k result) = some streams)
    (hflows : ∀ c, (s.streams.channel fd).complete k result = some c → s.streams.alive = true →
      c.Flows unread (s.hungUp fd) (s.written fd)) :
    Sound { s with
      streams := streams
      unread := Function.update s.unread fd unread } := by
  have htidy : streams.Tidy := h.tidy.step (i := .complete fd k result) rfl hc
  obtain ⟨c, hcomplete, rfl⟩ := Option.map_eq_some_iff.mp hc
  refine h.setChannel unread htidy (hflows c hcomplete) ?_
  rw [Channel.Kept, Channel.logged_complete hcomplete]
  exact h.kept fd

/-- A read completes with bytes. -/
theorem Sound.readable (h : Sound s) {fd : Fd} {k n : Nat}
    (hstep : step config s (.readable fd k n) = some s') : Sound s' := by
  obtain ⟨-, heq⟩ := Option.ite_none_right_eq_some.mp hstep
  obtain ⟨streams, hc, rfl⟩ := Option.map_eq_some_iff.mp heq
  exact h.complete _ hc fun c hcomplete halive =>
    (h.flows halive fd).readable (h.tidy_channel halive fd) hcomplete

/-- A read completes at the end. -/
theorem Sound.ended (h : Sound s) {fd : Fd} {k : Nat}
    (hstep : step config s (.ended fd k) = some s') : Sound s' := by
  obtain ⟨hended, heq⟩ := Option.ite_none_right_eq_some.mp hstep
  obtain ⟨streams, hc, rfl⟩ := Option.map_eq_some_iff.mp heq
  have hsound := h.complete (s.unread fd) hc fun c hcomplete halive =>
    (h.flows halive fd).end (h.tidy_channel halive fd) hended hcomplete
  rwa [Function.update_eq_self] at hsound

/-- The handler of a living object is its own stream's; that of a dead one does nothing. -/
theorem Sound.deliver (h : Sound s) {fd : Fd} {k : Nat}
    (hstep : step config s (.deliver fd k) = some s') : Sound s' := by
  obtain ⟨streams, hdeliver, rfl⟩ := Option.map_eq_some_iff.mp hstep
  have htidy : streams.Tidy := h.tidy.step (i := .deliver fd k) rfl hdeliver
  obtain ⟨⟨r, result, c⟩, htake, rfl⟩ := Option.map_eq_some_iff.mp hdeliver
  rw [Streams.runHandler_setChannel] at htidy ⊢
  have hflows : s.streams.alive = true →
      (c.handleRead r.stream result).Flows (s.unread fd) (s.hungUp fd) (s.written fd) :=
    fun halive => (h.flows halive fd).handle (h.tidy_channel halive fd) htake
  have hsound := h.setChannel (s.unread fd) htidy
    (fun halive => by simpa [halive] using hflows halive)
    (by
      split
      · next halive => exact (hflows halive).kept
      · rw [(Channel.take_eq_some htake).2]
        exact h.kept fd)
  rwa [Function.update_eq_self] at hsound

/-- The object is destroyed. -/
theorem Sound.destroy (h : Sound s) (hstep : step config s .destroy = some s') : Sound s' := by
  obtain ⟨streams, hdestroy, rfl⟩ := Option.map_eq_some_iff.mp hstep
  have htidy : streams.Tidy := h.tidy.step (i := .destroy) rfl hdestroy
  obtain ⟨-, heq⟩ := Option.ite_none_right_eq_some.mp hdestroy
  obtain rfl := Option.some.inj heq
  refine ⟨htidy, by simp, fun fd => ?_⟩
  have hkept := h.kept fd
  cases fd with
  | stdout => exact hkept.destroy
  | stderr => exact hkept.destroy

/-- Every calm step keeps the channels sound. -/
theorem Sound.step (h : Sound s) (hcalm : calm config s i = true)
    (hstep : Capture.step config s i = some s') : Sound s' := by
  cases i with
  | spawn out err => exact h.spawn hcalm hstep
  | output fd bytes => exact h.output hstep
  | hangUp fd => exact h.hangUp hstep
  | readable fd k n => exact h.readable hstep
  | ended fd k => exact h.ended hstep
  | broken fd k => cases hcalm
  | deliver fd k => exact h.deliver hstep
  | destroy => exact h.destroy hstep

end Capture

/-! ## The log files -/

/-- The call a handler makes on the log writer. -/
def LogCall.call : LogCall → LogWriter.Call
  | .write bytes => .write bytes
  | .flush => .flush

namespace LogWriter

variable {w : LogWriter} {calls : List (Call × Io)}

end LogWriter

end Supervisorcpp
