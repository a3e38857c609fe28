/-
# Capturing a child's output

The reading half of `process.cpp`: `spawn_` puts a stream descriptor for the new child's pipe in
`stdout_stream_` and starts a read; the completion handler writes to the log and starts the next
read, or closes the stream. A read in flight is a message tagged with the stream it was issued on.
The handler does not know that tag: it acts on whatever stream the member holds when it runs.

Closing or destroying a descriptor cancels its waiting read, whose handler is then run with
`operation_aborted`; a read whose completion is already queued keeps its result. stdout and stderr
are two instances of one channel.
-/
import Supervisorcpp.Config.Types
import Supervisorcpp.Lib.Machine

namespace Supervisorcpp

/-! ## One channel -/

/-- Serial number of a stream descriptor, one for each spawn. -/
abbrev StreamId := Nat

/-- How an `async_read_some` completes. -/
inductive Completion where
  | data (bytes : List UInt8)
  | eof
  | error
  | aborted
  deriving DecidableEq, Repr

/-- A read in flight; `none` while it waits for data. -/
structure Read where
  stream : StreamId
  result : Option Completion
  deriving DecidableEq, Repr

/-- Calls on the log writer. -/
inductive LogCall where
  | write (bytes : List UInt8)
  | flush
  deriving DecidableEq, Repr

/-- `stdout_stream_` or `stderr_stream_` with its reads in flight. -/
structure Channel where
  stream : Option StreamId
  isOpen : Bool
  reads : List Read
  nextStream : StreamId
  /-- calls on the log writer, newest first -/
  log : List LogCall
  /-- ghost: the streams a completion handler closed, each with the stream of that read -/
  closings : List (StreamId × StreamId)
  deriving DecidableEq, Repr

namespace Channel

/-- No stream has been installed. -/
def init : Channel := ⟨none, false, [], 0, [], []⟩

/-- Cancelling the operations of stream `s`. -/
def cancel (s : Option StreamId) (reads : List Read) : List Read :=
  reads.map fun r =>
    if some r.stream = s ∧ r.result = none then { r with result := some .aborted } else r

/-- `close()` on an open stream. -/
def close (c : Channel) : Channel :=
  { c with isOpen := false, reads := cancel c.stream c.reads }

/-- Start a read on the stream the member holds, if it is open. -/
def startRead (c : Channel) : Channel :=
  match c.stream, c.isOpen with
  | some s, true => { c with reads := c.reads ++ [⟨s, none⟩] }
  | _, _ => c

/-- Handle a completion; `cause` is the stream of the read, which the code does not look at. -/
def handleRead (c : Channel) (cause : StreamId) : Completion → Channel
  | .data bytes =>
    let c := if bytes.isEmpty then c else { c with log := .write bytes :: c.log }
    c.startRead
  | _ =>
    let c := match c.stream, c.isOpen with
      | some s, true => { c.close with closings := (s, cause) :: c.closings }
      | _, _ => c
    { c with log := .flush :: c.log }

/-- A new descriptor replaces the old one, which is destroyed. -/
def install (c : Channel) : Channel :=
  { c with
    stream := some c.nextStream
    isOpen := true
    reads := cancel c.stream c.reads
    nextStream := c.nextStream + 1 }

/-- `~Process` closes the stream. -/
def destroy (c : Channel) : Channel :=
  if c.stream.isSome && c.isOpen then c.close else c

/-- The operating system completes read `k`, which waits on an open stream. -/
def complete (c : Channel) (k : Nat) (result : Completion) : Option Channel :=
  (c.reads[k]?).bind fun r =>
    if r.result = none ∧ c.stream = some r.stream ∧ c.isOpen = true ∧ result ≠ .aborted then
      some { c with reads := c.reads.set k { r with result := some result } }
    else none

/-- The event loop takes read `k`, which has completed, out of flight. -/
def take (c : Channel) (k : Nat) : Option (Read × Completion × Channel) :=
  (c.reads[k]?).bind fun r => r.result.map fun result =>
    (r, result, { c with reads := c.reads.eraseIdx k })

end Channel

/-! ## The two channels of a process -/

/-- The two descriptors of a child that are captured. -/
inductive Fd where
  | stdout
  | stderr
  deriving DecidableEq, Repr

/-- The captured output of a process, stdout and stderr side by side. -/
structure Streams where
  stdout : Channel
  stderr : Channel
  /-- the object has not been destroyed -/
  alive : Bool
  deriving DecidableEq, Repr

/-- What can happen to the streams of a process. Reads complete and their handlers run in any order:
between the two a completion is queued, and the stream may be replaced or closed meanwhile. -/
inductive StreamInput where
  /-- `spawn_` has forked; whether the descriptors could be made -/
  | spawn (stdoutSetUp stderrSetUp : Bool)
  | complete (fd : Fd) (k : Nat) (result : Completion)
  | deliver (fd : Fd) (k : Nat)
  | destroy
  deriving DecidableEq, Repr

namespace Streams

/-- The members of a new object. -/
def init : Streams := ⟨.init, .init, true⟩

/-- The object has just been created. -/
def Initial (s : Streams) : Prop := s = init

/-- The channel of one of the two descriptors. -/
def channel (s : Streams) : Fd → Channel
  | .stdout => s.stdout
  | .stderr => s.stderr

/-- One of the two channels is replaced. -/
def setChannel (s : Streams) (c : Channel) : Fd → Streams
  | .stdout => { s with stdout := c }
  | .stderr => { s with stderr := c }

/-- A pipe is made for this channel, and a log writer exists. -/
def captured (config : ProgramConfig) : Fd → Bool
  | .stdout => config.stdoutLog.file.isSome
  | .stderr => !config.redirectStderr && config.stderrLog.file.isSome

/-- Reading from one of the two. -/
def startRead (fd : Fd) (s : Streams) : Streams := s.setChannel (s.channel fd).startRead fd

/-- `start_stdout_read_`. -/
def startStdoutRead : Streams → Streams := startRead .stdout

/-- `start_stderr_read_`. -/
def startStderrRead : Streams → Streams := startRead .stderr

/-- A handler of one of the two; `cause` is the stream its read was started on. -/
def handleRead (fd : Fd) (s : Streams) (cause : StreamId) (result : Completion) : Streams :=
  s.setChannel ((s.channel fd).handleRead cause result) fd

/-- `handle_stdout_read_`. -/
def handleStdoutRead : Streams → StreamId → Completion → Streams := handleRead .stdout

/-- `handle_stderr_read_`. -/
def handleStderrRead : Streams → StreamId → Completion → Streams := handleRead .stderr

/-- The parent's side of `spawn_`. A set-up flag is false when making the descriptor throws. -/
def spawn (config : ProgramConfig) (s : Streams) (stdoutSetUp stderrSetUp : Bool) : Streams :=
  let s := if captured config .stdout && stdoutSetUp then
      startStdoutRead { s with stdout := s.stdout.install }
    else s
  if captured config .stderr && stderrSetUp then
    startStderrRead { s with stderr := s.stderr.install }
  else s

/-- The handler the read was started with; it holds the object weakly. -/
def runHandler (s : Streams) (cause : StreamId) (result : Completion) : Fd → Streams
  | .stdout => if s.alive then s.handleStdoutRead cause result else s
  | .stderr => if s.alive then s.handleStderrRead cause result else s

/-- The event loop takes read `k` out of flight and runs its handler. -/
def deliver (s : Streams) (fd : Fd) (k : Nat) : Option Streams :=
  ((s.channel fd).take k).map fun t => (s.setChannel t.2.2 fd).runHandler t.1.stream t.2.1 fd

/-- Capture on both channels of a process with this configuration. -/
def step (config : ProgramConfig) (s : Streams) : StreamInput → Option Streams
  | .spawn stdoutSetUp stderrSetUp =>
    if s.alive then some (s.spawn config stdoutSetUp stderrSetUp) else none
  | .complete fd k result => ((s.channel fd).complete k result).map fun c => s.setChannel c fd
  | .deliver fd k => s.deliver fd k
  | .destroy =>
    if s.alive then some ⟨s.stdout.destroy, s.stderr.destroy, false⟩ else none

end Streams

/-! ## The property and the condition -/

namespace Channel

/-- A handler closed only the stream its own read was issued on. -/
def ClosedByOwnReads (c : Channel) : Prop := ∀ d ∈ c.closings, d.1 = d.2

/-- The open stream has exactly one read in flight. -/
def OneRead (c : Channel) : Prop :=
  ∀ s, c.stream = some s → c.isOpen = true → (c.reads.filter fun r => r.stream = s).length = 1

instance (c : Channel) : Decidable c.ClosedByOwnReads :=
  inferInstanceAs (Decidable (∀ d ∈ c.closings, d.1 = d.2))

end Channel

/-- A spawn that makes a descriptor finds no read of an earlier stream in flight. -/
def spawnsDrained (config : ProgramConfig) (s : Streams) : StreamInput → Bool
  | .spawn stdoutSetUp stderrSetUp =>
    (!(Streams.captured config .stdout && stdoutSetUp) || s.stdout.reads.isEmpty) &&
      (!(Streams.captured config .stderr && stderrSetUp) || s.stderr.reads.isEmpty)
  | _ => true

/-! ## The invariant -/

namespace Channel

/-- The member holds no open stream. -/
def Shut (c : Channel) : Prop := c.stream = none ∨ c.isOpen = false

/-- While the object lives, an open stream has its one read, and nothing else is in flight; a
destroyed object has no open stream. -/
structure Tidy (c : Channel) (alive : Bool) : Prop where
  opened : ∀ s, c.stream = some s → c.isOpen = true → ∃ r, c.reads = [r] ∧ r.stream = s
  closed : alive = true → c.Shut → c.reads = []
  dead : alive = false → c.Shut
  own : c.ClosedByOwnReads

variable {c c' : Channel} {alive : Bool} {k : Nat}

theorem tidy_init : init.Tidy true where
  opened := by simp [init]
  closed := fun _ _ => rfl
  dead := by simp
  own := by simp [ClosedByOwnReads, init]

theorem not_shut {s : StreamId} (hs : c.stream = some s) (hopen : c.isOpen = true) : ¬ c.Shut := by
  rintro (hnone | hshut)
  · rw [hs] at hnone
    cases hnone
  · rw [hopen] at hshut
    cases hshut

/-- A tidy channel has at most one read in flight. -/
theorem Tidy.oneRead (h : c.Tidy alive) : c.OneRead := by
  intro s hs hopen
  obtain ⟨r, hr, hstream⟩ := h.opened s hs hopen
  simp [hr, hstream]

/-- A new stream on a drained channel is tidy. -/
theorem Tidy.install (h : c.Tidy true) (hdrained : c.reads = []) :
    c.install.startRead.Tidy true := by
  have hspawn : c.install.startRead = { c with
      stream := some c.nextStream
      isOpen := true
      reads := [⟨c.nextStream, none⟩]
      nextStream := c.nextStream + 1 } := by
    simp [Channel.install, startRead, hdrained, cancel]
  rw [hspawn]
  refine ⟨?_, fun _ hshut => absurd hshut (not_shut rfl rfl), by simp, h.own⟩
  intro s hs _
  obtain rfl := Option.some.inj hs
  exact ⟨_, rfl, rfl⟩

/-- A read completes. -/
theorem Tidy.complete (h : c.Tidy alive) {result : Completion}
    (hc : c.complete k result = some c') : c'.Tidy alive := by
  obtain ⟨r, hr, hc⟩ := Option.bind_eq_some_iff.mp hc
  split at hc
  · next hwait =>
      obtain ⟨_, hstream, hopen, _⟩ := hwait
      obtain rfl := Option.some.inj hc
      obtain ⟨r₀, hreads, hr₀⟩ := h.opened _ hstream hopen
      refine ⟨?_, fun _ hshut => absurd hshut (not_shut hstream hopen), h.dead, h.own⟩
      intro s hs _
      have hs' : r.stream = s := Option.some.inj (hstream.symm.trans hs)
      rw [hreads] at hr
      cases k with
      | zero => exact ⟨{ r with result := some result }, by rw [hreads]; rfl, hs'⟩
      | succ k => simp at hr
  · cases hc

/-- A read in flight is the one read of the open stream. -/
theorem Tidy.current (h : c.Tidy true) {r : Read} (hr : c.reads[k]? = some r) :
    c.stream = some r.stream ∧ c.isOpen = true ∧ c.reads.eraseIdx k = [] := by
  have hin : r ∈ c.reads := List.mem_of_getElem? hr
  have hopen : ∃ s, c.stream = some s ∧ c.isOpen = true := by
    by_contra hno
    have hshut : c.Shut := by
      cases hs : c.stream with
      | none => exact .inl hs
      | some s =>
          right
          cases ho : c.isOpen with
          | false => rfl
          | true => exact absurd ⟨s, hs, ho⟩ hno
    rw [h.closed rfl hshut] at hin
    cases hin
  obtain ⟨s, hs, ho⟩ := hopen
  obtain ⟨r₀, hreads, hstream⟩ := h.opened s hs ho
  rw [hreads] at hin
  obtain rfl := List.mem_singleton.mp hin
  refine ⟨hstream ▸ hs, ho, ?_⟩
  rw [hreads] at hr ⊢
  cases k with
  | zero => rfl
  | succ k => simp at hr

/-- The completion that is delivered is one of those in flight. -/
theorem take_eq_some {r : Read} {result : Completion} (hc : c.take k = some (r, result, c')) :
    c.reads[k]? = some r ∧ c' = { c with reads := c.reads.eraseIdx k } := by
  obtain ⟨r₀, hr, hc⟩ := Option.bind_eq_some_iff.mp hc
  obtain ⟨result₀, _, hc⟩ := Option.map_eq_some_iff.mp hc
  simp only [Prod.mk.injEq] at hc
  obtain ⟨rfl, _, rfl⟩ := hc
  exact ⟨hr, rfl⟩

/-- Its handler runs. -/
theorem Tidy.handle (h : c.Tidy true) {r : Read} {result : Completion}
    (hc : c.take k = some (r, result, c')) : (c'.handleRead r.stream result).Tidy true := by
  obtain ⟨hr, rfl⟩ := take_eq_some hc
  obtain ⟨hs, hopen, hnone⟩ := h.current hr
  rw [hnone]
  -- after data the next read is issued on the same stream
  have hdata : ∀ log, (startRead { c with reads := [], log := log }).Tidy true := by
    intro log
    have hread : startRead { c with reads := [], log := log } =
        { c with reads := [⟨r.stream, none⟩], log := log } := by
      simp [startRead, hs, hopen]
    rw [hread]
    refine ⟨?_, fun _ hshut => absurd hshut (not_shut hs hopen), by simp, h.own⟩
    exact fun s hs' _ => ⟨_, rfl, Option.some.inj (hs.symm.trans hs')⟩
  cases result with
  | data bytes =>
      unfold handleRead
      dsimp only
      split
      · exact hdata _
      · exact hdata _
  | _ =>
      simp only [handleRead, hs, hopen, close, cancel]
      refine ⟨by simp, fun _ _ => rfl, by simp, ?_⟩
      intro d hd
      rcases List.mem_cons.mp hd with rfl | hd
      · rfl
      · exact h.own d hd

/-- Without the object a completion changes nothing but the reads in flight. -/
theorem Tidy.take_dead (h : c.Tidy false) {r : Read} {result : Completion}
    (hc : c.take k = some (r, result, c')) : c'.Tidy false := by
  obtain ⟨_, rfl⟩ := take_eq_some hc
  have hshut : c.Shut := h.dead rfl
  refine ⟨?_, by simp, fun _ => hshut, h.own⟩
  exact fun s hs hopen => absurd hshut (not_shut hs hopen)

/-- The object is destroyed, and what is in flight is cancelled. -/
theorem Tidy.destroy (h : c.Tidy true) : c.destroy.Tidy false := by
  have hshut : c.destroy.Shut := by
    unfold Channel.destroy
    split
    · exact .inr rfl
    · next hno =>
        cases hs : c.stream with
        | none => exact .inl hs
        | some s => exact .inr (by simpa [hs] using hno)
  have hown : c.destroy.ClosedByOwnReads := by
    unfold Channel.destroy
    split
    · exact h.own
    · exact h.own
  exact ⟨fun s hs hopen => absurd hshut (not_shut hs hopen), by simp, fun _ => hshut, hown⟩

end Channel

/-! ## Runs -/

namespace Streams

variable {config : ProgramConfig} {s s' : Streams} {i : StreamInput}

/-- Both channels are tidy. -/
def Tidy (s : Streams) : Prop := ∀ fd, (s.channel fd).Tidy s.alive

theorem channel_setChannel (s : Streams) (c : Channel) (fd fd' : Fd) :
    (s.setChannel c fd).channel fd' = if fd' = fd then c else s.channel fd' := by
  cases fd <;> cases fd' <;> rfl

theorem Tidy.setChannel (h : s.Tidy) {c : Channel} {fd : Fd} (hc : c.Tidy s.alive) :
    (s.setChannel c fd).Tidy := by
  have halive : (s.setChannel c fd).alive = s.alive := by cases fd <;> rfl
  intro fd'
  rw [channel_setChannel, halive]
  split
  · exact hc
  · exact h fd'

/-- Installing a stream on a channel with nothing in flight. -/
theorem Tidy.install (h : s.Tidy) (halive : s.alive = true) (fd : Fd)
    (hdrained : (s.channel fd).reads = []) :
    (startRead fd (s.setChannel (s.channel fd).install fd)).Tidy := by
  have hfd := h fd
  rw [halive] at hfd
  have hset : startRead fd (s.setChannel (s.channel fd).install fd) =
      s.setChannel (s.channel fd).install.startRead fd := by
    cases fd <;> rfl
  rw [hset]
  apply h.setChannel
  rw [halive]
  exact hfd.install hdrained

/-- A spawn that finds its channels drained. -/
theorem Tidy.spawn (h : s.Tidy) (halive : s.alive = true) {stdoutSetUp stderrSetUp : Bool}
    (hguard : spawnsDrained config s (.spawn stdoutSetUp stderrSetUp) = true) :
    (s.spawn config stdoutSetUp stderrSetUp).Tidy := by
  simp only [spawnsDrained, Bool.and_eq_true, Bool.or_eq_true, Bool.not_eq_true',
    List.isEmpty_iff] at hguard
  unfold Streams.spawn
  cases hout : (captured config .stdout && stdoutSetUp) with
  | false =>
      cases herr : (captured config .stderr && stderrSetUp) with
      | false => exact h
      | true =>
          have hnone : s.stderr.reads = [] := by simpa [herr] using hguard.2
          exact h.install halive .stderr hnone
  | true =>
      have hnone : s.stdout.reads = [] := by simpa [hout] using hguard.1
      have hfirst := h.install halive .stdout hnone
      cases herr : (captured config .stderr && stderrSetUp) with
      | false => exact hfirst
      | true =>
          have hnone : s.stderr.reads = [] := by simpa [herr] using hguard.2
          exact hfirst.install halive .stderr hnone

theorem runHandler_setChannel (s : Streams) (c : Channel) (cause : StreamId)
    (result : Completion) (fd : Fd) :
    (s.setChannel c fd).runHandler cause result fd =
      s.setChannel (if s.alive then c.handleRead cause result else c) fd := by
  cases fd with
  | stdout =>
      show (if s.alive then _ else _) = _
      split <;> rfl
  | stderr =>
      show (if s.alive then _ else _) = _
      split <;> rfl

/-- A completion is delivered, to an object that may be gone. -/
theorem Tidy.deliver (h : s.Tidy) {fd : Fd} {k : Nat} (hstep : s.deliver fd k = some s') :
    s'.Tidy := by
  obtain ⟨⟨r, result, c⟩, htake, rfl⟩ := Option.map_eq_some_iff.mp hstep
  rw [runHandler_setChannel]
  apply h.setChannel
  have hfd := h fd
  cases halive : s.alive with
  | true =>
      rw [halive] at hfd
      exact hfd.handle htake
  | false =>
      rw [halive] at hfd
      exact hfd.take_dead htake

/-- Every step whose spawns find drained channels keeps both channels tidy. -/
theorem Tidy.step (h : s.Tidy) (hguard : spawnsDrained config s i = true)
    (hstep : step config s i = some s') : s'.Tidy := by
  cases i with
  | spawn stdoutSetUp stderrSetUp =>
      simp only [Streams.step] at hstep
      split at hstep
      · next halive =>
          obtain rfl := Option.some.inj hstep
          exact h.spawn halive hguard
      · cases hstep
  | complete fd k result =>
      obtain ⟨c, hc, rfl⟩ := Option.map_eq_some_iff.mp hstep
      exact h.setChannel ((h fd).complete hc)
  | deliver fd k => exact h.deliver hstep
  | destroy =>
      simp only [Streams.step] at hstep
      split at hstep
      · next halive =>
          obtain rfl := Option.some.inj hstep
          intro fd
          have hfd := h fd
          rw [halive] at hfd
          cases fd with
          | stdout => exact hfd.destroy
          | stderr => exact hfd.destroy
      · cases hstep

end Streams

/-- **Capture survives restarts.**  In every run in which a spawn makes a new stream only when no
read of an earlier one is in flight, on stdout and on stderr a completion handler closes only the
stream its read was issued on, and the open stream has exactly one read in flight. -/
theorem capture_survives_restarts {config : ProgramConfig} {s : Streams}
    (h : Machine.Reach (Streams.step config) (fun s i => spawnsDrained config s i = true)
      Streams.Initial s) (fd : Fd) :
    (s.channel fd).ClosedByOwnReads ∧ (s.channel fd).OneRead := by
  have hinv := h.invariant (P := Streams.Tidy)
    (by
      rintro s rfl fd
      cases fd <;> exact Channel.tidy_init)
    (fun s i s' hinv hg hstep => hinv.step hg hstep)
  exact ⟨(hinv fd).own, (hinv fd).oneRead⟩

/-- A program whose stdout and stderr are logged. -/
def loggedProgram : ProgramConfig where
  name := "web"
  command := "/bin/web"
  stdoutLog := { file := some "/var/log/web.log" }
  stderrLog := { file := some "/var/log/web.err" }

/-- The first child closes its pipes and this is noticed before the second one is spawned. -/
theorem capture_survives_restarts_drained : ∃ s,
    Machine.Reach (Streams.step loggedProgram)
        (fun s i => spawnsDrained loggedProgram s i = true) Streams.Initial s ∧
      s.stdout.stream = some 1 ∧ s.stdout.isOpen = true ∧
      s.stdout.ClosedByOwnReads ∧ s.stdout.OneRead := by
  obtain ⟨s, hreach, hopen⟩ := Machine.Reach.exists_of_guardedRun
    (p := fun s : Streams => decide (s.stdout.stream = some 1 ∧ s.stdout.isOpen = true))
    (fun _ _ h => h) (.init (show Streams.Initial .init from rfl))
    (show (Machine.guardedRun (Streams.step loggedProgram) (spawnsDrained loggedProgram) .init
      [.spawn true true, .complete .stdout 0 (.data [104, 105]), .deliver .stdout 0,
        .complete .stdout 0 .eof, .deliver .stdout 0, .complete .stderr 0 .eof,
        .deliver .stderr 0, .spawn true true]).any _ = true by decide)
  have hboth := capture_survives_restarts hreach .stdout
  have hcurrent := of_decide_eq_true hopen
  exact ⟨s, hreach, hcurrent.1, hcurrent.2, hboth.1, hboth.2⟩

/-- The second child is spawned while the read on the first one's pipe is still waiting: its handler
runs with `operation_aborted` and closes the stream of the second child. -/
theorem aborted_read_closes_new_stream : ∃ s,
    Machine.Reach (Streams.step loggedProgram) Machine.anyStep Streams.Initial s ∧
      ¬ (s.stdout.ClosedByOwnReads ∧ s.stdout.OneRead) := by
  obtain ⟨s, hreach, hclosed⟩ := Machine.Reach.exists_of_run
    (p := fun s : Streams => decide (¬ s.stdout.ClosedByOwnReads))
    (.init (show Streams.Initial .init from rfl))
    (show (Machine.run (Streams.step loggedProgram) .init
      [.spawn true true, .spawn true true, .deliver .stdout 0]).any _ = true by decide)
  exact ⟨s, hreach, fun h => of_decide_eq_true hclosed h.1⟩

end Supervisorcpp
