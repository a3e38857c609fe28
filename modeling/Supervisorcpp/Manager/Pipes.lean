/-
# The pipes of the daemon

`spawn_` seen from the daemon's descriptor table: the pipes it makes, what a failure on the way gives
back, what the child takes with it to the program, and which ends the stream descriptors of the
objects keep. Any number of objects share the table with the other files of the daemon, and every
answer of the kernel is part of the input: the descriptors `pipe2` gives, whether `fork` and the
making of a stream descriptor succeed, and all that the child finds.

That nothing leaks is in `Manager.PipeBooks`.

A step is a whole `spawn_`, since nothing of the daemon runs in between; the child gets a copy of
the table as it is at the `fork`. Descriptors that are no pipes are opened and closed by the rest of
the daemon at any time.
-/
import Supervisorcpp.Manager.World
import Supervisorcpp.Process.Child
import Supervisorcpp.Process.Streams

namespace Supervisorcpp

/-! ## Data -/

/-- The member of this channel holds an open stream descriptor. -/
def Channel.holds (c : Channel) : Bool := c.isOpen && c.stream.isSome

namespace OpenFile

/-- An end of a pipe. -/
def isPipe : OpenFile → Bool
  | .readEnd _ => true
  | .writeEnd _ => true
  | .other _ => false

end OpenFile

/-- A pipe that may have been made. -/
inductive OpenedPipe where
  | absent
  | failed
  | made (id : Nat) (fds : PipeFds)
  deriving DecidableEq, Repr

namespace OpenedPipe

/-- Its number and its descriptors. -/
def pipe : OpenedPipe → Option (Nat × PipeFds)
  | .made id fds => some (id, fds)
  | _ => none

/-- Its descriptors. -/
def fds (opened : OpenedPipe) : Option PipeFds := opened.pipe.map Prod.snd

/-- Its number. -/
def id (opened : OpenedPipe) : Option Nat := opened.pipe.map Prod.fst

end OpenedPipe

/-- A program that was executed, with the pipes made for it and its descriptors at that moment. -/
structure Program where
  owner : ObjId
  stdoutPipe : Option Nat
  stderrPipe : Option Nat
  fds : Fds

/-- The pipes that were made for a program. -/
def Program.pipes (prog : Program) : List Nat := prog.stdoutPipe.toList ++ prog.stderrPipe.toList

/-- The daemon's descriptors, and per object and channel the stream and its descriptor. -/
structure PipeSys where
  fds : Fds
  streams : ObjId → Streams
  handle : ObjId × Fd → Nat
  programs : List Program
  nextPipe : Nat

/-- What the kernel answers in one `spawn_`. A missing pipe is a `pipe2` that fails; a set-up flag is
false when making the stream descriptor throws. -/
structure SpawnAnswers where
  stdoutPipe : Option PipeFds
  stderrPipe : Option PipeFds
  forks : Bool
  stdoutSetUp : Bool
  stderrSetUp : Bool
  kernel : Kernel

/-- What happens to the descriptors of the daemon. -/
inductive PipeInput where
  | spawn (o : ObjId) (a : SpawnAnswers)
  /-- what else happens to the streams of an object -/
  | stream (o : ObjId) (input : StreamInput)
  /-- another file of the daemon: a log, a socket, a configuration file -/
  | openFile (fd id : Nat) (cloexec : Bool)
  | closeFile (fd : Nat)

namespace PipeSys

/-! ## Steps -/

/-- The descriptor a channel of an object holds open. -/
def held (s : PipeSys) (x : ObjId × Fd) : Option Nat :=
  if ((s.streams x.1).channel x.2).holds then some (s.handle x) else none

/-- `pipe2(…, O_CLOEXEC)`; no step if the kernel cannot give these descriptors. -/
def openPipe (wanted : Bool) (answer : Option PipeFds) (s : PipeSys) : Option (OpenedPipe × PipeSys) :=
  match wanted, answer with
  | false, _ => some (.absent, s)
  | true, none => some (.failed, s)
  | true, some p =>
    if s.fds p.read = none ∧ s.fds p.write = none ∧ p.read ≠ p.write then
      some (.made s.nextPipe p,
        { s with fds := installPipe s.nextPipe p s.fds, nextPipe := s.nextPipe + 1 })
    else none

/-- Both ends of a pipe are closed. -/
def closeBoth (opened : OpenedPipe) (s : PipeSys) : PipeSys :=
  { s with fds := closeEnd PipeFds.write opened.fds (closeEnd PipeFds.read opened.fds s.fds) }

/-- The daemon's side of setting up the reading: a new stream descriptor replaces the old one, which
closes its descriptor, or the read end is closed again. -/
def takeOver (s : PipeSys) (x : ObjId × Fd) (setUp : Bool) (opened : OpenedPipe) (fds : Fds) : Fds :=
  match opened.fds with
  | none => fds
  | some p => if setUp then (s.held x).elim fds fds.close else fds.close p.read

/-- The native handle of a new stream descriptor. -/
def setHandle (x : ObjId × Fd) (setUp : Bool) (opened : OpenedPipe) (handle : ObjId × Fd → Nat) :
    ObjId × Fd → Nat :=
  match opened.fds with
  | none => handle
  | some p => if setUp then Function.update handle x p.read else handle

/-- The parent's side of `spawn_` after `fork`. -/
def parentSide (config : ProgramConfig) (o : ObjId) (a : SpawnAnswers) (out err : OpenedPipe)
    (s : PipeSys) : PipeSys :=
  let fds := closeEnd PipeFds.write err.fds (closeEnd PipeFds.write out.fds s.fds)
  { s with
    fds := s.takeOver (o, .stderr) a.stderrSetUp err (s.takeOver (o, .stdout) a.stdoutSetUp out fds)
    handle := setHandle (o, .stderr) a.stderrSetUp err
      (setHandle (o, .stdout) a.stdoutSetUp out s.handle)
    streams := Function.update s.streams o
      ((s.streams o).spawn config a.stdoutSetUp a.stderrSetUp) }

/-- The child runs until it is the program or has exited. -/
def childSide (config : ProgramConfig) (daemon : Task) (o : ObjId) (k : Kernel) (out err : OpenedPipe)
    (s : PipeSys) : PipeSys :=
  match runChild k config out.fds err.fds { daemon with fds := s.fds } with
  | .program _ t => { s with programs := s.programs ++ [⟨o, out.id, err.id, t.fds⟩] }
  | _ => s

/-- `spawn_`. -/
def spawn (config : ProgramConfig) (daemon : Task) (o : ObjId) (a : SpawnAnswers) (s : PipeSys) :
    Option PipeSys :=
  (openPipe (Streams.captured config .stdout) a.stdoutPipe s).bind fun (out, s) =>
    if out = .failed then some s
    else
      (openPipe (Streams.captured config .stderr) a.stderrPipe s).bind fun (err, s) =>
        if err = .failed then some (closeBoth out s)
        else if a.forks then
          some (parentSide config o a out err (childSide config daemon o a.kernel out err s))
        else some (closeBoth err (closeBoth out s))

/-- A descriptor the object had and no longer has is closed. -/
def settle (s : PipeSys) (x : ObjId × Fd) (after : Streams) (fds : Fds) : Fds :=
  if (after.channel x.2).holds then fds else (s.held x).elim fds fds.close

/-- The streams of an object go on without a spawn. -/
def advance (o : ObjId) (after : Streams) (s : PipeSys) : PipeSys :=
  { s with
    fds := s.settle (o, .stderr) after (s.settle (o, .stdout) after s.fds)
    streams := Function.update s.streams o after }

/-- One step, for objects with these configurations and a daemon with the attributes of `daemon`. -/
def step (config : ObjId → ProgramConfig) (daemon : Task) (s : PipeSys) : PipeInput → Option PipeSys
  | .spawn o a => if (s.streams o).alive then spawn (config o) daemon o a s else none
  | .stream _ (.spawn _ _) => none
  | .stream o i => (Streams.step (config o) (s.streams o) i).map fun after => s.advance o after
  | .openFile fd id cloexec =>
    if s.fds fd = none then some { s with fds := s.fds.install fd ⟨.other id, cloexec⟩ } else none
  | .closeFile fd =>
    match s.fds fd with
    | some ⟨.other _, _⟩ => if 3 ≤ fd then some { s with fds := s.fds.close fd } else none
    | _ => none

/-- The daemon has been started with its three standard descriptors, and has no pipes yet. -/
structure Initial (s : PipeSys) : Prop where
  std : ∀ fd < 3, ∃ id, s.fds fd = some ⟨.other id, false⟩
  files : ∀ fd slot, s.fds fd = some slot → slot.file.isPipe = false
  streams : ∀ o, s.streams o = Streams.init
  programs : s.programs = []

/-! ## What the streams do -/

end PipeSys

namespace Streams

variable {config : ProgramConfig} {s s' : Streams}

/-- Which set-up flag is for which channel. -/
def setUpFlag (stdoutSetUp stderrSetUp : Bool) : Fd → Bool
  | .stdout => stdoutSetUp
  | .stderr => stderrSetUp

/-- A spawn leaves a stream open on every channel whose pipe it could take over. -/
theorem holds_spawn (config : ProgramConfig) (s : Streams) (stdoutSetUp stderrSetUp : Bool) (fd : Fd) :
    ((s.spawn config stdoutSetUp stderrSetUp).channel fd).holds =
      ((captured config fd && setUpFlag stdoutSetUp stderrSetUp fd) || (s.channel fd).holds) := by
  unfold Streams.spawn
  cases hout : (captured config .stdout && stdoutSetUp) <;>
    cases herr : (captured config .stderr && stderrSetUp) <;>
    cases fd <;> simp [hout, herr, setUpFlag] <;> rfl

theorem holds_startRead (c : Channel) : c.startRead.holds = c.holds := by
  unfold Channel.startRead
  split <;> rfl

/-- A completed read starts the next one, or closes the stream. -/
theorem holds_handleRead {c : Channel} {cause : StreamId} {result : Completion}
    (h : (c.handleRead cause result).holds = true) : c.holds = true := by
  cases result with
  | data bytes =>
      simp only [Channel.handleRead, holds_startRead] at h
      split at h <;> exact h
  | _ =>
      simp only [Channel.handleRead] at h
      split at h
      · cases h
      · exact h

/-- Without a spawn no channel comes to hold a stream. -/
theorem holds_step {i : StreamInput} (hstep : Streams.step config s i = some s')
    (hspawn : ∀ out err, i ≠ .spawn out err) (fd : Fd) (h : (s'.channel fd).holds = true) :
    (s.channel fd).holds = true := by
  cases i with
  | spawn out err => exact absurd rfl (hspawn out err)
  | complete fd' k result =>
      obtain ⟨c, hc, rfl⟩ := Option.map_eq_some_iff.mp hstep
      obtain ⟨r, hr, hc⟩ := Option.bind_eq_some_iff.mp hc
      rw [channel_setChannel] at h
      split at h
      · next heq =>
          split at hc
          · obtain rfl := Option.some.inj hc
            rw [heq]
            exact h
          · cases hc
      · exact h
  | deliver fd' k =>
      obtain ⟨⟨r, result, c⟩, htake, rfl⟩ := Option.map_eq_some_iff.mp hstep
      rw [runHandler_setChannel, channel_setChannel] at h
      split at h
      · next heq =>
          rw [heq]
          obtain ⟨r, hr, hc⟩ := Option.bind_eq_some_iff.mp htake
          obtain ⟨result', hres, heq'⟩ := Option.map_eq_some_iff.mp hc
          obtain ⟨rfl, rfl, rfl⟩ : r = _ ∧ result' = _ ∧ _ = c := by simpa using heq'
          have hsame : ({ s.channel fd' with reads := (s.channel fd').reads.eraseIdx k } : Channel).holds
              = (s.channel fd').holds := rfl
          rw [← hsame]
          split at h
          · exact holds_handleRead h
          · exact h
      · exact h
  | destroy =>
      simp only [Streams.step] at hstep
      split at hstep
      · obtain rfl := Option.some.inj hstep
        have hdestroy : ∀ c : Channel, c.destroy.holds = true → c.holds = true := by
          intro c hc
          unfold Channel.destroy at hc
          split at hc
          · cases hc
          · exact hc
        cases fd with
        | stdout => exact hdestroy s.stdout h
        | stderr => exact hdestroy s.stderr h
      · cases hstep

end Streams

end Supervisorcpp
