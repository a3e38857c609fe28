/-
# From `fork` to `execvp`

What the child does in `spawn_` and `setup_child_process_` before the program runs: it redirects its
output, gives back what it inherited from the daemon, moves to the working directory, sets up the
environment and gives up its privileges. It ends as the program, or by `_exit`.

The kernel's answers are parameters; which calls change credentials is in `Lib.Credentials`, what
`dup2` and `execve` do to descriptors in `Lib.Descriptors`. Log lines are not modelled.

The calls stand in the order of the source: redirection, `close_inherited_fds`, signal dispositions,
umask, the working directory, the credentials and the environment, and then `execvp`. Where one of
them fails the child exits, so a program that runs has got behind all of them, and `Prepared` says
what it found.

`initgroups` and `execve` are modelled as the C library and the kernel have them: a list of groups
that the kernel calls invalid is tried again without its last group, and the set-ID bits of the file
give the program other effective ids.
-/
import Supervisorcpp.Config.Types
import Supervisorcpp.Lib.Credentials
import Supervisorcpp.Lib.Descriptors
import Supervisorcpp.Lib.Environ
import Supervisorcpp.Process.Command

namespace Supervisorcpp

open Bytes (ascii)
open Credentials (Creds)

/-! ## Data -/

/-- What a descriptor of the daemon or of a child refers to. -/
inductive OpenFile where
  | readEnd (pipe : Nat)
  | writeEnd (pipe : Nat)
  | other (id : Nat)
  deriving DecidableEq, Repr

/-- The descriptors of a process, each with the file it is open on. -/
abbrev Fds := Descriptors.Table OpenFile

/-- `SIG_DFL`, `SIG_IGN`, or a handler of the daemon. -/
inductive Disposition where
  | dfl
  | ign
  | handler
  deriving DecidableEq, Repr

/-- `SIGHUP`. -/
def sighup : Nat := 1

/-- `SIGINT`. -/
def sigint : Nat := 2

/-- `SIGPIPE`. -/
def sigpipe : Nat := 13

/-- `SIGTERM`. -/
def sigterm : Nat := 15

/-- `SIGCHLD`. -/
def sigchld : Nat := 17

/-- The attributes of a process that outlive `fork`. -/
structure Task where
  fds : Fds
  disposition : Nat → Disposition
  /-- the directory it works in -/
  directory : Nat
  environ : Environ.Block UInt8
  umask : Nat
  creds : Creds

/-- The answer to `getrlimit(RLIMIT_NOFILE)`: its hard limit. -/
inductive FdLimit where
  | failed
  | infinity
  | value (n : Nat)
  deriving DecidableEq, Repr

/-- The fields of an entry of the user database that are read. -/
structure Passwd where
  uid : Nat
  gid : Nat
  deriving DecidableEq, Repr

/-- What the child finds: the limit on descriptors, the directory a path leads to, the user and group
databases, the credential calls that fail although they are permitted, and the files that can be
executed. -/
structure Kernel where
  fdLimit : FdLimit
  chdir : Bytes → Option Nat
  getpwnam : Bytes → Option Passwd
  /-- the groups of a user beside the one of his entry -/
  grouplist : Bytes → Nat → Option (List Nat)
  /-- `setgroups` calls this list invalid: it is too long, or has a group without a meaning here -/
  invalidGroups : List Nat → Bool
  refuses : Credentials.Call → Bool
  executes : Bytes → Bool
  /-- the user and the group that the set-ID bits of a file give to its program -/
  setIds : Bytes → Option Nat × Option Nat

/-- How a child ends its time as a copy of the daemon. -/
inductive ChildEnd where
  | program (argv : List Bytes) (task : Task)
  | exit (code : Nat)
  /-- there is no `argv[0]` -/
  | nullArgument

/-! ## Descriptors -/

/-- What `pipe2` returns. -/
structure PipeFds where
  read : Nat
  write : Nat
  deriving DecidableEq, Repr

/-- Closing one end of a pipe that may not have been made. -/
def closeEnd (fd : PipeFds → Nat) (pipe : Option PipeFds) (fds : Fds) : Fds :=
  pipe.elim fds fun p => fds.close (fd p)

/-- The redirection of stdout and stderr in the child. -/
def redirectOutput (redirectStderr : Bool) (stdoutPipe stderrPipe : Option PipeFds) (fds : Fds) :
    Fds :=
  let fds := closeEnd PipeFds.read stderrPipe (closeEnd PipeFds.read stdoutPipe fds)
  let fds := stdoutPipe.elim fds fun p => (fds.dup2 p.write 1).close p.write
  if redirectStderr && stdoutPipe.isSome then fds.dup2 1 2
  else stderrPipe.elim fds fun p => (fds.dup2 p.write 2).close p.write

/-- A pipe as `pipe2` with `O_CLOEXEC` leaves it in the table. -/
def installPipe (id : Nat) (p : PipeFds) (fds : Fds) : Fds :=
  (fds.install p.read ⟨.readEnd id, true⟩).install p.write ⟨.writeEnd id, true⟩

/-- `max_fd`; the cast to `int` wraps. -/
def maxFd : FdLimit → Option Int
  | .failed => none
  | .infinity => some 1024
  | .value n => some (Int32.ofNat n).toInt

/-- `close_inherited_fds`. -/
def closeInheritedFds (limit : FdLimit) (fds : Fds) : Fds :=
  (maxFd limit).elim fds fun m => fds.closeRun 3 (m.toNat - 3)

/-! ## Credentials -/

namespace Kernel

variable (k : Kernel)

/-- A credential call, unless the kernel refuses it for a reason of its own. -/
def credentials (c : Creds) (call : Credentials.Call) : Option Creds :=
  if k.refuses call then none else c.call call

/-- The loop in `initgroups`: while the first `n` groups are called invalid, the last is dropped. -/
def setSomeGroups (c : Creds) (groups : List Nat) : Nat → Option Creds
  | 0 => none
  | n + 1 =>
    if k.invalidGroups (groups.take (n + 1)) then setSomeGroups c groups n
    else k.credentials c (.setgroups (groups.take (n + 1)))

/-- `initgroups` of the C library. -/
def initgroups (c : Creds) (user : Bytes) (gid : Nat) : Option Creds :=
  (k.grouplist user gid).bind fun others =>
    k.setSomeGroups c (gid :: others) (others.length + 1)

end Kernel

/-- What `verify_privilege_drop` throws where the ids are not those that were asked for. -/
def mismatch (kind : String) (expected real effective : Nat) : Exception :=
  .securityError (ascii ("Privilege drop failed: " ++ kind ++ " mismatch (expected " ++
    toString expected ++ ", got real=" ++ toString real ++ ", effective=" ++ toString effective ++
    ")"))

/-- `verify_privilege_drop`. -/
def verifyPrivilegeDrop (c : Creds) (uid gid : Nat) : Except Exception Unit :=
  if c.uid.real ≠ uid ∨ c.uid.effective ≠ uid then
    .error (mismatch "UID" uid c.uid.real c.uid.effective)
  else if c.gid.real ≠ gid ∨ c.gid.effective ≠ gid then
    .error (mismatch "GID" gid c.gid.real c.gid.effective)
  else .ok ()

/-- A user is configured to whom `switch_user_` has to switch. -/
def namesUser (config : ProgramConfig) : Prop := config.user ≠ "" ∧ config.user ≠ "root"

instance (config : ProgramConfig) : Decidable (namesUser config) :=
  inferInstanceAs (Decidable (_ ∧ _))

/-- `switch_user_`; `none` where it returns false. -/
def switchUser (k : Kernel) (config : ProgramConfig) (c : Creds) : Option Creds :=
  if namesUser config ∧ c.uid.real = 0 then
    (k.getpwnam (cStr (ascii config.user))).bind fun pwd =>
      (k.initgroups c (cStr (ascii config.user)) pwd.gid).bind fun c =>
        (k.credentials c (.setgid pwd.gid)).bind fun c =>
          (k.credentials c (.setuid pwd.uid)).bind fun c =>
            match verifyPrivilegeDrop c pwd.uid pwd.gid with
            | .ok _ => some c
            | .error _ => none
  else some c

/-! ## Environment and directory -/

/-- `setup_working_directory_`; `none` where it returns false. -/
def setupWorkingDirectory (k : Kernel) (config : ProgramConfig) (directory : Nat) : Option Nat :=
  match config.directory with
  | none => some directory
  | some path => k.chdir (cStr (ascii path))

/-- The variables every child gets. -/
def supervisorVars (config : ProgramConfig) : Environ.Block UInt8 :=
  [(ascii "SUPERVISOR_ENABLED", ascii "1"),
    (ascii "SUPERVISOR_PROCESS_NAME", cStr (ascii config.name)),
    (ascii "SUPERVISOR_GROUP_NAME", cStr (ascii config.name))]

/-- The entries of `config_.environment`, as `c_str()` gives them to `setenv`. -/
def configuredVars (config : ProgramConfig) : Environ.Block UInt8 :=
  config.environment.map fun entry => (cStr (ascii entry.1), cStr (ascii entry.2))

/-- `setup_environment_`. -/
def setupEnvironment (config : ProgramConfig) (env : Environ.Block UInt8) : Environ.Block UInt8 :=
  Environ.setAll 61 (Environ.setAll 61 env (supervisorVars config)) (configuredVars config)

/-! ## The child -/

namespace Task

/-- `signal(sig, SIG_DFL)`. -/
def resetSignal (t : Task) (sig : Nat) : Task :=
  { t with disposition := Function.update t.disposition sig .dfl }

/-- `execve`: what is marked is closed, no handler survives, and the file may have set-ID bits. -/
def exec (t : Task) (ids : Option Nat × Option Nat) : Task :=
  { t with
    fds := t.fds.exec
    disposition := fun sig => if t.disposition sig = .handler then .dfl else t.disposition sig
    creds := t.creds.exec ids.1 ids.2 }

end Task

/-- The signals `setup_child_process_` resets. -/
def resetSignals : List Nat := [sigpipe, sigchld, sigterm, sigint]

/-- `execvp`. -/
def execvp (k : Kernel) (argv : List Bytes) (t : Task) : ChildEnd :=
  match argv with
  | [] => .nullArgument
  | file :: _ =>
    if k.executes (cStr file) then .program (argv.map cStr) (t.exec (k.setIds (cStr file)))
    else .exit 127

/-- `setup_child_process_`, and the `_exit` after it. -/
def setupChildProcess (k : Kernel) (config : ProgramConfig) (t : Task) : ChildEnd :=
  let t := resetSignals.foldl Task.resetSignal t
  let t := { t with fds := closeInheritedFds k.fdLimit t.fds }
  match setupWorkingDirectory k config t.directory with
  | none => .exit 126
  | some directory =>
    let t := { t with
      directory := directory
      environ := setupEnvironment config t.environ
      umask := config.umask.elim t.umask fun mask => mask % 0o1000 }
    match switchUser k config t.creds with
    | none => .exit 125
    | some creds => execvp k (parseCommand (ascii config.command)) { t with creds := creds }

/-- The child of `spawn_`, from the return of `fork`. -/
def runChild (k : Kernel) (config : ProgramConfig) (stdoutPipe stderrPipe : Option PipeFds)
    (t : Task) : ChildEnd :=
  setupChildProcess k config
    { t with fds := redirectOutput config.redirectStderr stdoutPipe stderrPipe t.fds }

/-! ## What every program starts with -/

variable {k : Kernel} {config : ProgramConfig} {stdoutPipe stderrPipe : Option PipeFds} {t t' : Task}
  {argv argv' : List Bytes} {c c' : Creds}

theorem foldl_resetSignal (sigs : List Nat) (t : Task) : sigs.foldl Task.resetSignal t =
    { t with disposition := fun sig => if sig ∈ sigs then .dfl else t.disposition sig } := by
  induction sigs generalizing t with
  | nil => simp
  | cons sig sigs ih =>
      rw [List.foldl_cons, ih]
      unfold Task.resetSignal
      congr 1
      funext sig'
      by_cases hin : sig' ∈ sigs
      · simp [hin]
      · by_cases heq : sig' = sig <;> simp [hin, heq]

/-- A program that is executed is the file of the first word, with the ids its set-ID bits give. -/
theorem execvp_eq_program (h : execvp k argv t = .program argv' t') :
    argv' = argv.map cStr ∧ ∃ file ∈ (argv.map cStr).head?, k.executes file = true ∧
      t' = t.exec (k.setIds file) := by
  cases argv with
  | nil => cases h
  | cons file args =>
      simp only [execvp] at h
      split at h
      · next hexec =>
          obtain ⟨rfl, rfl⟩ := ChildEnd.program.inj h
          exact ⟨rfl, cStr file, rfl, hexec, rfl⟩
      · cases h

/-- What has to go well for the child to become the program, and with which directory, which
credentials and which file it then does. -/
structure Prepared (k : Kernel) (config : ProgramConfig) (t : Task) (directory : Nat) (creds : Creds)
    (file : Bytes) : Prop where
  directory : setupWorkingDirectory k config t.directory = some directory
  creds : switchUser k config t.creds = some creds
  first : file ∈ ((parseCommand (ascii config.command)).map cStr).head?
  executes : k.executes file = true

/-- The task of the program. -/
def programTask (k : Kernel) (config : ProgramConfig) (stdoutPipe stderrPipe : Option PipeFds)
    (t : Task) (directory : Nat) (creds : Creds) : Task where
  fds := (closeInheritedFds k.fdLimit
    (redirectOutput config.redirectStderr stdoutPipe stderrPipe t.fds)).exec
  disposition := fun sig =>
    if sig ∈ resetSignals ∨ t.disposition sig = .handler then .dfl else t.disposition sig
  directory := directory
  environ := setupEnvironment config t.environ
  umask := config.umask.elim t.umask fun mask => mask % 0o1000
  creds := creds

/-- The one way through the child's code that reaches the program. -/
theorem runChild_eq_program (h : runChild k config stdoutPipe stderrPipe t = .program argv t') :
    ∃ directory creds file, Prepared k config t directory creds file ∧
      argv = (parseCommand (ascii config.command)).map cStr ∧
      t' = programTask k config stdoutPipe stderrPipe t directory
        (creds.exec (k.setIds file).1 (k.setIds file).2) := by
  unfold runChild setupChildProcess at h
  rw [foldl_resetSignal] at h
  dsimp only at h
  split at h
  · cases h
  · next directory hdir =>
      split at h
      · cases h
      · next creds hcreds =>
          obtain ⟨rfl, file, hfile, hexec, rfl⟩ := execvp_eq_program h
          refine ⟨directory, creds, file, ⟨hdir, hcreds, hfile, hexec⟩, rfl, ?_⟩
          unfold programTask Task.exec
          congr 1
          funext sig
          by_cases hsig : sig ∈ resetSignals <;> simp [hsig]

/-- Nothing else has to go well. -/
theorem runChild_of_prepared {directory : Nat} {file : Bytes}
    (h : Prepared k config t directory c file) :
    runChild k config stdoutPipe stderrPipe t =
      .program ((parseCommand (ascii config.command)).map cStr)
        (programTask k config stdoutPipe stderrPipe t directory
          (c.exec (k.setIds file).1 (k.setIds file).2)) := by
  unfold runChild setupChildProcess
  rw [foldl_resetSignal]
  dsimp only
  rw [h.directory]
  dsimp only
  rw [h.creds]
  have hfirst := h.first
  cases hargs : parseCommand (ascii config.command) with
  | nil =>
      rw [hargs] at hfirst
      cases hfirst
  | cons first args =>
      rw [hargs] at hfirst
      obtain rfl : cStr first = file := Option.some.inj hfirst
      simp only [execvp, h.executes, if_true]
      unfold programTask Task.exec
      congr 2
      funext sig
      by_cases hsig : sig ∈ resetSignals <;> simp [hsig]

/-- The dispositions of a running daemon that was itself started with `inherited`: the signal sets of
`Supervisord::run` and of the process manager, and `SIGPIPE`, which is ignored. -/
def daemonDisposition (inherited : Nat → Disposition) (sig : Nat) : Disposition :=
  if sig = sigpipe then .ign
  else if sig ∈ [sigterm, sigint, sighup, sigchld] then .handler
  else inherited sig

/-- Signals that are handled are at their default again, and so is the ignored `SIGPIPE`. -/
theorem program_disposition {inherited : Nat → Disposition} {directory : Nat} {creds : Creds}
    (hinherited : ∀ sig, inherited sig ≠ .handler)
    (hdaemon : t.disposition = daemonDisposition inherited) (sig : Nat) :
    (programTask k config stdoutPipe stderrPipe t directory creds).disposition sig =
      if sig ∈ [sighup, sigpipe, sigchld, sigterm, sigint] then .dfl else inherited sig := by
  have hreset : sig ∈ resetSignals ∨ t.disposition sig = .handler ↔
      sig ∈ [sighup, sigpipe, sigchld, sigterm, sigint] := by
    rw [hdaemon, daemonDisposition]
    constructor
    · rintro (hin | hhandler)
      · exact .tail _ hin
      · split at hhandler
        · cases hhandler
        · split at hhandler
          · next hin => simp only [List.mem_cons, List.not_mem_nil, or_false] at hin ⊢; tauto
          · exact absurd hhandler (hinherited sig)
    · intro hin
      obtain rfl | hin := List.mem_cons.mp hin
      · exact .inr rfl
      · exact .inl hin
  simp only [programTask, hreset]
  split
  · rfl
  · next hno =>
      have hnone : sig ≠ sigpipe ∧ sig ∉ [sigterm, sigint, sighup, sigchld] := by
        simp only [List.mem_cons, List.not_mem_nil, or_false, not_or] at hno ⊢
        tauto
      rw [hdaemon, daemonDisposition, if_neg hnone.1, if_neg hnone.2]

/-- A variable is the configured one, else the supervisor's, else the inherited one. -/
theorem getenv_setupEnvironment (config : ProgramConfig) (env : Environ.Block UInt8) (name : Bytes) :
    Environ.getenv (setupEnvironment config env) name =
      ((Environ.assigned 61 (configuredVars config) name).or
        (Environ.assigned 61 (supervisorVars config) name)).or (Environ.getenv env name) := by
  rw [setupEnvironment, Environ.getenv_setAll, Environ.getenv_setAll, Option.or_assoc]

/-- **A fresh start.**  Whatever the kernel answers on the way, a child that becomes the program runs
the command's first argument with the arguments of the command, in the configured directory and with
the configured umask. A variable has the configured value, else that of the supervisor's own, else
what the daemon inherited; and of the daemon's signals none is still ignored or handled. -/
theorem program_starts_fresh {inherited : Nat → Disposition}
    (hinherited : ∀ sig, inherited sig ≠ .handler)
    (hdaemon : t.disposition = daemonDisposition inherited)
    (h : runChild k config stdoutPipe stderrPipe t = .program argv t') :
    (argv = (parseCommand (ascii config.command)).map cStr ∧
      ∃ file ∈ argv.head?, k.executes file = true) ∧
    (∀ sig, t'.disposition sig =
      if sig ∈ [sighup, sigpipe, sigchld, sigterm, sigint] then .dfl else inherited sig) ∧
    (∀ name, Environ.getenv t'.environ name =
      ((Environ.assigned 61 (configuredVars config) name).or
        (Environ.assigned 61 (supervisorVars config) name)).or (Environ.getenv t.environ name)) ∧
    (config.directory.elim (some t.directory) fun path => k.chdir (cStr (ascii path))) =
      some t'.directory ∧
    t'.umask = config.umask.elim t.umask fun mask => mask % 0o1000 := by
  obtain ⟨directory, creds, file, hprepared, hargv, rfl⟩ := runChild_eq_program h
  refine ⟨⟨hargv, file, hargv ▸ hprepared.first, hprepared.executes⟩,
    program_disposition hinherited hdaemon, getenv_setupEnvironment config t.environ, ?_, rfl⟩
  · have hdir := hprepared.directory
    unfold setupWorkingDirectory at hdir
    show _ = some directory
    cases hpath : config.directory with
    | none => simpa [hpath] using hdir
    | some path => simpa [hpath] using hdir

/-- A program with a user, a directory and variables of its own. -/
def webProgram : ProgramConfig where
  name := "web"
  command := "/bin/web -v"
  environment := [("PATH", "/opt"), ("SUPERVISOR_ENABLED", "no")]
  directory := some "/srv"
  user := "www"
  umask := some 0o27

/-- A kernel on which nothing fails, with one entry in its databases. -/
def plainKernel : Kernel where
  fdLimit := .value 64
  chdir := fun _ => some 7
  getpwnam := fun user => if user = ascii "www" then some ⟨33, 33⟩ else none
  grouplist := fun _ _ => some [4]
  invalidGroups := fun _ => false
  refuses := fun _ => false
  executes := fun file => file = ascii "/bin/web"
  setIds := fun _ => (none, none)

/-- A daemon of user 0. -/
def rootTask : Task where
  fds := fun fd => if fd < 3 then some ⟨.other fd, false⟩ else none
  disposition := daemonDisposition fun _ => .dfl
  directory := 1
  environ := [(ascii "PATH", ascii "/bin"), (ascii "HOME", ascii "/root")]
  umask := 0o22
  creds := ⟨.all 0, .all 0, [0]⟩

theorem webProgram_prepared : Prepared plainKernel webProgram rootTask 7
    ⟨.all 33, .all 33, [33, 4]⟩ (ascii "/bin/web") where
  directory := rfl
  creds := by decide +kernel
  first := by decide +kernel
  executes := by decide

theorem program_starts_fresh_web : ∃ argv t',
    runChild plainKernel webProgram none none rootTask = .program argv t' ∧
    argv = [ascii "/bin/web", ascii "-v"] ∧
    t'.disposition sigpipe = .dfl ∧
    Environ.getenv t'.environ (ascii "SUPERVISOR_ENABLED") = some (ascii "no") ∧
    Environ.getenv t'.environ (ascii "HOME") = some (ascii "/root") ∧ t'.umask = 0o27 := by
  have hrun : runChild plainKernel webProgram none none rootTask = .program _ _ :=
    runChild_of_prepared webProgram_prepared
  refine ⟨_, _, hrun, ?_⟩
  obtain ⟨⟨hargv, -⟩, hsig, henv, -, humask⟩ :=
    program_starts_fresh (fun _ h => by cases h)
      (show rootTask.disposition = daemonDisposition fun _ => .dfl from rfl) hrun
  exact ⟨hargv, hsig sigpipe, henv _, henv _, humask⟩

/-! ## Privileges -/

/-- A call that is not refused does what it always does. -/
theorem Kernel.credentials_eq_some {call : Credentials.Call}
    (h : k.credentials c call = some c') : c.call call = some c' := by
  unfold Kernel.credentials at h
  split at h
  · cases h
  · exact h

/-- With effective user 0, three calls that succeed leave all ids the ones of the entry. -/
theorem dropped_creds {groups : List Nat} {uid gid : Nat} {c₁ c₂ : Creds}
    (h₁ : c.call (.setgroups groups) = some c₁) (h₂ : c₁.call (.setgid gid) = some c₂)
    (h₃ : c₂.call (.setuid uid) = some c') : c' = ⟨.all uid, .all gid, groups⟩ := by
  have hpriv : c.privileged = true := by
    by_contra hno
    simp [Creds.call, hno] at h₁
  obtain rfl : { c with groups := groups } = c₁ := by simpa [Creds.call, hpriv] using h₁
  obtain rfl : { c with groups := groups, gid := .all gid } = c₂ := by
    have hpriv' : ({ c with groups := groups } : Creds).privileged = true := hpriv
    simpa [Creds.call, hpriv', Credentials.Ids.set] using h₂
  have hpriv' : ({ c with groups := groups, gid := .all gid } : Creds).privileged = true := hpriv
  simpa [Creds.call, hpriv', Credentials.Ids.set] using h₃.symm

/-- `initgroups` has set as many of these groups as the kernel takes. -/
structure Kernel.KeepsGroups (k : Kernel) (groups kept : List Nat) : Prop where
  start : kept <+: groups
  nonempty : kept ≠ []
  valid : k.invalidGroups kept = false
  longest : ∀ longer, longer <+: groups → kept.length < longer.length →
    k.invalidGroups longer = true

/-- Where the kernel takes the whole list, none is dropped. -/
theorem Kernel.KeepsGroups.all {groups kept : List Nat} (h : k.KeepsGroups groups kept)
    (hvalid : k.invalidGroups groups = false) : kept = groups := by
  refine h.start.eq_of_length (Nat.le_antisymm h.start.length_le ?_)
  by_contra hlt
  rw [h.longest groups (List.prefix_refl groups) (by omega)] at hvalid
  cases hvalid

/-- Induction on the number of groups that are tried; the longer lists have been called invalid. -/
theorem Kernel.setSomeGroups_eq_some {groups : List Nat} {n : Nat} (hn : n ≤ groups.length)
    (hlonger : ∀ longer, longer <+: groups → n < longer.length → k.invalidGroups longer = true)
    (h : k.setSomeGroups c groups n = some c') :
    ∃ kept, k.KeepsGroups groups kept ∧ k.credentials c (.setgroups kept) = some c' := by
  induction n with
  | zero => cases h
  | succ n ih =>
      have htake : (groups.take (n + 1)).length = n + 1 := List.length_take_of_le hn
      unfold Kernel.setSomeGroups at h
      split at h
      · next hinvalid =>
          refine ih (by omega) (fun longer hstart hlen => ?_) h
          by_cases hmore : n + 1 < longer.length
          · exact hlonger longer hstart hmore
          · obtain rfl : longer = groups.take (n + 1) := by
              rw [List.prefix_iff_eq_take.mp hstart]
              congr 1
              omega
            exact hinvalid
      · next hvalid =>
          refine ⟨_, ⟨List.take_prefix _ _, ?_, by simpa using hvalid, ?_⟩, h⟩
          · intro hnil
            rw [hnil] at htake
            cases htake
          · intro longer hstart hlen
            exact hlonger longer hstart (htake ▸ hlen)

/-- What `switch_user_` has done when it returns true. -/
theorem switchUser_eq_some (hroot : c.uid.real = 0) (hname : namesUser config)
    (h : switchUser k config c = some c') : ∃ pwd others kept,
      k.getpwnam (cStr (ascii config.user)) = some pwd ∧
      k.grouplist (cStr (ascii config.user)) pwd.gid = some others ∧
      k.KeepsGroups (pwd.gid :: others) kept ∧ c' = ⟨.all pwd.uid, .all pwd.gid, kept⟩ := by
  rw [switchUser, if_pos ⟨hname, hroot⟩] at h
  obtain ⟨pwd, hpwd, h⟩ := Option.bind_eq_some_iff.mp h
  obtain ⟨c₁, hc₁, h⟩ := Option.bind_eq_some_iff.mp h
  obtain ⟨c₂, hc₂, h⟩ := Option.bind_eq_some_iff.mp h
  obtain ⟨c₃, hc₃, h⟩ := Option.bind_eq_some_iff.mp h
  obtain ⟨others, hothers, hset⟩ := Option.bind_eq_some_iff.mp hc₁
  have hlonger : ∀ longer, longer <+: pwd.gid :: others → others.length + 1 < longer.length →
      k.invalidGroups longer = true := by
    intro longer hstart hlen
    have hle := hstart.length_le
    rw [List.length_cons] at hle
    omega
  obtain ⟨kept, hkept, hset⟩ := Kernel.setSomeGroups_eq_some (Nat.le_refl _) hlonger hset
  have hc₃' : c₃ = ⟨.all pwd.uid, .all pwd.gid, kept⟩ :=
    dropped_creds (Kernel.credentials_eq_some hset) (Kernel.credentials_eq_some hc₂)
      (Kernel.credentials_eq_some hc₃)
  refine ⟨pwd, others, kept, hpwd, hothers, hkept, ?_⟩
  split at h
  · rw [← Option.some.inj h, hc₃']
  · cases h

/-- **Privileges are gone for good.**  Under a daemon of real user 0, a program with a user of its own
runs with exactly the user and the group of that user's entry, and with his groups or, where the
kernel calls that list invalid, with as many from its start as it takes, whatever calls fail on the
way; only set-ID bits of the executed file can give it other ids. Without those, and unless the entry
is user 0's, no calls of the program change its credentials again. -/
theorem program_privileges_dropped (hroot : t.creds.uid.real = 0) (hname : namesUser config)
    (h : runChild k config stdoutPipe stderrPipe t = .program argv t') :
    ∃ file ∈ argv.head?, ∃ pwd others kept,
      k.getpwnam (cStr (ascii config.user)) = some pwd ∧
      k.grouplist (cStr (ascii config.user)) pwd.gid = some others ∧
      k.KeepsGroups (pwd.gid :: others) kept ∧
      t'.creds = Creds.exec ⟨.all pwd.uid, .all pwd.gid, kept⟩ (k.setIds file).1 (k.setIds file).2 ∧
      (k.setIds file = (none, none) → t'.creds = ⟨.all pwd.uid, .all pwd.gid, kept⟩ ∧
        (pwd.uid ≠ 0 → ∀ calls c, Machine.run Creds.call t'.creds calls = some c → c = t'.creds)) := by
  obtain ⟨directory, creds, file, hprepared, hargv, rfl⟩ := runChild_eq_program h
  obtain ⟨pwd, others, kept, hpwd, hothers, hkept, rfl⟩ :=
    switchUser_eq_some hroot hname hprepared.creds
  refine ⟨file, hargv ▸ hprepared.first, pwd, others, kept, hpwd, hothers, hkept, rfl, fun hids => ?_⟩
  have hcreds : (programTask k config stdoutPipe stderrPipe t directory
      (Creds.exec ⟨.all pwd.uid, .all pwd.gid, kept⟩ (k.setIds file).1 (k.setIds file).2)).creds =
        ⟨.all pwd.uid, .all pwd.gid, kept⟩ := by
    rw [hids]
    rfl
  refine ⟨hcreds, fun hne calls c hrun => ?_⟩
  rw [hcreds] at hrun ⊢
  have hbound : Creds.Bound ⟨.all pwd.uid, .all pwd.gid, kept⟩ pwd.uid pwd.gid := ⟨rfl, rfl, hne⟩
  exact hbound.run hrun

theorem program_privileges_dropped_web : ∃ argv t',
    runChild plainKernel webProgram none none rootTask = .program argv t' ∧
    t'.creds = ⟨.all 33, .all 33, [33, 4]⟩ ∧
    ∀ calls c, Machine.run Creds.call t'.creds calls = some c → c = t'.creds := by
  have hrun : runChild plainKernel webProgram none none rootTask = .program _ _ :=
    runChild_of_prepared webProgram_prepared
  refine ⟨_, _, hrun, rfl, ?_⟩
  obtain ⟨file, -, pwd, others, kept, hpwd, -, -, -, hbound⟩ :=
    program_privileges_dropped rfl (by decide) hrun
  obtain rfl : ⟨33, 33⟩ = pwd := Option.some.inj hpwd
  exact (hbound rfl).2 (by decide)

/-- A kernel that takes one group drops the other, and a file of user 0 with the set-user-ID bit gives
its program that user. -/
example : let k := { plainKernel with
      invalidGroups := fun groups => decide (1 < groups.length)
      setIds := fun _ => (some 0, none) }
    (switchUser k webProgram rootTask.creds).map (fun c => c.exec (k.setIds []).1 (k.setIds []).2) =
      some ⟨⟨33, 0, 0⟩, .all 33, [33]⟩ := by
  decide +kernel

/-! ## What becomes of the descriptors -/

/-- The descriptors a pipe is made of were free, and are two. -/
structure PipeFds.Free (p : PipeFds) (fds : Fds) : Prop where
  read : fds p.read = none
  write : fds p.write = none
  ne : p.read ≠ p.write

/-- A pipe that may be there. -/
def withPipe (pipe : Option (Nat × PipeFds)) (fds : Fds) : Fds :=
  pipe.elim fds fun p => installPipe p.1 p.2 fds

/-- stdout and stderr on the pipes with these numbers, all else as before. -/
def redirected (stdoutPipe stderrPipe : Option Nat) (fds : Fds) : Fds := fun fd =>
  if fd = 1 then stdoutPipe.elim (fds 1) fun id => some ⟨.writeEnd id, false⟩
  else if fd = 2 then stderrPipe.elim (fds 2) fun id => some ⟨.writeEnd id, false⟩
  else fds fd

variable {fds : Fds} {out err : Option (Nat × PipeFds)}

theorem PipeFds.Free.std {p : PipeFds} (h : p.Free fds) (hstd : ∀ fd < 3, (fds fd).isSome) :
    3 ≤ p.read ∧ 3 ≤ p.write := by
  constructor
  · by_contra hlt
    simpa [h.read] using hstd p.read (by omega)
  · by_contra hlt
    simpa [h.write] using hstd p.write (by omega)

/-- A second pipe shares no descriptor with the first. -/
theorem PipeFds.Free.of_installPipe {id : Nat} {p q : PipeFds} (h : q.Free (installPipe id p fds)) :
    q.Free fds ∧ (q.read ≠ p.read ∧ q.read ≠ p.write) ∧ q.write ≠ p.read ∧ q.write ≠ p.write := by
  have free : ∀ fd, installPipe id p fds fd = none → fds fd = none ∧ fd ≠ p.read ∧ fd ≠ p.write := by
    intro fd hfd
    rw [installPipe, Descriptors.Table.install_apply, Descriptors.Table.install_apply] at hfd
    split at hfd
    · cases hfd
    · next hw =>
        split at hfd
        · cases hfd
        · next hr => exact ⟨hfd, hr, hw⟩
  obtain ⟨hread, hr⟩ := free q.read h.read
  obtain ⟨hwrite, hw⟩ := free q.write h.write
  exact ⟨⟨hread, hwrite, h.ne⟩, hr, hw⟩

attribute [local simp] Descriptors.Table.install_apply Descriptors.Table.close_apply
  Descriptors.Table.dup2_apply redirectOutput closeEnd withPipe installPipe redirected

/-- **Redirection.**  The ends of the pipes are gone from the child's table, stdout and stderr are on
the write ends, and nothing else has changed. -/
theorem redirectOutput_eq (redirectStderr : Bool) (hstd : ∀ fd < 3, (fds fd).isSome)
    (hout : ∀ p ∈ out, p.2.Free fds) (herr : ∀ p ∈ err, p.2.Free (withPipe out fds))
    (hone : redirectStderr = true → err = none) :
    redirectOutput redirectStderr (out.map Prod.snd) (err.map Prod.snd)
      (withPipe err (withPipe out fds)) =
    redirected (out.map Prod.fst) ((if redirectStderr then out else err).map Prod.fst) fds := by
  -- an operation changes the table at one descriptor: both sides are case splits on `fd`
  funext fd
  cases out with
  | none =>
      cases err with
      | none => cases redirectStderr <;> simp <;> grind
      | some q =>
          obtain rfl : redirectStderr = false := by simpa using hone
          have hq := herr q rfl
          obtain ⟨hread, hwrite⟩ := hq.std hstd
          obtain ⟨hread', hwrite', hne⟩ := hq
          simp at *
          grind
  | some p =>
      have hp := hout p rfl
      obtain ⟨hread, hwrite⟩ := hp.std hstd
      obtain ⟨hread', hwrite', hne⟩ := hp
      cases err with
      | none => cases redirectStderr <;> simp at * <;> grind
      | some q =>
          obtain rfl : redirectStderr = false := by simpa using hone
          obtain ⟨hq, ⟨_, _⟩, _, _⟩ := PipeFds.Free.of_installPipe (herr q rfl)
          obtain ⟨qread, qwrite⟩ := hq.std hstd
          obtain ⟨qread', qwrite', qne⟩ := hq
          simp at *
          grind

/-- `close_inherited_fds` closes this descriptor. -/
def Swept (limit : FdLimit) (fd : Nat) : Prop := ∃ m ∈ maxFd limit, 3 ≤ fd ∧ (fd : Int) < m

instance (limit : FdLimit) (fd : Nat) : Decidable (Swept limit fd) :=
  inferInstanceAs (Decidable (∃ _ ∈ _, _))

theorem closeInheritedFds_apply (limit : FdLimit) (fds : Fds) (fd : Nat) :
    closeInheritedFds limit fds fd = if Swept limit fd then none else fds fd := by
  by_cases h : Swept limit fd
  · rw [if_pos h]
    obtain ⟨m, hm, hge, hlt⟩ := h
    have hin : 3 ≤ fd ∧ fd < 3 + (m.toNat - 3) := by omega
    rw [closeInheritedFds, Option.mem_def.mp hm, Option.elim, Descriptors.Table.closeRun_apply,
      if_pos hin]
  · rw [if_neg h, closeInheritedFds]
    cases hm : maxFd limit with
    | none => rfl
    | some m =>
        rw [Option.elim, Descriptors.Table.closeRun_apply, if_neg]
        rintro ⟨hge, hlt⟩
        exact h ⟨m, hm, hge, by omega⟩

/-- What a program has open: the redirected table of the daemon, less what is marked and what has been
swept. -/
theorem programTask_fds_eq_some {directory : Nat} {fd : Nat} {slot : Descriptors.Slot OpenFile}
    {task : Task} {daemon : Fds} (htask : task.fds = withPipe err (withPipe out daemon))
    (hstd : ∀ fd < 3, (daemon fd).isSome) (hout : ∀ p ∈ out, p.2.Free daemon)
    (herr : ∀ p ∈ err, p.2.Free (withPipe out daemon))
    (hone : config.redirectStderr = true → err = none) :
    (programTask k config (out.map Prod.snd) (err.map Prod.snd) task directory c).fds fd = some slot ↔
      ¬ Swept k.fdLimit fd ∧ slot.cloexec = false ∧ redirected (out.map Prod.fst)
        ((if config.redirectStderr then out else err).map Prod.fst) daemon fd = some slot := by
  unfold programTask
  rw [Descriptors.Table.exec_eq_some, closeInheritedFds_apply, htask,
    redirectOutput_eq _ hstd hout herr hone]
  split
  · next hswept => simp [hswept]
  · next hswept => simp [hswept, and_comm]

end Supervisorcpp
