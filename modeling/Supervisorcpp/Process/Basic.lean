/-
# One supervised process

`process.cpp`: the state machine of `Process`. Every member function is a function of the object,
of one reading of the steady clock, and of what the kernel answers; it returns the new object, the
system calls it made, in order, and its result.

Times are readings of the steady clock in nanoseconds, one for each call. Log lines are not
modelled, and the capture of stdout/stderr lives in `Process.Streams`.

A fork hands out a positive pid; which one, and whether the fork, the pipes and the signals succeed,
is part of what the kernel answers (`Env`). Sums of `int`s wrap as the machine's do, which is what
becomes of a delay or a deadline that is configured too large.

Every member function has a lemma that says all it can do, its guards included; what follows in
other modules is proved from these lemmas and never from the bodies.
-/
import Supervisorcpp.Config.Types

namespace Supervisorcpp

/-! ## Data -/

/-- Times are counted in nanoseconds, as the steady clock counts them. -/
def nanosPerSec : Int := 1000000000

/-- `enum class State`. -/
inductive State where
  | stopped
  | starting
  | running
  | backoff
  | stopping
  | exited
  | fatal
  deriving DecidableEq, Repr

/-- The signals this code sends. -/
inductive Signal where
  | hup
  | int
  | quit
  | kill
  | term
  deriving DecidableEq, Repr

/-- What `fork` returns in the parent when it succeeds: a positive pid. -/
abbrev ChildPid := { pid : Int // 0 < pid }

/-- A status as `waitpid` reports it: `WIFEXITED` with its code, `WIFSIGNALED` with its signal
number, or any other integer. -/
inductive WaitStatus where
  | exited (code : Nat)
  | signaled (sig : Nat)
  | other (status : Int)
  deriving DecidableEq, Repr

/-- A system call made on behalf of a process. -/
inductive Call where
  /-- `fork` returned `pid` in the parent. -/
  | fork (pid : ChildPid)
  /-- `::kill(pid, sig)`. -/
  | kill (pid : Int) (sig : Signal)
  /-- `waitpid(pid, &status, 0)`, which blocks; it has reaped the child unless a signal handler
  ran before the child exited (`EINTR`). -/
  | waitpid (pid : Int) (reaped : Bool)
  deriving DecidableEq, Repr

/-- What the kernel answers inside one call: `strerror(errno)` of a failing `pipe2` or `fork`,
whether `::kill` returned 0, and whether the `waitpid` of `kill` was interrupted before the child had
exited: the handlers Asio installs are without `SA_RESTART`, so the `SIGCHLD` of another child is
enough. `undefShift` is the value of a shift C++ leaves undefined. -/
structure Env where
  stdoutPipe : Option String := none
  stderrPipe : Option String := none
  fork : Except String ChildPid := .error ""
  killOk : Bool := true
  waitInterrupted : Bool := false
  undefShift : Int32 := 0

/-- The data members of `Process` that its state machine reads or writes. -/
structure Process where
  config : ProgramConfig
  state : State
  pid : Int
  exitstatus : Int
  retryCount : Int32
  spawnError : String
  startTime : Int
  stopTime : Int
  stateChangeTime : Int
  deriving DecidableEq, Repr

/-- What a member function leaves behind. -/
structure Outcome (α : Type) where
  process : Process
  calls : List Call
  result : α

namespace Process

/-! ## Member functions -/

/-- The constructor. -/
def create (config : ProgramConfig) (now : Int) : Process where
  config := config
  state := .stopped
  pid := -1
  exitstatus := 0
  retryCount := 0
  spawnError := ""
  startTime := 0
  stopTime := 0
  stateChangeTime := now

/-- `set_state_`: the time of the change is recorded only when the state really changes. -/
def setState (p : Process) (newState : State) (now : Int) : Process :=
  if newState = p.state then p
  else { p with state := newState, stateChangeTime := now }

/-- `should_autorestart`. -/
def shouldAutorestart (p : Process) : Bool :=
  p.config.autorestart && decide (p.state ≠ .fatal)

/-- `spawn_`, as its caller sees it: the child's pid, or the text left in `spawn_error_`. -/
def spawn (config : ProgramConfig) (env : Env) : Except String ChildPid :=
  match config.stdoutLog.file.isSome, env.stdoutPipe with
  | true, some err => .error ("Failed to create stdout pipe: " ++ err)
  | _, _ =>
    match !config.redirectStderr && config.stderrLog.file.isSome, env.stderrPipe with
    | true, some err => .error ("Failed to create stderr pipe: " ++ err)
    | _, _ =>
      match env.fork with
      | .error err => .error ("Fork failed: " ++ err)
      | .ok pid => .ok pid

/-- `start`. -/
def start (p : Process) (now : Int) (env : Env) : Outcome Bool :=
  if p.state = .running ∨ p.state = .starting then ⟨p, [], true⟩
  else
    match spawn p.config env with
    | .error err =>
      let p := { p with spawnError := err, retryCount := p.retryCount + 1 }
      if p.config.startretries ≤ p.retryCount then ⟨p.setState .fatal now, [], false⟩
      else ⟨p.setState .backoff now, [], false⟩
    | .ok pid =>
      let p := { p with spawnError := "", pid := pid.val, startTime := now }
      ⟨p.setState .starting now, [.fork pid], true⟩

/-- The signal `stop` sends; every name it does not list means `SIGTERM`. -/
def stopSignal (config : ProgramConfig) : Signal :=
  if config.stopsignal = "INT" then .int
  else if config.stopsignal = "QUIT" then .quit
  else if config.stopsignal = "KILL" then .kill
  else if config.stopsignal = "HUP" then .hup
  else .term

/-- `stop`. -/
def stop (p : Process) (now : Int) (env : Env) : Outcome Bool :=
  if p.pid ≤ 0 ∨ p.state = .stopped then ⟨p, [], false⟩
  else
    let q := { p.setState .stopping now with stopTime := now }
    ⟨q, [.kill q.pid (stopSignal q.config)], env.killOk⟩

/-- What `kill` does once its `waitpid` has returned, whatever it returned. -/
def killed (p : Process) (now : Int) : Process :=
  { p with pid := -1 }.setState .stopped now

/-- `kill`: neither the result of `::kill` nor that of the blocking wait is looked at. -/
def kill (p : Process) (now : Int) (env : Env) : Outcome Unit :=
  if p.pid ≤ 0 then ⟨p, [], ()⟩
  else ⟨p.killed now, [.kill p.pid .kill, .waitpid p.pid !env.waitInterrupted], ()⟩

/-- How `on_exit` turns a wait status into `exitstatus_`. -/
def exitCode : WaitStatus → Int
  | .exited code => code
  | .signaled sig => -sig
  | .other status => status

/-- `on_exit`. -/
def onExit (p : Process) (now : Int) (status : WaitStatus) : Process :=
  let p := { p with exitstatus := exitCode status, pid := -1 }
  if p.state = .stopping then
    { p.setState .stopped now with retryCount := 0 }
  else if p.shouldAutorestart then
    if p.state = .starting then
      let p := { p with retryCount := p.retryCount + 1 }
      if p.config.startretries ≤ p.retryCount then p.setState .fatal now
      else p.setState .backoff now
    else p.setState .backoff now
  else p.setState .exited now

/-- `duration_cast<seconds>(now - state_change_time_).count()`, which truncates. -/
def elapsed (p : Process) (now : Int) : Int :=
  (now - p.stateChangeTime).tdiv nanosPerSec

/-- `1 << n` in `int`: defined for shift amounts `0..31`, the environment's value elsewhere. -/
def oneShl (n undef : Int32) : Int32 :=
  if 0 ≤ n.toInt ∧ n.toInt < 32 then 1 <<< n else undef

/-- `std::min(1 << retry_count_, 60)`. -/
def backoffDelay (p : Process) (env : Env) : Int32 :=
  min (oneShl p.retryCount env.undefShift) 60

/-- `update`. -/
def update (p : Process) (now : Int) (env : Env) : Outcome Unit :=
  match p.state with
  | .starting =>
    if p.config.startsecs.toInt ≤ p.elapsed now then
      ⟨{ p.setState .running now with retryCount := 0 }, [], ()⟩
    else ⟨p, [], ()⟩
  | .stopping =>
    if p.config.stopwaitsecs.toInt ≤ p.elapsed now then ⟨p, [.kill p.pid .kill], ()⟩
    else ⟨p, [], ()⟩
  | .backoff =>
    if (p.backoffDelay env).toInt ≤ p.elapsed now then
      let out := p.start now env
      ⟨out.process, out.calls, ()⟩
    else ⟨p, [], ()⟩
  | _ => ⟨p, [], ()⟩

/-! ## What each member function can do

One lemma per function: later modules use these and do not unfold the functions again. -/

section SetState

variable (p : Process) (st : State) (now : Int)

@[simp] theorem setState_state : (p.setState st now).state = st := by
  unfold setState
  split
  · next h => exact h.symm
  · rfl

@[simp] theorem setState_pid : (p.setState st now).pid = p.pid := by
  unfold setState
  split <;> rfl

@[simp] theorem setState_config : (p.setState st now).config = p.config := by
  unfold setState
  split <;> rfl

@[simp] theorem setState_retryCount : (p.setState st now).retryCount = p.retryCount := by
  unfold setState
  split <;> rfl

end SetState

/-- A call of `start` finds the process already up, or fails to spawn, or forks. -/
theorem start_cases (p : Process) (now : Int) (env : Env) :
    ((p.state = .running ∨ p.state = .starting) ∧ p.start now env = ⟨p, [], true⟩) ∨
    ((p.state ≠ .running ∧ p.state ≠ .starting) ∧ (p.start now env).calls = [] ∧
      (p.start now env).result = false ∧ (p.start now env).process.pid = p.pid ∧
      (p.start now env).process.config = p.config ∧
      ((p.start now env).process.state = .fatal ∨ (p.start now env).process.state = .backoff)) ∨
    ((p.state ≠ .running ∧ p.state ≠ .starting) ∧ ∃ pid : ChildPid,
      spawn p.config env = .ok pid ∧ (p.start now env).calls = [.fork pid] ∧
      (p.start now env).result = true ∧ (p.start now env).process.pid = pid.val ∧
      (p.start now env).process.config = p.config ∧
      (p.start now env).process.state = .starting) := by
  by_cases hup : p.state = .running ∨ p.state = .starting
  · exact .inl ⟨hup, by simp [start, hup]⟩
  · right
    have hnot : p.state ≠ .running ∧ p.state ≠ .starting := not_or.mp hup
    cases hs : spawn p.config env with
    | error err =>
        left
        refine ⟨hnot, ?_⟩
        simp only [start, hup, hs, if_false]
        split <;> simp
    | ok pid =>
        right
        refine ⟨hnot, pid, rfl, ?_⟩
        simp [start, hup, hs]

/-- A call of `stop` refuses and changes nothing, or enters `stopping` and signals `pid_`. -/
theorem stop_cases (p : Process) (now : Int) (env : Env) :
    ((p.pid ≤ 0 ∨ p.state = .stopped) ∧ p.stop now env = ⟨p, [], false⟩) ∨
    (0 < p.pid ∧ p.state ≠ .stopped ∧ (p.stop now env).result = env.killOk ∧
      (p.stop now env).calls = [.kill p.pid (stopSignal p.config)] ∧
      (p.stop now env).process.pid = p.pid ∧ (p.stop now env).process.config = p.config ∧
      (p.stop now env).process.state = .stopping ∧
      (p.stop now env).process.stateChangeTime =
        if p.state = .stopping then p.stateChangeTime else now) := by
  by_cases hno : p.pid ≤ 0 ∨ p.state = .stopped
  · exact .inl ⟨hno, by simp [stop, hno]⟩
  · right
    obtain ⟨hpid, hst⟩ := not_or.mp hno
    refine ⟨by omega, hst, ?_⟩
    simp only [stop, hno, if_false, setState_pid, setState_config, setState_state, true_and]
    unfold setState
    by_cases h : p.state = .stopping
    · simp [h]
    · simp [h, Ne.symm h]

@[simp] theorem killed_pid (p : Process) (now : Int) : (p.killed now).pid = -1 := by
  simp [killed]

@[simp] theorem killed_state (p : Process) (now : Int) : (p.killed now).state = .stopped := by
  simp [killed]

@[simp] theorem killed_config (p : Process) (now : Int) : (p.killed now).config = p.config := by
  simp [killed]

@[simp] theorem onExit_pid (p : Process) (now : Int) (status : WaitStatus) :
    (p.onExit now status).pid = -1 := by
  simp only [onExit]
  split_ifs <;> simp

@[simp] theorem onExit_config (p : Process) (now : Int) (status : WaitStatus) :
    (p.onExit now status).config = p.config := by
  simp only [onExit]
  split_ifs <;> simp

/-- Where an exit can lead: a stop is completed, a process that was up and may be restarted goes to
`backoff` or `fatal`, anything else ends in `exited`. -/
theorem onExit_state (p : Process) (now : Int) (status : WaitStatus) :
    (p.state = .stopping ∧ (p.onExit now status).state = .stopped) ∨
    (p.state ≠ .stopping ∧ p.shouldAutorestart = true ∧
      ((p.onExit now status).state = .backoff ∨ (p.onExit now status).state = .fatal)) ∨
    (p.state ≠ .stopping ∧ p.shouldAutorestart = false ∧ (p.onExit now status).state = .exited) := by
  by_cases h : p.state = .stopping
  · exact .inl ⟨h, by simp [onExit, h]⟩
  · right
    cases hr : p.shouldAutorestart with
    | true =>
        left
        refine ⟨h, rfl, ?_⟩
        have hr' : (p.config.autorestart && decide (p.state ≠ .fatal)) = true := hr
        simp only [onExit, h, if_false, shouldAutorestart, hr', if_true]
        split_ifs <;> simp
    | false =>
        right
        have hr' : (p.config.autorestart && decide (p.state ≠ .fatal)) = false := hr
        refine ⟨h, rfl, ?_⟩
        simp only [onExit, h, if_false, shouldAutorestart, hr', Bool.false_eq_true, setState_state]

/-- A call of `update` does nothing, or promotes `starting` to `running`, or sends the late
`SIGKILL` of a stop, or is a `start` out of `backoff`. -/
theorem update_cases (p : Process) (now : Int) (env : Env) :
    p.update now env = ⟨p, [], ()⟩ ∨
    (p.state = .starting ∧ (p.update now env).calls = [] ∧
      (p.update now env).process.pid = p.pid ∧ (p.update now env).process.config = p.config ∧
      (p.update now env).process.state = .running) ∨
    (p.state = .stopping ∧ p.config.stopwaitsecs.toInt ≤ p.elapsed now ∧
      p.update now env = ⟨p, [.kill p.pid .kill], ()⟩) ∨
    (p.state = .backoff ∧ (p.backoffDelay env).toInt ≤ p.elapsed now ∧
      (p.update now env).process = (p.start now env).process ∧
      (p.update now env).calls = (p.start now env).calls) := by
  unfold update
  cases hst : p.state with
  | starting =>
      dsimp only
      split
      · exact .inr (.inl (by simp))
      · exact .inl rfl
  | stopping =>
      dsimp only
      split
      · next h => exact .inr (.inr (.inl ⟨rfl, h, rfl⟩))
      · exact .inl rfl
  | backoff =>
      dsimp only
      split
      · next h => exact .inr (.inr (.inr ⟨rfl, h, rfl, rfl⟩))
      · exact .inl rfl
  | _ => exact .inl rfl

end Process

end Supervisorcpp
