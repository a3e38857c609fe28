/-
# The daemon as a machine

`process_manager.cpp`, `rpc_handlers.h` and `supervisord.cpp` run in one thread, but `reap_until_`
runs the event loop again from inside a handler, so requests, ticks and exits are handled in the
middle of a stop. The machine makes the call stack explicit: a frame is a statement still to be
executed, the top of the stack is the next one, and a handler that is dispatched pushes its frames
on top of the waiting ones.

A local `shared_ptr` to a process is represented by the frame that will drop it (`release`, or the
wait of `stop_process`), so an object lives as long as the map or a frame refers to it.

The input chooses everything the code does not: what the kernel answers, which event the running
loop picks, when children exit, how much time passes between two statements.
-/
import Supervisorcpp.Manager.World

namespace Supervisorcpp

/-! ## Frames -/

/-- `enum class DaemonState`. -/
inductive DaemonState where
  | shutdown
  | restarting
  | running
  | fatal
  deriving DecidableEq, Repr

/-- Where a `reap_until_` loop is: at its condition, or in `run_for` until the given time. -/
inductive Phase where
  | check
  | runFor (until_ : Int)
  deriving DecidableEq, Repr

/-- What follows a successful `stop_process`: the handler that called it, or the `erase` of
`remove_process`. -/
inductive AfterStop where
  | return_
  | erase (node : NodeId)
  deriving DecidableEq, Repr

/-- A suspended computation: the statement it goes on with, and the local variables it needs. The
functions of the daemon are cut where control can pass to something else (an event handler in a
nested loop, a signal handler, another process) and at the turns of their loops, so that a frame is
a function at one of these points. What happens in between is one step. -/
inductive Frame where
  /-- `io_context_.run()` -/
  | run
  /-- `Supervisord::run` is left -/
  | endRun
  /-- the loops of `start_all`, `on_timer_` and `stop_all`, behind the entry `after` -/
  | startAll (after : Option String)
  | onTimer (after : Option String)
  | stopAll
  | stopAllSignal (after : Option String) (signaled : Nat)
  | waitAll (deadline : Int) (phase : Phase)
  | stopAllKill (after : Option String)
  | stopAllDone
  /-- `stop_process` waiting for its process -/
  | waitStop (obj : ObjId) (deadline : Int) (phase : Phase) (next : AfterStop)
  /-- the blocking `waitpid` of `Process::kill` -/
  | killWait (obj : ObjId)
  /-- the same in `~Process`, after which the object is gone -/
  | destructorWait (obj : ObjId)
  /-- a `shared_ptr` goes out of scope -/
  | release (obj : ObjId)
  | handleSigchld
  | startProcess (name : String)
  | removeProcess (name : String)
  | addProcess (config : ProgramConfig)
  /-- the two loops of `sync_processes` -/
  | syncRemove (it : Option NodeId) (newPrograms : List ProgramConfig)
  | syncAdd (newPrograms : List ProgramConfig)
  | reloadConfig
  | reloadDone (newConfig : Configuration)
  /-- the `catch` of `reload_config_` -/
  | reloadFailed
  | rearmSighup
  | ioStop
  /-- the destruction of `process_map_` -/
  | clearMap
  | rpcStartProcess (params : List String)
  | rpcStopProcess (params : List String)
  /-- the end of the `try` in `process_request_`, and its `catch` -/
  | answer (request : Request)
  | fault (request : Request) (what : String)
  /-- an invalid iterator was used -/
  | undefined
  deriving DecidableEq, Repr

/-- Everything the daemon keeps apart from the processes. -/
structure Ctl where
  config : Configuration
  daemonState : DaemonState
  ioStopped : Bool
  /-- shutdown tasks posted and not yet run -/
  posted : Nat
  sigtermArmed : Bool
  sighupArmed : Bool
  /-- the RPC server and the signal handlers of `Supervisord::run` exist -/
  serving : Bool
  timerExpiry : Int
  deriving DecidableEq, Repr

/-- The whole daemon. The innermost computation is the head of the stack: it is the only one that
can go on, and those below it wait in a `run_for` of theirs until it is done. -/
structure Sys where
  world : World
  ctl : Ctl
  stack : List Frame

/-- Events a running event loop can pick. -/
inductive Ready where
  | sigchld
  | timer
  | rpc (request : Request)
  | posted
  | sigterm
  | sighup
  /-- a read event of a connection from which an exception escapes -/
  | throwingRead (what : String)
  deriving DecidableEq, Repr

/-- The answers one statement gets: `parsed` is the outcome of `ConfigParser::parse_file`. -/
structure Answers extends Env where
  parsed : Except String Configuration := .error ""

/-- What happens next. Everything the environment decides is an input: the answers of the kernel,
the order of the events, the exits, and the time that passes. -/
inductive Input where
  /-- the next statement is executed -/
  | exec (env : Answers)
  /-- the innermost event loop picks an event -/
  | dispatch (ready : Ready)
  | childExit (cid : Nat) (status : WaitStatus)
  | clock (nanos : Nat)
  /-- the kernel hands out exited children in any order -/
  | reorder (children : List Child)

/-! ## Statements -/

/-- `update_interval_` of the daemon's manager: one second. -/
def updateInterval : Int := 1 * nanosPerSec

/-- `std::chrono::milliseconds(10)`. -/
def runForSlice : Int := 10000000

/-- `steady_clock::now() + seconds(n)`. -/
def deadlineIn (now : Int) (n : Int32) : Int := now + n.toInt * nanosPerSec

/-- The frames in which a local `shared_ptr` to `o` is alive. -/
def Frame.holds (o : ObjId) : Frame → Bool
  | .waitStop o' _ _ _ => o' = o
  | .release o' => o' = o
  | _ => false

namespace World

/-- One turn of the loop over `max_wait`. -/
def longerWait (w : World) (acc : Int32) (e : Entry) : Int32 :=
  match w.objs e.obj with
  | some p => if 0 < p.pid then max acc p.config.stopwaitsecs else acc
  | none => acc

/-- `max_wait` of `stop_all`. -/
def maxWait (w : World) : Int32 := w.processMap.foldl w.longerWait 0

/-- The rest of `remove_process` once the stop is over. The line it logs behind `erase` is not
modelled: the first loop of `sync_processes` passes a reference to the key that `erase` destroys, so
the name in that line is read from freed memory. -/
def eraseFrames (w : World) (node : NodeId) (held : List Frame) : World × List Frame :=
  match w.eraseNode node with
  | some (w, o) => (w, held ++ [.release o])
  | none => (w, [.undefined])

end World

/-- `++it`. -/
def nextNodeAfter (node : NodeId) : List Entry → Option NodeId
  | [] => none
  | e :: es => if e.node = node then es.head?.map (·.node) else nextNodeAfter node es

/-- The reply of the handlers when `params` is empty. -/
def nameRequired : String := "Process name required"

/-- `supervisor.startProcess`. -/
def rpcStartProcess (w : World) (params : List String) (env : Answers) : Option World :=
  let reply := fun (w : World) (fault : Option String) =>
    some (w.note (.answered (.startProcess params) fault))
  match params with
  | [] => reply w (some nameRequired)
  | name :: _ =>
    match w.find name with
    | none => reply w (some ("BAD_NAME: " ++ name))
    | some e =>
      (w.objs e.obj).bind fun p =>
        if p.state = .running ∨ p.state = .starting then
          reply w (some ("ALREADY_STARTED: " ++ name))
        else
          (w.callStart e.obj env.toEnv).bind fun r =>
            if r.2 then reply r.1 none else reply r.1 (some ("SPAWN_ERROR: " ++ name))

/-- `supervisor.stopProcess` up to the wait of `stop_process`. -/
def rpcStopProcess (w : World) (params : List String) (env : Answers) :
    Option (World × List Frame) :=
  let fault := fun (w : World) (what : String) =>
    some (w.note (.answered (.stopProcess params) (some what)), [])
  match params with
  | [] => fault w nameRequired
  | name :: _ =>
    match w.find name with
    | none => fault w ("BAD_NAME: " ++ name)
    | some e =>
      (w.objs e.obj).bind fun p =>
        -- the handler's own check; `backoff` passes it and is refused by `stop`
        if p.state = .stopped ∨ p.state = .exited ∨ p.state = .fatal then
          fault w ("NOT_RUNNING: " ++ name)
        else
          (w.callStop e.obj env.toEnv).bind fun r =>
            if r.2 then
              some (r.1, [.waitStop e.obj (deadlineIn r.1.now (p.config.stopwaitsecs + 1)) .check
                .return_, .answer (.stopProcess params)])
            else fault r.1 ("NOT_RUNNING: " ++ name)

/-- `remove_process` up to its `erase`, or to the wait of the `stop_process` it calls. -/
def removeProcess (w : World) (name : String) (env : Answers) : Option (World × List Frame) :=
  match w.find name with
  | none => some (w, [])
  | some e =>
    (w.objs e.obj).bind fun p =>
      if 0 < p.pid then
        (w.callStop e.obj env.toEnv).map fun r =>
          if r.2 then
            (r.1, [.waitStop e.obj (deadlineIn r.1.now (p.config.stopwaitsecs + 1)) .check
              (.erase e.node)])
          else r.1.eraseFrames e.node []
      else some (w.eraseFrames e.node [])

/-- `stop_process` returns true. -/
def stopProcessReturns (w : World) (o : ObjId) (next : AfterStop) : World × List Frame :=
  let w := w.note (.stopReturned o (w.pidOf o))
  match next with
  | .return_ => (w, [.release o])
  | .erase node => w.eraseFrames node [.release o]

/-- A `shared_ptr` to `o` is dropped while `rest` is on the stack: the last one runs `~Process`. -/
def releaseProcess (w : World) (o : ObjId) (rest : List Frame) (env : Answers) :
    Option (World × List Frame) :=
  -- another reference is left
  if w.mapped o || rest.any (Frame.holds o) then some (w, [])
  else
    match w.objs o with
    | none => some (w, [])
    | some p =>
      if 0 < p.pid then
        (w.callKill o .destructor env.toEnv).map fun w => (w, [.destructorWait o])
      else some (w.destroy o, [])

/-- Execute the statement `frame` on top of `rest`: the new world and control, and the frames that
take its place. `none` means that the statement cannot be executed now. -/
def execFrame (env : Answers) (rest : List Frame) (w : World) (c : Ctl) :
    Frame → Option (World × Ctl × List Frame)
  | .run => if c.ioStopped then some (w, c, []) else none
  | .endRun => some (w, { c with serving := false }, [])
  | .startAll after =>
    match w.nextEntry after with
    | none => some (w, c, [])
    | some e => (w.callStart e.obj env.toEnv).map fun r =>
        (r.1, c, [.startAll (some e.name)])
  | .onTimer after =>
    match w.nextEntry after with
    | none => some (w, { c with timerExpiry := w.now + updateInterval }, [])
    | some e => (w.callUpdate e.obj env.toEnv).map fun w => (w, c, [.onTimer (some e.name)])
  | .stopAll =>
    if w.processMap.isEmpty then some (w, c, [.stopAllDone])
    else some (w, c, [.stopAllSignal none 0])
  | .stopAllSignal after signaled =>
    match w.nextEntry after with
    | some e =>
      if 0 < w.pidOf e.obj then
        (w.callStop e.obj env.toEnv).map fun r =>
          (r.1, c, [.stopAllSignal (some e.name) (signaled + 1)])
      else some (w, c, [.stopAllSignal (some e.name) signaled])
    | none =>
      -- the early return of `stop_all`
      if signaled = 0 then some (w, c, [.stopAllDone])
      else some (w, c, [.waitAll (deadlineIn w.now (w.maxWait + 1)) .check])
  | .waitAll deadline .check =>
    if w.hasRunningProcesses && decide (w.now < deadline) then
      let r := w.handleSigchld
      -- `continue` when something was reaped, else ten milliseconds of the event loop
      if r.2 then some (r.1, c, [.waitAll deadline .check])
      else some (r.1, c, [.waitAll deadline (.runFor (w.now + runForSlice))])
    else some (w, c, [.stopAllKill none])
  | .waitAll deadline (.runFor until_) =>
    -- a stopped event loop returns from `run_for` at once
    if until_ ≤ w.now || c.ioStopped then some (w, c, [.waitAll deadline .check]) else none
  | .stopAllKill after =>
    match w.nextEntry after with
    | none => some (w, c, [.stopAllDone])
    | some e =>
      if 0 < w.pidOf e.obj then
        (w.callKill e.obj .forceKill env.toEnv).map fun w =>
          (w, c, [.killWait e.obj, .stopAllKill (some e.name)])
      else some (w, c, [.stopAllKill (some e.name)])
  | .stopAllDone => some (w.note .stopAllReturned, c, [])
  | .waitStop o deadline .check next =>
    if 0 < w.pidOf o ∧ w.now < deadline then
      let r := w.handleSigchld
      if r.2 then some (r.1, c, [.waitStop o deadline .check next])
      else some (r.1, c, [.waitStop o deadline (.runFor (w.now + runForSlice)) next])
    else
      let r := stopProcessReturns w o next
      some (r.1, c, r.2)
  | .waitStop o deadline (.runFor until_) next =>
    if until_ ≤ w.now || c.ioStopped then some (w, c, [.waitStop o deadline .check next])
    else none
  | .killWait o => (w.finishKill o env.toEnv).map fun w => (w, c, [])
  | .release o => (releaseProcess w o rest env).map fun r => (r.1, c, r.2)
  | .destructorWait o => (w.finishKill o env.toEnv).map fun w => (w.destroy o, c, [])
  | .handleSigchld => some (w.handleSigchld.1, c, [])
  | .startProcess name =>
    match w.find name with
    | none => some (w, c, [])
    | some e => (w.callStart e.obj env.toEnv).map fun r => (r.1, c, [])
  | .removeProcess name => (removeProcess w name env).map fun r => (r.1, c, r.2)
  | .addProcess config =>
    let r := w.addProcess config
    some (r.1, c, (r.2.map Frame.release).toList)
  | .syncRemove none _ => some (w, c, [])
  | .syncRemove (some it) newPrograms =>
    match w.processMap.find? fun e => e.node = it with
    | none => some (w, c, [.undefined])
    | some e =>
      -- `++it` comes before the removal, so the iterator may dangle by the time it is used
      let next := Frame.syncRemove (nextNodeAfter it w.processMap) newPrograms
      if newPrograms.any fun prog => prog.name = e.name then some (w, c, [next])
      else some (w, c, [.removeProcess e.name, next])
  | .syncAdd [] => some (w, c, [])
  | .syncAdd (prog :: progs) =>
    match w.find prog.name with
    | none => some (w, c, [.addProcess prog, .startProcess prog.name, .syncAdd progs])
    | some e =>
      (w.objs e.obj).map fun p =>
        if p.config.Same prog then (w, c, [.syncAdd progs])
        -- the result of `remove_process` is not looked at
        else (w, c, [.removeProcess prog.name, .addProcess prog, .startProcess prog.name,
          .syncAdd progs])
  | .reloadConfig =>
    if c.config.configFile = "" then some (w, c, [])
    -- a reload is already in progress, further down the stack
    else if c.daemonState = .restarting then some (w, c, [])
    else
      match env.parsed with
      | .error _ => some (w, { c with daemonState := .running }, [])
      | .ok newConfig =>
        some (w, { c with daemonState := .restarting },
          [.syncRemove (w.processMap.head?.map (·.node)) newConfig.programs,
            .syncAdd newConfig.programs, .reloadDone newConfig])
  | .reloadDone newConfig =>
    some (w, { c with config := newConfig, daemonState := .running }, [])
  | .reloadFailed => some (w, { c with daemonState := .running }, [])
  | .rearmSighup => some (w, { c with sighupArmed := true }, [])
  | .ioStop => some (w, { c with ioStopped := true }, [])
  | .clearMap =>
    match w.processMap with
    | [] => some (w, c, [])
    | e :: _ =>
      let r := w.eraseFrames e.node []
      some (r.1, c, r.2 ++ [.clearMap])
  | .rpcStartProcess params => (rpcStartProcess w params env).map fun w => (w, c, [])
  | .rpcStopProcess params => (rpcStopProcess w params env).map fun r => (r.1, c, r.2)
  | .answer request => some (w.note (.answered request none), c, [])
  | .fault request what => some (w.note (.answered request (some what)), c, [])
  | .undefined => none

/-! ## Events -/

/-- The stack after an exception has left the innermost event loop: locals are destroyed on the way
to the next `catch`, which is that of a request, that of `reload_config_`, or the one in `main`. -/
def unwind (what : String) : List Frame → List Frame
  | [] => []
  -- the local `shared_ptr` of `stop_process` is destroyed
  | .waitStop o _ _ _ :: rest => .release o :: unwind what rest
  | .release o :: rest => .release o :: unwind what rest
  -- the three `catch` blocks
  | .answer request :: rest => .fault request what :: rest
  | .reloadDone _ :: rest => .reloadFailed :: rest
  | .run :: rest => rest
  | _ :: rest => unwind what rest

/-- The innermost event loop is running and has time left. -/
def looping (now : Int) : List Frame → Bool
  | .run :: _ => true
  | .waitAll _ (.runFor until_) :: _ => now < until_
  | .waitStop _ _ (.runFor until_) _ :: _ => now < until_
  | _ => false

/-- The frames a request pushes, and the task it posts. -/
def requestFrames : Request → List Frame
  | .startProcess params => [.rpcStartProcess params]
  | .stopProcess params => [.rpcStopProcess params]
  | .startAllProcesses => [.startAll none, .answer .startAllProcesses]
  | .stopAllProcesses => [.stopAll, .answer .stopAllProcesses]
  | .shutdown => [.answer .shutdown]
  | .reloadConfig => [.reloadConfig, .answer .reloadConfig]

/-- Control and stack after the running loop has picked an event that is ready. -/
def dispatch (now : Int) (c : Ctl) (stack : List Frame) : Ready → Option (Ctl × List Frame)
  | .sigchld => some (c, .handleSigchld :: stack)
  | .timer => if c.timerExpiry ≤ now then some (c, .onTimer none :: stack) else none
  | .rpc request =>
    if c.serving then
      some ({ c with posted := c.posted + if request = .shutdown then 1 else 0 },
        requestFrames request ++ stack)
    else none
  | .posted =>
    if 0 < c.posted then some ({ c with posted := c.posted - 1 }, .stopAll :: .ioStop :: stack)
    else none
  | .sigterm =>
    if c.serving && c.sigtermArmed then
      some ({ c with sigtermArmed := false, daemonState := .shutdown }, .stopAll :: .ioStop :: stack)
    else none
  | .sighup =>
    if c.serving && c.sighupArmed then
      some ({ c with sighupArmed := false }, .reloadConfig :: .rearmSighup :: stack)
    else none
  | .throwingRead what => if c.serving then some (c, unwind what stack) else none

/-- One step of the daemon and its environment. -/
def step (s : Sys) : Input → Option Sys
  | .exec env =>
    match s.stack with
    | [] => none
    | frame :: rest =>
      (execFrame env rest s.world s.ctl frame).map fun r => ⟨r.1, r.2.1, r.2.2 ++ rest⟩
  | .dispatch ready =>
    if looping s.world.now s.stack && !s.ctl.ioStopped then
      (dispatch s.world.now s.ctl s.stack ready).map fun r => ⟨s.world, r.1, r.2⟩
    else none
  | .childExit cid status =>
    if s.world.children.any fun c => c.cid = cid ∧ c.status = none then
      some { s with world := { s.world with
        children := s.world.children.map (Child.exit cid status) } }
    else none
  | .clock nanos => some { s with world := { s.world with now := s.world.now + nanos } }
  | .reorder children =>
    if children.isPerm s.world.children then
      some { s with world := { s.world with children := children } }
    else none

/-! ## Start of the daemon -/

/-- No process, no child. -/
def World.empty (now : Int) : World where
  objs := fun _ => none
  nextObj := 0
  processMap := []
  nextNode := 0
  children := []
  nextCid := 0
  now := now
  trace := []

/-- The constructor of `Supervisord` adds every program; a repeated name replaces the object added
before, which is then released. -/
def addAll : World → List ProgramConfig → World × List Frame
  | w, [] => (w, [])
  | w, prog :: progs =>
    let r := w.addProcess prog
    let rest := addAll r.1 progs
    (rest.1, (r.2.map Frame.release).toList ++ rest.2)

/-- The daemon when `Supervisord::run` starts, down to the destruction of its members. -/
def boot (config : Configuration) (now : Int) : Sys :=
  let r := addAll (World.empty now) config.programs
  { world := r.1
    ctl :=
      { config := config
        daemonState := .running
        ioStopped := false
        posted := 0
        sigtermArmed := true
        sighupArmed := true
        serving := true
        timerExpiry := now + updateInterval }
    stack := r.2 ++ [.startAll none, .run, .endRun, .stopAll, .clearMap] }

/-- The states in which the daemon starts. -/
def Boot (s : Sys) : Prop := ∃ config now, s = boot config now

/-! ## Inputs of concrete runs -/

/-- The next statement, with nothing to answer. -/
def Input.next : Input := .exec {}

/-- The next statement, in which `fork` returns `pid`. -/
def Input.forking (pid : ChildPid) : Input := .exec { fork := .ok pid }

/-- Whole seconds pass. -/
def Input.seconds (n : Nat) : Input := .clock (n * nanosPerSec.toNat)

/-- A client's request is read. -/
def Input.request (request : Request) : Input := .dispatch (.rpc request)

/-- A program with the default settings. -/
def ProgramConfig.simple (name : String) : ProgramConfig where
  name := name
  command := "/bin/" ++ name

/-- A daemon that supervises these programs. -/
def bootSimple (names : List String) : Sys :=
  boot ⟨"/etc/supervisord.conf", names.map ProgramConfig.simple⟩ 0

theorem boot_bootSimple (names : List String) : Boot (bootSimple names) := ⟨_, _, rfl⟩

end Supervisorcpp
