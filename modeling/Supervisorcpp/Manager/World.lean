/-
# The world of the process manager

What `ProcessManager` works on: the `Process` objects on the heap, `process_map_`, and the kernel's
table of children that have been forked and not yet reaped. The ghost trace records calls of `start`
and `stop`, forks, signals, delivered exits and answers, newest first, and is read only by
specifications.

A `Process` object and a map node have identities of their own: the same name can belong to several
objects in the course of a run, and a pid can be handed out again as soon as its child is reaped.
-/
import Supervisorcpp.Process.Basic
import Mathlib.Data.List.Nodup
import Mathlib.Data.String.Basic
import Mathlib.Logic.Function.Basic

namespace Supervisorcpp

/-! ## Data -/

/-- Identity of a `Process` object. -/
abbrev ObjId := Nat

/-- Identity of a node of `process_map_`, which is what an iterator holds. -/
abbrev NodeId := Nat

/-- A forked child that nobody has waited for yet. -/
structure Child where
  /-- serial number of the fork -/
  cid : Nat
  pid : Int
  /-- the object whose `start` forked it, and the program name it had -/
  obj : ObjId
  name : String
  /-- `some` once the child has exited -/
  status : Option WaitStatus
  deriving DecidableEq, Repr

/-- The table entry `c` after the child with serial number `cid` has exited. -/
def Child.exit (cid : Nat) (status : WaitStatus) (c : Child) : Child :=
  if c.cid = cid then { c with status := some status } else c

/-- One node of `process_map_`. -/
structure Entry where
  name : String
  node : NodeId
  obj : ObjId
  deriving DecidableEq, Repr

/-- Which piece of code called `::kill`. -/
inductive Sender where
  | stop
  | update
  | forceKill
  | destructor
  deriving DecidableEq, Repr

/-- Who called `start`: a request, a reload or the daemon's startup; or a timer tick. -/
inductive Cause where
  | explicit
  | update
  deriving DecidableEq, Repr

/-- The requests that reach the process manager or the daemon. -/
inductive Request where
  | startProcess (params : List String)
  | stopProcess (params : List String)
  | startAllProcesses
  | stopAllProcesses
  | shutdown
  | reloadConfig
  deriving DecidableEq, Repr

/-- A `::kill` call and the child it reached, if any. -/
structure SignalRecord where
  obj : ObjId
  config : ProgramConfig
  pid : Int
  sig : Signal
  target : Option Child
  time : Int
  sender : Sender
  /-- `::kill` returned 0 -/
  ok : Bool
  deriving DecidableEq, Repr

/-- Entries of the ghost trace. -/
inductive Event where
  /-- `start` was called explicitly on an object, the program of this name -/
  | startCalled (obj : ObjId) (name : String)
  /-- `stop` was called on an object -/
  | stopCalled (obj : ObjId)
  | forked (child : Child) (cause : Cause)
  | signaled (record : SignalRecord)
  /-- `on_exit` was called on `obj` for `child` -/
  | exitDelivered (obj : ObjId) (child : Child)
  /-- `stop_process` returned true, `pid` being the object's `pid_` at that moment -/
  | stopReturned (obj : ObjId) (pid : Int)
  | stopAllReturned
  /-- the answer to a request: `none` is a result, `some` the text of a fault -/
  | answered (request : Request) (fault : Option String)
  deriving DecidableEq, Repr

/-- The objects of the daemon and the children the kernel has for it. The objects are on a heap of
their own, because `process_map_` is not the only one to hold them: a `stop_process` that waits
keeps its object when `remove_process` takes the entry away. Numbers of objects, nodes and children
are never used twice, so that a reference can be told from a later one; a pid is whatever the kernel
gives out. -/
structure World where
  objs : ObjId → Option Process
  nextObj : ObjId
  processMap : List Entry
  nextNode : NodeId
  children : List Child
  nextCid : Nat
  now : Int
  trace : List Event

namespace World

/-! ## Looking things up -/

/-- `pid()` of an object. -/
def pidOf (w : World) (o : ObjId) : Int :=
  match w.objs o with
  | some p => p.pid
  | none => -1

/-- `process_map_.find(name)`. -/
def find (w : World) (name : String) : Option Entry :=
  w.processMap.find? fun e => e.name = name

/-- The iterator behind `after` (behind the beginning for `none`), in the map's key order. -/
def nextEntry (w : World) (after : Option String) : Option Entry :=
  w.processMap.find? fun e => match after with
    | none => true
    | some k => decide (k < e.name)

/-- An object `process_map_` refers to. -/
def mapped (w : World) (o : ObjId) : Bool :=
  w.processMap.any fun e => e.obj = o

/-- `has_running_processes`. -/
def hasRunningProcesses (w : World) : Bool :=
  w.processMap.any fun e => decide (0 < w.pidOf e.obj)

/-- The unreaped child that has this pid. -/
def childOf (w : World) (pid : Int) : Option Child :=
  w.children.find? fun c => c.pid = pid

/-! ## Effects -/

/-- The object `o` is now `p`. -/
def setObj (w : World) (o : ObjId) (p : Process) : World :=
  { w with objs := Function.update w.objs o (some p) }

/-- An event is added to the trace. -/
def note (w : World) (ev : Event) : World :=
  { w with trace := ev :: w.trace }

/-- A `::kill(pid, sig)` by object `o`. -/
def signal (w : World) (o : ObjId) (config : ProgramConfig) (pid : Int) (sig : Signal)
    (sender : Sender) (ok : Bool) : World :=
  w.note (.signaled ⟨o, config, pid, sig, w.childOf pid, w.now, sender, ok⟩)

/-- A new child in the kernel's table. -/
def addChild (w : World) (child : Child) (cause : Cause) : World :=
  { w with children := child :: w.children, nextCid := w.nextCid + 1 }.note (.forked child cause)

/-- The system calls of one member function of object `o`. A fork with the pid of an unreaped
child is not something the kernel does. -/
def applyCalls (w : World) (o : ObjId) (config : ProgramConfig) (cause : Cause) (sender : Sender)
    (ok : Bool) : List Call → Option World
  | [] => some w
  | .fork pid :: calls =>
    if w.children.any fun c => c.pid = pid.val then none
    else
      (w.addChild ⟨w.nextCid, pid.val, o, config.name, none⟩ cause).applyCalls o config cause sender
        ok calls
  | .kill pid sig :: calls =>
    (w.signal o config pid sig sender ok).applyCalls o config cause sender ok calls
  | .waitpid _ _ :: calls => w.applyCalls o config cause sender ok calls

/-- `process_ptr->start()`, called by a request, by `start_all` or by `sync_processes`. -/
def callStart (w : World) (o : ObjId) (env : Env) : Option (World × Bool) :=
  (w.objs o).bind fun p =>
    let out := p.start w.now env
    ((w.note (.startCalled o p.config.name)).applyCalls o p.config .explicit .update env.killOk
      out.calls).map fun w => (w.setObj o out.process, out.result)

/-- `process_ptr->stop()`. -/
def callStop (w : World) (o : ObjId) (env : Env) : Option (World × Bool) :=
  (w.objs o).bind fun p =>
    let out := p.stop w.now env
    ((w.note (.stopCalled o)).applyCalls o p.config .explicit .stop env.killOk out.calls).map
      fun w => (w.setObj o out.process, out.result)

/-- `process_ptr->update()`. -/
def callUpdate (w : World) (o : ObjId) (env : Env) : Option World :=
  (w.objs o).bind fun p =>
    let out := p.update w.now env
    (w.applyCalls o p.config .update .update env.killOk out.calls).map fun w =>
      w.setObj o out.process

/-- `process_ptr->kill()` up to its blocking `waitpid`; the caller has seen a positive pid. -/
def callKill (w : World) (o : ObjId) (sender : Sender) (env : Env) : Option World :=
  (w.objs o).map fun p => w.signal o p.config p.pid .kill sender env.killOk

/-- The `waitpid` of `kill()` on `o` is interrupted: a signal handler runs while the child of that
pid has not exited yet. -/
def waitCut (w : World) (o : ObjId) (env : Env) : Bool :=
  env.waitInterrupted && (w.childOf (w.pidOf o)).any (·.status.isNone)

/-- The rest of `kill()`: `waitpid(pid_, &status, 0)` blocks (`none`) while the child runs, reaps
it once it has exited, and returns at once when there is no such child. What it returns is not
looked at, so a signal that interrupts it leaves the child running, or unreaped, without a process
that has its pid. -/
def finishKill (w : World) (o : ObjId) (env : Env) : Option World :=
  (w.objs o).bind fun p =>
    match w.childOf p.pid with
    -- `ECHILD`
    | none => some (w.setObj o (p.killed w.now))
    | some c =>
      match c.status with
      -- `EINTR`: Asio installs its handlers without `SA_RESTART`
      | none => if env.waitInterrupted then some (w.setObj o (p.killed w.now)) else none
      | some _ => some ({ w with children := w.children.erase c }.setObj o (p.killed w.now))

/-- One turn of the loop in `handle_sigchld_`: child `c` has been reaped with `status`, and the
first process of the map that has its pid is told. -/
def reap (w : World) (c : Child) (status : WaitStatus) : World :=
  let w := { w with children := w.children.erase c }
  match w.processMap.find? fun e => w.pidOf e.obj = c.pid with
  -- nobody in the map has this pid: the status is dropped
  | none => w
  | some e =>
    match w.objs e.obj with
    | none => w
    | some p => (w.setObj e.obj (p.onExit w.now status)).note (.exitDelivered e.obj c)

/-- The children `waitpid(-1, &status, WNOHANG)` hands out, in the kernel's order. -/
def exitedChildren (w : World) : List (Child × WaitStatus) :=
  w.children.filterMap fun c => c.status.map fun status => (c, status)

/-- `handle_sigchld_`: every child that has exited is reaped; true if there was one. -/
def handleSigchld (w : World) : World × Bool :=
  (w.exitedChildren.foldl (fun w z => w.reap z.1 z.2) w, !w.exitedChildren.isEmpty)

/-- Insertion in key order. -/
def insertEntry (e : Entry) : List Entry → List Entry
  | [] => [e]
  | e' :: es => if e.name < e'.name then e :: e' :: es else e' :: insertEntry e es

/-- `add_process`: `process_map_[config.name] = Process::create(...)`. An existing node keeps its
identity and drops its object, which is returned. -/
def addProcess (w : World) (config : ProgramConfig) : World × Option ObjId :=
  let o := w.nextObj
  let w' := { w with
    objs := Function.update w.objs o (some (Process.create config w.now))
    nextObj := o + 1 }
  match w.find config.name with
  | some e =>
    ({ w' with processMap := w.processMap.map fun e' =>
        if e'.node = e.node then { e' with obj := o } else e' }, some e.obj)
  | none =>
    ({ w' with
        processMap := insertEntry ⟨config.name, w.nextNode, o⟩ w.processMap
        nextNode := w.nextNode + 1 }, none)

/-- `process_map_.erase(it)`: the world without the node and the object it referred to; `none` when
the iterator no longer refers to a node, which is undefined behaviour. -/
def eraseNode (w : World) (node : NodeId) : Option (World × ObjId) :=
  (w.processMap.find? fun e => e.node = node).map fun e =>
    ({ w with processMap := w.processMap.filter fun e' => e'.node ≠ node }, e.obj)

/-- The end of `~Process`. -/
def destroy (w : World) (o : ObjId) : World :=
  { w with objs := Function.update w.objs o none }

end World

end Supervisorcpp
