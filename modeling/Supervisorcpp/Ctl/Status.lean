/-
# What `supervisorctl status` shows

From the map of processes to the lines on the screen: the two handlers that tell about processes, the
answer on its way, and what `supervisorctl` prints of it. In every reachable state of the daemon there
is one line for each process, in the order of the names, and nothing the line says is out of date.

What the handlers answer is taken from a state that the machine of `Manager.Daemon` can reach, so
its invariants apply: a process that is up has a positive pid and a start that is not in the future,
and the map is in the order of the names.
-/
import Supervisorcpp.Ctl.Commands
import Supervisorcpp.Manager.Members
import Supervisorcpp.Process.Info

namespace Supervisorcpp

open Bytes (ascii)

/-! ## The handlers -/

/-- `get_all_process_info`. -/
def World.getAllProcessInfo (w : World) : List ProcessInfo :=
  w.processMap.filterMap fun e => (w.objs e.obj).map fun p => p.getInfo w.now

/-- `supervisor.getProcessInfo`. -/
def rpcGetProcessInfo (w : World) (params : List Bytes) : Except Bytes CtlClient.Answer :=
  match params with
  | [] => .error (ascii nameRequired)
  | name :: _ =>
    match (w.find (latin name)).bind fun e => w.objs e.obj with
    | none => .error (ascii "BAD_NAME: " ++ name)
    | some p => .ok (.info (p.getInfo w.now))

/-! ## The start of a process that is up lies in the past -/

namespace Process

/-- A process that is up has been started. -/
def Started (p : Process) (now : Int) : Prop := p.isUp = true → p.startTime ≤ now

theorem not_up {p : Process} (h : p.state ≠ .running ∧ p.state ≠ .starting) : p.isUp = false := by
  simp [isUp, h]

/-- A process that is not up has no start to be in the past. -/
theorem started_of_not_up {p : Process} {now : Int}
    (h : p.state ≠ .running ∧ p.state ≠ .starting) : p.Started now := by
  intro hup
  rw [not_up h] at hup
  cases hup

theorem started_setState {p : Process} {st : State} {now : Int} (h : p.startTime ≤ now) :
    (p.setState st now).Started now := by
  intro _
  unfold setState
  split
  · exact h
  · exact h

/-- A start is not in the future. -/
theorem started_start {p : Process} {now : Int} (env : Env) (h : p.Started now) :
    (p.start now env).process.Started now := by
  unfold start
  split
  · exact h
  · split
    · dsimp only
      split
      · exact started_of_not_up (by simp)
      · exact started_of_not_up (by simp)
    · exact started_setState (Int.le_refl now)

theorem started_stop {p : Process} {now : Int} (env : Env) (h : p.Started now) :
    (p.stop now env).process.Started now := by
  rcases stop_cases p now env with ⟨_, hout⟩ | ⟨_, _, _, _, _, _, hstop, _⟩
  · rw [hout]
    exact h
  · exact started_of_not_up (by simp [hstop])

/-- An update starts at most now. -/
theorem started_update {p : Process} {now : Int} (env : Env) (h : p.Started now) :
    (p.update now env).process.Started now := by
  unfold update
  split
  · next hst =>
      split
      · have hup : p.isUp = true := by simp [isUp, hst]
        exact started_setState (h hup)
      · exact h
  · split <;> exact h
  · split
    · exact started_start env h
    · exact h
  · exact h

/-- Every member function keeps it: only `start` makes a process be up, and sets the time. -/
theorem lasting_started : Lasting Started where
  create _ _ := started_of_not_up (by simp [create])
  start env h := started_start env h
  stop env h := started_stop env h
  update env h := started_update env h
  killed _ := started_of_not_up (by simp)
  onExit {p now} status _ := by
    have hidle := onExit_not_active p now status
    exact started_of_not_up ⟨fun h => hidle (.inr (.inl h)), fun h => hidle (.inl h)⟩
  later h hle hup := Int.le_trans (h hup) hle

end Process

namespace CtlClient

/-! ## The command -/

section Run

variable {σ : Type}

theorem run_print (text : Bytes) (s : Session σ) :
    Programs.run (print text) s = (.ok ⟨⟩, s.put text) := rfl

/-- A call changes the daemon and prints nothing. -/
theorem run_fetch {τ : Type} (r : Remote σ τ) (method : Bytes) (params : List Bytes)
    (s : Session σ) : Programs.run (r.fetch method params) s =
      ((r.callMethod method params s.daemon).1,
        { s with daemon := (r.callMethod method params s.daemon).2 }) := rfl

/-- The lines of all records, one after the other. -/
theorem run_printProcessInfos (infos : List ProcessInfo) (s : Session σ) :
    Programs.run (printProcessInfos infos) s =
      (.ok ⟨⟩, s.put (infos.flatMap infoLine)) := by
  induction infos generalizing s with
  | nil => simp [printProcessInfos, Programs.run_pure, Session.put]
  | cons info infos ih =>
      have hcons : printProcessInfos (info :: infos) =
          (print (infoLine info) >>= fun _ => printProcessInfos infos : Command σ PUnit) := rfl
      rw [hcons, Programs.run_bind, run_print]
      simp only [ih, List.flatMap_cons, Session.put, List.append_assoc]

/-- A command that `execute_command` finds, and that does not throw. -/
theorem executeCommand_ok {τ : Type} {r : Remote σ τ} {method : Bytes} {cmd : CommandInfo}
    {args : List Bytes} {s s' : Session σ} {code : Int} (hne : method ≠ [])
    (hfind : (commands.find? fun cmd => cmd.method = method) = some cmd)
    (hrun : Programs.run (cmd.func.run r args) s = (.ok code, s')) :
    Programs.run (executeCommand r method args) s = (.ok code, s') := by
  unfold executeCommand
  rw [if_neg hne, hfind, Programs.run_tryCatch, hrun]

/-- One that throws: the exception is printed. -/
theorem executeCommand_error {τ : Type} {r : Remote σ τ} {method : Bytes} {cmd : CommandInfo}
    {args : List Bytes} {s s' : Session σ} {e : Error} (hne : method ≠ [])
    (hfind : (commands.find? fun cmd => cmd.method = method) = some cmd)
    (hrun : Programs.run (cmd.func.run r args) s = (.error e, s')) :
    Programs.run (executeCommand r method args) s =
      (.ok 1, s'.putErr (ascii "Error: " ++ e.what ++ ascii "\n")) := by
  unfold executeCommand
  rw [if_neg hne, hfind, Programs.run_tryCatch, hrun]
  rfl

end Run

/-! ## What it shows -/

/-- The handlers that tell about processes are those of a daemon, which is in a reachable state
whenever they are called. -/
structure ServesStatus {σ : Type} (server : Server σ) (daemon : σ → Sys) : Prop where
  reachable : ∀ s, Machine.Reach step Machine.anyStep Boot (daemon s)
  all : ∀ s, server s (ascii "supervisor.getAllProcessInfo") [] =
    (.ok (.infos (daemon s).world.getAllProcessInfo), s)
  one : ∀ s name, server s (ascii "supervisor.getProcessInfo") [name] =
    (rpcGetProcessInfo (daemon s).world [name], s)

/-- The line about a process. -/
def statusLine (p : Process) (now : Int) : Bytes := infoLine (.of (p.getInfo now))

/-- A line tells the truth: the name, the state, and for a process that is up its pid and how long it
has been up, in whole seconds. -/
structure TellsTruth (e : Entry) (p : Process) (now : Int) : Prop where
  name : p.config.name = e.name
  line : statusLine p now =
    padRight 20 (ascii e.name) ++ padRight 15 p.state.text ++ p.description now ++ ascii "\n"
  idle : p.isUp = false → p.description now = []
  pid : p.isUp = true → 0 < p.pid ∧ p.startTime ≤ now
  up : p.isUp = true → (now - p.startTime).tdiv nanosPerSec < 2 ^ 31 →
    Process.readDescription (p.description now) =
      (p.pid.toNat, ((now - p.startTime).tdiv nanosPerSec).toNat)

section Truth

variable {s : Sys} {e : Entry} {p : Process}

/-- In every reachable state the line of a managed process tells the truth about it. -/
theorem tellsTruth (h : Machine.Reach step Machine.anyStep Boot s) (he : e ∈ s.world.processMap)
    (hp : s.world.objs e.obj = some p) : TellsTruth e p s.world.now := by
  have hwf := (Sys.Wf.reach h).world
  have hname := hwf.config_name he hp
  have hpid : p.isUp = true → 0 < p.pid ∧ p.startTime ≤ s.world.now := by
    intro hup
    have hactive : Process.Active p.state := by
      have hst : p.state = .running ∨ p.state = .starting := by simpa [Process.isUp] using hup
      rcases hst with hst | hst
      · exact .inr (.inl hst)
      · exact .inl hst
    exact ⟨(hwf.coherent e.obj p hp).active hactive,
      Process.lasting_started.reach h e.obj p hp hup⟩
  refine ⟨hname, ?_, ?_, hpid, ?_⟩
  · rw [← hname]
    rfl
  · intro hidle
    rw [Process.description, hidle]
    rfl
  · intro hup hrange
    obtain ⟨hpos, hstart⟩ := hpid hup
    exact Process.readDescription_description hup hpos hstart hrange

end Truth

section Shown

variable {σ : Type} {readXml : Bytes → Except Bytes Ptree} {server : Server σ} {daemon : σ → Sys}

/-- Every entry of the map has its line. -/
theorem lines_getAllProcessInfo {s : Sys} (h : Machine.Reach step Machine.anyStep Boot s)
    (es : List Entry) (hes : ∀ e ∈ es, e ∈ s.world.processMap) :
    ∃ lines, List.Forall₂ (fun e line => ∃ p, s.world.objs e.obj = some p ∧
        TellsTruth e p s.world.now ∧ line = statusLine p s.world.now) es lines ∧
      ((es.filterMap fun e => (s.world.objs e.obj).map fun p =>
        p.getInfo s.world.now).map ProcessInfo.of).flatMap infoLine = lines.flatten := by
  induction es with
  | nil => exact ⟨[], .nil, rfl⟩
  | cons e es ih =>
      obtain ⟨he, hes⟩ := List.forall_mem_cons.mp hes
      obtain ⟨p, hp, -⟩ := (Sys.Wf.reach h).world.live e he
      obtain ⟨lines, hlines, htext⟩ := ih hes
      refine ⟨statusLine p s.world.now :: lines,
        .cons ⟨p, hp, tellsTruth h he hp, rfl⟩ hlines, ?_⟩
      rw [List.filterMap_cons_some (by rw [hp]; rfl), List.map_cons, List.flatMap_cons, htext,
        List.flatten_cons]
      rfl

/-- The command for every process, with the handlers. -/
theorem run_allStatus (hserves : ServesStatus server daemon) (s : Session σ) :
    Programs.run (allStatus (direct server)) s = (.ok 0,
      s.put (((daemon s.daemon).world.getAllProcessInfo.map ProcessInfo.of).flatMap infoLine)) := by
  have hfetch : Programs.run ((direct server).fetch (ascii "supervisor.getAllProcessInfo") []) s =
      (.ok (.infos (daemon s.daemon).world.getAllProcessInfo), s) := by
    rw [run_fetch]
    simp only [direct, hserves.all, Except.mapError]
  unfold allStatus
  rw [Programs.run_bind_ok _ hfetch]
  have hparsed : Programs.run (parsed ((direct server).infos
      (.infos (daemon s.daemon).world.getAllProcessInfo))) s =
      (.ok ((daemon s.daemon).world.getAllProcessInfo.map ProcessInfo.of), s) := rfl
  rw [Programs.run_bind_ok _ hparsed, Programs.run_bind_ok _ (run_printProcessInfos _ s)]
  rfl

/-- The command for one process that is there. -/
theorem run_oneStatus {name : Bytes} {p : Process} (hserves : ServesStatus server daemon)
    (s : Session σ) (hp : ((daemon s.daemon).world.find (latin name)).bind
      (fun e => (daemon s.daemon).world.objs e.obj) = some p) :
    Programs.run (oneStatus (direct server) name) s = (.ok 0,
      s.put (statusLine p (daemon s.daemon).world.now)) := by
  have hfetch : Programs.run
      ((direct server).fetch (ascii "supervisor.getProcessInfo") [name]) s =
      (.ok (.info (p.getInfo (daemon s.daemon).world.now)), s) := by
    rw [run_fetch]
    simp only [direct, hserves.one, rpcGetProcessInfo, hp, Except.mapError]
  unfold oneStatus
  rw [Programs.run_bind_ok _ hfetch]
  have hparsed : Programs.run (parsed ((direct server).info
      (.info (p.getInfo (daemon s.daemon).world.now)))) s =
      (.ok (ProcessInfo.of (p.getInfo (daemon s.daemon).world.now)), s) := rfl
  rw [Programs.run_bind_ok _ hparsed]
  rfl

/-- And for one that is not. -/
theorem run_oneStatus_badName {name : Bytes} (hserves : ServesStatus server daemon) (s : Session σ)
    (hp : ((daemon s.daemon).world.find (latin name)).bind
      (fun e => (daemon s.daemon).world.objs e.obj) = none) :
    Programs.run (oneStatus (direct server) name) s = (.error (.xmlRpcError (ascii "BAD_NAME") name
      (name ++ ascii " - no such process")), s) := by
  have hthrown : thrownFor (ascii "BAD_NAME: " ++ name) = .xmlRpcError (ascii "BAD_NAME") name
      (name ++ ascii " - no such process") := by
    have htable : (ascii "BAD_NAME", ascii "no such process") ∈ translations := List.mem_cons_self
    have hfault : faultError (ascii "BAD_NAME: " ++ name) = .xmlRpcError (ascii "BAD_NAME") name
        (name ++ ascii " - " ++ ascii "no such process") := faultError_translated name htable
    rw [thrownFor, hfault, List.append_assoc]
    rfl
  have hfetch : Programs.run
      ((direct server).fetch (ascii "supervisor.getProcessInfo") [name]) s =
      (.error (thrownFor (ascii "BAD_NAME: " ++ name)), s) := by
    rw [run_fetch]
    simp only [direct, hserves.one, rpcGetProcessInfo, hp, Except.mapError]
  unfold oneStatus
  rw [Programs.run_bind_error _ hfetch, hthrown]

/-- Over the wire the command for every process does what it does with the handlers. -/
theorem status_all (wire : Wire σ) (uninit : Int) (s : Session σ)
    (hserves : ServesStatus server daemon)
    (h : GetsThrough readXml server (ascii "supervisor.getAllProcessInfo") []) :
    Programs.run (executeCommand (overWire readXml server wire uninit) (ascii "status") []) s =
      (.ok 0,
        s.put (((daemon s.daemon).world.getAllProcessInfo.map ProcessInfo.of).flatMap infoLine)) := by
  have hcalls : ∀ call ∈ [(ascii "supervisor.getAllProcessInfo", [])],
      GetsThrough readXml server call.1 call.2 := List.forall_mem_singleton.mpr h
  have hsame := overWire_sameFor server wire uninit hcalls
  have heq := (allStatus_alike hsame List.mem_cons_self).eq
  refine executeCommand_ok (by decide) rfl ?_
  show Programs.run (allStatus (overWire readXml server wire uninit)) s = _
  rw [heq]
  exact run_allStatus hserves s

/-- So does the command for one process. -/
theorem status_one (wire : Wire σ) (uninit : Int) {name : Bytes} (rest : List Bytes)
    (hname : name ≠ ascii "all")
    (h : GetsThrough readXml server (ascii "supervisor.getProcessInfo") [name]) :
    CommandFunc.status.run (overWire readXml server wire uninit) (name :: rest) =
      oneStatus (direct server) name := by
  have hcalls : ∀ call ∈ [(ascii "supervisor.getProcessInfo", [name])],
      GetsThrough readXml server call.1 call.2 := List.forall_mem_singleton.mpr h
  have hsame := overWire_sameFor server wire uninit hcalls
  show cmdStatus _ (name :: rest) = _
  rw [cmdStatus, if_neg hname]
  exact (oneStatus_alike hsame List.mem_cons_self).eq

/-- **What `status` shows.**  Whatever run has brought the daemon to its state, and however the bytes
travel: without arguments there is one true line for each process of the map, in the strict order of
the names, and the exit code is 0; with a name there is the line of that process, or the error that
there is none, and the exit code says which. -/
theorem status_shows_processes (hserves : ServesStatus server daemon) (wire : Wire σ) (uninit : Int)
    (s : Session σ) :
    let w := (daemon s.daemon).world
    let status := fun args => Programs.run
      (executeCommand (overWire readXml server wire uninit) (ascii "status") args) s
    (GetsThrough readXml server (ascii "supervisor.getAllProcessInfo") [] →
      ∃ lines, List.Forall₂ (fun e line => ∃ p, w.objs e.obj = some p ∧ TellsTruth e p w.now ∧
          line = statusLine p w.now) w.processMap lines ∧
        status [] = (.ok 0, s.put lines.flatten)) ∧
    w.processMap.Pairwise (fun e e' => e.name < e'.name) ∧
    (∀ name rest, name ≠ ascii "all" →
      GetsThrough readXml server (ascii "supervisor.getProcessInfo") [name] →
      (∀ e, w.find (latin name) = some e → ∃ p, w.objs e.obj = some p ∧ TellsTruth e p w.now ∧
        status (name :: rest) = (.ok 0, s.put (statusLine p w.now))) ∧
      (w.find (latin name) = none → status (name :: rest) =
        (.ok 1, s.putErr (ascii "Error: " ++ (name ++ ascii " - no such process") ++
          ascii "\n")))) := by
  intro w status
  have hreach := hserves.reachable s.daemon
  refine ⟨fun h => ?_, (Sys.Wf.reach hreach).world.sorted, fun name rest hname h => ⟨?_, ?_⟩⟩
  · obtain ⟨lines, hlines, htext⟩ := lines_getAllProcessInfo hreach w.processMap fun _ he => he
    refine ⟨lines, hlines, ?_⟩
    rw [← htext]
    exact status_all wire uninit s hserves h
  · intro e hfind
    obtain ⟨hmem, -⟩ := World.find_mem hfind
    obtain ⟨p, hp, -⟩ := (Sys.Wf.reach hreach).world.live e hmem
    refine ⟨p, hp, tellsTruth hreach hmem hp, executeCommand_ok (by decide) rfl ?_⟩
    show Programs.run (CommandFunc.status.run _ (name :: rest)) s = _
    rw [status_one wire uninit rest hname h]
    refine run_oneStatus hserves s ?_
    rw [hfind]
    exact hp
  · intro hfind
    have hnone : (w.find (latin name)).bind (fun e => w.objs e.obj) = none := by
      rw [hfind]
      rfl
    have hrun := run_oneStatus_badName hserves s hnone
    rw [← status_one wire uninit rest hname h] at hrun
    have hne : ascii "status" ≠ [] := by decide
    exact executeCommand_error hne rfl hrun

end Shown

/-! ### A daemon with one process -/

/-- One process, started five seconds ago. -/
def webUp (_ : Unit) : Sys :=
  (Machine.run step (bootSimple ["web"]) [.forking ⟨4321, by decide⟩, .next, .seconds 5]).getD
    (bootSimple ["web"])

/-- A daemon with two processes, one of them started. -/
theorem reach_webUp (u : Unit) : Machine.Reach step Machine.anyStep Boot (webUp u) := by
  have hboot : Machine.Reach step Machine.anyStep Boot (bootSimple ["web"]) :=
    .init (boot_bootSimple _)
  unfold webUp
  cases hrun : Machine.run step (bootSimple ["web"])
      [.forking ⟨4321, by decide⟩, .next, .seconds 5] with
  | none => exact hboot
  | some s => exact hboot.of_run hrun

/-- Its handlers. -/
def webStatus : Server Unit := fun u method params =>
  if method = ascii "supervisor.getAllProcessInfo" then
    (.ok (.infos (webUp u).world.getAllProcessInfo), u)
  else (rpcGetProcessInfo (webUp u).world params, u)

theorem webStatus_serves : ServesStatus webStatus webUp where
  reachable := reach_webUp
  all _ := rfl
  one _ _ := rfl

/-- The documents of three calls and their answers. -/
def statusDocuments : List Xml.Node :=
  [methodCall (ascii "supervisor.getAllProcessInfo") [],
    methodCall (ascii "supervisor.getProcessInfo") [ascii "db"],
    answerDocument (.ok (.infos (webUp ()).world.getAllProcessInfo)),
    answerDocument (.error (ascii "BAD_NAME: db"))]

theorem statusDocuments_nodup : (statusDocuments.map Xml.document).Nodup := by decide +kernel

theorem webStatus_all : GetsThrough (readAnyOf statusDocuments) webStatus
    (ascii "supervisor.getAllProcessInfo") [] where
  plainMethod := by decide
  plainParams := by simp
  fits := by decide +kernel
  reads := readAnyOf_verbatim statusDocuments_nodup List.mem_cons_self rfl
  answers _ := by
    have hplain : ∀ record ∈ (webUp ()).world.getAllProcessInfo, 0 ∉ record.name ∧
        0 ∉ record.stdoutLogfile ∧ 0 ∉ record.spawnerr ∧ 0 ∉ record.description := by
      decide +kernel
    have hanswer : (webStatus () (ascii "supervisor.getAllProcessInfo") []).1 =
        .ok (.infos (webUp ()).world.getAllProcessInfo) := rfl
    rw [hanswer]
    refine ⟨?_, nofun, by decide +kernel, ?_⟩
    · intro a ha
      obtain rfl := Except.ok.inj ha
      intro record hrecord
      obtain ⟨hname, hlog, herr, hdesc⟩ := hplain record hrecord
      exact ⟨hname, hlog, herr, hdesc⟩
    · refine readAnyOf_verbatim statusDocuments_nodup ?_ rfl
      exact .tail _ (.tail _ (.head _))

theorem webStatus_db : GetsThrough (readAnyOf statusDocuments) webStatus
    (ascii "supervisor.getProcessInfo") [ascii "db"] where
  plainMethod := by decide
  plainParams := by decide
  fits := by decide +kernel
  reads := readAnyOf_verbatim statusDocuments_nodup (.tail _ (.head _)) rfl
  answers _ := by
    have hanswer : (webStatus () (ascii "supervisor.getProcessInfo") [ascii "db"]).1 =
        .error (ascii "BAD_NAME: db") := rfl
    rw [hanswer]
    refine ⟨nofun, ?_, by decide +kernel, ?_⟩
    · rintro what hwhat
      obtain rfl := Except.error.inj hwhat
      decide
    · refine readAnyOf_verbatim statusDocuments_nodup ?_ rfl
      exact .tail _ (.tail _ (.tail _ (.head _)))

/-- Everything arrives at once. -/
def oneRead : Wire Unit where
  chunks _ bytes := [bytes]
  chunks_flatten _ bytes := by simp
  buffered _ bytes := bytes.length
  buffered_headers _ bytes h := by rwa [List.take_length]

/-- The line of the process, and the error for one that is not there. -/
theorem status_shows_processes_web :
    let status := fun args => Programs.run
      (executeCommand (overWire (readAnyOf statusDocuments) webStatus oneRead 0) (ascii "status")
        args) ⟨[], [], ()⟩
    status [] = (.ok 0,
      ⟨ascii "web                 STARTING       pid 4321, uptime 0:00:05\n", [], ()⟩) ∧
    status [ascii "db"] = (.ok 1, ⟨[], ascii "Error: db - no such process\n", ()⟩) := by
  intro status
  obtain ⟨hall, -, hone⟩ := status_shows_processes webStatus_serves oneRead 0 ⟨[], [], ()⟩
  obtain ⟨lines, hlines, hrun⟩ := hall webStatus_all
  constructor
  · have hmap : (webUp ()).world.processMap = [⟨"web", 0, 0⟩] := by decide +kernel
    have hline : ((webUp ()).world.objs 0).map (fun p => statusLine p (webUp ()).world.now) =
        some (ascii "web                 STARTING       pid 4321, uptime 0:00:05\n") := by
      decide +kernel
    rw [hmap] at hlines
    obtain ⟨line, rest, ⟨p, hp, -, rfl⟩, hnil, rfl⟩ := List.forall₂_cons_left_iff.mp hlines
    obtain rfl := List.forall₂_nil_left_iff.mp hnil
    rw [hp] at hline
    obtain htext := Option.some.inj hline
    refine hrun.trans ?_
    simp only [List.flatten_cons, List.flatten_nil, List.append_nil, htext, Session.put,
      List.nil_append]
  · have hnone : (webUp ()).world.find (latin (ascii "db")) = none := by decide +kernel
    exact (hone (ascii "db") [] (by decide) webStatus_db).2 hnone

end CtlClient

end Supervisorcpp
