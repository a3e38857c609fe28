/-
# A reported state and the children behind it

`stopProcess` refuses a process that is not starting, running or stopping, so a child behind any
other state cannot be stopped by request. Beside the object this module keeps the children that
were forked for it and not yet waited for, and asks when the state is honest about them.

`start` changes the state and the pid apart: called while a stop is under way, it leaves the pid of
the stopping child in place when the spawn fails, and forgets that child when it succeeds. `kill`
forgets the child as well when a signal ends its blocking `waitpid` early.

Honest is what a client may conclude from the state: with a positive pid it is one of the three that
hold a child, and in the others no child is left unreaped. Both ways to lose a child are calls made
in a certain state, so the condition of `status_honest` is checked call by call along a sequence.
-/
import Supervisorcpp.Process.Restarts

namespace Supervisorcpp

namespace Process

/-! ## Children -/

/-- What a system call does to the pids of the unreaped children. -/
def account (children : List Int) : Call → List Int
  | .fork pid => pid.val :: children
  | .waitpid pid reaped => if reaped then children.erase pid else children
  | .kill _ _ => children

/-- The unreaped children after a call. `on_exit` is called for the child `pid_`, once `waitpid`
has returned it. -/
def childrenAfter (p : Process) (children : List Int) : Op → List Int
  | .onExit _ _ => children.erase p.pid
  | op => (p.perform op).2.foldl account children

/-- The unreaped children after a run. -/
def unreaped (p : Process) (children : List Int) : List Op → List Int
  | [] => children
  | op :: ops => (p.perform op).1.unreaped (p.childrenAfter children op) ops

/-- A pid is held only in a state that says so, and a state that says otherwise has no child. -/
def Honest (p : Process) (children : List Int) : Prop :=
  (0 < p.pid → Active p.state) ∧ (¬ Active p.state → children = [])

/-- `start` is not called while a stop is under way. -/
def startsSettled (p : Process) (op : Op) : Prop := op.isStart = true → p.state ≠ .stopping

/-- No signal handler interrupts the `waitpid` of `kill` before the child has exited. -/
def waitsOut (p : Process) : Op → Prop
  | .kill _ env => 0 < p.pid → env.waitInterrupted = false
  | _ => True

/-- What a call must avoid for the status to stay honest. -/
def keepsChild (p : Process) (op : Op) : Prop := startsSettled p op ∧ waitsOut p op

instance (st : State) : Decidable (Active st) :=
  inferInstanceAs (Decidable (st = .starting ∨ st = .running ∨ st = .stopping))

instance (p : Process) (op : Op) : Decidable (startsSettled p op) :=
  inferInstanceAs (Decidable (op.isStart = true → p.state ≠ .stopping))

/-! ## What settled starts and finished waits preserve -/

/-- The pid is that of the one unreaped child in the states that hold one, and there is neither a
pid nor a child in the others. -/
def Matched (p : Process) (children : List Int) : Prop :=
  (Active p.state ∧ 0 < p.pid ∧ children = [p.pid]) ∨
    (¬ Active p.state ∧ p.pid ≤ 0 ∧ children = [])

section Steps

variable {p : Process} {children : List Int} {op : Op}

theorem Matched.honest (h : Matched p children) : Honest p children := by
  rcases h with ⟨hact, _, _⟩ | ⟨_, hpid, hnone⟩
  · exact ⟨fun _ => hact, fun hno => absurd hact hno⟩
  · exact ⟨fun hpos => by omega, fun _ => hnone⟩

/-- A start out of a state without a child. -/
theorem matched_start (h : Matched p children) (hst : p.state ≠ .stopping) (now : Int)
    (env : Env) :
    Matched (p.start now env).process ((p.start now env).calls.foldl account children) := by
  rcases start_cases p now env with ⟨_, hout⟩ | ⟨hup, hcalls, _, hpid, _, hfail⟩ |
      ⟨hup, pid, _, hcalls, _, hpid, _, hstart⟩
  · rw [hout]
    exact h
  · have hidle : ¬ Active p.state := by simp [Active, hup, hst]
    rcases h with ⟨hact, _⟩ | ⟨_, hle, hnone⟩
    · exact absurd hact hidle
    · right
      rw [hcalls, hpid]
      refine ⟨?_, hle, hnone⟩
      rcases hfail with hfail | hfail <;> simp [Active, hfail]
  · have hidle : ¬ Active p.state := by simp [Active, hup, hst]
    rcases h with ⟨hact, _⟩ | ⟨_, _, hnone⟩
    · exact absurd hact hidle
    · left
      rw [hcalls, hpid, hnone]
      exact ⟨.inl hstart, pid.property, rfl⟩

theorem matched_stop (h : Matched p children) (now : Int) (env : Env) :
    Matched (p.stop now env).process ((p.stop now env).calls.foldl account children) := by
  rcases stop_cases p now env with ⟨_, hout⟩ | ⟨hpos, _, _, hcalls, hpid, _, hstop, _⟩
  · rw [hout]
    exact h
  · rcases h with ⟨_, _, hone⟩ | ⟨_, hle, _⟩
    · left
      rw [hcalls, hpid]
      exact ⟨.inr (.inr hstop), hpos, hone⟩
    · omega

theorem matched_kill (h : Matched p children) (now : Int) (env : Env)
    (hwait : waitsOut p (.kill now env)) :
    Matched (p.kill now env).process ((p.kill now env).calls.foldl account children) := by
  unfold kill
  split
  · exact h
  · next hpos =>
      have hreaped : env.waitInterrupted = false := hwait (by omega)
      rcases h with ⟨_, _, hone⟩ | ⟨_, hle, _⟩
      · right
        refine ⟨by simp [Active], by simp, ?_⟩
        simp [account, hreaped, hone]
      · exact absurd hle hpos

/-- The exit of the child is delivered. -/
theorem matched_onExit (h : Matched p children) (now : Int) (status : WaitStatus) :
    Matched (p.onExit now status) (children.erase p.pid) := by
  right
  refine ⟨?_, by simp, ?_⟩
  · rcases onExit_state p now status with ⟨_, hst⟩ | ⟨_, _, hst | hst⟩ | ⟨_, _, hst⟩ <;>
      simp [Active, hst]
  · rcases h with ⟨_, _, hone⟩ | ⟨_, _, hnone⟩
    · simp [hone]
    · simp [hnone]

/-- A tick signals, spawns from a state without a child, or does neither. -/
theorem matched_update (h : Matched p children) (now : Int) (env : Env) :
    Matched (p.update now env).process ((p.update now env).calls.foldl account children) := by
  rcases update_cases p now env with hout | ⟨hst, hcalls, hpid, _, hrun⟩ | ⟨_, _, hout⟩ |
      ⟨hst, _, hproc, hcalls⟩
  · rw [hout]
    exact h
  · rcases h with ⟨_, hpos, hone⟩ | ⟨hidle, _⟩
    · left
      rw [hcalls, hpid]
      exact ⟨.inr (.inl hrun), hpos, hone⟩
    · exact absurd (.inl hst) hidle
  · rw [hout]
    exact h
  · rw [hproc, hcalls]
    exact matched_start h (by simp [hst]) now env

/-- One call that keeps to the condition. -/
theorem matched_perform (h : Matched p children) (hkeeps : keepsChild p op) :
    Matched (p.perform op).1 (p.childrenAfter children op) := by
  cases op with
  | start now env => exact matched_start h (hkeeps.1 rfl) now env
  | stop now env => exact matched_stop h now env
  | kill now env => exact matched_kill h now env hkeeps.2
  | onExit now status => exact matched_onExit h now status
  | update now env => exact matched_update h now env

/-- A run of calls that keep to it. -/
theorem matched_performAll {ops : List Op} (h : Matched p children)
    (hkeeps : Along keepsChild p ops) :
    Matched (p.performAll ops).1 (p.unreaped children ops) := by
  induction ops generalizing p children with
  | nil => exact h
  | cons op ops ih => exact ih (matched_perform h hkeeps.1) hkeeps.2

end Steps

/-! ## Runs -/

/-- **Honest status.**  In every run in which `start` is not called while the process is stopping and
no wait of `kill` is interrupted, a positive pid means starting, running or stopping, and in every
other state no child is unreaped. -/
theorem status_honest (config : ProgramConfig) (created : Int) (ops : List Op)
    (hkeeps : Along keepsChild (create config created) ops) :
    Honest ((create config created).performAll ops).1
      ((create config created).unreaped [] ops) := by
  have hinit : Matched (create config created) [] :=
    .inr ⟨by simp [Active, create], by simp [create], rfl⟩
  exact (matched_performAll hinit hkeeps).honest

/-- A stop, the exit it waits for, a start that is killed, and a start that fails to fork. -/
theorem status_honest_after_stop :
    ((create { name := "web", command := "web" } 0).unreaped []
      [.start 0 { fork := .ok ⟨100, by decide⟩ }, .stop 1 {}, .onExit 2 (.signaled 15),
        .start 3 { fork := .ok ⟨101, by decide⟩ }, .kill 4 {}, .start 5 {}]) = [] := by
  have h := status_honest { name := "web", command := "web" } 0
    [.start 0 { fork := .ok ⟨100, by decide⟩ }, .stop 1 {}, .onExit 2 (.signaled 15),
      .start 3 { fork := .ok ⟨101, by decide⟩ }, .kill 4 {}, .start 5 {}]
    ⟨⟨by decide, trivial⟩, ⟨nofun, trivial⟩, ⟨nofun, trivial⟩, ⟨by decide, trivial⟩,
      ⟨nofun, fun _ => rfl⟩, ⟨by decide, trivial⟩, trivial⟩
  exact h.2 (by decide)

/-- The other way out: a `SIGCHLD` ends the wait of `kill`, and the process is stopped with its child
unreaped. -/
example :
    let ops := [.start 0 { fork := .ok ⟨100, by decide⟩ }, .kill 1 { waitInterrupted := true }]
    let p := create { name := "web", command := "web" } 0
    (p.performAll ops).1.state = .stopped ∧ p.unreaped [] ops = [100] := by
  decide

/-- A start that fails to fork while the stopped child is still there: the process is in `backoff`
with the pid of an unreaped child. -/
theorem failed_start_hides_child : ∃ (config : ProgramConfig) (created : Int) (ops : List Op),
    ¬ Honest ((create config created).performAll ops).1
      ((create config created).unreaped [] ops) := by
  refine ⟨{ name := "web", command := "web" }, 0,
    [.start 0 { fork := .ok ⟨100, by decide⟩ }, .stop 1 {}, .start 2 {}], ?_⟩
  rintro ⟨hpid, -⟩
  exact absurd (hpid (by decide)) (by decide)

end Process

end Supervisorcpp
