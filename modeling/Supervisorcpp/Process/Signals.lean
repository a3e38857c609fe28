/-
# Every signal of a process has a positive pid

`::kill` with pid 0 or -1 signals a process group or every process of the system, and `update` sends
its late `SIGKILL` without looking at `pid_`. What keeps that safe is an invariant of the state
machine: a process that is starting, running or stopping has a child. It is proved here of every
sequence of calls, whatever the kernel answers and whatever the clock says.

The invariant does not follow from the state alone in `BACKOFF` and `FATAL`: a start that fails
while a stop is under way leaves a pid behind there. No signal is sent from these states, so the
proof needs nothing about them.
-/
import Supervisorcpp.Process.Basic

namespace Supervisorcpp

namespace Process

/-! ## Sequences of calls -/

/-- One call of a member function, with the clock reading and the answers it gets. -/
inductive Op where
  | start (now : Int) (env : Env)
  | stop (now : Int) (env : Env)
  | kill (now : Int) (env : Env)
  | onExit (now : Int) (status : WaitStatus)
  | update (now : Int) (env : Env)

/-- The process after a call, and the system calls made in it. -/
def perform (p : Process) : Op → Process × List Call
  | .start now env => ((p.start now env).process, (p.start now env).calls)
  | .stop now env => ((p.stop now env).process, (p.stop now env).calls)
  | .kill now env => ((p.kill now env).process, (p.kill now env).calls)
  | .onExit now status => (p.onExit now status, [])
  | .update now env => ((p.update now env).process, (p.update now env).calls)

/-- A sequence of calls: the last state, and every system call in order. -/
def performAll (p : Process) : List Op → Process × List Call
  | [] => (p, [])
  | op :: ops =>
    let rest := (p.perform op).1.performAll ops
    (rest.1, (p.perform op).2 ++ rest.2)

/-! ## The invariant -/

/-- `starting`, `running` and `stopping` are the states that hold a child. -/
def Active (st : State) : Prop := st = .starting ∨ st = .running ∨ st = .stopping

/-- A process in a state that holds a child has that child's pid. -/
def PidSet (p : Process) : Prop := Active p.state → 0 < p.pid

/-- No `::kill` among these calls has pid 0 or a negative pid. -/
def KillsPositive (calls : List Call) : Prop :=
  ∀ pid sig, Call.kill pid sig ∈ calls → 0 < pid

theorem pidSet_of_not_active {p : Process} (h : ¬ Active p.state) : PidSet p :=
  fun ha => absurd ha h

theorem killsPositive_nil : KillsPositive [] := by
  intro pid sig h
  cases h

theorem killsPositive_singleton {pid : Int} {sig : Signal} (h : 0 < pid) :
    KillsPositive [.kill pid sig] := by
  intro pid' sig' hmem
  simp only [List.mem_singleton, Call.kill.injEq] at hmem
  omega

/-- A start sends no signal. -/
theorem start_safe {p : Process} (hp : PidSet p) (now : Int) (env : Env) :
    PidSet (p.start now env).process ∧ KillsPositive (p.start now env).calls := by
  rcases start_cases p now env with ⟨_, hout⟩ | ⟨_, hcalls, _, _, _, hst⟩ |
      ⟨_, pid, _, hcalls, _, hpid, _, _⟩
  · rw [hout]
    exact ⟨hp, killsPositive_nil⟩
  · refine ⟨pidSet_of_not_active ?_, hcalls ▸ killsPositive_nil⟩
    rcases hst with hst | hst <;> simp [Active, hst]
  · refine ⟨fun _ => hpid ▸ pid.property, ?_⟩
    intro k sig hmem
    simp [hcalls] at hmem

/-- A stop signals a pid that is set. -/
theorem stop_safe {p : Process} (hp : PidSet p) (now : Int) (env : Env) :
    PidSet (p.stop now env).process ∧ KillsPositive (p.stop now env).calls := by
  rcases stop_cases p now env with ⟨_, hout⟩ | ⟨hpos, _, _, hcalls, hpid, _, _, _⟩
  · rw [hout]
    exact ⟨hp, killsPositive_nil⟩
  · exact ⟨fun _ => hpid ▸ hpos, hcalls ▸ killsPositive_singleton hpos⟩

/-- A kill signals a pid that is set. -/
theorem kill_safe {p : Process} (hp : PidSet p) (now : Int) (env : Env) :
    PidSet (p.kill now env).process ∧ KillsPositive (p.kill now env).calls := by
  unfold kill
  split
  · exact ⟨hp, killsPositive_nil⟩
  · next hpos =>
      refine ⟨pidSet_of_not_active (by simp [Active]), ?_⟩
      intro k sig hmem
      simp only [List.mem_cons, Call.kill.injEq, reduceCtorEq, List.not_mem_nil, or_false] at hmem
      omega

/-- After an exit no state that holds a child is left: nothing depends on the cleared pid. -/
theorem onExit_safe (p : Process) (now : Int) (status : WaitStatus) :
    PidSet (p.onExit now status) := by
  apply pidSet_of_not_active
  rcases onExit_state p now status with ⟨_, h⟩ | ⟨_, _, h | h⟩ | ⟨_, _, h⟩ <;> simp [Active, h]

/-- A tick signals a pid that is set, too. -/
theorem update_safe {p : Process} (hp : PidSet p) (now : Int) (env : Env) :
    PidSet (p.update now env).process ∧ KillsPositive (p.update now env).calls := by
  rcases update_cases p now env with hout | ⟨hst, hcalls, hpid, _, _⟩ | ⟨hst, _, hout⟩ |
      ⟨_, _, hproc, hcalls⟩
  · rw [hout]
    exact ⟨hp, killsPositive_nil⟩
  · refine ⟨fun _ => ?_, hcalls ▸ killsPositive_nil⟩
    rw [hpid]
    exact hp (.inl hst)
  · -- the unchecked `::kill(pid_, SIGKILL)`: the invariant is what makes `pid_` positive here
    rw [hout]
    exact ⟨hp, killsPositive_singleton (hp (.inr (.inr hst)))⟩
  · rw [hproc, hcalls]
    exact start_safe hp now env

/-- One call keeps the invariant and makes only `::kill` calls with a positive pid. -/
theorem perform_safe {p : Process} (hp : PidSet p) (op : Op) :
    PidSet (p.perform op).1 ∧ KillsPositive (p.perform op).2 := by
  cases op with
  | start now env => exact start_safe hp now env
  | stop now env => exact stop_safe hp now env
  | kill now env => exact kill_safe hp now env
  | onExit now status => exact ⟨onExit_safe p now status, killsPositive_nil⟩
  | update now env => exact update_safe hp now env

/-- The same for a run. -/
theorem performAll_safe {p : Process} (hp : PidSet p) (ops : List Op) :
    PidSet (p.performAll ops).1 ∧ KillsPositive (p.performAll ops).2 := by
  induction ops generalizing p with
  | nil => exact ⟨hp, killsPositive_nil⟩
  | cons op ops ih =>
      obtain ⟨hnext, hcalls⟩ := perform_safe hp op
      obtain ⟨hlast, hrest⟩ := ih hnext
      refine ⟨hlast, ?_⟩
      intro pid sig hmem
      rcases List.mem_append.mp hmem with h | h
      · exact hcalls pid sig h
      · exact hrest pid sig h

/-- **No signal ever goes to pid 0 or to a negative pid.**  For every configuration and every
sequence of calls on a fresh process, every `::kill` has a positive pid, and the process holds a
positive pid whenever it is starting, running or stopping. -/
theorem kills_positive_in_every_run (config : ProgramConfig) (created : Int) (ops : List Op) :
    (∀ pid sig, Call.kill pid sig ∈ ((create config created).performAll ops).2 → 0 < pid) ∧
    (((create config created).performAll ops).1.state = .starting ∨
      ((create config created).performAll ops).1.state = .running ∨
      ((create config created).performAll ops).1.state = .stopping →
      0 < ((create config created).performAll ops).1.pid) := by
  have hinit : PidSet (create config created) := pidSet_of_not_active (by simp [Active, create])
  obtain ⟨hpid, hkills⟩ := performAll_safe hinit ops
  exact ⟨hkills, hpid⟩

end Process

end Supervisorcpp
