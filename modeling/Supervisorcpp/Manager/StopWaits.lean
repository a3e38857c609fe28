/-
# Stops that report success

`stop_process` signals its process and waits for it; the wait ends when the process has lost its pid,
or at a deadline one second behind `stopwaitsecs`, and then it returns true all the same. Whether the
promise is kept depends on what happens before the deadline: the child has to exit, of its own accord
or of the `SIGKILL` that a tick sends, and to be reaped.

The invariant is about the waits on the stack. A wait whose deadline has passed belongs to a process
without a pid: the pid is gone when the deadline passes, because a process that still has one owns an
unreaped child, and it stays gone as long as nobody starts the process again.
-/
import Supervisorcpp.Manager.Ownership

namespace Supervisorcpp

/-! ## The property and the condition -/

/-- Every `stop_process` that returned true left its process without a pid. -/
def World.StopsComplete (w : World) : Prop :=
  ∀ o pid, .stopReturned o pid ∈ w.trace → pid ≤ 0

/-- The process `stop_process` waits for in this frame, and its deadline. -/
def Frame.stopWait : Frame → Option (ObjId × Int)
  | .waitStop o deadline _ _ => some (o, deadline)
  | _ => none

/-- The waits of `stop_process` on the stack. -/
def stopWaits (stack : List Frame) : List (ObjId × Int) := stack.filterMap Frame.stopWait

/-- The process on which this statement calls `stop_process`. -/
def stopCallee (w : World) : Frame → Option Process
  | .rpcStopProcess (name :: _) => (w.find name).bind fun e => w.objs e.obj
  | .removeProcess name => (w.find name).bind fun e => w.objs e.obj
  | _ => none

/-- `stopwaitsecs + 1` is a positive number of seconds, so a wait for `p` begins before its deadline:
`stopwaitsecs` is neither negative nor `INT_MAX`. -/
def waitsAtAll (p : Process) : Bool := decide (0 < (p.config.stopwaitsecs + 1).toInt)

/-- Time passes. Whenever the deadline of a wait goes by, the child of its process has been reaped: the
kernel has no child of that pid any more. -/
def reapedInTime (w : World) (stack : List Frame) (nanos : Nat) : Bool :=
  (stopWaits stack).all fun z =>
    decide (w.now < z.2 ∧ z.2 ≤ w.now + nanos → w.childOf (w.pidOf z.1) = none)

/-- A statement is executed. It does not spawn a process whose wait is over its deadline, and a
`stop_process` that finds a child waits for it. -/
def stopsAndStarts (env : Env) (w : World) (stack : List Frame) (frame : Frame) : Bool :=
  (spawnTarget env w frame).all (fun o =>
    (stopWaits stack).all fun z => decide (z.1 = o → w.now < z.2)) &&
  (stopCallee w frame).all fun p => decide (p.pid ≤ 0) || waitsAtAll p

/-- What a step must avoid for a successful stop to leave no child. A wait goes on until its process
is told of the exit, so exits have to be deliverable as well. -/
def stopsInTime (s : Sys) (i : Input) : Bool :=
  reapsDeliver s i &&
    match i, s.stack with
    | .clock nanos, stack => reapedInTime s.world stack nanos
    | .exec env, frame :: rest => stopsAndStarts env.toEnv s.world (frame :: rest) frame
    | _, _ => true

/-! ## What returns -/

/-- A remark is not what another event added to the trace. -/
theorem Event.IsRemark.mem_of_cons {ev ev' : Event} {trace : List Event} (hrem : ev.IsRemark)
    (hother : ¬ ev'.IsRemark) (hev : ev ∈ ev' :: trace) : ev ∈ trace := by
  rcases List.mem_cons.mp hev with rfl | hev
  · exact absurd hrem hother
  · exact hev

/-- The remarks in the trace are those the limits admit. -/
theorem Effect.remarks {L : Limits} {env : Env} {w w' : World} (h : Effect L env w w') {ev : Event}
    (hev : ev ∈ w'.trace) (hrem : ev.IsRemark) : ev ∈ w.trace ∨ ∃ v, L.remark v ev := by
  induction h with
  | same w => exact .inl hev
  | remark _ hlim =>
      rcases List.mem_cons.mp hev with rfl | hev
      · exact .inr ⟨_, hlim⟩
      · exact .inl hev
  | start _ _ h =>
      left
      obtain ⟨p, _, ⟨_, _, rfl⟩ | ⟨_, _, q, _, _, _, rfl⟩ | ⟨_, _, q, pid, _, _, _, _, rfl⟩⟩ :=
        World.callStart_cases h
      · exact hrem.mem_of_cons id hev
      · exact hrem.mem_of_cons id hev
      · exact hrem.mem_of_cons id (hrem.mem_of_cons id hev)
  | stop _ _ h =>
      left
      obtain ⟨p, _, ⟨_, _, rfl⟩ | ⟨_, _, _, q, _, _, _, _, rfl⟩⟩ := World.callStop_cases h
      · exact hrem.mem_of_cons id hev
      · exact hrem.mem_of_cons id (hrem.mem_of_cons id hev)
  | update _ _ h =>
      left
      obtain ⟨p, _, rfl | ⟨_, q, _, _, _, rfl⟩ | ⟨_, _, rfl⟩ | ⟨_, q, _, _, _, rfl⟩ |
        ⟨_, q, pid, _, _, _, _, rfl⟩⟩ := World.callUpdate_cases h
      · exact hev
      · exact hev
      · exact hrem.mem_of_cons id hev
      · exact hev
      · exact hrem.mem_of_cons id hev
  | kill _ _ _ =>
      left
      exact hrem.mem_of_cons id hev
  | finishKill _ h =>
      left
      obtain ⟨p, _, ⟨_, rfl⟩ | ⟨c, _, _, rfl⟩⟩ := World.finishKill_cases h <;> exact hev
  | @reap w _ =>
      obtain ⟨evs, htrace, hevs⟩ := World.reapAll_appends w.exitedChildren w
      have hev' : ev ∈ evs ++ w.trace := htrace ▸ hev
      rcases List.mem_append.mp hev' with hev | hev
      · obtain ⟨o, c, rfl⟩ := hevs ev hev
        cases hrem
      · exact .inl hev
  | add _ =>
      left
      rw [World.addProcess_trace] at hev
      exact hev
  | leave _ h =>
      left
      obtain ⟨e, _, _, _, rfl⟩ := World.eraseNode_cases h
      exact hev
  | destroy _ _ => exact .inl hev
  | trans _ _ ih ih' =>
      rcases ih' hev with hev | hlim
      · exact ih hev
      · exact .inr hlim

/-! ## The invariant -/

/-- A wait whose deadline has passed belongs to a process without a pid. -/
def Frame.InTime (w : World) : Frame → Prop
  | .waitStop o deadline _ _ => deadline ≤ w.now → w.pidOf o ≤ 0
  | _ => True

/-- A wait on the stack is one of the waits. -/
theorem mem_stopWaits {stack : List Frame} {o : ObjId} {deadline : Int} {phase : Phase}
    {next : AfterStop} (h : .waitStop o deadline phase next ∈ stack) :
    (o, deadline) ∈ stopWaits stack :=
  List.mem_filterMap.mpr ⟨_, h, rfl⟩

/-- A process whose child the kernel does not have has no pid. -/
theorem World.Owned.no_pid {w : World} (h : w.Owned) (hwf : w.Wf) {o : ObjId}
    (hnone : w.childOf (w.pidOf o) = none) : w.pidOf o ≤ 0 := by
  by_contra hpos
  obtain ⟨p, hp, hpid⟩ := World.objs_of_pidOf (w := w) (o := o) (by omega)
  obtain ⟨c, hc, _⟩ := h.childOf hwf hp (by omega)
  rw [hpid, hnone] at hc
  cases hc

/-- Only a process with a pid is stopped. -/
theorem pos_of_stopped {w w' : World} {o : ObjId} {p : Process} {env : Env} (hp : w.objs o = some p)
    (h : w.callStop o env = some (w', true)) : 0 < p.pid := by
  obtain ⟨q, hq, ⟨_, hfalse, _⟩ | ⟨hpos, _⟩⟩ := World.callStop_cases h
  · cases hfalse
  · obtain rfl : p = q := Option.some.inj (hp.symm.trans hq)
    exact hpos

/-- A process that is not started does not get a pid. -/
theorem Kept.no_pid {o : ObjId} {w v : World} (h : Kept o w v) (hno : w.pidOf o ≤ 0) :
    v.pidOf o ≤ 0 := by
  by_contra hpos
  obtain ⟨q, hq, hpid⟩ := World.objs_of_pidOf (w := v) (o := o) (by omega)
  obtain ⟨p, hp, _, heq⟩ := h.objs q hq (by omega)
  rw [World.pidOf_eq hp] at hno
  omega

section Steps

variable {s s' : Sys} {i : Input}

theorem stopsAndStarts_of_exec {env : Answers} {frame : Frame} {rest : List Frame}
    (hguard : stopsInTime s (.exec env) = true) (hs : s.stack = frame :: rest) :
    stopsAndStarts env.toEnv s.world s.stack frame = true := by
  obtain ⟨_, hexec⟩ := Bool.and_eq_true_iff.mp hguard
  simp only [hs] at hexec
  rw [hs]
  exact hexec

/-- While a wait for `o` is over its deadline, nothing is forked for `o`. -/
theorem kept_of_overdue (hwf : s.Wf) (hguard : stopsInTime s i = true) (h : step s i = some s')
    {o : ObjId} {deadline : Int} (hf : (o, deadline) ∈ stopWaits s.stack)
    (hover : deadline ≤ s.world.now) : Kept o s.world s'.world := by
  rcases Sys.Wf.step_world h with ⟨env, frame, rest, rfl, hs, heff⟩ | hw | hout
  · have hspawn := (Bool.and_eq_true_iff.mp (stopsAndStarts_of_exec hguard hs)).1
    let L : Limits := { spawn := fun _ o' => o' ≠ o }
    have hin : Within L env.toEnv s.world frame :=
      { hwf.within hs with
        spawn := by
          rintro o' ho' rfl
          rw [ho', Option.all_some] at hspawn
          have hbefore := of_decide_eq_true (List.all_eq_true.mp hspawn _ hf) rfl
          omega }
    exact (heff L hin).kept (.inr fun v hne => hne rfl)
  · rw [hw]
    exact .refl o _
  · exact hout.kept

/-- Only the clock makes a deadline pass. -/
theorem clock_of_passed (hwf : s.Wf) (h : step s i = some s') (hlate : s.world.now < s'.world.now) :
    ∃ nanos, i = .clock nanos ∧ s'.world = { s.world with now := s.world.now + nanos } := by
  rcases step_cases h with ⟨env, frame, rest, frames, rfl, hs, _, hexec⟩ | ⟨_, _, hw, _⟩ |
      ⟨⟨hexec, hdisp⟩, _⟩
  · have heff : Effect {} env.toEnv s.world s'.world := execFrame_effect (hwf.within hs) hexec
    have hnow := heff.now_eq
    omega
  · rw [hw] at hlate
    omega
  · cases i with
    | exec env => exact absurd rfl (hexec env)
    | dispatch ready => exact absurd rfl (hdisp ready)
    | clock nanos =>
        obtain rfl := Option.some.inj h
        exact ⟨nanos, rfl, rfl⟩
    | childExit cid status =>
        simp only [step] at h
        split at h
        · obtain rfl := Option.some.inj h
          exact absurd hlate (Int.lt_irrefl _)
        · cases h
    | reorder children =>
        simp only [step] at h
        split at h
        · obtain rfl := Option.some.inj h
          exact absurd hlate (Int.lt_irrefl _)
        · cases h

/-- A wait that is on the stack stays in time: before its deadline nothing is asked of it, at its
deadline the condition speaks, and after it the process is not started. -/
theorem inTime_keep (hwf : s.Wf) (hown : s.world.Owned) (hguard : stopsInTime s i = true)
    (h : step s i = some s') {f : Frame} (hf : f ∈ s.stack) (htime : f.InTime s.world) :
    f.InTime s'.world := by
  cases f with
  | waitStop o deadline phase next =>
      intro hlate
      by_cases hover : deadline ≤ s.world.now
      · exact (kept_of_overdue hwf hguard h (mem_stopWaits hf) hover).no_pid (htime hover)
      · obtain ⟨nanos, rfl, hw⟩ := clock_of_passed hwf h (by omega)
        have hall : reapedInTime s.world s.stack nanos = true := (Bool.and_eq_true_iff.mp hguard).2
        have hreaped := of_decide_eq_true (List.all_eq_true.mp hall _ (mem_stopWaits hf))
        rw [hw] at hlate ⊢
        exact hown.no_pid hwf.world (hreaped ⟨by omega, hlate⟩)
  | _ => trivial

/-- The frames of a wait that begins, or goes on, are in time. -/
theorem inTime_push (hwf : s.Wf) (hown : s.world.Owned) (hguard : stopsInTime s i = true)
    (h : step s i = some s') (htimes : ∀ f ∈ s.stack, f.InTime s.world) {env : Answers}
    {frame f : Frame} {rest : List Frame} (hi : i = .exec env) (hs : s.stack = frame :: rest)
    (hpush : Pushed env.toEnv s.world s'.world frame f) : f.InTime s'.world := by
  subst hi
  have hstops := (Bool.and_eq_true_iff.mp (stopsAndStarts_of_exec hguard hs)).2
  have hbegins : ∀ {p : Process}, stopCallee s.world frame = some p → 0 < p.pid →
      s'.world.now < deadlineIn s'.world.now (p.config.stopwaitsecs + 1) := by
    intro p hp hpos
    simp only [hp, Option.all_some, waitsAtAll, Bool.or_eq_true, decide_eq_true_eq] at hstops
    have hsecs := hstops.resolve_left (by omega)
    unfold deadlineIn nanosPerSec
    omega
  cases hpush with
  | plain hf => cases f <;> trivial
  | removeWait he hp hpos _ =>
      intro hlate
      have := hbegins (by simp [stopCallee, he, hp]) hpos
      omega
  | stopWait he hp hstop =>
      intro hlate
      have := hbegins (by simp [stopCallee, he, hp]) (pos_of_stopped hp hstop)
      omega
  | @waitOn o deadline phase phase' next =>
      have hin : .waitStop o deadline phase next ∈ s.stack := hs ▸ List.mem_cons_self
      have htime : Frame.InTime s'.world (.waitStop o deadline phase next) :=
        inTime_keep hwf hown hguard h hin (htimes _ hin)
      exact htime
  | _ => trivial

/-- What holds in the runs that keep to the condition. -/
structure Sys.InTime (s : Sys) : Prop where
  wf : s.Wf
  own : s.world.Ownership
  waits : ∀ f ∈ s.stack, f.InTime s.world
  done : s.world.StopsComplete

/-- What returns now returns in time, or without a pid. -/
theorem stopsComplete_step (hinv : s.InTime) (h : step s i = some s') :
    s'.world.StopsComplete := by
  rcases Sys.Wf.step_world h with ⟨env, frame, rest, rfl, hs, heff⟩ | hw | hout
  · let L : Limits := { remark := fun _ ev => ∀ o pid, ev = .stopReturned o pid → pid ≤ 0 }
    have hin : Within L env.toEnv s.world frame :=
      { hinv.wf.within hs with
        remark := by
          rintro v ev hrem o pid rfl
          cases hrem with
          | waitStop hend =>
              have htime := hinv.waits _ (hs ▸ List.mem_cons_self)
              by_contra hpos
              exact hpos (htime (by omega)) }
    intro o pid hev
    rcases (heff L hin).remarks hev trivial with hev | ⟨v, hlim⟩
    · exact hinv.done o pid hev
    · exact hlim o pid rfl
  · rw [hw]
    exact hinv.done
  · intro o pid hev
    rw [hout.trace_eq] at hev
    exact hinv.done o pid hev

/-- Every step that keeps to the condition keeps the waits in time. -/
theorem Sys.InTime.step (hinv : s.InTime) (hguard : stopsInTime s i = true)
    (h : step s i = some s') : s'.InTime where
  wf := hinv.wf.step h
  own := ownership_step hinv.wf hinv.own (Bool.and_eq_true_iff.mp hguard).1 h
  waits := by
    refine step_frames (P := fun w f => f.InTime w) h hinv.waits ?_ ?_ ?_ ?_
    · exact fun f hf htime => inTime_keep hinv.wf hinv.own.owned hguard h hf htime
    · exact fun env frame rest f hi hs hpush =>
        inTime_push hinv.wf hinv.own.owned hguard h hinv.waits hi hs hpush
    · intro f hf
      cases f <;> trivial
    · rintro what f (hf | ⟨o, deadline, phase, next, rfl, _⟩ | ⟨request, rfl, _⟩ | rfl)
      · exact hinv.waits f hf
      all_goals trivial
  done := stopsComplete_step hinv h

end Steps

/-- At the start nobody waits. -/
theorem boot_inTime {s : Sys} (h : Boot s) : s.InTime where
  wf := Sys.Wf.boot h
  own := boot_ownership h
  waits := by
    obtain ⟨config, now, rfl⟩ := h
    intro f hf
    rcases List.mem_append.mp hf with hf | hf
    · obtain ⟨o, rfl⟩ := Sys.Wf.addAll_frames _ _ f hf
      trivial
    · simp only [List.mem_cons, List.not_mem_nil, or_false] at hf
      rcases hf with rfl | rfl | rfl | rfl | rfl <;> trivial
  done := by simp [World.StopsComplete, boot_trace h]

/-- **A successful stop leaves no child.**  In every run in which the child of a waiting
`stop_process` is reaped before the deadline and not replaced afterwards, each `stop_process` that
returned true did so when its process had no pid. -/
theorem stop_process_leaves_no_child {s : Sys}
    (h : Machine.Reach step (fun s i => stopsInTime s i = true) Boot s) :
    s.world.StopsComplete := by
  have hinv : s.InTime :=
    h.invariant (fun _ hs => boot_inTime hs) fun _ _ _ hinv hg hstep => hinv.step hg hstep
  exact hinv.done

/-- The child ignores the stop signal; after ten seconds a tick kills it, and it is reaped before the
eleventh. -/
theorem stop_process_leaves_no_child_in_time : ∃ s,
    Machine.Reach step (fun s i => stopsInTime s i = true) Boot s ∧
      .stopReturned 0 (-1) ∈ s.world.trace ∧ s.world.StopsComplete := by
  obtain ⟨s, hreach, hret⟩ := Machine.Reach.exists_of_guardedRun
    (p := fun s : Sys => decide (.stopReturned 0 (-1) ∈ s.world.trace)) (fun _ _ h => h)
    (.init (boot_bootSimple ["web"]))
    (show (Machine.guardedRun step stopsInTime (bootSimple ["web"])
      [.forking ⟨100, by decide⟩, .next, .request (.stopProcess ["web"]), .next, .next,
        .seconds 10, .next, .next, .dispatch .timer, .next, .next, .childExit 0 (.signaled 9),
        .clock 10000000, .next, .next, .next, .seconds 1]).any _ = true by decide)
  exact ⟨s, hreach, of_decide_eq_true hret, stop_process_leaves_no_child hreach⟩

/-- The child ignores the stop signal: eleven seconds later `stop_process` returns true, with no
timer tick in between and the child still there. -/
theorem stop_process_times_out : ∃ s,
    Machine.Reach step Machine.anyStep Boot s ∧ .stopReturned 0 100 ∈ s.world.trace ∧
      ¬ s.world.StopsComplete := by
  obtain ⟨s, hreach, hret⟩ := Machine.Reach.exists_of_run
    (p := fun s : Sys => decide (.stopReturned 0 100 ∈ s.world.trace))
    (.init (boot_bootSimple ["web"]))
    (show (Machine.run step (bootSimple ["web"])
      [.forking ⟨100, by decide⟩, .next, .request (.stopProcess ["web"]), .next, .next,
        .seconds 11, .next, .next]).any _ = true by decide)
  refine ⟨s, hreach, of_decide_eq_true hret, ?_⟩
  intro hdone
  exact absurd (hdone 0 100 (of_decide_eq_true hret)) (by decide)

end Supervisorcpp
