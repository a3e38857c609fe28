/-
# A stop is final

The program is not spawned again by a timer tick until somebody starts it. A program in `BACKOFF`
has no pid, so `stop` refuses it and leaves the pending restart alone, and a start that is served
while a stop is still waiting undoes it before it is answered. In the runs without these two, every
program that has been stopped rests in a state no tick spawns from.

The trace decides what was asked for: a stop that was accepted or answered counts until the next
explicit start of that name. The frames of stops that are still waiting are part of the invariant,
because the answer comes when the wait is over.
-/
import Supervisorcpp.Manager.Invariant

namespace Supervisorcpp

/-! ## Stops are final: the property -/

/-- This entry of the trace ends a stop of the program `n`: `stopProcess` was answered with success
or `NOT_RUNNING`, or `stop_all` returned. -/
def Event.quiets (n : String) : Event → Bool
  | .answered (.stopProcess (name :: _)) fault =>
    decide (name = n) && (decide (fault = none) || decide (fault = some ("NOT_RUNNING: " ++ n)))
  | .stopAllReturned => true
  | _ => false

/-- Program `n` has been stopped and has not been started explicitly since. -/
def quiet (n : String) : List Event → Bool
  | [] => false
  | .startCalled _ name :: trace => decide (name ≠ n) && quiet n trace
  | ev :: trace => ev.quiets n || quiet n trace

/-- No timer tick has spawned a program that was quiet. -/
def stopsFinal : List Event → Bool
  | [] => true
  | .forked child .update :: trace => !quiet child.name trace && stopsFinal trace
  | _ :: trace => stopsFinal trace

/-! ## The condition -/

/-- The object a stop request or the signalling loop of `stop_all` turns to. -/
def stopTarget (w : World) : Frame → Option ObjId
  | .rpcStopProcess (name :: _) => (w.find name).map (·.obj)
  | .stopAllSignal after _ => (w.nextEntry after).map (·.obj)
  | _ => none

/-- A restart is pending and there is no child. -/
def World.awaitsRestart (w : World) (o : ObjId) : Bool :=
  match w.objs o with
  | some p => decide (p.state = .backoff ∧ p.pid ≤ 0)
  | none => false

/-- A stop of `n` is under way in this frame. -/
def Frame.stopPending (n : String) : Frame → Bool
  | .answer (.stopProcess (name :: _)) => name = n
  | .fault (.stopProcess (name :: _)) _ => name = n
  | .stopAllSignal _ _ => true
  | .waitAll _ _ => true
  | .stopAllKill _ => true
  | .stopAllDone => true
  | _ => false

/-- The program of `o` has no stop under way on this stack. -/
def noStopPending (w : World) (stack : List Frame) (o : ObjId) : Bool :=
  match w.objs o with
  | some p => !stack.any (Frame.stopPending p.config.name)
  | none => true

/-- The statement about to be executed stops no program that only waits for its restart, and, unless
it is a timer tick, spawns no program while a stop of it is under way. -/
def stopsSettled (s : Sys) (i : Input) : Bool :=
  match i, s.stack with
  | .exec _, .onTimer _ :: _ => true
  | .exec env, frame :: rest =>
    (stopTarget s.world frame).all (fun o => !s.world.awaitsRestart o) &&
      (spawnTarget env.toEnv s.world frame).all (noStopPending s.world (frame :: rest))
  | _, _ => true

/-! ## The invariant -/

/-- States from which neither a tick nor an exit leads to a spawn. -/
def State.Resting (st : State) : Prop := st = .stopped ∨ st = .exited ∨ st = .fatal ∨ st = .stopping

namespace Process

/-- Who has no child and waits for no retry rests. -/
theorem resting_of_no_child {p : Process} (h : p.Coherent) (hpid : p.pid ≤ 0)
    (hst : p.state ≠ .backoff) : p.state.Resting := by
  have hna : ¬ Active p.state := by
    intro ha
    have := h.active ha
    omega
  cases hs : p.state <;> simp_all [Active, State.Resting]

/-- A resting process whose child exits goes on resting. -/
theorem onExit_resting {p : Process} (h : p.Coherent) (hpos : 0 < p.pid) (hrest : p.state.Resting)
    (now : Int) (status : WaitStatus) : (p.onExit now status).state.Resting := by
  have hend : ¬ (p.state = .stopped ∨ p.state = .exited) := by
    intro hst
    have := h.ended hst
    omega
  rcases onExit_state p now status with ⟨_, hst⟩ | ⟨hns, hauto, _⟩ | ⟨_, _, hst⟩
  · exact .inl hst
  · rcases hrest with hst | hst | hst | hst
    · exact absurd (.inl hst) hend
    · exact absurd (.inr hst) hend
    · simp [shouldAutorestart, hst] at hauto
    · exact absurd hst hns
  · exact .inr (.inl hst)

end Process

namespace World

/-- The process of program `n`, if there is one, rests. -/
def RestingAt (w : World) (n : String) : Prop :=
  ∀ e ∈ w.processMap, e.name = n → ∀ p, w.objs e.obj = some p → p.state.Resting

namespace RestingAt

variable {w w' : World} {n : String} {e : Entry} {o : ObjId} {env : Env} {r : Bool}

theorem note (h : w.RestingAt n) (ev : Event) : (w.note ev).RestingAt n := h

/-- One entry settles its own name. -/
theorem of_entry {p : Process} (hwf : w.Wf) (he : e ∈ w.processMap) (hp : w.objs e.obj = some p)
    (hrest : p.state.Resting) : w.RestingAt e.name := by
  intro e' he' hname q hq
  rw [hwf.entry_ext_name he' he hname] at hq
  obtain rfl : p = q := Option.some.inj (hp.symm.trans hq)
  exact hrest

theorem setObj (h : w.RestingAt n) {q : Process}
    (hq : ∀ e ∈ w.processMap, e.name = n → e.obj = o → q.state.Resting) :
    (w.setObj o q).RestingAt n := by
  intro e he hname p hp
  by_cases heq : e.obj = o
  · have hpq : q = p := by simpa [heq] using hp
    rw [← hpq]
    exact hq e he hname heq
  · exact h e he hname p (by simpa [heq] using hp)

theorem callStart (h : w.RestingAt n) (hwf : w.Wf) (he : e ∈ w.processMap) (hne : e.name ≠ n)
    (hcall : w.callStart e.obj env = some (w', r)) : w'.RestingAt n := by
  have hother : ∀ e' ∈ w.processMap, e'.name = n → e'.obj ≠ e.obj := by
    intro e' he' hname hobj
    exact hne (hwf.entry_ext_obj he' he hobj ▸ hname)
  obtain ⟨p, hp, ⟨_, _, rfl⟩ | ⟨_, _, q, _, _, _, rfl⟩ | ⟨_, _, q, pid, _, _, _, _, rfl⟩⟩ :=
    callStart_cases hcall
  · exact h.note _
  · exact setObj h fun e' he' hname hobj => absurd hobj (hother e' he' hname)
  · exact setObj h fun e' he' hname hobj => absurd hobj (hother e' he' hname)

theorem callStop (h : w.RestingAt n) (hcall : w.callStop o env = some (w', r)) :
    w'.RestingAt n := by
  obtain ⟨p, hp, ⟨_, _, rfl⟩ | ⟨_, _, _, q, _, _, hst, _, rfl⟩⟩ := callStop_cases hcall
  · exact h.note _
  · exact setObj h fun _ _ _ _ => .inr (.inr (.inr hst))

/-- A tick finds a resting process and does not change its state. -/
theorem callUpdate (h : w.RestingAt n) (hwf : w.Wf) (he : e ∈ w.processMap)
    (hcall : w.callUpdate e.obj env = some w') : w'.RestingAt n := by
  have hrest : ∀ p, w.objs e.obj = some p → ∀ e' ∈ w.processMap, e'.name = n → e'.obj = e.obj →
      p.state.Resting := by
    intro p hp e' he' hname hobj
    obtain rfl := hwf.entry_ext_obj he' he hobj
    exact h e' he' hname p hp
  obtain ⟨p, hp, rfl | ⟨hst, q, _, _, _, rfl⟩ | ⟨_, _, rfl⟩ | ⟨⟨hst, _⟩, q, _, _, _, rfl⟩ |
    ⟨⟨hst, _⟩, q, pid, _, _, _, _, rfl⟩⟩ := callUpdate_cases hcall
  · exact h
  · refine setObj h fun e' he' hname hobj => ?_
    have := hrest p hp e' he' hname hobj
    simp [State.Resting, hst] at this
  · exact h.note _
  · refine setObj h fun e' he' hname hobj => ?_
    have := hrest p hp e' he' hname hobj
    simp [State.Resting, hst] at this
  · refine setObj (w := w.addChild _ _) h fun e' he' hname hobj => ?_
    have := hrest p hp e' he' hname hobj
    simp [State.Resting, hst] at this

theorem finishKill (h : w.RestingAt n) (hkill : w.finishKill o env = some w') : w'.RestingAt n := by
  obtain ⟨p, _, ⟨_, rfl⟩ | ⟨c, _, _, rfl⟩⟩ := finishKill_cases hkill
  · exact setObj h fun _ _ _ _ => .inl (Process.killed_state p _)
  · exact setObj (w := { w with children := w.children.erase c }) h
      fun _ _ _ _ => .inl (Process.killed_state p _)

theorem reap (h : w.RestingAt n) (hwf : w.Wf) {c : Child} (hc : c ∈ w.children)
    (status : WaitStatus) : (w.reap c status).RestingAt n := by
  rcases reap_cases hwf c status with ⟨_, heq⟩ | ⟨e, he, p, hp, hpid, heq⟩
  · rw [heq]
    exact h
  · rw [heq]
    refine note (setObj (w := { w with children := w.children.erase c }) h ?_) _
    intro e' he' hname hobj
    have hpos : 0 < p.pid := hpid ▸ hwf.pidPos c hc
    refine Process.onExit_resting (hwf.coherent _ p hp) hpos ?_ _ _
    obtain rfl := hwf.entry_ext_obj he' he hobj
    exact h e' he' hname p hp

theorem addProcess (h : w.RestingAt n) (hwf : w.Wf) (config : ProgramConfig) :
    (w.addProcess config).1.RestingAt n := by
  have hold : ∀ e ∈ w.processMap, e.name = n → ∀ p,
      (w.addProcess config).1.objs e.obj = some p → p.state.Resting := by
    intro e he hname p hp
    obtain ⟨q, hq, _⟩ := hwf.live e he
    rw [addProcess_objs (Nat.ne_of_lt (hwf.objLt _ q hq))] at hp
    exact h e he hname p hp
  have hnew : ∀ p, (w.addProcess config).1.objs w.nextObj = some p → p.state.Resting := by
    intro p hp
    rw [addProcess_objs_new] at hp
    obtain rfl := Option.some.inj hp
    exact .inl rfl
  intro e he hname p hp
  rcases addProcess_mem he with hin | hobj
  · exact hold e hin hname p hp
  · rw [hobj] at hp
    exact hnew p hp

theorem eraseNode {node : NodeId} (h : w.RestingAt n) (herase : w.eraseNode node = some (w', o)) :
    w'.RestingAt n := by
  obtain ⟨e, _, _, _, rfl⟩ := eraseNode_cases herase
  exact fun e' he' => h e' (List.mem_of_mem_filter he')

theorem destroy (h : w.RestingAt n) (o : ObjId) : (w.destroy o).RestingAt n := by
  intro e he hname p hp
  by_cases heq : e.obj = o
  · simp [World.destroy, heq] at hp
  · exact h e he hname p (by simpa [World.destroy, heq] using hp)

end RestingAt

end World

/-! ## Effects -/

section Effects

variable {env : Env} {w w' : World} {n : String}

/-- A program that is not started goes on resting. -/
theorem Effect.restingAt
    (h : Effect { spawn := fun w o => ∀ p, w.objs o = some p → p.config.name ≠ n } env w w')
    (hwf : w.Wf) (hrest : w.RestingAt n) : w'.RestingAt n := by
  induction h with
  | same w => exact hrest
  | remark _ _ => exact hrest.note _
  | @start w _ e _ he hspawn h =>
      by_cases hname : e.name = n
      · obtain ⟨p, hp, _⟩ := hwf.live e he
        have hst := hrest e he hname p hp
        have hup : p.state ≠ .running ∧ p.state ≠ .starting := by
          rcases hst with hst | hst | hst | hst <;> simp [hst]
        exact absurd ((hwf.config_name he hp).trans hname) (hspawn p hp hup p hp)
      · exact hrest.callStart hwf he hname h
  | stop _ _ h => exact hrest.callStop h
  | update he _ h => exact hrest.callUpdate hwf he h
  | kill _ _ _ => exact hrest.note _
  | finishKill _ h => exact hrest.finishKill h
  | reap _ =>
      exact World.handleSigchld_induction (P := fun v => v.RestingAt n) hwf hrest
        fun v c status hv hrest hc _ => hrest.reap hv hc status
  | add _ => exact hrest.addProcess hwf _
  | leave _ h => exact hrest.eraseNode h
  | destroy _ _ => exact hrest.destroy _
  | trans h _ ih ih' => exact ih' (h.wf hwf) (ih hwf hrest)

theorem Outside.restingAt (h : Outside w w') (hrest : w.RestingAt n) : w'.RestingAt n := by
  cases h <;> exact hrest

/-- Every quiet program rests, and no tick has spawned a quiet program. -/
structure World.Settled (w : World) : Prop where
  rests : ∀ n, quiet n w.trace = true → w.RestingAt n
  final : stopsFinal w.trace = true

/-- The trace has gained nothing that matters to a stop. -/
structure SameQuiet (trace trace' : List Event) : Prop where
  quiet_eq : ∀ n, quiet n trace' = quiet n trace
  final_eq : stopsFinal trace' = stopsFinal trace

theorem SameQuiet.refl (trace : List Event) : SameQuiet trace trace := ⟨fun _ => rfl, rfl⟩

theorem SameQuiet.trans {trace trace' trace'' : List Event} (h : SameQuiet trace trace')
    (h' : SameQuiet trace' trace'') : SameQuiet trace trace'' :=
  ⟨fun n => (h'.quiet_eq n).trans (h.quiet_eq n), h'.final_eq.trans h.final_eq⟩

theorem SameQuiet.stopCalled (o : ObjId) (trace : List Event) :
    SameQuiet trace (.stopCalled o :: trace) := ⟨fun _ => rfl, rfl⟩

theorem SameQuiet.signaled (record : SignalRecord) (trace : List Event) :
    SameQuiet trace (.signaled record :: trace) := ⟨fun _ => rfl, rfl⟩

theorem SameQuiet.exitDelivered (o : ObjId) (c : Child) (trace : List Event) :
    SameQuiet trace (.exitDelivered o c :: trace) := ⟨fun _ => rfl, rfl⟩

/-- A trace that is as quiet as before. -/
theorem World.Settled.of_sameQuiet (h : w.Settled) (hsame : SameQuiet w.trace w'.trace)
    (hrest : ∀ n, w.RestingAt n → w'.RestingAt n) : w'.Settled where
  rests := fun n hq => hrest n (h.rests n (hsame.quiet_eq n ▸ hq))
  final := hsame.final_eq.trans h.final

theorem World.Settled.callUpdate {e : Entry} (h : w.Settled) (hwf : w.Wf) (he : e ∈ w.processMap)
    (hcall : w.callUpdate e.obj env = some w') : w'.Settled := by
  have hrest : ∀ n, w.RestingAt n → w'.RestingAt n := fun n hn => hn.callUpdate hwf he hcall
  obtain ⟨p, hp, rfl | ⟨_, q, _, _, _, rfl⟩ | ⟨_, _, rfl⟩ | ⟨_, q, _, _, _, rfl⟩ |
    ⟨⟨hst, _⟩, q, pid, _, _, _, _, rfl⟩⟩ := callUpdate_cases hcall
  · exact h
  · exact h.of_sameQuiet (.refl _) hrest
  · exact h.of_sameQuiet (.signaled _ _) hrest
  · exact h.of_sameQuiet (.refl _) hrest
  · -- the one fork a tick can make: its program is in backoff, hence not quiet
    have hloud : quiet p.config.name w.trace = false := by
      cases hq : quiet p.config.name w.trace with
      | false => rfl
      | true =>
          have := h.rests _ hq e he (hwf.config_name he hp).symm p hp
          simp [State.Resting, hst] at this
    refine ⟨fun n hq => hrest n (h.rests n hq), ?_⟩
    show (!quiet p.config.name w.trace && stopsFinal w.trace) = true
    rw [hloud, h.final]
    rfl

theorem World.Settled.reap (h : w.Settled) (hwf : w.Wf) {c : Child} (hc : c ∈ w.children)
    (status : WaitStatus) : (w.reap c status).Settled := by
  refine h.of_sameQuiet ?_ fun n hn => hn.reap hwf hc status
  rcases reap_cases hwf c status with ⟨_, heq⟩ | ⟨e, _, p, _, _, heq⟩
  · rw [heq]
    exact .refl _
  · rw [heq]
    exact .exitDelivered _ _ _

theorem Effect.settled
    (h : Effect { remark := fun v ev => ∀ n, ev.quiets n = true → v.RestingAt n } env w w')
    (hwf : w.Wf) (hset : w.Settled) : w'.Settled := by
  induction h with
  | same w => exact hset
  | @remark w ev hev hlim =>
      refine ⟨?_, ?_⟩
      · intro n hq
        have hq' : (ev.quiets n || quiet n w.trace) = true := by
          cases ev <;> first | exact hq | cases hev
        rcases Bool.or_eq_true_iff.mp hq' with hq' | hq'
        · exact (hlim n hq').note _
        · exact (hset.rests n hq').note _
      · cases ev <;> first | exact hset.final | cases hev
  | @start w w' e r he _ h =>
      -- an explicit start ends the quiet of its own program only
      have hnext : ∀ n, quiet n w'.trace = true → e.name ≠ n ∧ quiet n w.trace = true := by
        intro n hq
        obtain ⟨p, hp, ⟨_, _, rfl⟩ | ⟨_, _, q, _, _, _, rfl⟩ | ⟨_, _, q, pid, _, _, _, _, rfl⟩⟩ :=
          World.callStart_cases h <;>
        · rw [← hwf.config_name he hp]
          simpa [quiet, Event.quiets] using hq
      refine ⟨fun n hq => (hset.rests n (hnext n hq).2).callStart hwf he (hnext n hq).1 h, ?_⟩
      obtain ⟨p, hp, ⟨_, _, rfl⟩ | ⟨_, _, q, _, _, _, rfl⟩ | ⟨_, _, q, pid, _, _, _, _, rfl⟩⟩ :=
        World.callStart_cases h <;> exact hset.final
  | stop _ _ h =>
      refine hset.of_sameQuiet ?_ fun n hn => hn.callStop h
      obtain ⟨p, _, ⟨_, _, rfl⟩ | ⟨_, _, _, q, _, _, _, _, rfl⟩⟩ := World.callStop_cases h
      · exact .stopCalled _ _
      · exact (SameQuiet.stopCalled _ _).trans (.signaled _ _)
  | update he _ h => exact hset.callUpdate hwf he h
  | kill _ _ _ => exact hset.of_sameQuiet (.signaled _ _) fun n hn => hn.note _
  | finishKill _ h =>
      refine hset.of_sameQuiet ?_ fun n hn => hn.finishKill h
      obtain ⟨p, _, ⟨_, rfl⟩ | ⟨c, _, _, rfl⟩⟩ := World.finishKill_cases h <;> exact .refl _
  | reap _ =>
      exact World.handleSigchld_induction hwf hset fun v c status hv hset hc _ =>
        hset.reap hv hc status
  | add _ =>
      refine hset.of_sameQuiet ?_ fun n hn => hn.addProcess hwf _
      rw [World.addProcess_trace]
      exact .refl _
  | leave _ h =>
      refine hset.of_sameQuiet ?_ fun n hn => hn.eraseNode h
      obtain ⟨e, _, _, _, rfl⟩ := World.eraseNode_cases h
      exact .refl _
  | destroy _ _ => exact hset.of_sameQuiet (.refl _) fun n hn => hn.destroy _
  | trans h _ ih ih' => exact ih' (h.wf hwf) (ih hwf hset)

end Effects

/-! ## Frames of stops under way -/

/-- The programs a frame has already stopped. The signalling loop of `stop_all` answers for those
behind it only. -/
def Frame.HasStopped (n : String) : Frame → Prop
  | .answer (.stopProcess (name :: _)) => name = n
  | .fault (.stopProcess (name :: _)) _ => name = n
  | .stopAllSignal after _ => Behind after n
  | .waitAll _ _ => True
  | .stopAllKill _ => True
  | .stopAllDone => True
  | _ => False

/-- What a frame has stopped rests. -/
def Frame.Calm (w : World) (f : Frame) : Prop := ∀ n, f.HasStopped n → w.RestingAt n

theorem Frame.HasStopped.stopPending {n : String} {f : Frame} (h : f.HasStopped n) :
    f.stopPending n = true := by
  cases f with
  | answer request =>
      cases request with
      | stopProcess params =>
          cases params with
          | nil => cases h
          | cons name params => exact decide_eq_true h
      | _ => cases h
  | fault request what =>
      cases request with
      | stopProcess params =>
          cases params with
          | nil => cases h
          | cons name params => exact decide_eq_true h
      | _ => cases h
  | stopAllSignal after signaled => rfl
  | waitAll deadline phase => rfl
  | stopAllKill after => rfl
  | stopAllDone => rfl
  | _ => cases h

/-- A tick spawns out of `backoff` only. -/
theorem spawnTarget_onTimer {env : Env} {w : World} {after : Option String} {o : ObjId}
    (h : spawnTarget env w (.onTimer after) = some o) :
    w.mapped o = true ∧ ∃ p, w.objs o = some p ∧ p.state = .backoff := by
  obtain ⟨e, he, h⟩ := Option.bind_eq_some_iff.mp h
  obtain ⟨p, hp, h⟩ := Option.bind_eq_some_iff.mp h
  split at h
  · next hdue =>
      obtain rfl := Option.some.inj h
      exact ⟨World.mapped_iff.mpr ⟨e, World.nextEntry_mem he, rfl⟩, p, hp, hdue.1⟩
  · cases h

section Steps

variable {s s' : Sys} {i : Input} {env : Answers} {frame : Frame} {rest : List Frame}

/-- A statement of a run that keeps to the condition does not start what a frame has stopped. -/
theorem stopsSettled_spawn (hwf : s.Wf) (hguard : stopsSettled s (.exec env) = true)
    (hs : s.stack = frame :: rest) {f : Frame} (hf : f ∈ s.stack) {n : String}
    (hn : f.HasStopped n) (hrest : s.world.RestingAt n) {o : ObjId}
    (ho : spawnTarget env.toEnv s.world frame = some o) {p : Process}
    (hp : s.world.objs o = some p) : p.config.name ≠ n := by
  intro hname
  cases frame with
  -- the condition says nothing about ticks: a resting program is not in `backoff`
  | onTimer after =>
      obtain ⟨hm, q, hq, hst⟩ := spawnTarget_onTimer ho
      obtain rfl : p = q := Option.some.inj (hp.symm.trans hq)
      obtain ⟨e, he, rfl⟩ := World.mapped_iff.mp hm
      have hin := hrest e he (hwf.world.config_name he hp ▸ hname) p hp
      simp [State.Resting, hst] at hin
  | _ =>
      simp only [stopsSettled, hs, ho, Option.all_some, noStopPending, hp, Bool.and_eq_true,
        Bool.not_eq_true', hname] at hguard
      have hany := List.any_eq_false.mp hguard.2 f (hs ▸ hf)
      exact hany hn.stopPending

/-- What is calm stays so. -/
theorem calm_keep (hwf : s.Wf) (hguard : stopsSettled s i = true) (h : step s i = some s')
    {f : Frame} (hf : f ∈ s.stack) (hcalm : f.Calm s.world) : f.Calm s'.world := by
  intro n hn
  have hrest := hcalm n hn
  rcases Sys.Wf.step_world h with ⟨env, frame, rest, rfl, hs, heff⟩ | hw | hout
  · let L : Limits := { spawn := fun w o => ∀ p, w.objs o = some p → p.config.name ≠ n }
    have hin : Within L env.toEnv s.world frame :=
      { hwf.within hs with
        spawn := fun o ho p hp => stopsSettled_spawn hwf hguard hs hf hn hrest ho hp }
    exact (heff L hin).restingAt hwf.world hrest
  · rw [hw]
    exact hrest
  · exact hout.restingAt hrest

/-- A process that had a pid rests once `stop` has been called on it. -/
theorem stopped_by_callStop {w w' : World} {e : Entry} {env : Env} {r : Bool} (hwf : w.Wf)
    (he : e ∈ w.processMap) (hpos : 0 < w.pidOf e.obj)
    (hcall : w.callStop e.obj env = some (w', r)) : w'.RestingAt e.name := by
  have hwf' : w'.Wf := callStop_wf hwf hcall
  have hin : e ∈ w'.processMap := (World.SameMap.callStop hcall).processMap ▸ he
  obtain ⟨p, hp, ⟨hno, _, _⟩ | ⟨_, _, _, q, _, _, hst, _, rfl⟩⟩ := World.callStop_cases hcall
  · rw [World.pidOf_eq hp] at hpos
    rcases hno with hle | hst
    · omega
    · have := (hwf.coherent _ p hp).ended (.inl hst)
      omega
  · exact .of_entry (p := q) hwf' hin (Function.update_self ..) (.inr (.inr (.inr hst)))

/-- The frames a statement pushes answer for resting programs. -/
theorem calm_push (hwf : s.Wf) (hguard : stopsSettled s (.exec env) = true)
    (hcalm : ∀ f ∈ s.stack, f.Calm s.world) (hs : s.stack = frame :: rest)
    (hkeep : frame.Calm s'.world) {f : Frame}
    (hpush : Pushed env.toEnv s.world s'.world frame f) : f.Calm s'.world := by
  have hframe : frame.Calm s.world := hcalm frame (hs ▸ List.mem_cons_self)
  cases hpush with
  | plain hf =>
      intro n hn
      cases f <;> first | exact False.elim hn | exact False.elim hf
  | stopAnswer hfind hp hcall =>
      rintro n rfl
      obtain ⟨he, rfl⟩ := World.find_mem hfind
      refine stopped_by_callStop hwf.world he ?_ hcall
      obtain ⟨q, hq, ⟨_, hr, _⟩ | ⟨hpos, _⟩⟩ := World.callStop_cases hcall
      · cases hr
      · rw [World.pidOf_eq hq]
        exact hpos
  | stopAllEmpty hmap hw =>
      intro n _ e he
      rw [hw, hmap] at he
      cases he
  | stopAllBegin hw =>
      rintro n ⟨k, hk, _⟩
      cases hk
  -- the loop answers for the entry it has just signalled and, as before, for those behind it
  | @stopAllStop _ _ e _ he hpos hcall =>
      rintro n ⟨k, hk, hle⟩ e' hin rfl p hp
      obtain rfl := Option.some.inj hk
      have hmap := (World.SameMap.callStop hcall).processMap
      rcases World.behind_of_nextEntry_some hwf.world he e' (hmap ▸ hin) hle with rfl | hbehind
      · exact (stopped_by_callStop hwf.world (World.nextEntry_mem he) hpos hcall) e' hin rfl p hp
      · exact (hframe e'.name hbehind).callStop hcall e' hin rfl p hp
  | @stopAllSkip _ _ e he hnone hw =>
      rintro n ⟨k, hk, hle⟩ e' hin rfl p hp
      obtain rfl := Option.some.inj hk
      rw [hw] at hin hp
      rcases World.behind_of_nextEntry_some hwf.world he e' hin hle with rfl | hbehind
      -- skipped without a pid: only `backoff` would start again by itself
      · rw [World.pidOf_eq hp] at hnone
        apply Process.resting_of_no_child (hwf.world.coherent _ p hp) hnone
        intro hst
        simp [stopsSettled, hs, stopTarget, he, World.awaitsRestart, hp, hst, hnone] at hguard
      · exact hframe e'.name hbehind e' hin rfl p hp
  | stopAllNone he hw =>
      intro n _ e hin hname p hp
      rw [hw] at hin hp
      exact hframe e.name (World.behind_of_nextEntry_none he e hin) e hin rfl p hp
  | stopAllWait he hw =>
      intro n _ e hin hname p hp
      rw [hw] at hin hp
      exact hframe e.name (World.behind_of_nextEntry_none he e hin) e hin rfl p hp
  | waitAllOn => exact hkeep
  | waitAllEnd _ _ => exact hkeep
  | killNext => exact hkeep
  | killEnd _ => exact hkeep
  | _ => intro n hn; cases hn

/-- An answer that ends a stop is one to a `stopProcess` request. -/
theorem Event.quiets_answered {request : Request} {fault : Option String} {n : String}
    (hn : (Event.answered request fault).quiets n = true) :
    ∃ params, request = .stopProcess (n :: params) := by
  cases request with
  | stopProcess params =>
      cases params with
      | nil => cases hn
      | cons name params =>
          simp only [Event.quiets, Bool.and_eq_true, decide_eq_true_eq] at hn
          exact ⟨params, by rw [hn.1]⟩
  | _ => cases hn

/-- The remarks that end a stop are made about resting programs. -/
theorem stopsSettled_remark (hwf : s.Wf) (hguard : stopsSettled s (.exec env) = true)
    (hs : s.stack = frame :: rest) (hframe : frame.Calm s.world) {v : World} {ev : Event}
    (hrem : Remarks env.toEnv s.world frame v ev) {n : String} (hn : ev.quiets n = true) :
    v.RestingAt n := by
  cases hrem with
  | stopAllDone => exact hframe n trivial
  | waitStop _ => cases hn
  | rpcStart => cases hn
  | rpcStopNoName => cases hn
  | rpcStopBadName hfind =>
      -- no entry of the map has the name
      intro e he hname
      obtain ⟨_, hreq⟩ := Event.quiets_answered hn
      obtain ⟨rfl, _⟩ := by simpa using hreq
      have hno := List.find?_eq_none.mp hfind e he
      simp [hname] at hno
  | rpcStopNotRunning hfind hp hst =>
      obtain ⟨_, hreq⟩ := Event.quiets_answered hn
      obtain ⟨rfl, _⟩ := by simpa using hreq
      obtain ⟨he, hname⟩ := World.find_mem hfind
      rw [← hname]
      refine .of_entry hwf.world he hp ?_
      rcases hst with hst | hst | hst
      · exact .inl hst
      · exact .inr (.inl hst)
      · exact .inr (.inr (.inl hst))
  | @rpcStopRefused name params e p v hfind hp hst hcall =>
      obtain ⟨_, hreq⟩ := Event.quiets_answered hn
      obtain ⟨rfl, _⟩ := by simpa using hreq
      obtain ⟨he, hname⟩ := World.find_mem hfind
      rw [← hname]
      -- with a pid `stop` has signalled it; without one it is at rest, or the condition is violated
      by_cases hpos : 0 < s.world.pidOf e.obj
      · exact stopped_by_callStop hwf.world he hpos hcall
      · rw [World.pidOf_eq hp] at hpos
        have hnone : p.pid ≤ 0 := by omega
        refine World.RestingAt.callStop ?_ hcall
        refine .of_entry hwf.world he hp (Process.resting_of_no_child
          (hwf.world.coherent _ p hp) hnone ?_)
        intro hback
        simp [stopsSettled, hs, stopTarget, hfind, World.awaitsRestart, hp, hback, hnone] at hguard
  -- a request whose frame is on the stack: the frame has the program stopped
  | answer =>
      obtain ⟨params, rfl⟩ := Event.quiets_answered hn
      exact hframe n rfl
  | fault =>
      obtain ⟨params, rfl⟩ := Event.quiets_answered hn
      exact hframe n rfl

/-- The invariant: quiet programs rest, and so does what the frames on the stack have stopped. -/
structure Sys.Settled (s : Sys) : Prop where
  wf : s.Wf
  world : s.world.Settled
  frames : ∀ f ∈ s.stack, f.Calm s.world

/-- A stop is settled by every step that keeps to the condition. -/
theorem Sys.Settled.step (hinv : s.Settled) (hguard : stopsSettled s i = true)
    (h : step s i = some s') : s'.Settled where
  wf := hinv.wf.step h
  world := by
    rcases Sys.Wf.step_world h with ⟨env, frame, rest, rfl, hs, heff⟩ | hw | hout
    · let L : Limits := { remark := fun v ev => ∀ n, ev.quiets n = true → v.RestingAt n }
      have hin : Within L env.toEnv s.world frame :=
        { hinv.wf.within hs with
          remark := fun v ev hrem n hn => stopsSettled_remark hinv.wf hguard hs
            (hinv.frames frame (hs ▸ List.mem_cons_self)) hrem hn }
      exact (heff L hin).settled hinv.wf.world hinv.world
    · rw [hw]
      exact hinv.world
    · refine hinv.world.of_sameQuiet ?_ fun n hn => hout.restingAt hn
      rw [hout.trace_eq]
      exact .refl _
  frames := by
    refine step_frames (P := fun w f => f.Calm w) h hinv.frames ?_ ?_ ?_ ?_
    · exact fun f hf hcalm => calm_keep hinv.wf hguard h hf hcalm
    · rintro env frame rest f rfl hs hpush
      have hin : frame ∈ s.stack := hs ▸ List.mem_cons_self
      exact calm_push hinv.wf hguard hinv.frames hs
        (calm_keep hinv.wf hguard h hin (hinv.frames frame hin)) hpush
    · intro f hf n hn
      cases f with
      | answer request => cases request <;> first | exact False.elim hn | exact False.elim hf
      | _ => first | exact False.elim hn | exact False.elim hf
    · rintro what f (hf | ⟨o, deadline, phase, next, rfl, _⟩ | ⟨request, rfl, hin⟩ | rfl)
      · exact hinv.frames f hf
      · exact fun n hn => False.elim hn
      · intro n hn
        apply hinv.frames _ hin n
        cases request with
        | stopProcess params =>
            cases params with
            | nil => exact hn
            | cons name params => exact hn
        | _ => exact hn
      · exact fun n hn => False.elim hn

end Steps

/-- **A stop is final.**  In every run in which no stop turns to a program that only waits for its
restart, and no program is started while a stop of it is under way, no timer tick ever spawns a
program that has been stopped and not been started since. -/
theorem stop_is_final {s : Sys}
    (h : Machine.Reach step (fun s i => stopsSettled s i = true) Boot s) :
    stopsFinal s.world.trace = true := by
  have hinv := h.invariant (P := Sys.Settled)
    (fun s hs => ⟨Sys.Wf.boot hs, by constructor <;> simp [boot_trace hs, quiet, stopsFinal], by
      intro f hf n hn
      rcases Sys.Wf.boot_frames hs f hf with ⟨o, rfl⟩ | rfl | rfl | rfl | rfl | rfl <;> cases hn⟩)
    (fun s i s' hinv hg hstep => hinv.step hg hstep)
  exact hinv.world.final

/-- A running program is stopped, its child exits, and the ticks after it spawn nothing. -/
theorem stop_is_final_of_running : ∃ s,
    Machine.Reach step (fun s i => stopsSettled s i = true) Boot s ∧
      quiet "web" s.world.trace = true ∧ stopsFinal s.world.trace = true := by
  obtain ⟨s, hreach, hquiet⟩ := Machine.Reach.exists_of_guardedRun
    (p := fun s : Sys => quiet "web" s.world.trace) (fun _ _ h => h)
    (.init (boot_bootSimple ["web"]))
    (show (Machine.guardedRun step stopsSettled (bootSimple ["web"])
      [.forking ⟨100, by decide⟩, .next, .request (.stopProcess ["web"]), .next,
        .childExit 0 (.exited 0), .next, .next, .next, .next, .seconds 5, .dispatch .timer,
        .next, .next]).any _ = true by decide)
  exact ⟨s, hreach, hquiet, stop_is_final hreach⟩

/-- A stop request answered with `NOT_RUNNING` while the program waits for its restart: three seconds
later a tick spawns it. -/
theorem stop_in_backoff_is_not_final : ∃ s,
    Machine.Reach step Machine.anyStep Boot s ∧ stopsFinal s.world.trace = false := by
  obtain ⟨s, hreach, hspawn⟩ := Machine.Reach.exists_of_run
    (p := fun s : Sys => !stopsFinal s.world.trace)
    (.init (boot_bootSimple ["web"]))
    (show (Machine.run step (bootSimple ["web"])
      [.forking ⟨100, by decide⟩, .next, .childExit 0 (.exited 1), .dispatch .sigchld, .next,
        .request (.stopProcess ["web"]), .next, .seconds 3, .dispatch .timer,
        .forking ⟨101, by decide⟩]).any _ = true by decide)
  exact ⟨s, hreach, by simpa using hspawn⟩

end Supervisorcpp
