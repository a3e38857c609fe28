/-
# Requests are answered, and a shutdown ends

What the endless runs of the daemon come to. Below the event loop of `Supervisord::run` there is only
the end of the program, so a daemon that is back in that loop owes no answer; and once the loop is
stopped, nothing is left in the way of that end.

A run is quiet if nothing arrives in it but ticks and exits, the thread is scheduled, time goes on
and killed children exit. What such a run owes at some time it has answered when it comes to rest,
in the order in which the handlers are nested.
-/
import Supervisorcpp.Manager.References
import Supervisorcpp.Manager.Returns
import Supervisorcpp.Manager.SingleChild

namespace Supervisorcpp

open Machine (Endless)

/-! ## The bottom of the stack -/

/-- What is on the stack from the event loop down. -/
def eventLoop : List Frame := [.run, .endRun, .stopAll, .clearMap]

/-- Where the daemon is: in its event loop or a handler above it, on the way out of it, in the
destructors after it, or at the end. -/
inductive Stage (s : Sys) : Prop
  | serving (handlers : List Frame) : s.stack = handlers ++ eventLoop → .run ∉ handlers → Stage s
  | leaving (drops : List Frame) : s.stack = drops ++ [.endRun, .stopAll, .clearMap] →
      (∀ f ∈ drops, f.drops = true) → Stage s
  | closing (frames : List Frame) : s.ctl.serving = false → s.stack = frames ++ [.clearMap] →
      (∀ f ∈ frames, f ≠ .run ∧ f.owes = none) → Stage s
  | ended : s.stack = [] → s.world.processMap = [] → Stage s

section Stages

variable {env : Answers} {w w' : World} {c c' : Ctl} {frame : Frame} {rest frames : List Frame}

theorem pushed_ne_run {env : Env} {f : Frame} (h : Pushed env w w' frame f) : f ≠ .run := by
  cases h with
  | plain hf =>
      rintro rfl
      cases hf
  | _ => nofun

theorem entry_ne_run {f : Frame} (h : f.IsEntry) : f ≠ .run := by
  rintro rfl
  cases h

/-- The server is not opened again, and the event loop, once stopped, stays so. -/
theorem execFrame_final (h : execFrame env rest w c frame = some (w', c', frames)) :
    (c.serving = false → c'.serving = false) ∧ (c.ioStopped = true → c'.ioStopped = true) := by
  have hsame : ∀ {v : World} {d : Ctl} {fs : List Frame}, some (v, d, fs) = some (w', c', frames) →
      d.serving = c.serving → d.ioStopped = c.ioStopped →
      (c.serving = false → c'.serving = false) ∧ (c.ioStopped = true → c'.ioStopped = true) := by
    intro v d fs heq hserving hstopped
    obtain ⟨_, heq⟩ := Prod.mk.inj (Option.some.inj heq)
    obtain ⟨rfl, _⟩ := Prod.mk.inj heq
    exact ⟨fun hno => hserving.trans hno, fun hyes => hstopped.trans hyes⟩
  cases frame with
  | reloadConfig =>
      simp only [execFrame] at h
      split at h
      · exact hsame h rfl rfl
      · split at h
        · exact hsame h rfl rfl
        · split at h <;> exact hsame h rfl rfl
  | waitAll deadline phase => cases phase <;> simp only [execFrame] at h <;> grind
  | waitStop o deadline phase next => cases phase <;> simp only [execFrame] at h <;> grind
  | syncRemove it newPrograms => cases it <;> simp only [execFrame] at h <;> grind
  | syncAdd newPrograms =>
      cases newPrograms <;> simp only [execFrame] at h <;> grind [Option.map_eq_some_iff]
  | _ => grind [execFrame, Option.map_eq_some_iff]

/-- A statement leads to the same stage or to the next one. -/
theorem Stage.exec {s s' : Sys} (h : Stage s) (hs : s.stack = frame :: rest)
    (hs' : s'.stack = frames ++ rest)
    (hexec : execFrame env rest s.world s.ctl frame = some (s'.world, s'.ctl, frames)) : Stage s' := by
  cases h with
  | serving handlers hstack hrun =>
      rw [hs] at hstack
      cases handlers with
      | nil =>
          obtain ⟨rfl, rfl⟩ := List.cons.inj hstack
          simp only [execFrame] at hexec
          split at hexec
          · obtain ⟨_, _, rfl⟩ := by simpa using hexec
            exact .leaving [] hs' (List.forall_mem_nil _)
          · cases hexec
      | cons f fs =>
          obtain ⟨rfl, rfl⟩ := List.cons.inj hstack
          refine .serving (frames ++ fs) (hs'.trans (List.append_assoc ..).symm) fun hin => ?_
          rcases List.mem_append.mp hin with hin | hin
          · exact pushed_ne_run (execFrame_pushed hexec hin) rfl
          · exact hrun (List.mem_cons_of_mem _ hin)
  | leaving drops hstack hdrops =>
      rw [hs] at hstack
      cases drops with
      | nil =>
          obtain ⟨rfl, rfl⟩ := List.cons.inj hstack
          obtain ⟨_, hctl, rfl⟩ := by simpa [execFrame] using hexec
          refine .closing [.stopAll] (by rw [← hctl]) hs' ?_
          exact List.forall_mem_singleton.mpr ⟨by simp, rfl⟩
      | cons f fs =>
          obtain ⟨rfl, rfl⟩ := List.cons.inj hstack
          obtain ⟨hframe, hfs⟩ := List.forall_mem_cons.mp hdrops
          refine .leaving (frames ++ fs) (hs'.trans (List.append_assoc ..).symm) fun g hg => ?_
          rcases List.mem_append.mp hg with hg | hg
          · exact drops_of_drops hexec hframe hg
          · exact hfs g hg
  | closing frames' hserving hstack hframes =>
      have hserving' := (execFrame_final hexec).1 hserving
      rw [hs] at hstack
      cases frames' with
      | nil =>
          obtain ⟨rfl, rfl⟩ := List.cons.inj hstack
          simp only [execFrame] at hexec
          split at hexec
          · next hmap =>
              obtain ⟨hw, _, rfl⟩ := by simpa using hexec
              exact .ended hs' (hw ▸ hmap)
          · next e es hmap =>
              obtain ⟨_, hctl⟩ := Prod.mk.inj (Option.some.inj hexec)
              obtain ⟨_, rfl⟩ := Prod.mk.inj hctl
              refine .closing (s.world.eraseFrames e.node []).2 hserving' (by simpa using hs') ?_
              exact forall_eraseFrames (List.forall_mem_nil _) (fun _ => ⟨by simp, rfl⟩) ⟨by simp, rfl⟩
      | cons f fs =>
          obtain ⟨rfl, rfl⟩ := List.cons.inj hstack
          obtain ⟨⟨_, howes⟩, hfs⟩ := List.forall_mem_cons.mp hframes
          have hstop : ∀ params, frame ≠ .rpcStopProcess params := by
            rintro params rfl
            cases howes
          refine .closing (frames ++ fs) hserving' (hs'.trans (List.append_assoc ..).symm) fun g hg => ?_
          rcases List.mem_append.mp hg with hg | hg
          · have hpush := execFrame_pushed hexec hg
            exact ⟨pushed_ne_run hpush, owes_of_pushed hpush hstop⟩
          · exact hfs g hg
  | ended hstack _ =>
      rw [hs] at hstack
      cases hstack

/-- An exception is caught above the event loop, or ends it. -/
theorem unwind_stage (what : String) {handlers : List Frame} (h : .run ∉ handlers) :
    (∃ frames, unwind what (handlers ++ eventLoop) = frames ++ eventLoop ∧ .run ∉ frames) ∨
      ∃ frames, unwind what (handlers ++ eventLoop) = frames ++ [.endRun, .stopAll, .clearMap] ∧
        ∀ f ∈ frames, f.drops = true := by
  induction handlers with
  | nil => exact .inr ⟨[], rfl, List.forall_mem_nil _⟩
  | cons frame rest ih =>
      obtain ⟨hframe, hrest⟩ := not_or.mp (List.mem_cons.not.mp h)
      have hdrop : ∀ o, unwind what (frame :: rest ++ eventLoop) =
            .release o :: unwind what (rest ++ eventLoop) →
          (∃ frames, unwind what (frame :: rest ++ eventLoop) = frames ++ eventLoop ∧
              .run ∉ frames) ∨
            ∃ frames, unwind what (frame :: rest ++ eventLoop) =
                frames ++ [.endRun, .stopAll, .clearMap] ∧ ∀ f ∈ frames, f.drops = true := by
        intro o heq
        rw [heq]
        rcases ih hrest with ⟨fs, hfs, hrun⟩ | ⟨fs, hfs, hdrops⟩
        · refine .inl ⟨.release o :: fs, by rw [hfs]; rfl, ?_⟩
          simpa using hrun
        · exact .inr ⟨.release o :: fs, by rw [hfs]; rfl, List.forall_mem_cons.mpr ⟨rfl, hdrops⟩⟩
      cases frame with
      | waitStop o deadline phase next => exact hdrop o rfl
      | release o => exact hdrop o rfl
      | answer request => exact .inl ⟨.fault request what :: rest, rfl, by simpa using hrest⟩
      | reloadDone newConfig => exact .inl ⟨.reloadFailed :: rest, rfl, by simpa using hrest⟩
      | run => exact absurd rfl hframe
      | _ => exact ih hrest

/-- An event does not change the stage, unless it stops the loop. -/
theorem Stage.dispatch {s s' : Sys} {ready : Ready} (h : Stage s)
    (hloop : looping s.world.now s.stack = true)
    (hdisp : dispatch s.world.now s.ctl s.stack ready = some (s'.ctl, s'.stack)) : Stage s' := by
  cases h with
  | serving handlers hstack hrun =>
      rcases dispatch_stack hdisp with ⟨pushed, hs', hpushed, _⟩ | ⟨what, hs', _⟩
      · refine .serving (pushed ++ handlers) (by rw [hs', hstack, List.append_assoc]) fun hin => ?_
        rcases List.mem_append.mp hin with hin | hin
        · exact entry_ne_run (hpushed _ hin) rfl
        · exact hrun hin
      · rw [hstack] at hs'
        rcases unwind_stage what hrun with ⟨fs, hfs, hrun'⟩ | ⟨fs, hfs, hdrops⟩
        · exact .serving fs (hs'.trans hfs) hrun'
        · exact .leaving fs (hs'.trans hfs) hdrops
  | leaving drops hstack hdrops =>
      rw [hstack] at hloop
      cases drops with
      | nil => cases hloop
      | cons f fs =>
          have hframe := hdrops f List.mem_cons_self
          cases f with
          | release o => cases hloop
          | destructorWait o => cases hloop
          | _ => cases hframe
  | closing frames hserving hstack hframes =>
      -- the server is closed: only ticks, exits and a posted shutdown are left to handle
      have hpush : ∀ pushed, s'.stack = pushed ++ s.stack → s'.ctl.serving = false →
          (∀ f ∈ pushed, f ≠ .run ∧ f.owes = none) → Stage s' := by
        intro pushed hs' hserving' hpushed
        refine .closing (pushed ++ frames) hserving' (by rw [hs', hstack, List.append_assoc]) ?_
        exact List.forall_mem_append.mpr ⟨hpushed, hframes⟩
      cases ready with
      | sigchld =>
          obtain ⟨hctl, hs'⟩ := Prod.mk.inj (Option.some.inj hdisp)
          refine hpush [.handleSigchld] hs'.symm (hctl ▸ hserving) ?_
          exact List.forall_mem_singleton.mpr ⟨by simp, rfl⟩
      | timer =>
          simp only [Supervisorcpp.dispatch] at hdisp
          split at hdisp
          · obtain ⟨hctl, hs'⟩ := Prod.mk.inj (Option.some.inj hdisp)
            refine hpush [.onTimer none] hs'.symm (hctl ▸ hserving) ?_
            exact List.forall_mem_singleton.mpr ⟨by simp, rfl⟩
          · cases hdisp
      | posted =>
          simp only [Supervisorcpp.dispatch] at hdisp
          split at hdisp
          · obtain ⟨hctl, hs'⟩ := Prod.mk.inj (Option.some.inj hdisp)
            refine hpush [.stopAll, .ioStop] hs'.symm (by rw [← hctl]; exact hserving) ?_
            exact List.forall_mem_cons.mpr ⟨⟨by simp, rfl⟩, List.forall_mem_singleton.mpr ⟨by simp, rfl⟩⟩
          · cases hdisp
      | _ => simp [Supervisorcpp.dispatch, hserving] at hdisp
  | ended hstack _ =>
      rw [hstack] at hloop
      cases hloop

/-- Every step keeps to the order of the stages. -/
theorem Stage.step {s s' : Sys} {i : Input} (h : Stage s) (hstep : step s i = some s') :
    Stage s' := by
  rcases step_cases hstep with ⟨env, frame, rest, frames, rfl, hs, hs', hexec⟩ |
      ⟨ready, rfl, hw, hloop, _, hdisp⟩ | ⟨_, hout, hs', hctl⟩
  · exact h.exec hs hs' hexec
  · exact h.dispatch hloop hdisp
  · cases h with
    | serving handlers hstack hrun => exact .serving handlers (hs'.trans hstack) hrun
    | leaving drops hstack hdrops => exact .leaving drops (hs'.trans hstack) hdrops
    | closing frames hserving hstack hframes =>
        exact .closing frames (hctl ▸ hserving) (hs'.trans hstack) hframes
    | ended hstack hmap => exact .ended (hs'.trans hstack) (hout.processMap_eq.trans hmap)

/-- Every reachable state is at one of the four stages. -/
theorem Stage.reach {guard : Sys → Input → Prop} {s : Sys}
    (h : Machine.Reach Supervisorcpp.step guard Boot s) : Stage s := by
  refine h.invariant ?_ fun _ _ _ hstage _ hstep => hstage.step hstep
  rintro _ ⟨config, now, rfl⟩
  refine .serving ((addAll (World.empty now) config.programs).2 ++ [.startAll none]) ?_ fun hin => ?_
  · simp [boot, eventLoop]
  · rcases List.mem_append.mp hin with hin | hin
    · obtain ⟨o, ho⟩ := Sys.Wf.addAll_frames _ _ _ hin
      cases ho
    · simp at hin

end Stages

/-- With the event loop on top, no handler is left. -/
theorem Stage.of_run {s : Sys} {rest : List Frame} (h : Stage s) (hs : s.stack = .run :: rest) :
    s.stack = eventLoop := by
  cases h with
  | serving handlers hstack hrun =>
      cases handlers with
      | nil => exact hstack
      | cons f fs =>
          obtain ⟨rfl, _⟩ := List.cons.inj (hs.symm.trans hstack)
          exact absurd List.mem_cons_self hrun
  | leaving drops hstack hdrops =>
      cases drops with
      | nil => cases hs.symm.trans hstack
      | cons f fs =>
          obtain ⟨rfl, _⟩ := List.cons.inj (hs.symm.trans hstack)
          cases hdrops .run List.mem_cons_self
  | closing frames _ hstack hframes =>
      cases frames with
      | nil => cases hs.symm.trans hstack
      | cons f fs =>
          obtain ⟨rfl, _⟩ := List.cons.inj (hs.symm.trans hstack)
          exact absurd rfl (hframes .run List.mem_cons_self).1
  | ended hstack _ => cases hs.symm.trans hstack

/-- The map is empty at the end. -/
theorem Stage.map_of_ended {s : Sys} (h : Stage s) (hs : s.stack = []) :
    s.world.processMap = [] := by
  cases h with
  | ended _ hmap => exact hmap
  | serving handlers hstack _ => simp [hs, eventLoop] at hstack
  | leaving drops hstack _ => simp [hs] at hstack
  | closing frames _ hstack _ => simp [hs] at hstack

/-! ## Coming to rest -/

/-- The daemon has ended, or it is in the event loop of `Supervisord::run` with nothing to finish. -/
def Sys.AtRest (s : Sys) : Prop :=
  s.stack = [] ∨ s.stack = eventLoop ∧ s.ctl.ioStopped = false

/-- The requests that have been answered, and behind them those that will be, newest first. -/
def Sys.owed (s : Sys) : List Request := (pending s.stack).reverse ++ s.world.answers

theorem Sys.AtRest.pending_eq {s : Sys} (h : s.AtRest) : pending s.stack = [] := by
  rcases h with h | ⟨h, _⟩ <;> rw [h] <;> rfl

/-- Requests and answers keep their sum. -/
theorem Turn.owed {open_ answers open' answers' : List Request}
    (h : Turn open_ answers open' answers') :
    open'.reverse ++ answers' = open_.reverse ++ answers := by
  cases h with
  | idle => rfl
  | answer request => simp

namespace QuietRun

variable {r : QuietRun}

theorem stage (r : QuietRun) (n : ℕ) : Stage (r.state n) := Stage.reach (r.reach n)

/-- Nothing is asked in a quiet run, and nothing is forgotten. -/
theorem owed_eq (r : QuietRun) {n m : ℕ} (hnm : n ≤ m) : (r.state m).owed = (r.state n).owed := by
  induction hnm with
  | refl => rfl
  | @step m hnm ih =>
      refine Eq.trans ?_ ih
      unfold Sys.owed
      rcases r.step_cases m with ⟨env, frame, rest, frames, _, hs, hs', hexec⟩ |
          ⟨frame, htick, hworld, _, _, _, hs', _⟩ | ⟨hout, hs', _, _⟩
      · rw [hs, hs']
        exact (execFrame_turn ((r.wf m).within hs) hexec).owed
      · have hnone : frame.owes = none := by rcases htick with rfl | rfl <;> rfl
        rw [hs', hworld, pending_cons, hnone]
        rfl
      · rw [hs', answers_of_trace hout.trace_eq]

/-- A loop that is stopped stays stopped. -/
theorem stopped_mono (r : QuietRun) {n m : ℕ} (hnm : n ≤ m)
    (h : (r.state n).ctl.ioStopped = true) : (r.state m).ctl.ioStopped = true := by
  induction hnm with
  | refl => exact h
  | @step m hnm ih =>
      rcases r.step_cases m with ⟨env, frame, rest, frames, _, _, _, hexec⟩ |
          ⟨_, _, _, hctl, _⟩ | ⟨_, _, hctl, _⟩
      · exact (execFrame_final hexec).2 ih
      · rw [hctl]
        exact ih
      · rw [hctl]
        exact ih

/-- A stopped event loop is left. -/
theorem run_leadsTo (rest : List Frame) :
    r.LeadsTo (fun s => s.stack = .run :: rest ∧ s.ctl.ioStopped = true)
      fun s => s.stack = rest ∧ s.ctl.ioStopped = true := by
  have hexec : r.LeadsTo (On .run rest fun _ c => c.ioStopped = true)
      (After .run rest fun _ c => c.ioStopped = true) :=
    exec_leadsTo (fun _ _ _ _ h => h) (fun _ _ h _ => h) fun w c _ h => ⟨{}, by simp [execFrame, h]⟩
  refine hexec.trans ?_
  rintro n ⟨env, w, c, frames, _, hstopped, hrun, hs⟩
  simp only [execFrame, hstopped, if_true] at hrun
  obtain ⟨_, hctl, rfl⟩ := by simpa using hrun
  exact ⟨n, Nat.le_refl n, hs, hctl ▸ hstopped⟩

/-- Whatever is on the stack, the daemon comes to rest. -/
theorem rest_leadsTo (stack : List Frame) : r.LeadsTo (fun s => s.stack = stack) Sys.AtRest := by
  induction stack with
  | nil => exact .of_imp fun _ hs => .inl hs
  | cons frame rest ih =>
      by_cases hframe : frame = .run
      · subst hframe
        intro n hs
        cases hstopped : (r.state n).ctl.ioStopped with
        | false => exact ⟨n, Nat.le_refl n, .inr ⟨(r.stage n).of_run hs, hstopped⟩⟩
        | true =>
            exact ((run_leadsTo rest).trans (ih.mono (fun _ h => h.1) fun _ => id)) n ⟨hs, hstopped⟩
      · exact (ends frame hframe rest).trans ih

end QuietRun

/-- **Every open request is answered.**  In an endless run in which from some time on nothing arrives
but ticks and exits, the daemon comes back to its event loop or to its end, and by then has given
exactly the answers it owed, the innermost first. -/
theorem requests_answered (r : QuietRun) (n : ℕ) : ∃ m, n ≤ m ∧ (r.state m).AtRest ∧
    (r.state m).world.answers = (pending (r.state n).stack).reverse ++ (r.state n).world.answers := by
  obtain ⟨m, hnm, hrest⟩ := QuietRun.rest_leadsTo (r.state n).stack n rfl
  refine ⟨m, hnm, hrest, ?_⟩
  have howed := r.owed_eq hnm
  rw [Sys.owed, hrest.pending_eq] at howed
  exact howed

/-! ## Quiet runs that exist -/

/-- What a quiet run asks of a step. -/
def quietStep (s : Sys) (i : Input) : Bool :=
  decide (s.stack.head? ≠ some .undefined) &&
    match i with
    | .dispatch ready => decide (ready = .timer ∨ ready = .sigchld)
    | _ => true

/-- Some nanoseconds later. -/
def Sys.later (s : Sys) (n : ℕ) : Sys := { s with world := { s.world with now := s.world.now + n } }

instance (s : Sys) : Decidable s.AtRest := inferInstanceAs (Decidable (_ ∨ _ ∧ _))

/-- The daemon at rest, while the clock runs. -/
def Sys.resting (s : Sys) : Endless step where
  state := s.later
  input _ := .clock 1
  next n := by simp [step, Sys.later, Int.add_assoc]

/-- A daemon at rest has nothing to execute. -/
theorem Sys.AtRest.step_exec {s : Sys} (h : s.AtRest) (env : Answers) : step s (.exec env) = none := by
  rcases h with hs | ⟨hs, hstopped⟩
  · simp [step, hs]
  · simp [step, hs, eventLoop, execFrame, hstopped]

/-- **Where the daemon comes to rest, a quiet run goes on for ever.** -/
theorem exists_quietRun {g : Sys → Input → Bool} (hg : ∀ s i, g s i = true → quietStep s i = true)
    {s : Sys} {is : List Input} (hs : Machine.Reach step Machine.anyStep Boot s)
    (hrun : (Machine.guardedRun step g s is).any (fun t => decide t.AtRest) = true) :
    ∃ r : QuietRun, r.state 0 = s ∧
      ∀ n, g (r.state n) (r.input n) = true ∨ ∃ nanos, r.input n = .clock nanos := by
  obtain ⟨t, hrun, hrest⟩ : ∃ t, Machine.guardedRun step g s is = some t ∧ t.AtRest := by
    cases ht : Machine.guardedRun step g s is with
    | none => simp [ht] at hrun
    | some t => exact ⟨t, rfl, by simpa [ht] using hrun⟩
  have hstart : Machine.guardedRun step g s is = some (t.resting.state 0) := by
    simpa [Sys.resting, Sys.later] using hrun
  obtain ⟨r, rfl, hguard, htail⟩ := Endless.exists_of_guardedRun t.resting hstart
  -- the run is still in the list, or at rest
  have hcases : ∀ n, g (r.state n) (r.input n) = true ∨
      ∃ k, r.state n = t.later k ∧ r.input n = .clock 1 := by
    intro n
    by_cases hn : n < is.length
    · exact .inl (hguard n hn)
    · obtain ⟨k, rfl⟩ := Nat.exists_eq_add_of_le (Nat.not_lt.mp hn)
      exact .inr ⟨k, htail k⟩
  have hcomes : ∀ n, ∃ m k, n ≤ m ∧ r.state m = t.later k := fun n =>
    ⟨is.length + n, n, Nat.le_add_left n _, (htail n).1⟩
  have hlater : ∀ k, (t.later k).AtRest := fun _ => hrest
  have hquiet : ∀ n ready, r.input n = .dispatch ready → ready = .timer ∨ ready = .sigchld := by
    intro n ready hi
    rcases hcases n with hstep | ⟨k, _, hclock⟩
    · have hready := hg _ _ hstep
      rw [hi] at hready
      exact of_decide_eq_true (Bool.and_eq_true_iff.mp hready).2
    · cases hi.symm.trans hclock
  have htime : ∀ time, ∃ n, time ≤ (r.state n).world.now := by
    intro time
    refine ⟨is.length + (time - t.world.now).toNat, ?_⟩
    rw [(htail _).1]
    simp only [Sys.resting, Sys.later]
    omega
  have hthread : r.Fair fun i => ∃ env, i = .exec env := by
    intro n hcan
    obtain ⟨m, k, hnm, hm⟩ := hcomes n
    obtain ⟨_, ⟨env, rfl⟩, hsome⟩ := hcan m hnm
    rw [hm, (hlater k).step_exec] at hsome
    cases hsome
  have hexits : ∀ n o, Blocked (r.state n) o → ∃ m, n ≤ m ∧ ¬ Blocked (r.state m) o := by
    intro n o _
    obtain ⟨m, k, hnm, hm⟩ := hcomes n
    refine ⟨m, hnm, ?_⟩
    rintro ⟨⟨frame, rest, htop, hblocks⟩, _⟩
    rw [hm] at htop
    rcases hlater k with hend | ⟨hloop, _⟩
    · cases hend.symm.trans htop
    · obtain ⟨rfl, _⟩ := List.cons.inj (hloop.symm.trans htop)
      cases hblocks
  have hdefined : ∀ n rest, (r.state n).stack ≠ .undefined :: rest := by
    intro n rest hbroken
    rcases hcases n with hstep | ⟨k, hm, _⟩
    · have hdef := (Bool.and_eq_true_iff.mp (hg _ _ hstep)).1
      simp [hbroken] at hdef
    · rw [hm] at hbroken
      rcases hlater k with hend | ⟨hloop, _⟩
      · cases hend.symm.trans hbroken
      · cases hloop.symm.trans hbroken
  refine ⟨⟨r, hs, hquiet, htime, hthread, hexits, hdefined⟩, rfl, fun n => ?_⟩
  exact (hcases n).imp_right fun ⟨_, _, hclock⟩ => ⟨1, hclock⟩

/-- A stop request that waits when nothing else comes is answered: a tick is handled meanwhile, and
then the child exits. -/
def Input.tickedStop : List Input :=
  [.clock 1000000000, .next, .next, .dispatch .timer, .next, .next, .childExit 0 (.exited 0),
    .dispatch .sigchld, .next, .clock 10000000, .next, .next, .next, .next]

theorem requests_answered_stop : ∃ (r : QuietRun) (m : ℕ),
    pending (r.state 0).stack = [.stopProcess ["web"]] ∧ (r.state m).AtRest ∧
      (r.state m).world.answers = [.stopProcess ["web"]] := by
  obtain ⟨s, hreach, hs⟩ := Machine.Reach.exists_of_run
    (p := fun s : Sys => decide (pending s.stack = [.stopProcess ["web"]] ∧ s.world.answers = [] ∧
      (Machine.guardedRun step quietStep s Input.tickedStop).any (fun t => decide t.AtRest) = true))
    (.init (boot_bootSimple ["web"]))
    (show (Machine.run step (bootSimple ["web"])
      [.forking ⟨500, by decide⟩, .next, .request (.stopProcess ["web"]), .next, .next]).any _ =
        true by decide)
  obtain ⟨hpending, hanswers, hrun⟩ := of_decide_eq_true hs
  obtain ⟨r, rfl, _⟩ := exists_quietRun (fun _ _ h => h) hreach hrun
  obtain ⟨m, _, hrest, hm⟩ := requests_answered r 0
  rw [hpending, hanswers] at hm
  exact ⟨r, m, hpending, hrest, hm⟩

/-! ## The end of a shutdown -/

/-- The event loop is stopped, or a handler that stops it has been started. -/
def Sys.ShuttingDown (s : Sys) : Prop := s.ctl.ioStopped = true ∨ .ioStop ∈ s.stack

namespace QuietRun

variable {r : QuietRun}

/-- The loop is stopped. -/
theorem ioStop_leadsTo (rest : List Frame) :
    r.LeadsTo (fun s => s.stack = .ioStop :: rest)
      fun s => s.stack = rest ∧ s.ctl.ioStopped = true := by
  have hexec : r.LeadsTo (On .ioStop rest fun _ _ => True) (After .ioStop rest fun _ _ => True) :=
    exec_leadsTo (fun _ _ _ _ h => h) (fun _ _ _ h => absurd h (by simp [looping]))
      fun _ _ _ _ => ⟨{}, rfl⟩
  refine (hexec.mono (fun _ hs => ⟨hs, trivial⟩) fun _ => id).trans ?_
  rintro n ⟨env, w, c, frames, _, _, hrun, hs⟩
  obtain ⟨_, hctl, rfl⟩ := by simpa [execFrame] using hrun
  exact ⟨n, Nat.le_refl n, hs, by rw [← hctl]⟩

/-- The event loop is stopped, or it will be before it is reached again. -/
def Stopping (stack : List Frame) (s : Sys) : Prop :=
  s.stack = stack ∧ (s.ctl.ioStopped = true ∨
    ∃ above below, stack = above ++ .ioStop :: below ∧ .run ∉ above)

/-- A daemon whose loop is stopped comes to its end. -/
theorem stopping_leadsTo (stack : List Frame) :
    r.LeadsTo (Stopping stack) fun s => s.stack = [] := by
  induction stack with
  | nil => exact .of_imp fun _ hs => hs.1
  | cons frame rest ih =>
      have hnext : r.LeadsTo (fun s => s.stack = rest ∧ s.ctl.ioStopped = true)
          fun s => s.stack = [] := ih.mono (fun _ hs => ⟨hs.1, .inl hs.2⟩) fun _ => id
      rintro n ⟨hs, hstop⟩
      by_cases hframe : frame = .run
      · subst hframe
        have hstopped : (r.state n).ctl.ioStopped = true := by
          rcases hstop with hstop | ⟨above, below, heq, hrun⟩
          · exact hstop
          · cases above with
            | nil => cases heq
            | cons f fs =>
                obtain ⟨rfl, _⟩ := List.cons.inj heq
                exact absurd List.mem_cons_self hrun
        exact ((run_leadsTo rest).trans hnext) n ⟨hs, hstopped⟩
      · rcases hstop with hstop | ⟨above, below, heq, hrun⟩
        · obtain ⟨m, hnm, hm⟩ := ends frame hframe rest n hs
          obtain ⟨k, hmk, hk⟩ := hnext m ⟨hm, r.stopped_mono hnm hstop⟩
          exact ⟨k, Nat.le_trans hnm hmk, hk⟩
        · cases above with
          | nil =>
              obtain ⟨rfl, rfl⟩ := List.cons.inj heq
              exact ((ioStop_leadsTo rest).trans hnext) n hs
          | cons f fs =>
              obtain ⟨rfl, rfl⟩ := List.cons.inj heq
              obtain ⟨_, hrun'⟩ := not_or.mp (List.mem_cons.not.mp hrun)
              obtain ⟨m, hnm, hm⟩ := ends frame hframe _ n hs
              obtain ⟨k, hmk, hk⟩ := ih m ⟨hm, .inr ⟨fs, below, rfl, hrun'⟩⟩
              exact ⟨k, Nat.le_trans hnm hmk, hk⟩

end QuietRun

/-- A handler that stops the event loop is above it. -/
theorem Stage.stopping {s : Sys} (h : Stage s) (hdown : s.ShuttingDown) :
    QuietRun.Stopping s.stack s := by
  refine ⟨rfl, hdown.imp_right fun hin => ?_⟩
  obtain ⟨above, below, heq⟩ := List.append_of_mem hin
  refine ⟨above, below, heq, fun hrun => ?_⟩
  cases h with
  | serving handlers hstack hnone =>
      rw [heq] at hstack
      rcases List.append_eq_append_iff.mp hstack with ⟨as, rfl, _⟩ | ⟨as, rfl, has⟩
      · exact hnone (List.mem_append_left _ hrun)
      · have hloop : .ioStop ∈ eventLoop := has ▸ by simp
        simp [eventLoop] at hloop
  | leaving drops hstack hdrops =>
      have hin' : Frame.run ∈ s.stack := heq ▸ List.mem_append_left _ hrun
      rw [hstack] at hin'
      rcases List.mem_append.mp hin' with hin' | hin'
      · cases hdrops _ hin'
      · simp at hin'
  | closing frames _ hstack hframes =>
      have hin' : Frame.run ∈ s.stack := heq ▸ List.mem_append_left _ hrun
      rw [hstack] at hin'
      rcases List.mem_append.mp hin' with hin' | hin'
      · exact (hframes _ hin').1 rfl
      · simp at hin'
  | ended hstack _ => simp [hstack] at heq

/-- **A shutdown ends.**  Once a shutdown is under way and nothing arrives but ticks and exits, the
daemon reaches its end, its map is empty and every process object has been destroyed; and if no
program was ever started while it had a child and no wait of `kill()` was interrupted, no child is left
behind. -/
theorem shutdown_ends (r : QuietRun) (hdown : (r.state 0).ShuttingDown) : ∃ n,
    (r.state n).stack = [] ∧ (r.state n).world.processMap = [] ∧
      (∀ o, (r.state n).world.objs o = none) ∧
      (Machine.Reach step (fun s i => spawnsAlone s i = true) Boot (r.state 0) →
        (∀ m, spawnsAlone (r.state m) (r.input m) = true) → (r.state n).world.children = []) := by
  obtain ⟨n, _, hs⟩ := QuietRun.stopping_leadsTo _ 0 ((r.stage 0).stopping hdown)
  have hmap := (r.stage n).map_of_ended hs
  have hobjs : ∀ o, (r.state n).world.objs o = none := by
    intro o
    by_contra hsome
    rcases noLeak_reach (r.reach n) with ⟨rest, hbroken⟩ | hleak
    · cases hs.symm.trans hbroken
    · rcases hleak o (Option.isSome_iff_ne_none.mpr hsome) with hmapped | ⟨f, hf, _⟩
      · simp [World.mapped, hmap] at hmapped
      · simp [hs] at hf
  refine ⟨n, hs, hmap, hobjs, fun hreach hfree => ?_⟩
  have hall : ∀ m, (r.state m).world.Accounted := by
    intro m
    induction m with
    | zero => exact accounted_reach hreach
    | succ m ih => exact spawnsAlone_step (r.wf m) ih (hfree m) (r.next m)
  refine List.eq_nil_iff_forall_not_mem.mpr fun c hc => ?_
  obtain ⟨p, hp, _⟩ := (hall n).spawner c hc
  rw [hobjs] at hp
  cases hp

/-- After `SIGTERM` a child that ignores its own `SIGTERM` is waited for, through a tick, until the
deadline has passed; then it is killed. -/
def Input.stubbornShutdown : List Input :=
  [.next, .next, .next, .next, .clock 1000000000, .next, .next, .dispatch .timer, .next, .next,
    .clock 11000000000, .next, .next, .next, .childExit 0 (.signaled 9), .next, .next, .next, .next,
    .next, .next, .next, .next, .next, .next, .next, .next, .next]

theorem shutdown_ends_stubborn : ∃ (r : QuietRun) (n : ℕ),
    (r.state 0).world.children.map (·.pid) = [500] ∧ (r.state n).stack = [] ∧
      (∀ o, (r.state n).world.objs o = none) ∧ (r.state n).world.children = [] := by
  obtain ⟨s, hreach, hs⟩ := Machine.Reach.exists_of_guardedRun
    (p := fun s : Sys => decide (.ioStop ∈ s.stack ∧ s.world.children.map (·.pid) = [500] ∧
      (Machine.guardedRun step (fun s i => quietStep s i && spawnsAlone s i) s
        Input.stubbornShutdown).any (fun t => decide t.AtRest) = true)) (fun _ _ h => h)
    (.init (boot_bootSimple ["web"]))
    (show (Machine.guardedRun step spawnsAlone (bootSimple ["web"])
      [.forking ⟨500, by decide⟩, .next, .dispatch .sigterm]).any _ = true by decide)
  obtain ⟨hstop, hchild, hrun⟩ := of_decide_eq_true hs
  obtain ⟨r, rfl, hguard⟩ := exists_quietRun (fun _ _ h => (Bool.and_eq_true_iff.mp h).1)
    (hreach.mono fun _ _ _ => trivial) hrun
  obtain ⟨n, hend, _, hobjs, hnone⟩ := shutdown_ends r (.inr hstop)
  refine ⟨r, n, hchild, hend, hobjs, hnone hreach fun m => ?_⟩
  rcases hguard m with hstep | ⟨nanos, hclock⟩
  · exact (Bool.and_eq_true_iff.mp hstep).2
  · rw [hclock]
    rfl

end Supervisorcpp
