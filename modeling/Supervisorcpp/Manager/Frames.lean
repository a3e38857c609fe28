/-
# What one step does to the stack

`Pushed` lists the frames that can take the place of an executed statement, with the circumstances
in which each of them is pushed; `step_cases` divides the steps of the machine into statements,
events and what happens outside the daemon.

An invariant of the frames on the stack is proved in two parts: a frame that stays on the stack
keeps it while the world changes under it, and a frame that is pushed has it to begin with.
Exceptions take frames off the stack and push at most a report of themselves.
-/
import Supervisorcpp.Manager.Effects

namespace Supervisorcpp

/-! ## Frames a statement leaves behind -/

/-- Frames that carry nothing an invariant speaks about. -/
def Frame.IsPlain : Frame → Prop
  | .startAll _ => True
  | .onTimer _ => True
  | .startProcess _ => True
  | .removeProcess _ => True
  | .addProcess _ => True
  | .syncRemove _ _ => True
  | .syncAdd _ => True
  | .reloadDone _ => True
  | .clearMap => True
  | .undefined => True
  | _ => False

/-- The frames that statement `frame` can push when it takes `w` to `w'`. -/
inductive Pushed (env : Env) (w w' : World) : Frame → Frame → Prop
  | plain {frame f : Frame} : f.IsPlain → Pushed env w w' frame f
  | removeWait {name : String} {e : Entry} {p : Process} : w.find name = some e →
      w.objs e.obj = some p → 0 < p.pid → w.callStop e.obj env = some (w', true) →
      Pushed env w w' (.removeProcess name)
        (.waitStop e.obj (deadlineIn w'.now (p.config.stopwaitsecs + 1)) .check (.erase e.node))
  | stopWait {name : String} {params : List String} {e : Entry} {p : Process} :
      w.find name = some e → w.objs e.obj = some p → w.callStop e.obj env = some (w', true) →
      Pushed env w w' (.rpcStopProcess (name :: params))
        (.waitStop e.obj (deadlineIn w'.now (p.config.stopwaitsecs + 1)) .check .return_)
  | stopAnswer {name : String} {params : List String} {e : Entry} {p : Process} :
      w.find name = some e → w.objs e.obj = some p → w.callStop e.obj env = some (w', true) →
      Pushed env w w' (.rpcStopProcess (name :: params)) (.answer (.stopProcess (name :: params)))
  | waitOn {o : ObjId} {deadline : Int} {phase phase' : Phase} {next : AfterStop} :
      Pushed env w w' (.waitStop o deadline phase next) (.waitStop o deadline phase' next)
  | stopAllEmpty : w.processMap = [] → w' = w → Pushed env w w' .stopAll .stopAllDone
  | stopAllBegin : w' = w → Pushed env w w' .stopAll (.stopAllSignal none 0)
  | stopAllStop {after : Option String} {signaled : Nat} {e : Entry} {r : Bool} :
      w.nextEntry after = some e → 0 < w.pidOf e.obj → w.callStop e.obj env = some (w', r) →
      Pushed env w w' (.stopAllSignal after signaled) (.stopAllSignal (some e.name) (signaled + 1))
  | stopAllSkip {after : Option String} {signaled : Nat} {e : Entry} :
      w.nextEntry after = some e → w.pidOf e.obj ≤ 0 → w' = w →
      Pushed env w w' (.stopAllSignal after signaled) (.stopAllSignal (some e.name) signaled)
  | stopAllNone {after : Option String} : w.nextEntry after = none → w' = w →
      Pushed env w w' (.stopAllSignal after 0) .stopAllDone
  | stopAllWait {after : Option String} {signaled : Nat} : w.nextEntry after = none → w' = w →
      Pushed env w w' (.stopAllSignal after signaled)
        (.waitAll (deadlineIn w.now (w.maxWait + 1)) .check)
  | waitAllOn {deadline : Int} {phase phase' : Phase} :
      Pushed env w w' (.waitAll deadline phase) (.waitAll deadline phase')
  | waitAllEnd {deadline : Int} : ¬ (w.hasRunningProcesses = true ∧ w.now < deadline) → w' = w →
      Pushed env w w' (.waitAll deadline .check) (.stopAllKill none)
  | killNext {after after' : Option String} :
      Pushed env w w' (.stopAllKill after) (.stopAllKill after')
  | killWait {after : Option String} {e : Entry} : w.nextEntry after = some e →
      Pushed env w w' (.stopAllKill after) (.killWait e.obj)
  | killEnd {after : Option String} : w' = w → Pushed env w w' (.stopAllKill after) .stopAllDone
  | dropWait {o : ObjId} {deadline : Int} {next : AfterStop} :
      Pushed env w w' (.waitStop o deadline .check next) (.release o)
  | dropMapped {frame : Frame} {o : ObjId} : w.mapped o = true →
      Pushed env w w' frame (.release o)
  | destructorWait {o : ObjId} {p : Process} : w.objs o = some p → w.mapped o = false →
      Pushed env w w' (.release o) (.destructorWait o)

section Pushes

variable {env : Answers} {w w' : World} {frame f : Frame}

/-- What `process_map_.erase(it)` leaves to do: what was to be done, and the release of an object. -/
theorem forall_eraseFrames {P : Frame → Prop} {node : NodeId} {held : List Frame}
    (hheld : ∀ f ∈ held, P f) (hrelease : ∀ o, P (.release o)) (hundefined : P .undefined) :
    ∀ f ∈ (w.eraseFrames node held).2, P f := by
  intro f hf
  unfold World.eraseFrames at hf
  split at hf
  · rcases List.mem_append.mp hf with hf | hf
    · exact hheld f hf
    · obtain rfl := List.mem_singleton.mp hf
      exact hrelease _
  · obtain rfl := List.mem_singleton.mp hf
    exact hundefined

/-- What follows an erase: the frames that were held, and the drop of the object. -/
theorem eraseFrames_pushed {v : World} {node : NodeId} {held : List Frame}
    (hmap : v.processMap = w.processMap)
    (hheld : ∀ f ∈ held, Pushed env.toEnv w w' frame f)
    (hf : f ∈ (v.eraseFrames node held).2) : Pushed env.toEnv w w' frame f := by
  unfold World.eraseFrames at hf
  cases h : v.eraseNode node with
  | none =>
      simp only [h, List.mem_singleton] at hf
      subst hf
      exact .plain trivial
  | some r =>
      obtain ⟨u, o⟩ := r
      simp only [h, List.mem_append, List.mem_singleton] at hf
      rcases hf with hf | rfl
      · exact hheld f hf
      · obtain ⟨e, he, _, ho, _⟩ := World.eraseNode_cases h
        rw [hmap] at he
        exact .dropMapped (World.mapped_iff.mpr ⟨e, he, ho⟩)

theorem rpcStopProcess_pushed {params : List String} {frames : List Frame}
    (h : rpcStopProcess w params env = some (w', frames)) (hf : f ∈ frames) :
    Pushed env.toEnv w w' (.rpcStopProcess params) f := by
  cases params with
  | nil =>
      obtain ⟨_, rfl⟩ := Prod.mk.inj (Option.some.inj h)
      cases hf
  | cons name params =>
      simp only [rpcStopProcess] at h
      cases hfind : w.find name with
      | none =>
          simp only [hfind] at h
          obtain ⟨_, rfl⟩ := Prod.mk.inj (Option.some.inj h)
          cases hf
      | some e =>
          simp only [hfind] at h
          obtain ⟨p, hp, h⟩ := Option.bind_eq_some_iff.mp h
          split at h
          · obtain ⟨_, rfl⟩ := Prod.mk.inj (Option.some.inj h)
            cases hf
          · obtain ⟨⟨v, r⟩, hv, h⟩ := Option.bind_eq_some_iff.mp h
            cases r with
            | true =>
                obtain ⟨rfl, rfl⟩ := Prod.mk.inj (Option.some.inj h)
                simp only [List.mem_cons, List.not_mem_nil, or_false] at hf
                rcases hf with rfl | rfl
                · exact .stopWait hfind hp hv
                · exact .stopAnswer hfind hp hv
            | false =>
                obtain ⟨_, rfl⟩ := Prod.mk.inj (Option.some.inj h)
                cases hf

theorem removeProcess_pushed {name : String} {frames : List Frame}
    (h : removeProcess w name env = some (w', frames)) (hf : f ∈ frames) :
    Pushed env.toEnv w w' (.removeProcess name) f := by
  unfold removeProcess at h
  cases hfind : w.find name with
  | none =>
      simp only [hfind] at h
      obtain ⟨_, rfl⟩ := Prod.mk.inj (Option.some.inj h)
      cases hf
  | some e =>
      simp only [hfind] at h
      obtain ⟨p, hp, h⟩ := Option.bind_eq_some_iff.mp h
      split at h
      · next hpos =>
          obtain ⟨⟨v, r⟩, hv, h⟩ := Option.map_eq_some_iff.mp h
          cases r with
          | true =>
              obtain ⟨rfl, rfl⟩ := Prod.mk.inj h
              obtain rfl := List.mem_singleton.mp hf
              exact .removeWait hfind hp hpos hv
          | false =>
              have hframes : (v.eraseFrames e.node []).2 = frames := congrArg Prod.snd h
              rw [← hframes] at hf
              exact eraseFrames_pushed (World.SameMap.callStop hv).processMap (by simp) hf
      · have hframes : (w.eraseFrames e.node []).2 = frames :=
          congrArg Prod.snd (Option.some.inj h)
        rw [← hframes] at hf
        exact eraseFrames_pushed rfl (by simp) hf

theorem stopProcessReturns_pushed {o : ObjId} {deadline : Int} {next : AfterStop}
    (hf : f ∈ (stopProcessReturns w o next).2) :
    Pushed env.toEnv w w' (.waitStop o deadline .check next) f := by
  cases next with
  | return_ =>
      obtain rfl := List.mem_singleton.mp hf
      exact .dropWait
  | erase node =>
      refine eraseFrames_pushed (World.note_processMap (w := w) _) ?_ hf
      intro f hf
      obtain rfl := List.mem_singleton.mp hf
      exact .dropWait

theorem releaseProcess_pushed {o : ObjId} {rest frames : List Frame}
    (h : releaseProcess w o rest env = some (w', frames)) (hf : f ∈ frames) :
    Pushed env.toEnv w w' (.release o) f := by
  unfold releaseProcess at h
  split at h
  · obtain ⟨_, rfl⟩ := Prod.mk.inj (Option.some.inj h)
    cases hf
  · next hlast =>
      have hunmapped : w.mapped o = false := by
        cases hm : w.mapped o <;> simp_all
      cases hp : w.objs o with
      | none =>
          simp only [hp] at h
          obtain ⟨_, rfl⟩ := Prod.mk.inj (Option.some.inj h)
          cases hf
      | some p =>
          simp only [hp] at h
          split at h
          · obtain ⟨v, hv, h⟩ := Option.map_eq_some_iff.mp h
            obtain ⟨_, rfl⟩ := Prod.mk.inj h
            obtain rfl := List.mem_singleton.mp hf
            exact .destructorWait hp hunmapped
          · obtain ⟨_, rfl⟩ := Prod.mk.inj (Option.some.inj h)
            cases hf

/-! ## Statement by statement -/

variable {rest frames : List Frame} {c c' : Ctl}

/-- A statement that pushes nothing. -/
theorem Pushed.none {v : World} {c₁ : Ctl} (h : (v, c₁, []) = (w', c', frames))
    (hf : f ∈ frames) : Pushed env.toEnv w w' frame f := by
  obtain ⟨_, _, rfl⟩ := by simpa using h
  cases hf

/-- A statement that pushes one frame. -/
theorem only_pushed {v : World} {c₁ : Ctl} {g : Frame}
    (h : (v, c₁, [g]) = (w', c', frames)) (hf : f ∈ frames) : f = g := by
  obtain ⟨_, _, rfl⟩ := by simpa using h
  exact List.mem_singleton.mp hf

theorem startAll_pushed {after : Option String}
    (h : execFrame env rest w c (.startAll after) = some (w', c', frames)) (hf : f ∈ frames) :
    Pushed env.toEnv w w' (.startAll after) f := by
  simp only [execFrame] at h
  split at h
  · exact .none (Option.some.inj h) hf
  · obtain ⟨r, _, h⟩ := Option.map_eq_some_iff.mp h
    obtain rfl := only_pushed h hf
    exact .plain trivial

theorem onTimer_pushed {after : Option String}
    (h : execFrame env rest w c (.onTimer after) = some (w', c', frames)) (hf : f ∈ frames) :
    Pushed env.toEnv w w' (.onTimer after) f := by
  simp only [execFrame] at h
  split at h
  · exact .none (Option.some.inj h) hf
  · obtain ⟨r, _, h⟩ := Option.map_eq_some_iff.mp h
    obtain rfl := only_pushed h hf
    exact .plain trivial

theorem stopAllSignal_pushed {after : Option String} {signaled : Nat}
    (h : execFrame env rest w c (.stopAllSignal after signaled) = some (w', c', frames))
    (hf : f ∈ frames) :
    Pushed env.toEnv w w' (.stopAllSignal after signaled) f := by
  simp only [execFrame] at h
  cases he : w.nextEntry after with
  | none =>
      simp only [he] at h
      split at h
      · next hzero =>
          obtain ⟨rfl, _, rfl⟩ := by simpa using h
          obtain rfl := List.mem_singleton.mp hf
          subst hzero
          exact .stopAllNone he rfl
      · obtain ⟨rfl, _, rfl⟩ := by simpa using h
        obtain rfl := List.mem_singleton.mp hf
        exact .stopAllWait he rfl
  | some e =>
      simp only [he] at h
      split at h
      · next hpos =>
          obtain ⟨⟨v, r⟩, hv, h⟩ := Option.map_eq_some_iff.mp h
          obtain ⟨rfl, _, rfl⟩ := by simpa using h
          obtain rfl := List.mem_singleton.mp hf
          exact .stopAllStop he hpos hv
      · next hpos =>
          obtain ⟨rfl, _, rfl⟩ := by simpa using h
          obtain rfl := List.mem_singleton.mp hf
          exact .stopAllSkip he (by omega) rfl

theorem waitAll_pushed {deadline : Int} {phase : Phase}
    (h : execFrame env rest w c (.waitAll deadline phase) = some (w', c', frames))
    (hf : f ∈ frames) :
    Pushed env.toEnv w w' (.waitAll deadline phase) f := by
  cases phase with
  | check =>
      simp only [execFrame] at h
      split at h
      · split at h
        · obtain rfl := only_pushed (Option.some.inj h) hf
          exact .waitAllOn
        · obtain rfl := only_pushed (Option.some.inj h) hf
          exact .waitAllOn
      · next hend =>
          obtain ⟨rfl, _, rfl⟩ := by simpa using h
          obtain rfl := List.mem_singleton.mp hf
          exact .waitAllEnd (by simpa using hend) rfl
  | runFor until_ =>
      simp only [execFrame] at h
      split at h
      · obtain rfl := only_pushed (Option.some.inj h) hf
        exact .waitAllOn
      · cases h

theorem stopAllKill_pushed {after : Option String}
    (h : execFrame env rest w c (.stopAllKill after) = some (w', c', frames)) (hf : f ∈ frames) :
    Pushed env.toEnv w w' (.stopAllKill after) f := by
  simp only [execFrame] at h
  cases he : w.nextEntry after with
  | none =>
      simp only [he] at h
      obtain ⟨rfl, _, rfl⟩ := by simpa using h
      obtain rfl := List.mem_singleton.mp hf
      exact .killEnd rfl
  | some e =>
      simp only [he] at h
      split at h
      · obtain ⟨v, hv, h⟩ := Option.map_eq_some_iff.mp h
        obtain ⟨_, _, rfl⟩ := by simpa using h
        simp only [List.mem_cons, List.not_mem_nil, or_false] at hf
        rcases hf with rfl | rfl
        · exact .killWait he
        · exact .killNext
      · obtain rfl := only_pushed (Option.some.inj h) hf
        exact .killNext

theorem waitStop_pushed {o : ObjId} {deadline : Int} {phase : Phase} {next : AfterStop}
    (h : execFrame env rest w c (.waitStop o deadline phase next) = some (w', c', frames))
    (hf : f ∈ frames) :
    Pushed env.toEnv w w' (.waitStop o deadline phase next) f := by
  cases phase with
  | check =>
      simp only [execFrame] at h
      split at h
      · split at h
        · obtain rfl := only_pushed (Option.some.inj h) hf
          exact .waitOn
        · obtain rfl := only_pushed (Option.some.inj h) hf
          exact .waitOn
      · obtain ⟨_, _, rfl⟩ := by simpa using h
        exact stopProcessReturns_pushed hf
  | runFor until_ =>
      simp only [execFrame] at h
      split at h
      · obtain rfl := only_pushed (Option.some.inj h) hf
        exact .waitOn
      · cases h

theorem startProcess_pushed {name : String}
    (h : execFrame env rest w c (.startProcess name) = some (w', c', frames)) (hf : f ∈ frames) :
    Pushed env.toEnv w w' (.startProcess name) f := by
  simp only [execFrame] at h
  split at h
  · exact .none (Option.some.inj h) hf
  · obtain ⟨r, _, h⟩ := Option.map_eq_some_iff.mp h
    exact .none h hf

theorem syncRemove_pushed {it : Option NodeId} {newPrograms : List ProgramConfig}
    (h : execFrame env rest w c (.syncRemove it newPrograms) = some (w', c', frames))
    (hf : f ∈ frames) :
    Pushed env.toEnv w w' (.syncRemove it newPrograms) f := by
  cases it with
  | none =>
      obtain ⟨_, _, rfl⟩ := by simpa [execFrame] using h
      cases hf
  | some it =>
      simp only [execFrame] at h
      split at h
      · obtain rfl := only_pushed (Option.some.inj h) hf
        exact .plain trivial
      · split at h
        · obtain rfl := only_pushed (Option.some.inj h) hf
          exact .plain trivial
        · obtain ⟨_, _, rfl⟩ := by simpa using h
          simp only [List.mem_cons, List.not_mem_nil, or_false] at hf
          rcases hf with rfl | rfl <;> exact .plain trivial

theorem syncAdd_pushed {newPrograms : List ProgramConfig}
    (h : execFrame env rest w c (.syncAdd newPrograms) = some (w', c', frames)) (hf : f ∈ frames) :
    Pushed env.toEnv w w' (.syncAdd newPrograms) f := by
  cases newPrograms with
  | nil =>
      obtain ⟨_, _, rfl⟩ := by simpa [execFrame] using h
      cases hf
  | cons prog progs =>
      simp only [execFrame] at h
      split at h
      · obtain ⟨_, _, rfl⟩ := by simpa using h
        simp only [List.mem_cons, List.not_mem_nil, or_false] at hf
        rcases hf with rfl | rfl | rfl <;> exact .plain trivial
      · obtain ⟨p, _, h⟩ := Option.map_eq_some_iff.mp h
        split at h
        · obtain rfl := only_pushed h hf
          exact .plain trivial
        · obtain ⟨_, _, rfl⟩ := by simpa using h
          simp only [List.mem_cons, List.not_mem_nil, or_false] at hf
          rcases hf with rfl | rfl | rfl | rfl <;> exact .plain trivial

theorem reloadConfig_pushed
    (h : execFrame env rest w c .reloadConfig = some (w', c', frames)) (hf : f ∈ frames) :
    Pushed env.toEnv w w' .reloadConfig f := by
  simp only [execFrame] at h
  split at h
  · exact .none (Option.some.inj h) hf
  · split at h
    · exact .none (Option.some.inj h) hf
    · split at h
      · exact .none (Option.some.inj h) hf
      · obtain ⟨_, _, rfl⟩ := by simpa using h
        simp only [List.mem_cons, List.not_mem_nil, or_false] at hf
        rcases hf with rfl | rfl | rfl <;> exact .plain trivial

theorem clearMap_pushed
    (h : execFrame env rest w c .clearMap = some (w', c', frames)) (hf : f ∈ frames) :
    Pushed env.toEnv w w' .clearMap f := by
  simp only [execFrame] at h
  split at h
  · exact .none (Option.some.inj h) hf
  · obtain ⟨_, _, rfl⟩ := by simpa using h
    rcases List.mem_append.mp hf with hf | hf
    · exact eraseFrames_pushed rfl (by simp) hf
    · obtain rfl := List.mem_singleton.mp hf
      exact .plain trivial

/-- Every frame a statement pushes is one `Pushed` lists. -/
theorem execFrame_pushed
    (h : execFrame env rest w c frame = some (w', c', frames)) (hf : f ∈ frames) :
    Pushed env.toEnv w w' frame f := by
  cases frame with
  | startAll after => exact startAll_pushed h hf
  | onTimer after => exact onTimer_pushed h hf
  | stopAll =>
      simp only [execFrame] at h
      split at h
      · next hempty =>
          obtain ⟨rfl, _, rfl⟩ := by simpa using h
          obtain rfl := List.mem_singleton.mp hf
          exact .stopAllEmpty (List.isEmpty_iff.mp hempty) rfl
      · obtain ⟨rfl, _, rfl⟩ := by simpa using h
        obtain rfl := List.mem_singleton.mp hf
        exact .stopAllBegin rfl
  | stopAllSignal after signaled => exact stopAllSignal_pushed h hf
  | waitAll deadline phase => exact waitAll_pushed h hf
  | stopAllKill after => exact stopAllKill_pushed h hf
  | waitStop o deadline phase next => exact waitStop_pushed h hf
  | killWait o =>
      obtain ⟨v, _, h⟩ := Option.map_eq_some_iff.mp h
      exact .none h hf
  | destructorWait o =>
      obtain ⟨v, _, h⟩ := Option.map_eq_some_iff.mp h
      exact .none h hf
  | release o =>
      obtain ⟨⟨v, fs⟩, hv, h⟩ := Option.map_eq_some_iff.mp h
      obtain ⟨rfl, _, rfl⟩ := by simpa using h
      exact releaseProcess_pushed hv hf
  | startProcess name => exact startProcess_pushed h hf
  | removeProcess name =>
      obtain ⟨⟨v, fs⟩, hv, h⟩ := Option.map_eq_some_iff.mp h
      obtain ⟨rfl, _, rfl⟩ := by simpa using h
      exact removeProcess_pushed hv hf
  | addProcess config =>
      obtain ⟨_, _, rfl⟩ := by simpa [execFrame] using h
      cases hfind : w.find config.name with
      | none => simp [World.addProcess, hfind] at hf
      | some e =>
          obtain rfl : f = .release e.obj := by simpa [World.addProcess, hfind] using hf
          exact .dropMapped (World.mapped_iff.mpr ⟨e, (World.find_mem hfind).1, rfl⟩)
  | syncRemove it newPrograms => exact syncRemove_pushed h hf
  | syncAdd newPrograms => exact syncAdd_pushed h hf
  | reloadConfig => exact reloadConfig_pushed h hf
  | clearMap => exact clearMap_pushed h hf
  | rpcStartProcess params =>
      obtain ⟨v, _, h⟩ := Option.map_eq_some_iff.mp h
      exact .none h hf
  | rpcStopProcess params =>
      obtain ⟨⟨v, fs⟩, hv, h⟩ := Option.map_eq_some_iff.mp h
      obtain ⟨rfl, _, rfl⟩ := by simpa using h
      exact rpcStopProcess_pushed hv hf
  | run =>
      simp only [execFrame] at h
      split at h
      · exact .none (Option.some.inj h) hf
      · cases h
  | undefined => cases h
  | _ =>
      obtain ⟨_, _, rfl⟩ := by simpa [execFrame] using h
      cases hf

end Pushes

/-! ## Steps of the machine -/

/-- What happens to the world without the daemon: a child exits, time passes, the kernel will hand
out exited children in another order. -/
inductive Outside : World → World → Prop
  | childExit {w : World} (cid : Nat) (status : WaitStatus) :
      (∃ c ∈ w.children, c.cid = cid ∧ c.status = none) →
      Outside w { w with children := w.children.map (Child.exit cid status) }
  | clock {w : World} (nanos : Nat) : Outside w { w with now := w.now + nanos }
  | reorder {w : World} {children : List Child} : children.Perm w.children →
      Outside w { w with children := children }

/-- A step executes a statement, dispatches an event, or happens outside the daemon. -/
theorem step_cases {s s' : Sys} {i : Input} (h : step s i = some s') :
    (∃ env frame rest frames, i = .exec env ∧ s.stack = frame :: rest ∧
        s'.stack = frames ++ rest ∧
        execFrame env rest s.world s.ctl frame = some (s'.world, s'.ctl, frames)) ∨
    (∃ ready, i = .dispatch ready ∧ s'.world = s.world ∧
        looping s.world.now s.stack = true ∧ s.ctl.ioStopped = false ∧
        dispatch s.world.now s.ctl s.stack ready = some (s'.ctl, s'.stack)) ∨
    (((∀ env, i ≠ .exec env) ∧ ∀ ready, i ≠ .dispatch ready) ∧ Outside s.world s'.world ∧
        s'.stack = s.stack ∧ s'.ctl = s.ctl) := by
  cases i with
  | exec env =>
      left
      simp only [step] at h
      cases hs : s.stack with
      | nil => simp [hs] at h
      | cons frame rest =>
          simp only [hs] at h
          obtain ⟨⟨w, c, frames⟩, hr, rfl⟩ := Option.map_eq_some_iff.mp h
          exact ⟨env, frame, rest, frames, rfl, rfl, rfl, hr⟩
  | dispatch ready =>
      right; left
      simp only [step] at h
      split at h
      · next hloop =>
          simp only [Bool.and_eq_true, Bool.not_eq_true'] at hloop
          obtain ⟨⟨c, stack⟩, hr, rfl⟩ := Option.map_eq_some_iff.mp h
          exact ⟨ready, rfl, rfl, hloop.1, hloop.2, hr⟩
      · cases h
  | childExit cid status =>
      right; right
      simp only [step] at h
      split at h
      · next hc =>
          obtain rfl := Option.some.inj h
          refine ⟨⟨nofun, nofun⟩, .childExit cid status ?_, rfl, rfl⟩
          simpa using hc
      · cases h
  | clock nanos =>
      right; right
      obtain rfl := Option.some.inj h
      exact ⟨⟨nofun, nofun⟩, .clock nanos, rfl, rfl⟩
  | reorder children =>
      right; right
      simp only [step] at h
      split at h
      · next hperm =>
          obtain rfl := Option.some.inj h
          exact ⟨⟨nofun, nofun⟩, .reorder (List.isPerm_iff.mp hperm), rfl, rfl⟩
      · cases h

/-- The frames an event pushes. -/
def Frame.IsEntry : Frame → Prop
  | .handleSigchld => True
  | .onTimer none => True
  | .rpcStartProcess _ => True
  | .rpcStopProcess _ => True
  | .startAll none => True
  | .stopAll => True
  | .answer (.stopProcess _) => False
  | .answer _ => True
  | .reloadConfig => True
  | .rearmSighup => True
  | .ioStop => True
  | _ => False

/-- An event pushes its handler, or unwinds the stack. -/
theorem dispatch_stack {now : Int} {c c' : Ctl} {stack stack' : List Frame} {ready : Ready}
    (h : dispatch now c stack ready = some (c', stack')) :
    (∃ pushed, stack' = pushed ++ stack ∧ (∀ f ∈ pushed, f.IsEntry) ∧
        ∀ what, ready ≠ .throwingRead what) ∨
      ∃ what, stack' = unwind what stack ∧ ready = .throwingRead what := by
  cases ready with
  | sigchld =>
      left
      obtain ⟨_, rfl⟩ := Prod.mk.inj (Option.some.inj h)
      exact ⟨[.handleSigchld], rfl, by simp [Frame.IsEntry], nofun⟩
  | timer =>
      left
      simp only [dispatch] at h
      split at h
      · obtain ⟨_, rfl⟩ := Prod.mk.inj (Option.some.inj h)
        exact ⟨[.onTimer none], rfl, by simp [Frame.IsEntry], nofun⟩
      · cases h
  | rpc request =>
      left
      simp only [dispatch] at h
      split at h
      · obtain ⟨_, rfl⟩ := Prod.mk.inj (Option.some.inj h)
        refine ⟨requestFrames request, rfl, ?_, nofun⟩
        cases request <;> simp [requestFrames, Frame.IsEntry]
      · cases h
  | posted =>
      left
      simp only [dispatch] at h
      split at h
      · obtain ⟨_, rfl⟩ := Prod.mk.inj (Option.some.inj h)
        exact ⟨[.stopAll, .ioStop], rfl, by simp [Frame.IsEntry], nofun⟩
      · cases h
  | sigterm =>
      left
      simp only [dispatch] at h
      split at h
      · obtain ⟨_, rfl⟩ := Prod.mk.inj (Option.some.inj h)
        exact ⟨[.stopAll, .ioStop], rfl, by simp [Frame.IsEntry], nofun⟩
      · cases h
  | sighup =>
      left
      simp only [dispatch] at h
      split at h
      · obtain ⟨_, rfl⟩ := Prod.mk.inj (Option.some.inj h)
        exact ⟨[.reloadConfig, .rearmSighup], rfl, by simp [Frame.IsEntry], nofun⟩
      · cases h
  | throwingRead what =>
      right
      simp only [dispatch] at h
      split at h
      · obtain ⟨_, rfl⟩ := Prod.mk.inj (Option.some.inj h)
        exact ⟨what, rfl, rfl⟩
      · cases h

/-- What unwinding can leave on the stack: what was there before, the dropping of a reference that
a wait held, or a report of the exception. -/
def Unwound (what : String) (stack : List Frame) (f : Frame) : Prop :=
  f ∈ stack ∨
    (∃ o deadline phase next, f = .release o ∧ .waitStop o deadline phase next ∈ stack) ∨
    (∃ request, f = .fault request what ∧ .answer request ∈ stack) ∨ f = .reloadFailed

theorem Unwound.cons {what : String} {stack : List Frame} {f : Frame} (frame : Frame)
    (h : Unwound what stack f) : Unwound what (frame :: stack) f := by
  rcases h with h | ⟨o, deadline, phase, next, rfl, h⟩ | ⟨request, rfl, h⟩ | rfl
  · exact .inl (List.mem_cons_of_mem _ h)
  · exact .inr (.inl ⟨o, deadline, phase, next, rfl, List.mem_cons_of_mem _ h⟩)
  · exact .inr (.inr (.inl ⟨request, rfl, List.mem_cons_of_mem _ h⟩))
  · exact .inr (.inr (.inr rfl))

/-- A frame that is left by an exception was on the stack, or reports the exception. -/
theorem unwound_of_mem {what : String} {stack : List Frame} {f : Frame}
    (h : f ∈ unwind what stack) : Unwound what stack f := by
  induction stack with
  | nil => cases h
  | cons frame rest ih =>
      cases frame with
      | waitStop o deadline phase next =>
          rcases List.mem_cons.mp h with rfl | h
          · exact .inr (.inl ⟨o, deadline, phase, next, rfl, List.mem_cons_self⟩)
          · exact (ih h).cons _
      | release o =>
          rcases List.mem_cons.mp h with rfl | h
          · exact .inl List.mem_cons_self
          · exact (ih h).cons _
      | answer request =>
          rcases List.mem_cons.mp h with rfl | h
          · exact .inr (.inr (.inl ⟨request, rfl, List.mem_cons_self⟩))
          · exact .inl (List.mem_cons_of_mem _ h)
      | reloadDone config =>
          rcases List.mem_cons.mp h with rfl | h
          · exact .inr (.inr (.inr rfl))
          · exact .inl (List.mem_cons_of_mem _ h)
      | run => exact .inl (List.mem_cons_of_mem _ h)
      | _ => exact (ih h).cons _

/-- **The rule for invariants of the frames on the stack.**  A property of a frame and the world
holds of every frame after a step if the frames already there keep it, and the frames that
statements, events and exceptions put on the stack have it. -/
theorem step_frames {P : World → Frame → Prop} {s s' : Sys} {i : Input}
    (h : step s i = some s') (hall : ∀ f ∈ s.stack, P s.world f)
    (hkeep : ∀ f ∈ s.stack, P s.world f → P s'.world f)
    (hpush : ∀ env frame rest f, i = .exec env → s.stack = frame :: rest →
      Pushed env.toEnv s.world s'.world frame f → P s'.world f)
    (hentry : ∀ f : Frame, f.IsEntry → P s.world f)
    (hunwind : ∀ what f, Unwound what s.stack f → P s.world f) :
    ∀ f ∈ s'.stack, P s'.world f := by
  intro f hf
  rcases step_cases h with ⟨env, frame, rest, frames, rfl, hs, hs', hexec⟩ |
      ⟨ready, rfl, hw, _, _, hdisp⟩ | ⟨_, _, hs', _⟩
  · rw [hs'] at hf
    rcases List.mem_append.mp hf with hf | hf
    · exact hpush env frame rest f rfl hs (execFrame_pushed hexec hf)
    · have hin : f ∈ s.stack := by
        rw [hs]
        exact List.mem_cons_of_mem _ hf
      exact hkeep f hin (hall f hin)
  · rw [hw]
    rcases dispatch_stack hdisp with ⟨pushed, hs', hpushed, _⟩ | ⟨what, hs', _⟩
    · rw [hs'] at hf
      rcases List.mem_append.mp hf with hf | hf
      · exact hentry f (hpushed f hf)
      · exact hall f hf
    · rw [hs'] at hf
      exact hunwind what f (unwound_of_mem hf)
  · rw [hs'] at hf
    exact hkeep f hf (hall f hf)

end Supervisorcpp
