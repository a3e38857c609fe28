/-
# What handlers in a nested loop leave alone

While `sync_processes` waits for a process to stop, the event loop runs ticks, exits and requests on
top of it. None of them adds, removes or replaces an entry of `process_map_` or changes the
configuration of an object, so what the suspended call knows about the map still holds when it goes
on. Only its own statements, and the destruction of the map at the end, write to the map.

A frame is foreign to the call if it may run in a nested wait. `Agrees` is what two worlds share
when only foreign statements were executed between them; it is what the loops of `sync_processes`
rely on when a wait returns.
-/
import Supervisorcpp.Manager.Reload

namespace Supervisorcpp

/-- `config()` of an object. -/
def World.configOf (w : World) (o : ObjId) : Option ProgramConfig := (w.objs o).map (·.config)

/-- `config()` of an object compares equal to `prog`. -/
def World.Configured (w : World) (o : ObjId) (prog : ProgramConfig) : Prop :=
  ∃ config, w.configOf o = some config ∧ config.Same prog

/-! ## Configurations never change -/

section Configs

variable {L : Limits} {env : Env} {w w' : World} {o : ObjId} {p q : Process}

/-- The configuration of a live object. -/
theorem configOf_eq (h : w.objs o = some p) : w.configOf o = some p.config := by
  simp [World.configOf, h]

/-- The programs an object compares equal to are equal to each other. -/
theorem World.Configured.same {prog prog' : ProgramConfig} (h : w.Configured o prog)
    (h' : w.Configured o prog') : prog'.Same prog := by
  obtain ⟨config, hconfig, hsame⟩ := h
  obtain ⟨config', hconfig', hsame'⟩ := h'
  obtain rfl := Option.some.inj (hconfig.symm.trans hconfig')
  exact hsame'.symm.trans hsame

theorem configured_iff {prog : ProgramConfig} (h : w.objs o = some p) :
    w.Configured o prog ↔ p.config.Same prog := by
  simp [World.Configured, configOf_eq h]

/-- A configuration compares equal to itself. -/
theorem World.Configured.of_eq {prog : ProgramConfig} (h : w.configOf o = some prog) :
    w.Configured o prog :=
  ⟨prog, h, .refl prog⟩

/-- Two configurations that compare equal are one for this purpose. -/
theorem World.Configured.of_same {prog prog' : ProgramConfig} (h : w.Configured o prog)
    (hsame : prog.Same prog') : w.Configured o prog' := by
  obtain ⟨config, hconfig, hprog⟩ := h
  exact ⟨config, hconfig, hprog.trans hsame⟩

/-- Only the configuration matters. -/
theorem World.Configured.congr {prog : ProgramConfig} (h : w.Configured o prog)
    (heq : w'.configOf o = w.configOf o) : w'.Configured o prog := by
  obtain ⟨config, hconfig, hsame⟩ := h
  exact ⟨config, heq.trans hconfig, hsame⟩

/-- Every object of `w'` older than `w` is an object of `w` with the same configuration. -/
def ConfigsFrom (w w' : World) : Prop :=
  ∀ o q, o < w.nextObj → w'.objs o = some q → ∃ p, w.objs o = some p ∧ q.config = p.config

theorem ConfigsFrom.refl (w : World) : ConfigsFrom w w := fun _ q _ hq => ⟨q, hq, rfl⟩

theorem ConfigsFrom.of_objs (h : w'.objs = w.objs) : ConfigsFrom w w' :=
  fun _ q _ hq => ⟨q, h ▸ hq, rfl⟩

theorem ConfigsFrom.setObj {v : World} (hobjs : v.objs = w.objs) (hp : w.objs o = some p)
    (hcfg : q.config = p.config) : ConfigsFrom w (v.setObj o q) := by
  intro o' q' _ hq'
  by_cases heq : o' = o
  · subst heq
    obtain rfl : q = q' := by simpa using hq'
    exact ⟨p, hp, hcfg⟩
  · exact ⟨q', by simpa [heq, hobjs] using hq', rfl⟩

/-- Configurations pass from world to world. -/
theorem ConfigsFrom.trans {v : World} (hle : w.nextObj ≤ v.nextObj) (h : ConfigsFrom w v)
    (h' : ConfigsFrom v w') : ConfigsFrom w w' := by
  intro o q hlt hq
  obtain ⟨p, hp, hcfg⟩ := h' o q (Nat.lt_of_lt_of_le hlt hle) hq
  obtain ⟨p', hp', hcfg'⟩ := h o p hlt hp
  exact ⟨p', hp', hcfg.trans hcfg'⟩

theorem configsFrom_callStart {r : Bool} (h : w.callStart o env = some (w', r)) :
    ConfigsFrom w w' := by
  obtain ⟨p, hp, ⟨_, _, rfl⟩ | ⟨_, _, q, _, hcfg, _, rfl⟩ | ⟨_, _, q, pid, _, _, hcfg, _, rfl⟩⟩ :=
    World.callStart_cases h
  · exact .of_objs rfl
  · exact .setObj rfl hp hcfg
  · exact .setObj rfl hp hcfg

theorem configsFrom_callStop {r : Bool} (h : w.callStop o env = some (w', r)) :
    ConfigsFrom w w' := by
  obtain ⟨p, hp, ⟨_, _, rfl⟩ | ⟨_, _, _, q, _, hcfg, _, _, rfl⟩⟩ := World.callStop_cases h
  · exact .of_objs rfl
  · exact .setObj rfl hp hcfg

theorem configsFrom_callUpdate (h : w.callUpdate o env = some w') : ConfigsFrom w w' := by
  obtain ⟨p, hp, rfl | ⟨_, q, _, hcfg, _, rfl⟩ | ⟨_, _, rfl⟩ | ⟨_, q, _, hcfg, _, rfl⟩ |
    ⟨_, q, pid, _, _, hcfg, _, rfl⟩⟩ := World.callUpdate_cases h
  · exact .refl _
  · exact .setObj rfl hp hcfg
  · exact .of_objs rfl
  · exact .setObj rfl hp hcfg
  · exact .setObj rfl hp hcfg

theorem configsFrom_finishKill (h : w.finishKill o env = some w') : ConfigsFrom w w' := by
  obtain ⟨p, hp, ⟨_, rfl⟩ | ⟨c, _, _, rfl⟩⟩ := World.finishKill_cases h
  · exact .setObj rfl hp (by simp)
  · exact .setObj rfl hp (by simp)

theorem configsFrom_reap (w : World) (c : Child) (status : WaitStatus) :
    ConfigsFrom w (w.reap c status) := by
  unfold World.reap
  dsimp only
  split
  · exact .of_objs rfl
  · split
    · exact .of_objs rfl
    · next hp => exact .setObj rfl hp (by simp)

theorem configsFrom_reapAll (w : World) (zs : List (Child × WaitStatus)) :
    ConfigsFrom w (zs.foldl (fun w z => w.reap z.1 z.2) w) := by
  induction zs generalizing w with
  | nil => exact .refl w
  | cons z zs ih =>
      have hsame := World.SameMap.reap w z.1 z.2
      exact (configsFrom_reap w z.1 z.2).trans (Nat.le_of_eq hsame.nextObj.symm) (ih _)

/-- No statement changes the configuration of an object. -/
theorem Effect.configs (h : Effect L env w w') : ConfigsFrom w w' := by
  induction h with
  | same w => exact .refl w
  | remark _ _ => exact .of_objs rfl
  | start _ _ h => exact configsFrom_callStart h
  | stop _ _ h => exact configsFrom_callStop h
  | update _ _ h => exact configsFrom_callUpdate h
  | kill _ _ _ => exact .of_objs rfl
  | finishKill _ h => exact configsFrom_finishKill h
  | reap _ => exact configsFrom_reapAll _ _
  | @add w config _ =>
      intro o q hlt hq
      have hne : o ≠ w.nextObj := Nat.ne_of_lt hlt
      rw [World.addProcess_objs hne] at hq
      exact ⟨q, hq, rfl⟩
  | leave _ h =>
      obtain ⟨e, _, _, _, rfl⟩ := World.eraseNode_cases h
      exact .of_objs rfl
  | @destroy w o _ _ =>
      intro o' q _ hq
      by_cases heq : o' = o
      · simp [World.destroy, heq] at hq
      · exact ⟨q, by simpa [World.destroy, heq] using hq, rfl⟩
  | trans h _ ih ih' => exact ih.trans h.nextObj_le ih'

theorem Outside.configs (h : Outside w w') : ConfigsFrom w w' := .of_objs h.objs_eq

end Configs

/-! ## Worlds that agree about the map -/

/-- The map, the objects in it and their configurations are the same. -/
structure Agrees (w w' : World) : Prop where
  processMap : w'.processMap = w.processMap
  nextObj : w'.nextObj = w.nextObj
  configs : ∀ e ∈ w.processMap, w'.configOf e.obj = w.configOf e.obj

section Agree

variable {w w' w'' : World}

theorem Agrees.refl (w : World) : Agrees w w := ⟨rfl, rfl, fun _ _ => rfl⟩

theorem Agrees.trans (h : Agrees w w') (h' : Agrees w' w'') : Agrees w w'' where
  processMap := h'.processMap.trans h.processMap
  nextObj := h'.nextObj.trans h.nextObj
  configs := by
    intro e he
    have hcfg := h'.configs e (h.processMap.symm ▸ he)
    exact hcfg.trans (h.configs e he)

/-- An entry that two well-formed worlds share has the configuration it had. -/
theorem ConfigsFrom.configOf_eq (hwf : w.Wf) (hwf' : w'.Wf) (h : ConfigsFrom w w') {e : Entry}
    (he : e ∈ w.processMap) (he' : e ∈ w'.processMap) :
    w'.configOf e.obj = w.configOf e.obj := by
  obtain ⟨p, hp, _⟩ := hwf.live e he
  obtain ⟨q, hq, _⟩ := hwf'.live e he'
  obtain ⟨p', hp', hcfg⟩ := h e.obj q (hwf.objLt _ _ hp) hq
  rw [Supervisorcpp.configOf_eq hq, Supervisorcpp.configOf_eq hp', hcfg]

/-- Two well-formed worlds with one map agree when no configuration changed between them. -/
theorem Agrees.of_configs (hwf : w.Wf) (hwf' : w'.Wf) (hsame : w.SameMap w')
    (h : ConfigsFrom w w') : Agrees w w' where
  processMap := hsame.processMap
  nextObj := hsame.nextObj
  configs := fun _ he => h.configOf_eq hwf hwf' he (hsame.processMap ▸ he)

/-- The environment changes nothing of the map. -/
theorem Outside.agrees (h : Outside w w') : Agrees w w' := by
  have hobjs := h.objs_eq
  refine ⟨by cases h <;> rfl, h.nextObj_eq, ?_⟩
  intro e _
  unfold World.configOf
  rw [hobjs]

end Agree

/-! ## Statements of others -/

/-- A statement that is not one of a `sync_processes` and not the destruction of the map. -/
def Frame.foreign : Frame → Bool
  | .startProcess _ | .removeProcess _ | .addProcess _ | .syncRemove _ _ | .syncAdd _ | .clearMap
  | .waitStop _ _ _ (.erase _) => false
  | _ => true

section Foreign

variable {env : Answers} {w w' : World} {frame : Frame} {rest frames : List Frame} {c c' : Ctl}

/-- Statements of others schedule statements of others, unless a reload begins. -/
theorem foreign_frames (hf : frame.foreign = true) (hreload : frame = .reloadConfig → frames = [])
    (h : execFrame env rest w c frame = some (w', c', frames)) :
    ∀ f ∈ frames, f.foreign = true := by
  cases frame with
  | waitStop o deadline phase next =>
      cases next with
      | erase node => cases hf
      | return_ =>
          cases phase <;> simp only [execFrame, stopProcessReturns] at h <;> grind [Frame.foreign]
  | waitAll deadline phase => cases phase <;> simp only [execFrame] at h <;> grind [Frame.foreign]
  | rpcStopProcess params =>
      obtain ⟨r, hr, h⟩ := Option.map_eq_some_iff.mp h
      obtain ⟨rfl, _, rfl⟩ := by simpa using h
      cases params with
      | nil =>
          obtain ⟨_, hnil⟩ := Prod.mk.inj (Option.some.inj hr)
          simp [← hnil]
      | cons name params =>
          simp only [rpcStopProcess] at hr
          grind [Option.bind_eq_some_iff, Frame.foreign]
  | reloadConfig =>
      rw [hreload rfl]
      simp
  | startProcess name => cases hf
  | removeProcess name => cases hf
  | addProcess config => cases hf
  | syncRemove it progs => cases hf
  | syncAdd progs => cases hf
  | clearMap => cases hf
  | _ => grind [execFrame, Option.map_eq_some_iff, Frame.foreign, releaseProcess]

/-- What is handled in a wait does not change the map. -/
theorem foreign_sameMap (hf : frame.foreign = true)
    (h : execFrame env rest w c frame = some (w', c', frames)) : w.SameMap w' := by
  have hrefl := World.SameMap.refl w
  have hreap := World.SameMap.handleSigchld w
  have hstart : ∀ o r, w.callStart o env.toEnv = some r → w.SameMap r.1 :=
    fun _ _ h => World.SameMap.callStart h
  have hstop : ∀ o r, w.callStop o env.toEnv = some r → w.SameMap r.1 :=
    fun _ _ h => World.SameMap.callStop h
  have hupdate : ∀ o v, w.callUpdate o env.toEnv = some v → w.SameMap v :=
    fun _ _ h => World.SameMap.callUpdate h
  have hforce : ∀ o sender v, w.callKill o sender env.toEnv = some v → w.SameMap v :=
    fun _ _ _ h => World.SameMap.callKill h
  have hkill : ∀ o v, w.finishKill o env.toEnv = some v → w.SameMap v :=
    fun _ _ h => World.SameMap.finishKill h
  cases frame with
  | waitStop o deadline phase next =>
      cases next with
      | erase node => cases hf
      | return_ =>
          cases phase <;> simp only [execFrame, stopProcessReturns] at h <;>
            grind [World.SameMap.note]
  | waitAll deadline phase => cases phase <;> simp only [execFrame] at h <;> grind
  | rpcStartProcess params =>
      obtain ⟨v, hv, h⟩ := Option.map_eq_some_iff.mp h
      obtain ⟨rfl, _, _⟩ := by simpa using h
      cases params <;> simp only [rpcStartProcess] at hv <;>
        grind [Option.bind_eq_some_iff, World.SameMap.note, World.SameMap.trans]
  | rpcStopProcess params =>
      obtain ⟨r, hr, h⟩ := Option.map_eq_some_iff.mp h
      obtain ⟨rfl, _, _⟩ := by simpa using h
      cases params <;> simp only [rpcStopProcess] at hr <;>
        grind [Option.bind_eq_some_iff, World.SameMap.note, World.SameMap.trans]
  | startProcess name => cases hf
  | removeProcess name => cases hf
  | addProcess config => cases hf
  | syncRemove it progs => cases hf
  | syncAdd progs => cases hf
  | clearMap => cases hf
  | _ =>
      grind [execFrame, Option.map_eq_some_iff, releaseProcess, World.SameMap.destroy,
        World.SameMap.note, World.SameMap.trans]

/-- A statement of others leaves the world in agreement about the map. -/
theorem foreign_agrees {s s' : Sys} (hwf : s.Wf) (hwf' : s'.Wf) (hf : frame.foreign = true)
    (hs : s.stack = frame :: rest)
    (h : execFrame env rest s.world s.ctl frame = some (s'.world, s'.ctl, frames)) :
    Agrees s.world s'.world := by
  have heff : Effect {} env.toEnv s.world s'.world := execFrame_effect (hwf.within hs) h
  exact .of_configs hwf.world hwf'.world (foreign_sameMap hf h) heff.configs

/-- What an event begins with is foreign to the call. -/
theorem entry_foreign (h : frame.IsEntry) : frame.foreign = true := by
  cases frame <;> first | rfl | cases h

end Foreign

/-! ## Exceptions -/

/-- The frames with a `catch`. -/
def Frame.catches : Frame → Bool
  | .answer _ | .reloadDone _ | .run => true
  | _ => false

section Unwinding

variable {xs : List Frame}

/-- An exception caught among the upper frames leaves the lower ones alone. -/
theorem unwind_caught (what : String) (ys : List Frame) (hcatch : ∃ f ∈ xs, f.catches = true) :
    ∃ xs', unwind what (xs ++ ys) = xs' ++ ys ∧
      ((∀ f ∈ xs, f.foreign = true) → ∀ f ∈ xs', f.foreign = true) := by
  induction xs with
  | nil => simp at hcatch
  | cons frame xs ih =>
      -- a frame without a `catch` is dropped, or replaced by the end of its `shared_ptr`
      have hrest : frame.catches = false → ∃ xs', unwind what (xs ++ ys) = xs' ++ ys ∧
          ((∀ f ∈ frame :: xs, f.foreign = true) → ∀ f ∈ xs', f.foreign = true) := by
        intro hno
        obtain ⟨f, hmem, hc⟩ := hcatch
        have hbelow : ∃ f ∈ xs, f.catches = true := by
          rcases List.mem_cons.mp hmem with rfl | hmem
          · rw [hno] at hc
            cases hc
          · exact ⟨f, hmem, hc⟩
        obtain ⟨xs', heq, hxs'⟩ := ih hbelow
        exact ⟨xs', heq, fun hf => hxs' (List.forall_mem_cons.mp hf).2⟩
      have hkeep : ∀ o, frame.catches = false →
          ∃ xs', .release o :: unwind what (xs ++ ys) = xs' ++ ys ∧
            ((∀ f ∈ frame :: xs, f.foreign = true) → ∀ f ∈ xs', f.foreign = true) := by
        intro o hno
        obtain ⟨xs', heq, hxs'⟩ := hrest hno
        exact ⟨.release o :: xs', by rw [heq]; rfl,
          fun hf => List.forall_mem_cons.mpr ⟨rfl, hxs' hf⟩⟩
      cases frame with
      | waitStop o deadline phase next => exact hkeep o rfl
      | release o => exact hkeep o rfl
      | answer request =>
          refine ⟨.fault request what :: xs, rfl, fun hf => ?_⟩
          exact List.forall_mem_cons.mpr ⟨rfl, (List.forall_mem_cons.mp hf).2⟩
      | reloadDone newConfig =>
          refine ⟨.reloadFailed :: xs, rfl, fun hf => ?_⟩
          exact List.forall_mem_cons.mpr ⟨rfl, (List.forall_mem_cons.mp hf).2⟩
      | run => exact ⟨xs, rfl, fun hf => (List.forall_mem_cons.mp hf).2⟩
      | _ => exact hrest rfl

/-- An exception that no upper frame catches goes on in the lower ones; of the upper ones only the
references they hold are left to be dropped. -/
theorem unwind_uncaught (what : String) (ys : List Frame) (hno : ∀ f ∈ xs, f.catches = false) :
    ∃ xs', unwind what (xs ++ ys) = xs' ++ unwind what ys ∧ ∀ f ∈ xs', ∃ o, f = .release o := by
  induction xs with
  | nil => exact ⟨[], rfl, List.forall_mem_nil _⟩
  | cons frame xs ih =>
      obtain ⟨hframe, hxs⟩ := List.forall_mem_cons.mp hno
      obtain ⟨xs', heq, hxs'⟩ := ih hxs
      have hkeep : ∀ o, ∃ ws, .release o :: unwind what (xs ++ ys) = ws ++ unwind what ys ∧
          ∀ f ∈ ws, ∃ o, f = .release o := by
        intro o
        exact ⟨.release o :: xs', by rw [heq]; rfl, List.forall_mem_cons.mpr ⟨⟨o, rfl⟩, hxs'⟩⟩
      cases frame with
      | waitStop o deadline phase next => exact hkeep o
      | release o => exact hkeep o
      | answer request => cases hframe
      | reloadDone newConfig => cases hframe
      | run => cases hframe
      | _ => exact ⟨xs', heq, hxs'⟩

end Unwinding

end Supervisorcpp
