/-
# At most one child for each program

`Process::start` refuses only in `RUNNING` and `STARTING`. In `STOPPING`, and in `BACKOFF` or
`FATAL` after a start out of `STOPPING` has failed, the object still has a pid, and so may an object
of the same name that a reload has erased while an outer `stop_process` keeps it alive. A spawn in
such a state is a second child of the program. `Process::kill` forgets its child when a signal ends
its `waitpid` early, and a later spawn is a second child as well. In a run without either, every
unreaped child is the child its spawner knows, and no program has two.

The condition says two things of the state before a step: who spawns has a name under which no live
object has a pid, and whose `waitpid` is next is not interrupted before the child has exited. The
property is about the kernel's table and the names, not about the objects.
-/
import Supervisorcpp.Manager.Invariant

namespace Supervisorcpp

/-! ## The property and the condition -/

namespace World

/-- Each program has at most one child that has not been reaped. -/
def AtMostOneChild (w : World) : Prop :=
  ∀ c ∈ w.children, ∀ c' ∈ w.children, c.name = c'.name → c = c'

instance (w : World) : Decidable w.AtMostOneChild :=
  inferInstanceAs (Decidable (∀ c ∈ w.children, ∀ c' ∈ w.children, c.name = c'.name → c = c'))

/-- No live `Process` object with the name of `o` has a pid. -/
def nameFree (w : World) (o : ObjId) : Bool :=
  (List.range w.nextObj).all fun o' =>
    match w.objs o, w.objs o' with
    | some p, some q => decide (q.config.name = p.config.name → q.pid ≤ 0)
    | _, _ => true

end World

/-- The statement about to be executed spawns only for a program whose objects have no pid. -/
def spawnsFree (s : Sys) (i : Input) : Bool :=
  match i, s.stack with
  | .exec env, frame :: _ => (spawnTarget env.toEnv s.world frame).all s.world.nameFree
  | _, _ => true

/-- The statement about to be executed is not a `waitpid` of `kill()` that is interrupted before its
child has exited. -/
def waitsOut (s : Sys) (i : Input) : Bool :=
  match i, s.stack with
  | .exec env, frame :: _ => frame.blocksOn.all fun o => !s.world.waitCut o env.toEnv
  | _, _ => true

/-- What a step must avoid for the children to stay accounted for. -/
def spawnsAlone (s : Sys) (i : Input) : Bool := spawnsFree s i && waitsOut s i

/-! ## The invariant -/

namespace World

variable {w w' : World} {o o' : ObjId} {p q : Process}

/-- No object of the name has a pid. -/
theorem pid_of_nameFree (h : w.nameFree o = true) (hwf : w.Wf) (hp : w.objs o = some p)
    (hq : w.objs o' = some q) (hname : q.config.name = p.config.name) : q.pid ≤ 0 := by
  have hlt : o' ∈ List.range w.nextObj := List.mem_range.mpr (hwf.objLt o' q hq)
  have hfree := List.all_eq_true.mp h o' hlt
  simp only [hp, hq, decide_eq_true_eq] at hfree
  exact hfree hname

/-- Every unreaped child is known to the object that spawned it. -/
structure Accounted (w : World) : Prop where
  spawner : ∀ c ∈ w.children, ∃ p, w.objs c.obj = some p ∧ p.pid = c.pid ∧ p.config.name = c.name
  single : w.AtMostOneChild

namespace Accounted

theorem note (h : w.Accounted) (ev : Event) : (w.note ev).Accounted := { h with }

theorem setObj (h : w.Accounted) (hp : w.objs o = some p) (hpid : q.pid = p.pid)
    (hcfg : q.config = p.config) : (w.setObj o q).Accounted where
  spawner := by
    intro c hc
    obtain ⟨p', hp', hpid', hname⟩ := h.spawner c hc
    by_cases heq : c.obj = o
    · rw [heq] at hp'
      obtain rfl : p = p' := Option.some.inj (hp.symm.trans hp')
      exact ⟨q, by simp [heq], hpid.trans hpid', hcfg ▸ hname⟩
    · exact ⟨p', by simpa [heq] using hp', hpid', hname⟩
  single := h.single

/-- An object all of whose children are gone may be written with any pid. -/
theorem setObj_childless (h : w.Accounted) (hnone : ∀ c ∈ w.children, c.obj ≠ o) (q : Process) :
    (w.setObj o q).Accounted where
  spawner := by
    intro c hc
    obtain ⟨p', hp', hrest⟩ := h.spawner c hc
    exact ⟨p', by simpa [hnone c hc] using hp', hrest⟩
  single := h.single

theorem eraseChild (h : w.Accounted) (c : Child) :
    { w with children := w.children.erase c }.Accounted where
  spawner := fun c' hc' => h.spawner c' (List.mem_of_mem_erase hc')
  single := fun a ha b hb => h.single a (List.mem_of_mem_erase ha) b (List.mem_of_mem_erase hb)

/-- A fork for an object whose name is free. -/
theorem fork (h : w.Accounted) (hwf : w.Wf) (hp : w.objs o = some p) (hfree : w.nameFree o = true)
    {c : Child} {cause : Cause} (hobj : c.obj = o) (hname : c.name = p.config.name)
    (hpid : q.pid = c.pid) (hcfg : q.config = p.config) :
    ((w.addChild c cause).setObj o q).Accounted where
  spawner := by
    intro c' hc'
    rcases List.mem_cons.mp hc' with rfl | hc'
    · exact ⟨q, by simp [hobj], hpid, by rw [hcfg, hname]⟩
    · obtain ⟨p', hp', hpid', hname'⟩ := h.spawner c' hc'
      -- the forking object itself has no pid, so it has no child yet
      have hne : c'.obj ≠ o := by
        intro heq
        rw [heq] at hp'
        have hle : p'.pid ≤ 0 := by
          obtain rfl : p = p' := Option.some.inj (hp.symm.trans hp')
          exact pid_of_nameFree hfree hwf hp hp rfl
        have hpos := hwf.pidPos c' hc'
        omega
      exact ⟨p', by simpa [hne] using hp', hpid', hname'⟩
  single := by
    -- a child that already has the name contradicts the freeness of the name
    have hnew : ∀ c' ∈ w.children, c'.name ≠ c.name := by
      intro c' hc' heq
      obtain ⟨p', hp', hpid', hname'⟩ := h.spawner c' hc'
      have hle : p'.pid ≤ 0 :=
        pid_of_nameFree hfree hwf hp hp' (by rw [hname', heq, hname])
      have hpos := hwf.pidPos c' hc'
      omega
    intro a ha b hb heq
    rcases List.mem_cons.mp ha with rfl | ha' <;> rcases List.mem_cons.mp hb with rfl | hb'
    · rfl
    · exact absurd heq.symm (hnew b hb')
    · exact absurd heq (hnew a ha')
    · exact h.single a ha' b hb' heq

/-- The child with the pid of `o` is gone, and `o` is told. -/
theorem lose (h : w.Accounted) (hwf : w.Wf) (hp : w.objs o = some p) {c : Child}
    (hc : c ∈ w.children) (hpid : p.pid = c.pid) (q : Process) :
    ({ w with children := w.children.erase c }.setObj o q).Accounted := by
  refine (h.eraseChild c).setObj_childless ?_ q
  intro c' hc' hobj
  obtain ⟨hin, hne⟩ := mem_eraseChild hwf hc'
  obtain ⟨p', hp', hpid', _⟩ := h.spawner c' hin
  rw [hobj] at hp'
  obtain rfl : p = p' := Option.some.inj (hp.symm.trans hp')
  exact hne (hwf.child_ext hin hc (by omega))

theorem reap (h : w.Accounted) (hwf : w.Wf) {c : Child} (hc : c ∈ w.children)
    (status : WaitStatus) : (w.reap c status).Accounted := by
  rcases reap_cases hwf c status with ⟨_, heq⟩ | ⟨e, _, p, hp, hpid, heq⟩
  · rw [heq]
    exact h.eraseChild c
  · rw [heq]
    exact (h.lose hwf hp hc hpid _).note _

end Accounted

end World

/-! ## Effects and runs -/

section Runs

variable {env : Env} {w w' : World}

/-- What a statement of such a step may be assumed to respect. -/
def aloneLimits : Limits where
  spawn := fun w o => w.nameFree o = true
  wait := fun w o env => w.waitCut o env = false

/-- What statements do within the limits leaves the children accounted for. -/
theorem Effect.accounted (h : Effect aloneLimits env w w') (hwf : w.Wf) (hacc : w.Accounted) :
    w'.Accounted := by
  induction h with
  | same w => exact hacc
  | remark _ _ => exact hacc.note _
  | start _ hspawn h =>
      obtain ⟨p, hp, ⟨_, _, rfl⟩ | ⟨_, _, q, hpid, hcfg, _, rfl⟩ |
        ⟨hup, _, q, pid, _, hpid, hcfg, _, rfl⟩⟩ := World.callStart_cases h
      · exact hacc.note _
      · exact (hacc.note _).setObj hp hpid hcfg
      · exact (hacc.note _).fork (hwf.note _) hp (hspawn p hp hup) rfl rfl hpid hcfg
  | stop _ _ h =>
      obtain ⟨p, hp, ⟨_, _, rfl⟩ | ⟨_, _, _, q, hpid, hcfg, _, _, rfl⟩⟩ := World.callStop_cases h
      · exact hacc.note _
      · exact ((hacc.note _).note _).setObj hp hpid hcfg
  | update _ hspawn h =>
      obtain ⟨p, hp, rfl | ⟨_, q, hpid, hcfg, _, rfl⟩ | ⟨_, _, rfl⟩ | ⟨_, q, hpid, hcfg, _, rfl⟩ |
        ⟨hdue, q, pid, _, hpid, hcfg, _, rfl⟩⟩ := World.callUpdate_cases h
      · exact hacc
      · exact hacc.setObj hp hpid hcfg
      · exact hacc.note _
      · exact hacc.setObj hp hpid hcfg
      · exact hacc.fork hwf hp (hspawn p hp hdue) rfl rfl hpid hcfg
  | kill _ _ _ => exact hacc.note _
  | finishKill hwait h =>
      obtain ⟨p, hp, ⟨hnone | hcut, rfl⟩ | ⟨c, hc, _, rfl⟩⟩ := World.finishKill_cases h
      -- somebody else has reaped the child already, so the object has none left
      · refine hacc.setObj_childless ?_ _
        intro c hc hobj
        obtain ⟨p', hp', hpid', _⟩ := hacc.spawner c hc
        rw [hobj] at hp'
        obtain rfl : p = p' := Option.some.inj (hp.symm.trans hp')
        rw [hpid', hwf.childOf_eq hc] at hnone
        cases hnone
      · exact absurd hcut (by simp [show _ = false from hwait])
      · obtain ⟨hin, hpid⟩ := World.childOf_mem hc
        exact hacc.lose hwf hp hin hpid.symm _
  | reap _ =>
      exact World.handleSigchld_induction hwf hacc fun v c status hv hacc hc _ =>
        hacc.reap hv hc status
  | @add w config _ =>
      -- the new object has an identity no child refers to
      refine ⟨?_, ?_⟩
      · intro c hc
        rw [World.addProcess_children] at hc
        obtain ⟨p, hp, hrest⟩ := hacc.spawner c hc
        refine ⟨p, ?_, hrest⟩
        rw [World.addProcess_objs (Nat.ne_of_lt (hwf.objLt _ p hp))]
        exact hp
      · unfold World.AtMostOneChild
        rw [World.addProcess_children]
        exact hacc.single
  | leave _ h =>
      obtain ⟨e, _, _, _, rfl⟩ := World.eraseNode_cases h
      exact { hacc with }
  | @destroy w o _ hle =>
      refine ⟨?_, hacc.single⟩
      intro c hc
      obtain ⟨p, hp, hpid, hname⟩ := hacc.spawner c hc
      -- an object is destroyed without a pid, so none of the children is its own
      have hne : c.obj ≠ o := by
        rintro rfl
        have hpos := hwf.pidPos c hc
        rw [World.pidOf_eq hp] at hle
        omega
      exact ⟨p, by simpa [World.destroy, hne] using hp, hpid, hname⟩
  | trans h _ ih ih' => exact ih' (h.wf hwf) (ih hwf hacc)

/-- The environment forks nothing. -/
theorem Outside.accounted (h : Outside w w') (hacc : w.Accounted) : w'.Accounted := by
  cases h with
  | childExit cid status _ =>
      refine ⟨?_, ?_⟩
      · intro c hc
        obtain ⟨a, ha, rfl⟩ := List.mem_map.mp hc
        simpa using hacc.spawner a ha
      · intro a ha b hb heq
        obtain ⟨a', ha', rfl⟩ := List.mem_map.mp ha
        obtain ⟨b', hb', rfl⟩ := List.mem_map.mp hb
        rw [hacc.single a' ha' b' hb' (by simpa using heq)]
  | clock nanos => exact { hacc with }
  | reorder hperm =>
      exact ⟨fun c hc => hacc.spawner c (hperm.mem_iff.mp hc),
        fun a ha b hb => hacc.single a (hperm.mem_iff.mp ha) b (hperm.mem_iff.mp hb)⟩

end Runs

/-- Every step that keeps to the condition leaves the children accounted for. -/
theorem spawnsAlone_step {s s' : Sys} {i : Input} (hwf : s.Wf) (hacc : s.world.Accounted)
    (hguard : spawnsAlone s i = true) (h : step s i = some s') : s'.world.Accounted := by
  obtain ⟨hfree, hout⟩ := Bool.and_eq_true_iff.mp hguard
  rcases Sys.Wf.step_world h with ⟨env, frame, rest, rfl, hs, heff⟩ | hw | houtside
  · have hin : Within aloneLimits env.toEnv s.world frame :=
      { hwf.within hs with
        spawn := by
          intro o ho
          simp only [spawnsFree, hs, ho, Option.all_some] at hfree
          exact hfree
        wait := by
          intro o ho
          simp only [waitsOut, hs, ho, Option.all_some, Bool.not_eq_true'] at hout
          exact hout }
    exact (heff _ hin).accounted hwf.world hacc
  · rw [hw]
    exact hacc
  · exact houtside.accounted hacc

/-- There are no children at the start. -/
theorem boot_accounted {s : Sys} (h : Boot s) : s.world.Accounted := by
  have hnone := boot_children h
  exact ⟨by simp [hnone], by simp [World.AtMostOneChild, hnone]⟩

/-- The children are accounted for in every run that keeps to the condition. -/
theorem accounted_reach {s : Sys}
    (h : Machine.Reach step (fun s i => spawnsAlone s i = true) Boot s) : s.world.Accounted := by
  have hinv := h.invariant (P := fun s => s.Wf ∧ s.world.Accounted)
    (fun s hs => ⟨Sys.Wf.boot hs, boot_accounted hs⟩)
    (fun s i s' hinv hg hstep => ⟨hinv.1.step hstep, spawnsAlone_step hinv.1 hinv.2 hg hstep⟩)
  exact hinv.2

/-- **One child a program.**  In every run in which a start spawns only while no object of that
program has a pid, and no wait of `kill()` is interrupted before its child has exited, no program ever
has two unreaped children. -/
theorem at_most_one_child {s : Sys}
    (h : Machine.Reach step (fun s i => spawnsAlone s i = true) Boot s) :
    s.world.AtMostOneChild :=
  (accounted_reach h).single

/-- A stop, the child's exit and a new start keep to the condition. -/
theorem at_most_one_child_restart : ∃ s,
    Machine.Reach step (fun s i => spawnsAlone s i = true) Boot s ∧
      s.world.children.map (·.pid) = [101] ∧ s.world.AtMostOneChild := by
  obtain ⟨s, hreach, hpids⟩ := Machine.Reach.exists_of_guardedRun
    (p := fun s : Sys => decide (s.world.children.map (·.pid) = [101])) (fun _ _ h => h)
    (.init (boot_bootSimple ["web"]))
    (show (Machine.guardedRun step spawnsAlone (bootSimple ["web"])
      [.forking ⟨100, by decide⟩, .next, .request (.stopProcess ["web"]), .next,
        .childExit 0 (.exited 0), .next, .next, .next, .next,
        .request (.startProcess ["web"]), .forking ⟨101, by decide⟩]).any _ = true by decide)
  exact ⟨s, hreach, by simpa using hpids, at_most_one_child hreach⟩

/-- The wait of a forced kill is interrupted, and the next start forks a second child although no object
has a pid. -/
example : (Machine.guardedRun step spawnsFree (bootSimple ["web"])
    [.forking ⟨100, by decide⟩, .next, .request .stopAllProcesses, .next, .next, .next, .seconds 11,
      .next, .next, .exec { waitInterrupted := true }, .next, .next, .next,
      .request (.startProcess ["web"]), .forking ⟨101, by decide⟩]).any
    (fun s => decide (¬ s.world.AtMostOneChild)) = true := by
  decide

/-- A start request served inside the wait of a stop forks a second child. -/
theorem start_while_stopping_forks : ∃ s,
    Machine.Reach step Machine.anyStep Boot s ∧ ¬ s.world.AtMostOneChild := by
  obtain ⟨s, hreach, htwo⟩ := Machine.Reach.exists_of_run
    (p := fun s : Sys => decide (¬ s.world.AtMostOneChild))
    (.init (boot_bootSimple ["web"]))
    (show (Machine.run step (bootSimple ["web"])
      [.forking ⟨100, by decide⟩, .next, .request (.stopProcess ["web"]), .next, .next,
        .request (.startProcess ["web"]), .forking ⟨101, by decide⟩]).any _ = true by decide)
  exact ⟨s, hreach, of_decide_eq_true htwo⟩

end Supervisorcpp
