/-
# What `sync_processes` leaves behind

The call of `sync_processes` in `reload_config_`, from its first statement to its return: a run of
the daemon in which the stack stays above the frame it returns to. Whatever is handled in its nested
waits, except another `sync_processes`, the map it leaves has exactly the new programs, and an object
was replaced only where its configuration changed.

Beside the machine the log of its own calls is kept: the object the call adds or takes out of the map,
the one it starts or stops, and the destructor's kill of an object nobody holds any more.

How far a call has come is `Progress`: in its first loop, which goes over the entries and removes
those that are not wanted, or in the second, which goes over the programs and adds those that are
missing. In either loop the call may be in the middle of a removal. One statement of the call leads
from such a stage to the next one, and this module proves it statement by statement.
-/
import Supervisorcpp.Manager.OwnCalls

namespace Supervisorcpp

/-! ## The call -/

/-- The two loops of `sync_processes(newPrograms)`. -/
def syncFrames (w : World) (newPrograms : List ProgramConfig) : List Frame :=
  [.syncRemove (w.processMap.head?.map (·.node)) newPrograms, .syncAdd newPrograms]

/-- The call that returns to `rest` is in progress. -/
def Inside (rest : List Frame) (s : Sys) : Prop := ∃ above, above ≠ [] ∧ s.stack = above ++ rest

theorem Inside.ne {rest : List Frame} {s : Sys} (h : Inside rest s) : s.stack ≠ rest := by
  obtain ⟨above, hne, hstack⟩ := h
  intro heq
  rw [heq] at hstack
  exact hne (List.append_cancel_right ((List.nil_append _).trans hstack)).symm

/-- The step begins no other `sync_processes`. -/
def beginsNoSync (s : Sys) : Input → Prop
  | .exec env =>
    s.stack.head? = some .reloadConfig →
      s.ctl.config.configFile = "" ∨ s.ctl.daemonState = .restarting ∨
        ∃ what, env.parsed = .error what
  | _ => True

/-- The states, with the log, that the call in `s₀` that returns to `rest` goes through. -/
def DuringSync (s₀ : Sys) (rest : List Frame) (s : Sys × List OwnCall) : Prop :=
  Machine.Reach (Machine.logged step ownCalls)
    (fun s i => Inside rest s.1 ∧ beginsNoSync s.1 i) (fun s => s = (s₀, [])) s

/-! ## What is promised -/

/-- `e` was started once by the call, after the objects its name had before were out of the map. -/
def StartedOnce (w₀ : World) (log : List OwnCall) (e : Entry) : Prop :=
  ∃ before after, log = before ++ .started e.obj :: after ∧ .started e.obj ∉ before ∧
    .started e.obj ∉ after ∧
    ∀ e₀ ∈ w₀.processMap, e₀.name = e.name → .removed e₀.obj ∈ before

/-- The map `w` after `sync_processes(newPrograms)` on the map `w₀`. -/
structure Synced (w₀ : World) (newPrograms : List ProgramConfig) (w : World)
    (log : List OwnCall) : Prop where
  keys : ∀ name, (∃ e ∈ w.processMap, e.name = name) ↔ ∃ prog ∈ newPrograms, prog.name = name
  configs : ∀ e ∈ w.processMap, ∀ prog ∈ newPrograms, prog.name = e.name →
    w.Configured e.obj prog
  /-- an unchanged entry keeps its object, which is left alone -/
  kept : ∀ e ∈ w₀.processMap, ∀ prog ∈ newPrograms, prog.name = e.name →
    w₀.Configured e.obj prog →
    e ∈ w.processMap ∧ .started e.obj ∉ log ∧ .stopped e.obj ∉ log ∧ .killed e.obj ∉ log
  /-- every other entry has an object that did not exist before, started once -/
  fresh : ∀ e ∈ w.processMap, ∀ prog ∈ newPrograms, prog.name = e.name →
    (∀ e₀ ∈ w₀.processMap, e₀.name = e.name → ¬ w₀.Configured e₀.obj prog) →
    w₀.nextObj ≤ e.obj ∧ w.configOf e.obj = some prog ∧ StartedOnce w₀ log e

/-! ## Lists of entries -/

section Entries

variable {w w' : World} {e : Entry}

/-- An entry is found by its name. -/
theorem World.Wf.find_eq (h : w.Wf) (he : e ∈ w.processMap) : w.find e.name = some e := by
  cases hfind : w.find e.name with
  | none =>
      have hno := List.find?_eq_none.mp hfind e he
      simp at hno
  | some e' =>
      obtain ⟨he', hname⟩ := World.find_mem hfind
      rw [h.entry_ext_name he' he hname]

/-- An entry is found by its node. -/
theorem World.Wf.findNode_eq (h : w.Wf) (he : e ∈ w.processMap) :
    (w.processMap.find? fun e' => e'.node = e.node) = some e := by
  cases hfind : w.processMap.find? fun e' => e'.node = e.node with
  | none =>
      have hno := List.find?_eq_none.mp hfind e he
      simp at hno
  | some e' =>
      have hnode : e'.node = e.node := by simpa using List.find?_some hfind
      rw [h.entry_ext_node (List.mem_of_find?_eq_some hfind) he hnode]

/-- The iterator goes to the entry behind. -/
theorem nextNodeAfter_append {pre todo : List Entry}
    (hnodup : ((pre ++ e :: todo).map (·.node)).Nodup) :
    nextNodeAfter e.node (pre ++ e :: todo) = todo.head?.map (·.node) := by
  induction pre with
  | nil => simp [nextNodeAfter]
  | cons e' pre ih =>
      rw [List.cons_append, List.map_cons, List.nodup_cons] at hnodup
      have hne : e'.node ≠ e.node := by
        intro heq
        apply hnodup.1
        simp [heq]
      simp only [List.cons_append, nextNodeAfter, hne, if_false]
      exact ih hnodup.2

/-- Taking one node out of a map. -/
theorem filter_node_append {pre todo : List Entry}
    (hnodup : ((pre ++ e :: todo).map (·.node)).Nodup) :
    (pre ++ e :: todo).filter (fun e' => e'.node ≠ e.node) = pre ++ todo := by
  have hother : ∀ e' ∈ pre ++ todo, e'.node ≠ e.node := by
    intro e' he' heq
    have hperm : (pre ++ e :: todo).Perm (e :: (pre ++ todo)) := List.perm_middle
    have hnodup' := (hperm.map (·.node)).nodup_iff.mp hnodup
    rw [List.map_cons, List.nodup_cons] at hnodup'
    exact hnodup'.1 (heq ▸ List.mem_map_of_mem he')
  rw [List.filter_append, List.filter_cons_of_neg (by simp), ← List.filter_append]
  exact List.filter_eq_self.mpr fun e' he' => by simpa using hother e' he'

end Entries

/-! ## Taking an entry out -/

/-- `remove_process` for the entry `e`, before its stop or in the wait for it. -/
def Removes (e : Entry) (frame : Frame) : Prop :=
  frame = .removeProcess e.name ∨
    ∃ deadline phase, frame = .waitStop e.obj deadline phase (.erase e.node)

/-- The world without the entry `e`. -/
structure Erased (e : Entry) (w w' : World) : Prop where
  processMap : w'.processMap = w.processMap.filter fun e' => e'.node ≠ e.node
  nextObj : w'.nextObj = w.nextObj
  configs : ∀ e' ∈ w'.processMap, w'.configOf e'.obj = w.configOf e'.obj

/-- The others are left. -/
theorem Erased.mem {w w' : World} {e e' : Entry} (h : Erased e w w') :
    e' ∈ w'.processMap ↔ e' ∈ w.processMap ∧ e'.node ≠ e.node := by
  rw [h.processMap, List.mem_filter]
  simp

/-- The name of the entry that was taken out is free. -/
theorem Erased.free {w w' : World} {e : Entry} (h : Erased e w w') (hwf : w.Wf)
    (he : e ∈ w.processMap) : ∀ e' ∈ w'.processMap, e'.name ≠ e.name := by
  intro e' he' hname
  obtain ⟨hold, hnode⟩ := h.mem.mp he'
  rw [hwf.entry_ext_name hold he hname] at hnode
  exact hnode rfl

/-- The entries of other names are still there. -/
theorem Erased.kept {w w' : World} {e e' : Entry} (h : Erased e w w') (hwf : w.Wf)
    (he : e ∈ w.processMap) (he' : e' ∈ w.processMap) (hname : e'.name ≠ e.name) :
    e' ∈ w'.processMap := by
  refine h.mem.mpr ⟨he', ?_⟩
  intro hnode
  rw [hwf.entry_ext_node he' he hnode] at hname
  exact hname rfl

/-- The map has lost the object of this entry and nothing else. -/
theorem Erased.mem_mapChanges {w w' : World} {e : Entry} (h : Erased e w w') (hwf : w.Wf)
    (he : e ∈ w.processMap) (c : OwnCall) : c ∈ mapChanges w w' ↔ c = .removed e.obj := by
  have hsub : ∀ o, w'.mapped o = true → w.mapped o = true := by
    intro o ho
    obtain ⟨e', he', rfl⟩ := World.mapped_iff.mp ho
    exact World.mapped_iff.mpr ⟨e', (h.mem.mp he').1, rfl⟩
  have hout : w'.mapped e.obj = false := by
    refine Bool.eq_false_iff.mpr fun hin => ?_
    obtain ⟨e', he', hobj⟩ := World.mapped_iff.mp hin
    obtain ⟨hold, hnode⟩ := h.mem.mp he'
    rw [hwf.entry_ext_obj hold he hobj] at hnode
    exact hnode rfl
  -- an object that is out of the map was the one of the entry
  have hgone : ∀ o, w.mapped o = true → w'.mapped o = false → o = e.obj := by
    intro o ho hno
    obtain ⟨e', he', rfl⟩ := World.mapped_iff.mp ho
    by_contra hne
    have hnode : e'.node ≠ e.node := fun heq => hne (by rw [hwf.entry_ext_node he' he heq])
    have hstays := World.mapped_iff.mpr ⟨e', h.mem.mpr ⟨he', hnode⟩, rfl⟩
    rw [hno] at hstays
    cases hstays
  constructor
  · intro hc
    rcases List.mem_append.mp hc with hc | hc
    · obtain ⟨o, ho, rfl⟩ := List.mem_map.mp hc
      obtain ⟨_, hin, hno⟩ := by simpa using ho
      rw [hgone o hin hno]
    · obtain ⟨o, ho, rfl⟩ := List.mem_map.mp hc
      obtain ⟨_, hno, hin⟩ := by simpa using ho
      rw [hsub o hin] at hno
      cases hno
  · rintro rfl
    obtain ⟨p, hp, _⟩ := hwf.live e he
    refine List.mem_append_left _ (List.mem_map_of_mem ?_)
    simp only [List.mem_filter, List.mem_range, Bool.and_eq_true, Bool.not_eq_true']
    exact ⟨h.nextObj ▸ hwf.objLt _ _ hp, World.mapped_iff.mpr ⟨e, he, rfl⟩, hout⟩

section Removal

variable {s s' : Sys} {env : Answers} {e : Entry} {frame : Frame} {rest frames : List Frame}

/-- `process_map_.erase(it)` in a world with the map of `w`. -/
theorem erased_of_eraseFrames {w v w' : World} {held : List Frame} (hwf : w.Wf) (hwf' : w'.Wf)
    (he : e ∈ w.processMap) (hv : w.SameMap v) (hcfg : ConfigsFrom w w')
    (hheld : ∀ f ∈ held, f.foreign = true)
    (h : (w', frames) = v.eraseFrames e.node held) :
    Erased e w w' ∧ w'.trace = v.trace ∧ ∀ f ∈ frames, f.foreign = true := by
  have hfind : v.eraseNode e.node =
      some ({ v with processMap := v.processMap.filter fun e' => e'.node ≠ e.node }, e.obj) := by
    unfold World.eraseNode
    rw [hv.processMap, hwf.findNode_eq he]
    rfl
  simp only [World.eraseFrames, hfind] at h
  obtain ⟨rfl, rfl⟩ := Prod.mk.inj h
  refine ⟨⟨by rw [← hv.processMap], hv.nextObj, ?_⟩, rfl, ?_⟩
  · intro e' he'
    have hold : e' ∈ w.processMap := hv.processMap ▸ (List.mem_filter.mp he').1
    exact hcfg.configOf_eq hwf hwf' hold he'
  · intro f hf
    rcases List.mem_append.mp hf with hf | hf
    · exact hheld f hf
    · obtain rfl := List.mem_singleton.mp hf
      rfl

/-- What one statement of `remove_process` comes to: it goes on waiting, or the entry is out. -/
def RemovalStep (e : Entry) (w w' : World) (frames : List Frame) (calls : List OwnCall) : Prop :=
  (∃ frame, Removes e frame ∧ frames = [frame] ∧ Agrees w w' ∧ ∀ c ∈ calls, c = .stopped e.obj) ∨
  ((∀ f ∈ frames, f.foreign = true) ∧ Erased e w w' ∧ .removed e.obj ∈ calls ∧
    ∀ c ∈ calls, c = .stopped e.obj ∨ c = .removed e.obj)

/-- The entry is out, after calls that stopped its object or did nothing. -/
theorem RemovalStep.of_erased {w w' : World} (hwf : w.Wf) (he : e ∈ w.processMap)
    (hframes : ∀ f ∈ frames, f.foreign = true) (h : Erased e w w')
    (hcalls : ∀ c ∈ eventCalls w w', c = .stopped e.obj) :
    RemovalStep e w w' frames (callsBetween w w') := by
  have hmap := h.mem_mapChanges hwf he
  refine .inr ⟨hframes, h, List.mem_append_right _ ((hmap _).mpr rfl), ?_⟩
  intro c hc
  rcases List.mem_append.mp hc with hc | hc
  · exact .inl (hcalls c hc)
  · exact .inr ((hmap c).mp hc)

/-- The removal goes on waiting. -/
theorem RemovalStep.of_waits {w w' : World} (hf : Removes e frame) (hagree : Agrees w w')
    (hsame : w.SameMap w') (hcalls : ∀ c ∈ eventCalls w w', c = .stopped e.obj) :
    RemovalStep e w w' [frame] (callsBetween w w') := by
  rw [callsBetween_of_sameMap hsame]
  exact .inl ⟨frame, hf, rfl, hagree, hcalls⟩

theorem removeProcess_step (hwf : s.Wf) (hwf' : s'.Wf) (he : e ∈ s.world.processMap)
    (hcfg : ConfigsFrom s.world s'.world)
    (hremove : removeProcess s.world e.name env = some (s'.world, frames)) :
    RemovalStep e s.world s'.world frames (callsBetween s.world s'.world) := by
  have hfind := hwf.world.find_eq he
  rcases removeProcess_cases hremove with ⟨hnone, _, _⟩ | ⟨e', p, hsome, hp, hend⟩
  · rw [hfind] at hnone
    cases hnone
  · obtain rfl : e = e' := Option.some.inj (hfind.symm.trans hsome)
    have hstopped : ∀ {v : World} {r : Bool}, s.world.callStop e.obj env.toEnv = some (v, r) →
        ∀ c ∈ eventCalls s.world v, c = .stopped e.obj := by
      intro v r hstop c hc
      rw [callStop_eventCalls hstop] at hc
      exact List.mem_singleton.mp hc
    rcases hend with ⟨_, hstop, rfl⟩ | ⟨v, hv, heq⟩
    · have hsame := World.SameMap.callStop hstop
      exact .of_waits (.inr ⟨_, _, rfl⟩) (.of_configs hwf.world hwf'.world hsame hcfg) hsame
        (hstopped hstop)
    · -- there was nothing to stop, or it could not be stopped
      obtain ⟨hsame, hcalls⟩ : s.world.SameMap v ∧
          ∀ c ∈ eventCalls s.world v, c = .stopped e.obj := by
        rcases hv with ⟨_, rfl⟩ | ⟨_, hstop⟩
        · exact ⟨.refl s.world, by simp [eventCalls_of_trace]⟩
        · exact ⟨.callStop hstop, hstopped hstop⟩
      obtain ⟨herased, htrace, hframes⟩ := erased_of_eraseFrames hwf.world hwf'.world he hsame hcfg
        (by simp) heq
      refine .of_erased hwf.world he hframes herased ?_
      unfold eventCalls at hcalls ⊢
      rw [htrace]
      exact hcalls

theorem waitStop_step {deadline : Int} {phase : Phase} (hwf : s.Wf) (hwf' : s'.Wf)
    (he : e ∈ s.world.processMap) (hcfg : ConfigsFrom s.world s'.world)
    (hexec : execFrame env rest s.world s.ctl (.waitStop e.obj deadline phase (.erase e.node)) =
      some (s'.world, s'.ctl, frames)) :
    RemovalStep e s.world s'.world frames (callsBetween s.world s'.world) := by
  cases phase with
  | runFor until_ =>
      obtain ⟨hw, rfl⟩ : s'.world = s.world ∧
          frames = [.waitStop e.obj deadline .check (.erase e.node)] := by
        simp only [execFrame] at hexec
        grind
      rw [hw]
      exact .of_waits (.inr ⟨deadline, .check, rfl⟩) (.refl s.world) (.refl s.world)
        (by simp [eventCalls_of_trace])
  | check =>
      by_cases hwait : 0 < s.world.pidOf e.obj ∧ s.world.now < deadline
      · obtain ⟨hw, phase, rfl⟩ : s'.world = s.world.handleSigchld.1 ∧
            ∃ phase, frames = [.waitStop e.obj deadline phase (.erase e.node)] := by
          simp only [execFrame, hwait, and_self, if_true] at hexec
          grind
        have hsame : s.world.SameMap s'.world := hw ▸ .handleSigchld s.world
        refine .of_waits (.inr ⟨deadline, phase, rfl⟩) (.of_configs hwf.world hwf'.world hsame hcfg)
          hsame ?_
        simp [hw, handleSigchld_eventCalls]
      · have hw : (s'.world, frames) =
            (s.world.note (.stopReturned e.obj (s.world.pidOf e.obj))).eraseFrames e.node
              [.release e.obj] := by
          simp only [execFrame, hwait, if_false, stopProcessReturns] at hexec
          obtain ⟨hw, _, hframes⟩ := by simpa using hexec
          rw [← hw, ← hframes]
        have hheld : ∀ f ∈ [Frame.release e.obj], f.foreign = true := by simp [Frame.foreign]
        obtain ⟨herased, htrace, hframes⟩ := erased_of_eraseFrames hwf.world hwf'.world he
          (World.SameMap.note _ _) hcfg hheld hw
        refine .of_erased hwf.world he hframes herased ?_
        have hcalls : eventCalls s.world s'.world = [] :=
          eventCalls_of_append [.stopReturned _ _] htrace
        simp [hcalls]

/-- A statement of `remove_process` waits, or takes the entry out. -/
theorem removes_exec (hwf : s.Wf) (hwf' : s'.Wf) (he : e ∈ s.world.processMap)
    (hf : Removes e frame) (hs : s.stack = frame :: rest)
    (hexec : execFrame env rest s.world s.ctl frame = some (s'.world, s'.ctl, frames)) :
    RemovalStep e s.world s'.world frames (callsBetween s.world s'.world) := by
  have hcfg : ConfigsFrom s.world s'.world :=
    (execFrame_effect (L := {}) (hwf.within hs) hexec).configs
  rcases hf with rfl | ⟨deadline, phase, rfl⟩
  · obtain ⟨⟨v, fs⟩, hv, h⟩ := Option.map_eq_some_iff.mp hexec
    obtain ⟨rfl, _, rfl⟩ := by simpa using h
    exact removeProcess_step hwf hwf' he hcfg hv
  · exact waitStop_step hwf hwf' he hcfg hexec

end Removal

/-! ## How far the call has come -/

/-- A new program has this name. -/
def wanted (progs : List ProgramConfig) (e : Entry) : Bool :=
  progs.any fun prog => prog.name = e.name

/-- The first loop has visited the entries `pre` and not `todo`. -/
structure Removing (w₀ : World) (progs : List ProgramConfig) (pre todo : List Entry) (w : World) :
    Prop where
  before : w₀.processMap = pre ++ todo
  now : w.processMap = pre.filter (wanted progs) ++ todo
  nextObj : w.nextObj = w₀.nextObj
  configs : ∀ e ∈ w.processMap, w.configOf e.obj = w₀.configOf e.obj

/-- The entry the call leaves for `prog`: the one that was there, or a new one. -/
structure Settled (w₀ w : World) (log : List OwnCall) (prog : ProgramConfig) (e : Entry) : Prop where
  name : e.name = prog.name
  config : w.Configured e.obj prog
  origin : (e ∈ w₀.processMap ∧ w₀.Configured e.obj prog) ∨
    (w₀.nextObj ≤ e.obj ∧ w.configOf e.obj = some prog ∧ StartedOnce w₀ log e ∧
      ∀ e₀ ∈ w₀.processMap, e₀.name = prog.name → ¬ w₀.Configured e₀.obj prog)

/-- The second loop is done with the programs `done` and not with `todo`; `current` is the entry it
has added and not started yet. -/
structure Adding (w₀ : World) (done todo : List ProgramConfig) (current : Option Entry) (w : World)
    (log : List OwnCall) : Prop where
  covered : ∀ e ∈ w.processMap, current = some e ∨
    (e ∈ w₀.processMap ∧ (∃ prog ∈ todo, prog.name = e.name) ∧
      w.configOf e.obj = w₀.configOf e.obj) ∨
    ∃ prog ∈ done, Settled w₀ w log prog e
  untouched : ∀ e ∈ w₀.processMap, (∃ prog ∈ todo, prog.name = e.name) → e ∈ w.processMap
  present : ∀ prog ∈ done, ∃ e ∈ w.processMap, e.name = prog.name
  nextObj : w₀.nextObj ≤ w.nextObj

/-- No object that had the name of `prog` has its configuration, and all of them are out. -/
def Replaced (w₀ : World) (log : List OwnCall) (prog : ProgramConfig) : Prop :=
  ∀ e₀ ∈ w₀.processMap, e₀.name = prog.name →
    ¬ w₀.Configured e₀.obj prog ∧ .removed e₀.obj ∈ log

/-- The statements that are left of the call, and what they find. -/
inductive Progress (w₀ : World) (progs : List ProgramConfig) :
    List Frame → World → List OwnCall → Prop
  | removing {pre todo : List Entry} {w : World} {log : List OwnCall} :
      Removing w₀ progs pre todo w →
      Progress w₀ progs [.syncRemove (todo.head?.map (·.node)) progs, .syncAdd progs] w log
  | discarding {pre todo : List Entry} {e : Entry} {frame : Frame} {w : World}
      {log : List OwnCall} : Removing w₀ progs pre (e :: todo) w → wanted progs e = false →
      Removes e frame →
      Progress w₀ progs [frame, .syncRemove (todo.head?.map (·.node)) progs, .syncAdd progs] w log
  | adding {done todo : List ProgramConfig} {w : World} {log : List OwnCall} :
      progs = done ++ todo → Adding w₀ done todo none w log →
      Progress w₀ progs [.syncAdd todo] w log
  | replacing {done todo : List ProgramConfig} {prog : ProgramConfig} {e : Entry} {frame : Frame}
      {w : World} {log : List OwnCall} : progs = done ++ prog :: todo →
      Adding w₀ done (prog :: todo) none w log → e ∈ w.processMap → e ∈ w₀.processMap →
      e.name = prog.name → ¬ w₀.Configured e.obj prog → Removes e frame →
      Progress w₀ progs [frame, .addProcess prog, .startProcess prog.name, .syncAdd todo] w log
  | creating {done todo : List ProgramConfig} {prog : ProgramConfig} {w : World}
      {log : List OwnCall} : progs = done ++ prog :: todo → Adding w₀ done todo none w log →
      (∀ e ∈ w.processMap, e.name ≠ prog.name) → Replaced w₀ log prog →
      Progress w₀ progs [.addProcess prog, .startProcess prog.name, .syncAdd todo] w log
  | starting {done todo : List ProgramConfig} {prog : ProgramConfig} {e : Entry} {w : World}
      {log : List OwnCall} : progs = done ++ prog :: todo → Adding w₀ done todo (some e) w log →
      e ∈ w.processMap → e.name = prog.name → w.configOf e.obj = some prog →
      w₀.nextObj ≤ e.obj → .started e.obj ∉ log → Replaced w₀ log prog →
      Progress w₀ progs [.startProcess prog.name, .syncAdd todo] w log
  | finished {w : World} {log : List OwnCall} : Adding w₀ progs [] none w log →
      Progress w₀ progs [] w log

section Stable

variable {w₀ w w' : World} {progs done todo : List ProgramConfig} {prog : ProgramConfig}
  {e : Entry} {current : Option Entry} {log calls : List OwnCall} {core : List Frame}

theorem StartedOnce.append (h : StartedOnce w₀ log e) (hcalls : .started e.obj ∉ calls) :
    StartedOnce w₀ (log ++ calls) e := by
  obtain ⟨before, after, rfl, hbefore, hafter, hold⟩ := h
  refine ⟨before, after ++ calls, by simp, hbefore, ?_, hold⟩
  intro hmem
  rcases List.mem_append.mp hmem with hmem | hmem
  · exact hafter hmem
  · exact hcalls hmem

theorem Settled.mono (h : Settled w₀ w log prog e) (hcfg : w'.configOf e.obj = w.configOf e.obj)
    (hcalls : .started e.obj ∉ calls) : Settled w₀ w' (log ++ calls) prog e where
  name := h.name
  config := h.config.congr hcfg
  origin := h.origin.imp id fun ⟨hnew, hexact, honce, hold⟩ =>
    ⟨hnew, hcfg.trans hexact, honce.append hcalls, hold⟩

theorem Replaced.append (h : Replaced w₀ log prog) : Replaced w₀ (log ++ calls) prog :=
  fun e₀ he₀ hname => ⟨(h e₀ he₀ hname).1, List.mem_append_left _ (h e₀ he₀ hname).2⟩

/-- What is handled in a wait leaves the first loop where it is. -/
theorem Removing.agrees {pre todo : List Entry} (h : Removing w₀ progs pre todo w)
    (hagree : Agrees w w') : Removing w₀ progs pre todo w' where
  before := h.before
  now := hagree.processMap.trans h.now
  nextObj := hagree.nextObj.trans h.nextObj
  configs := by
    intro e he
    rw [hagree.processMap] at he
    exact (hagree.configs e he).trans (h.configs e he)

/-- What is handled in a wait leaves the second loop where it is. -/
theorem Adding.agrees (h : Adding w₀ done todo current w log) (hagree : Agrees w w')
    (hcalls : StartsNothing calls) : Adding w₀ done todo current w' (log ++ calls) where
  covered := by
    intro e he
    rw [hagree.processMap] at he
    have hcfg := hagree.configs e he
    rcases h.covered e he with hcur | ⟨hold, hname, hsame⟩ | ⟨prog, hprog, hset⟩
    · exact .inl hcur
    · exact .inr (.inl ⟨hold, hname, hcfg.trans hsame⟩)
    · exact .inr (.inr ⟨prog, hprog, hset.mono hcfg (hcalls _)⟩)
  untouched := fun e he hname => hagree.processMap ▸ h.untouched e he hname
  present := fun prog hprog => hagree.processMap ▸ h.present prog hprog
  nextObj := hagree.nextObj ▸ h.nextObj

/-- What others do leaves the call where it is. -/
theorem Progress.agrees (h : Progress w₀ progs core w log) (hagree : Agrees w w')
    (hcalls : StartsNothing calls) : Progress w₀ progs core w' (log ++ calls) := by
  cases h with
  | removing hrem => exact .removing (hrem.agrees hagree)
  | discarding hrem hno hframe => exact .discarding (hrem.agrees hagree) hno hframe
  | adding hsplit hadd => exact .adding hsplit (hadd.agrees hagree hcalls)
  | replacing hsplit hadd he he₀ hname hcfg hframe =>
      exact .replacing hsplit (hadd.agrees hagree hcalls) (hagree.processMap ▸ he) he₀ hname hcfg
        hframe
  | creating hsplit hadd hnone hrep =>
      exact .creating hsplit (hadd.agrees hagree hcalls) (hagree.processMap ▸ hnone) hrep.append
  | starting hsplit hadd he hname hcfg hnew hnot hrep =>
      refine .starting hsplit (hadd.agrees hagree hcalls) (hagree.processMap ▸ he) hname
        ((hagree.configs _ he).trans hcfg) hnew ?_ hrep.append
      intro hmem
      rcases List.mem_append.mp hmem with hmem | hmem
      · exact hnot hmem
      · exact hcalls _ hmem
  | finished hadd => exact .finished (hadd.agrees hagree hcalls)

end Stable

/-! ## The first loop -/

section FirstLoop

variable {w₀ w w' : World} {progs : List ProgramConfig} {pre todo : List Entry} {e : Entry}
  {log : List OwnCall}

/-- An entry that is wanted stays. -/
theorem Removing.pass (h : Removing w₀ progs pre (e :: todo) w) (hwant : wanted progs e = true) :
    Removing w₀ progs (pre ++ [e]) todo w where
  before := by
    rw [h.before]
    simp
  now := by
    rw [h.now, List.filter_append, List.filter_cons_of_pos hwant]
    simp
  nextObj := h.nextObj
  configs := h.configs

/-- One that is not wanted is taken out. -/
theorem Removing.discard (h : Removing w₀ progs pre (e :: todo) w) (hno : wanted progs e = false)
    (hwf : w.Wf) (herased : Erased e w w') : Removing w₀ progs (pre ++ [e]) todo w' where
  before := by
    rw [h.before]
    simp
  now := by
    have hnodes := hwf.nodes
    rw [h.now] at hnodes
    rw [herased.processMap, h.now, filter_node_append hnodes, List.filter_append,
      List.filter_cons_of_neg (by simp [hno])]
    simp
  nextObj := herased.nextObj.trans h.nextObj
  configs := by
    intro e' he'
    have hold : e' ∈ w.processMap := by
      rw [herased.processMap] at he'
      exact (List.mem_filter.mp he').1
    exact (herased.configs e' he').trans (h.configs e' hold)

/-- After the first loop the map has the entries whose names are wanted. -/
theorem Removing.done (h : Removing w₀ progs pre [] w) : Adding w₀ [] progs none w log := by
  have hmap : w.processMap = w₀.processMap.filter (wanted progs) := by
    rw [h.now, h.before]
    simp
  refine ⟨?_, ?_, List.forall_mem_nil _, Nat.le_of_eq h.nextObj.symm⟩
  · intro e he
    have hcfg := h.configs e he
    rw [hmap] at he
    obtain ⟨hold, hwant⟩ := List.mem_filter.mp he
    exact .inr (.inl ⟨hold, by simpa [wanted] using hwant, hcfg⟩)
  · intro e he hname
    rw [hmap]
    exact List.mem_filter.mpr ⟨he, by simpa [wanted] using hname⟩

end FirstLoop

/-! ## The second loop -/

section SecondLoop

variable {w₀ w w' : World} {done todo : List ProgramConfig} {prog : ProgramConfig} {e : Entry}
  {log calls : List OwnCall}

/-- An entry with the new configuration is left alone. -/
theorem Adding.keep (h : Adding w₀ done (prog :: todo) none w log) (hwf : w.Wf)
    (he : e ∈ w.processMap) (hname : e.name = prog.name) (hcfg : w.Configured e.obj prog) :
    Adding w₀ (done ++ [prog]) todo none w log where
  covered := by
    intro e' he'
    rcases h.covered e' he' with hcur | ⟨hold, ⟨prog', hprog', hname'⟩, hsame⟩ |
        ⟨prog', hprog', hset⟩
    · cases hcur
    · rcases List.mem_cons.mp hprog' with rfl | htodo
      · obtain rfl := hwf.entry_ext_name he he' (hname.trans hname')
        exact .inr (.inr ⟨prog', by simp, hname, hcfg, .inl ⟨hold, hcfg.congr hsame.symm⟩⟩)
      · exact .inr (.inl ⟨hold, ⟨prog', htodo, hname'⟩, hsame⟩)
    · exact .inr (.inr ⟨prog', List.mem_append_left _ hprog', hset⟩)
  untouched := fun e' he' ⟨prog', hprog', hname'⟩ =>
    h.untouched e' he' ⟨prog', List.mem_cons_of_mem _ hprog', hname'⟩
  present := by
    intro prog' hprog'
    rcases List.mem_append.mp hprog' with hdone | hlast
    · exact h.present prog' hdone
    · obtain rfl := List.mem_singleton.mp hlast
      exact ⟨e, he, hname⟩
  nextObj := h.nextObj

theorem name_ne_of_nodup (hnames : ((done ++ prog :: todo).map (·.name)).Nodup) :
    ∀ prog' ∈ done ++ todo, prog'.name ≠ prog.name := by
  intro prog' hprog' heq
  have hperm : (done ++ prog :: todo).Perm (prog :: (done ++ todo)) := List.perm_middle
  have hnodup := (hperm.map (·.name)).nodup_iff.mp hnames
  rw [List.map_cons, List.nodup_cons] at hnodup
  exact hnodup.1 (heq ▸ List.mem_map_of_mem hprog')

/-- An entry with another configuration is taken out. -/
theorem Adding.discard (h : Adding w₀ done (prog :: todo) none w log) (hwf : w.Wf)
    (hnames : ((done ++ prog :: todo).map (·.name)).Nodup) (he : e ∈ w.processMap)
    (hname : e.name = prog.name) (herased : Erased e w w') (hcalls : StartsNothing calls) :
    Adding w₀ done todo none w' (log ++ calls) ∧ ∀ e' ∈ w'.processMap, e'.name ≠ prog.name := by
  have hne := name_ne_of_nodup hnames
  have hfree : ∀ e' ∈ w'.processMap, e'.name ≠ prog.name := hname ▸ herased.free hwf he
  -- an entry with another program's name is not the one taken out
  have hother : ∀ e' ∈ w.processMap, ∀ prog' ∈ done ++ todo, prog'.name = e'.name →
      e' ∈ w'.processMap := by
    intro e' he' prog' hprog' hname'
    refine herased.kept hwf he he' ?_
    rw [← hname', hname]
    exact hne prog' hprog'
  refine ⟨⟨?_, ?_, ?_, herased.nextObj ▸ h.nextObj⟩, hfree⟩
  · intro e' he'
    have hcfg := herased.configs e' he'
    rcases h.covered e' (herased.mem.mp he').1 with hcur | ⟨hold, ⟨prog', hprog', hname'⟩, hsame⟩ |
        ⟨prog', hprog', hset⟩
    · cases hcur
    · rcases List.mem_cons.mp hprog' with rfl | htodo
      · exact absurd hname'.symm (hfree e' he')
      · exact .inr (.inl ⟨hold, ⟨prog', htodo, hname'⟩, hcfg.trans hsame⟩)
    · exact .inr (.inr ⟨prog', hprog', hset.mono hcfg (hcalls _)⟩)
  · rintro e' he' ⟨prog', hprog', hname'⟩
    have hold := h.untouched e' he' ⟨prog', List.mem_cons_of_mem _ hprog', hname'⟩
    exact hother e' hold prog' (List.mem_append_right _ hprog') hname'
  · intro prog' hprog'
    obtain ⟨e', he', hname'⟩ := h.present prog' hprog'
    exact ⟨e', hother e' he' prog' (List.mem_append_left _ hprog') hname'.symm, hname'⟩

theorem find_eq_none (hnone : ∀ e ∈ w.processMap, e.name ≠ prog.name) :
    w.find prog.name = none := by
  unfold World.find
  rw [List.find?_eq_none]
  intro e he
  simpa using hnone e he

/-- A name that is free gets an entry of its own. -/
theorem mem_addProcess (hnone : ∀ e ∈ w.processMap, e.name ≠ prog.name) :
    e ∈ (w.addProcess prog).1.processMap ↔
      e = ⟨prog.name, w.nextNode, w.nextObj⟩ ∨ e ∈ w.processMap := by
  have hmap : (w.addProcess prog).1.processMap =
      World.insertEntry ⟨prog.name, w.nextNode, w.nextObj⟩ w.processMap := by
    simp [World.addProcess, find_eq_none hnone]
  rw [hmap, World.mem_insertEntry]

theorem configOf_addProcess (hwf : w.Wf) (he : e ∈ w.processMap) :
    (w.addProcess prog).1.configOf e.obj = w.configOf e.obj := by
  obtain ⟨p, hp, _⟩ := hwf.live e he
  unfold World.configOf
  rw [World.addProcess_objs (Nat.ne_of_lt (hwf.objLt _ _ hp))]

theorem configOf_addProcess_new (w : World) (prog : ProgramConfig) :
    (w.addProcess prog).1.configOf w.nextObj = some prog :=
  configOf_eq (World.addProcess_objs_new w prog)

/-- A new entry is added under a name that is free. -/
theorem Adding.add (h : Adding w₀ done todo none w log) (hwf : w.Wf)
    (hnone : ∀ e ∈ w.processMap, e.name ≠ prog.name) (hcalls : StartsNothing calls) :
    Adding w₀ done todo (some ⟨prog.name, w.nextNode, w.nextObj⟩) (w.addProcess prog).1
      (log ++ calls) := by
  have hmem : ∀ e ∈ w.processMap, e ∈ (w.addProcess prog).1.processMap :=
    fun e he => (mem_addProcess hnone).mpr (.inr he)
  refine ⟨?_, fun e he hname => hmem e (h.untouched e he hname), ?_, ?_⟩
  · intro e he
    rcases (mem_addProcess hnone).mp he with rfl | he
    · exact .inl rfl
    · have hcfg : (w.addProcess prog).1.configOf e.obj = w.configOf e.obj :=
        configOf_addProcess hwf he
      rcases h.covered e he with hcur | ⟨hold, hname, hsame⟩ | ⟨prog', hprog', hset⟩
      · cases hcur
      · exact .inr (.inl ⟨hold, hname, hcfg.trans hsame⟩)
      · exact .inr (.inr ⟨prog', hprog', hset.mono hcfg (hcalls _)⟩)
  · intro prog' hprog'
    obtain ⟨e, he, hname⟩ := h.present prog' hprog'
    exact ⟨e, hmem e he, hname⟩
  · rw [World.addProcess_nextObj]
    exact Nat.le_succ_of_le h.nextObj

/-- A program whose name is free is next. -/
theorem Adding.free (h : Adding w₀ done (prog :: todo) none w log)
    (hnone : ∀ e ∈ w.processMap, e.name ≠ prog.name) :
    Adding w₀ done todo none w log ∧ Replaced w₀ log prog := by
  refine ⟨⟨?_, ?_, h.present, h.nextObj⟩, ?_⟩
  · intro e he
    rcases h.covered e he with hcur | ⟨hold, ⟨prog', hprog', hname⟩, hsame⟩ | hset
    · cases hcur
    · rcases List.mem_cons.mp hprog' with rfl | htodo
      · exact absurd hname.symm (hnone e he)
      · exact .inr (.inl ⟨hold, ⟨prog', htodo, hname⟩, hsame⟩)
    · exact .inr (.inr hset)
  · rintro e he ⟨prog', hprog', hname⟩
    exact h.untouched e he ⟨prog', List.mem_cons_of_mem _ hprog', hname⟩
  · intro e₀ he₀ hname
    have hin := h.untouched e₀ he₀ ⟨prog, List.mem_cons_self, hname.symm⟩
    exact absurd hname (hnone e₀ hin)

/-- The new entry is started. -/
theorem Adding.start (h : Adding w₀ done todo (some e) w log) (hwf : w.Wf) (he : e ∈ w.processMap)
    (hname : e.name = prog.name) (hcfg : w.configOf e.obj = some prog) (hnew : w₀.nextObj ≤ e.obj)
    (hnot : .started e.obj ∉ log) (hrep : Replaced w₀ log prog) (hagree : Agrees w w') :
    Adding w₀ (done ++ [prog]) todo none w' (log ++ [.started e.obj]) := by
  have hset : Settled w₀ w' (log ++ [.started e.obj]) prog e := by
    have hexact : w'.configOf e.obj = some prog := (hagree.configs e he).trans hcfg
    refine ⟨hname, .of_eq hexact, .inr ⟨hnew, hexact, ?_, ?_⟩⟩
    · refine ⟨log, [], rfl, hnot, List.not_mem_nil, ?_⟩
      exact fun e₀ he₀ hname₀ => (hrep e₀ he₀ (hname₀.trans hname)).2
    · exact fun e₀ he₀ hname₀ => (hrep e₀ he₀ hname₀).1
  refine ⟨?_, fun e' he' hname' => hagree.processMap ▸ h.untouched e' he' hname', ?_,
    hagree.nextObj ▸ h.nextObj⟩
  · intro e' he'
    rw [hagree.processMap] at he'
    by_cases heq : e' = e
    · subst heq
      exact .inr (.inr ⟨prog, by simp, hset⟩)
    · have hcfg' := hagree.configs e' he'
      have hobj : .started e'.obj ∉ [OwnCall.started e.obj] := by
        intro hmem
        have hobj := List.mem_singleton.mp hmem
        exact heq (hwf.entry_ext_obj he' he (OwnCall.started.inj hobj))
      rcases h.covered e' he' with hcur | ⟨hold, hname', hsame⟩ | ⟨prog', hprog', hset'⟩
      · exact absurd (Option.some.inj hcur).symm heq
      · exact .inr (.inl ⟨hold, hname', hcfg'.trans hsame⟩)
      · exact .inr (.inr ⟨prog', List.mem_append_left _ hprog', hset'.mono hcfg' hobj⟩)
  · intro prog' hprog'
    rw [hagree.processMap]
    rcases List.mem_append.mp hprog' with hdone | hlast
    · exact h.present prog' hdone
    · obtain rfl := List.mem_singleton.mp hlast
      exact ⟨e, he, hname⟩

end SecondLoop

/-! ## The statements of the two loops -/

section Loops

variable {s s' : Sys} {env : Answers} {w w' : World} {c c' : Ctl} {rest frames : List Frame}
  {progs todo : List ProgramConfig} {prog : ProgramConfig} {pre left : List Entry}

/-- One turn of the first loop, which has the entries `left` to visit. -/
theorem syncRemove_exec (hwf : w.Wf) (hmap : w.processMap = pre ++ left)
    (hexec : execFrame env rest w c (.syncRemove (left.head?.map (·.node)) progs) =
      some (w', c', frames)) :
    w' = w ∧ (left = [] ∧ frames = [] ∨ ∃ e left', left = e :: left' ∧
      (wanted progs e = true ∧ frames = [.syncRemove (left'.head?.map (·.node)) progs] ∨
        wanted progs e = false ∧
          frames = [.removeProcess e.name, .syncRemove (left'.head?.map (·.node)) progs])) := by
  cases left with
  | nil =>
      obtain ⟨hw, _, rfl⟩ := by simpa [execFrame] using hexec
      exact ⟨hw.symm, .inl ⟨rfl, rfl⟩⟩
  | cons e left =>
      have he : e ∈ w.processMap := by
        rw [hmap]
        simp
      have hnext : nextNodeAfter e.node w.processMap = left.head?.map (·.node) := by
        have hnodes := hwf.nodes
        rw [hmap] at hnodes ⊢
        exact nextNodeAfter_append hnodes
      simp only [List.head?_cons, Option.map_some, execFrame, hwf.findNode_eq he, hnext] at hexec
      split at hexec
      · next hwant =>
          obtain ⟨hw, _, rfl⟩ := by simpa using hexec
          exact ⟨hw.symm, .inr ⟨e, left, rfl, .inl ⟨hwant, rfl⟩⟩⟩
      · next hno =>
          obtain ⟨hw, _, rfl⟩ := by simpa using hexec
          exact ⟨hw.symm, .inr ⟨e, left, rfl, .inr ⟨by simpa [wanted] using hno, rfl⟩⟩⟩

/-- One turn of the second loop. -/
theorem syncAdd_exec (hexec : execFrame env rest w c (.syncAdd todo) = some (w', c', frames)) :
    w' = w ∧ (todo = [] ∧ frames = [] ∨ ∃ prog todo', todo = prog :: todo' ∧
      ((∀ e ∈ w.processMap, e.name ≠ prog.name) ∧
          frames = [.addProcess prog, .startProcess prog.name, .syncAdd todo'] ∨
        ∃ e ∈ w.processMap, e.name = prog.name ∧
          (w.Configured e.obj prog ∧ frames = [.syncAdd todo'] ∨
            ¬ w.Configured e.obj prog ∧ frames = [.removeProcess prog.name, .addProcess prog,
              .startProcess prog.name, .syncAdd todo']))) := by
  cases todo with
  | nil =>
      obtain ⟨hw, _, rfl⟩ := by simpa [execFrame] using hexec
      exact ⟨hw.symm, .inl ⟨rfl, rfl⟩⟩
  | cons prog todo =>
      simp only [execFrame] at hexec
      cases hfind : w.find prog.name with
      | none =>
          simp only [hfind] at hexec
          obtain ⟨hw, _, rfl⟩ := by simpa using hexec
          refine ⟨hw.symm, .inr ⟨prog, todo, rfl, .inl ⟨?_, rfl⟩⟩⟩
          intro e he
          simpa using List.find?_eq_none.mp hfind e he
      | some e =>
          simp only [hfind] at hexec
          obtain ⟨p, hp, hexec⟩ := Option.map_eq_some_iff.mp hexec
          obtain ⟨he, hname⟩ := World.find_mem hfind
          split at hexec
          · next hsame =>
              obtain ⟨hw, _, rfl⟩ := by simpa using hexec
              have hcfg := (configured_iff hp).mpr hsame
              exact ⟨hw.symm, .inr ⟨prog, todo, rfl, .inr ⟨e, he, hname, .inl ⟨hcfg, rfl⟩⟩⟩⟩
          · next hdiffers =>
              obtain ⟨hw, _, rfl⟩ := by simpa using hexec
              have hcfg := mt (configured_iff hp).mp hdiffers
              exact ⟨hw.symm, .inr ⟨prog, todo, rfl, .inr ⟨e, he, hname, .inr ⟨hcfg, rfl⟩⟩⟩⟩

/-- `add_process` under a name that is free. -/
theorem addProcess_exec (hnone : ∀ e ∈ w.processMap, e.name ≠ prog.name)
    (hexec : execFrame env rest w c (.addProcess prog) = some (w', c', frames)) :
    w' = (w.addProcess prog).1 ∧ frames = [] := by
  obtain ⟨hw, _, hframes⟩ := by simpa [execFrame] using hexec
  refine ⟨hw.symm, ?_⟩
  simpa [World.addProcess, find_eq_none hnone] using hframes.symm

/-- A new entry is all that `add_process` comes to. -/
theorem callsBetween_addProcess (w : World) (prog : ProgramConfig) {c : OwnCall}
    (h : c ∈ callsBetween w (w.addProcess prog).1) :
    (∃ o, c = .removed o) ∨ ∃ o, c = .added o := by
  have hnone : eventCalls w (w.addProcess prog).1 = [] :=
    eventCalls_of_trace (World.addProcess_trace w prog)
  rw [callsBetween, hnone, List.nil_append] at h
  exact mem_mapChanges h

/-- `start_process` calls `start` on the object of the entry, and leaves the map and the
configurations alone. -/
theorem startProcess_exec {name : String} {e : Entry} (hwf : s.Wf) (hwf' : s'.Wf)
    (hfind : s.world.find name = some e)
    (hexec : execFrame env rest s.world s.ctl (.startProcess name) =
      some (s'.world, s'.ctl, frames)) :
    Agrees s.world s'.world ∧ frames = [] ∧
      callsBetween s.world s'.world = [.started e.obj] := by
  simp only [execFrame, hfind] at hexec
  obtain ⟨⟨v, r⟩, hv, hexec⟩ := Option.map_eq_some_iff.mp hexec
  obtain ⟨rfl, _, rfl⟩ := by simpa using hexec
  have hsame := World.SameMap.callStart hv
  exact ⟨.of_configs hwf.world hwf'.world hsame (configsFrom_callStart hv), rfl,
    (callsBetween_of_sameMap hsame).trans (callStart_eventCalls hv)⟩

end Loops

/-! ## One statement of the call -/

/-- The call stops only outdated objects, starts only new ones and kills none. -/
structure CallsOk (w₀ : World) (progs : List ProgramConfig) (w : World) (calls : List OwnCall) :
    Prop where
  stopped : ∀ o, .stopped o ∈ calls → ∃ e ∈ w₀.processMap, e.obj = o ∧
    ∀ prog ∈ progs, prog.name = e.name → ¬ w₀.Configured e.obj prog
  started : ∀ o, .started o ∈ calls → w₀.nextObj ≤ o ∧ o < w.nextObj
  killed : ∀ o, .killed o ∈ calls → w.Gone o

/-- The call in progress after a statement of its own. -/
structure Advanced (w₀ : World) (progs : List ProgramConfig) (stack : List Frame) (w : World)
    (log calls : List OwnCall) : Prop where
  progress : ∃ drops core, stack = drops ++ core ∧ (∀ f ∈ drops, f.foreign = true) ∧
    Progress w₀ progs core w (log ++ calls)
  calls : CallsOk w₀ progs w calls

section OwnStep

variable {w₀ : World} {progs done todo : List ProgramConfig} {prog : ProgramConfig} {s s' : Sys}
  {env : Answers} {frame : Frame} {rest frames core : List Frame} {e : Entry}
  {pre left : List Entry} {log calls : List OwnCall}

theorem CallsOk.nil (w : World) : CallsOk w₀ progs w [] where
  stopped := fun _ h => absurd h List.not_mem_nil
  started := fun _ h => absurd h List.not_mem_nil
  killed := fun _ h => absurd h List.not_mem_nil

/-- Calls of `remove_process` for an outdated entry. -/
theorem CallsOk.of_removal {w : World} (he : e ∈ w₀.processMap)
    (hold : ∀ prog ∈ progs, prog.name = e.name → ¬ w₀.Configured e.obj prog)
    (hcalls : ∀ c ∈ calls, c = .stopped e.obj ∨ c = .removed e.obj) :
    CallsOk w₀ progs w calls := by
  refine ⟨?_, ?_, ?_⟩
  · intro o ho
    rcases hcalls _ ho with heq | heq
    · exact ⟨e, he, (OwnCall.stopped.inj heq).symm, hold⟩
    · cases heq
  · intro o ho
    rcases hcalls _ ho with heq | heq <;> cases heq
  · intro o ho
    rcases hcalls _ ho with heq | heq <;> cases heq

theorem startsNothing_of_removal
    (hcalls : ∀ c ∈ calls, c = .stopped e.obj ∨ c = .removed e.obj) : StartsNothing calls := by
  intro o ho
  rcases hcalls _ ho with heq | heq <;> cases heq

/-- A statement that does nothing to objects and leaves the world as it is. -/
theorem Advanced.quiet {w : World} {stack : List Frame} (h : Progress w₀ progs stack w log) :
    Advanced w₀ progs stack w log [] :=
  ⟨⟨[], stack, rfl, List.forall_mem_nil _, (List.append_nil log).symm ▸ h⟩, .nil w⟩

/-- A turn of the first loop. -/
theorem advance_syncRemove (hwf : s.Wf) (h : Removing w₀ progs pre left s.world)
    (hexec : execFrame env rest s.world s.ctl (.syncRemove (left.head?.map (·.node)) progs) =
      some (s'.world, s'.ctl, frames)) :
    Advanced w₀ progs (frames ++ [.syncAdd progs]) s'.world log
      (callsBetween s.world s'.world) := by
  obtain ⟨hw, hturn⟩ := syncRemove_exec hwf.world h.now hexec
  rw [hw, callsBetween_self]
  rcases hturn with ⟨rfl, rfl⟩ | ⟨e, left', rfl, ⟨hwant, rfl⟩ | ⟨hno, rfl⟩⟩
  · exact .quiet (.adding (List.nil_append _).symm h.done)
  · exact .quiet (.removing (h.pass hwant))
  · exact .quiet (.discarding h hno (.inl rfl))

/-- The removal that such a turn began. -/
theorem advance_discarding (hwf : s.Wf) (hwf' : s'.Wf)
    (h : Removing w₀ progs pre (e :: left) s.world) (hno : wanted progs e = false)
    (hf : Removes e frame) (hs : s.stack = frame :: rest)
    (hexec : execFrame env rest s.world s.ctl frame = some (s'.world, s'.ctl, frames)) :
    Advanced w₀ progs
      (frames ++ [.syncRemove (left.head?.map (·.node)) progs, .syncAdd progs]) s'.world log
      (callsBetween s.world s'.world) := by
  have he : e ∈ s.world.processMap := by
    rw [h.now]
    simp
  have he₀ : e ∈ w₀.processMap := by
    rw [h.before]
    simp
  have hold : ∀ prog ∈ progs, prog.name = e.name → ¬ w₀.Configured e.obj prog := by
    intro prog hprog hname
    simp only [wanted, List.any_eq_false, decide_eq_true_eq] at hno
    exact absurd hname (hno prog hprog)
  rcases removes_exec hwf hwf' he hf hs hexec with ⟨frame', hf', rfl, hagree, hcalls⟩ |
      ⟨hdrops, herased, _, hcalls⟩
  · have hcalls' : ∀ c ∈ callsBetween s.world s'.world,
        c = .stopped e.obj ∨ c = .removed e.obj := fun c hc => .inl (hcalls c hc)
    exact ⟨⟨[], _, rfl, List.forall_mem_nil _, .discarding (h.agrees hagree) hno hf'⟩,
      .of_removal he₀ hold hcalls'⟩
  · exact ⟨⟨frames, _, rfl, hdrops, .removing (h.discard hno hwf.world herased)⟩,
      .of_removal he₀ hold hcalls⟩

/-- An entry of the map with the name of the next program was there before the call. -/
theorem Adding.old (h : Adding w₀ done (prog :: todo) none s.world log)
    (hnames : ((done ++ prog :: todo).map (·.name)).Nodup) (he : e ∈ s.world.processMap)
    (hname : e.name = prog.name) :
    e ∈ w₀.processMap ∧ s.world.configOf e.obj = w₀.configOf e.obj := by
  rcases h.covered e he with hcur | ⟨hold, _, hsame⟩ | ⟨prog', hprog', hset⟩
  · cases hcur
  · exact ⟨hold, hsame⟩
  · have hne := name_ne_of_nodup hnames prog' (List.mem_append_left _ hprog')
    exact absurd (hset.name.symm.trans hname) hne

/-- A turn of the second loop. -/
theorem advance_syncAdd (hwf : s.Wf) (hsplit : progs = done ++ todo)
    (hnames : (progs.map (·.name)).Nodup) (h : Adding w₀ done todo none s.world log)
    (hexec : execFrame env rest s.world s.ctl (.syncAdd todo) = some (s'.world, s'.ctl, frames)) :
    Advanced w₀ progs frames s'.world log (callsBetween s.world s'.world) := by
  obtain ⟨hw, hturn⟩ := syncAdd_exec hexec
  rw [hw, callsBetween_self]
  rcases hturn with ⟨rfl, rfl⟩ | ⟨prog, todo', rfl, ⟨hnone, rfl⟩ | ⟨e, he, hname, hentry⟩⟩
  · rw [List.append_nil] at hsplit
    exact .quiet (.finished (hsplit ▸ h))
  · obtain ⟨hadd, hrep⟩ := h.free hnone
    exact .quiet (.creating hsplit hadd hnone hrep)
  · rcases hentry with ⟨hcfg, rfl⟩ | ⟨hne, rfl⟩
    · exact .quiet (.adding (by simp [hsplit]) (h.keep hwf.world he hname hcfg))
    · obtain ⟨he₀, hsame⟩ := h.old (hsplit ▸ hnames) he hname
      have hne₀ := mt (World.Configured.congr · hsame) hne
      exact .quiet (.replacing hsplit h he he₀ hname hne₀ (.inl (by rw [hname])))

/-- The removal of an entry with another configuration. -/
theorem advance_replacing (hwf₀ : w₀.Wf) (hwf : s.Wf) (hwf' : s'.Wf)
    (hsplit : progs = done ++ prog :: todo) (hnames : (progs.map (·.name)).Nodup)
    (h : Adding w₀ done (prog :: todo) none s.world log) (he : e ∈ s.world.processMap)
    (he₀ : e ∈ w₀.processMap) (hname : e.name = prog.name) (hcfg : ¬ w₀.Configured e.obj prog)
    (hf : Removes e frame) (hs : s.stack = frame :: rest)
    (hexec : execFrame env rest s.world s.ctl frame = some (s'.world, s'.ctl, frames)) :
    Advanced w₀ progs
      (frames ++ [.addProcess prog, .startProcess prog.name, .syncAdd todo]) s'.world log
      (callsBetween s.world s'.world) := by
  have hold : ∀ prog' ∈ progs, prog'.name = e.name → ¬ w₀.Configured e.obj prog' := by
    intro prog' hprog' hname'
    have heq : prog' = prog := List.inj_on_of_nodup_map hnames hprog' (by simp [hsplit])
      (hname'.trans hname)
    rw [heq]
    exact hcfg
  rcases removes_exec hwf hwf' he hf hs hexec with ⟨frame', hf', rfl, hagree, hcalls⟩ |
      ⟨hdrops, herased, hremoved, hcalls⟩
  · have hcalls' : ∀ c ∈ callsBetween s.world s'.world,
        c = .stopped e.obj ∨ c = .removed e.obj := fun c hc => .inl (hcalls c hc)
    have hadd := h.agrees hagree (startsNothing_of_removal hcalls')
    exact ⟨⟨[], _, rfl, List.forall_mem_nil _,
      .replacing hsplit hadd (hagree.processMap ▸ he) he₀ hname hcfg hf'⟩,
      .of_removal he₀ hold hcalls'⟩
  · obtain ⟨hadd, hfree⟩ := h.discard hwf.world (hsplit ▸ hnames) he hname herased
      (startsNothing_of_removal hcalls)
    have hrep : Replaced w₀ (log ++ callsBetween s.world s'.world) prog := by
      intro e₀ he₀' hname₀
      obtain rfl := hwf₀.entry_ext_name he₀' he₀ (hname₀.trans hname.symm)
      exact ⟨hcfg, List.mem_append_right _ hremoved⟩
    exact ⟨⟨frames, _, rfl, hdrops, .creating hsplit hadd hfree hrep⟩,
      .of_removal he₀ hold hcalls⟩

/-- `add_process` for a name that is free. -/
theorem advance_creating (hwf : s.Wf) (hsplit : progs = done ++ prog :: todo)
    (h : Adding w₀ done todo none s.world log)
    (hnone : ∀ e ∈ s.world.processMap, e.name ≠ prog.name) (hrep : Replaced w₀ log prog)
    (hlog : ∀ o, .started o ∈ log → o < s.world.nextObj)
    (hexec : execFrame env rest s.world s.ctl (.addProcess prog) =
      some (s'.world, s'.ctl, frames)) :
    Advanced w₀ progs (frames ++ [.startProcess prog.name, .syncAdd todo]) s'.world log
      (callsBetween s.world s'.world) := by
  obtain ⟨hw, rfl⟩ := addProcess_exec hnone hexec
  rw [hw]
  have hcalls := @callsBetween_addProcess s.world prog
  have hquiet : StartsNothing (callsBetween s.world (s.world.addProcess prog).1) := by
    intro o ho
    rcases hcalls ho with ⟨_, heq⟩ | ⟨_, heq⟩ <;> cases heq
  refine ⟨⟨[], _, rfl, List.forall_mem_nil _,
    .starting hsplit (h.add hwf.world hnone hquiet) ?_ rfl ?_ h.nextObj ?_ hrep.append⟩, ⟨?_, ?_, ?_⟩⟩
  · exact (mem_addProcess hnone).mpr (.inl rfl)
  · exact configOf_addProcess_new s.world prog
  · intro hmem
    rcases List.mem_append.mp hmem with hmem | hmem
    · exact Nat.lt_irrefl _ (hlog _ hmem)
    · exact hquiet _ hmem
  · intro o ho
    rcases hcalls ho with ⟨_, heq⟩ | ⟨_, heq⟩ <;> cases heq
  · exact fun o ho => absurd ho (hquiet o)
  · intro o ho
    rcases hcalls ho with ⟨_, heq⟩ | ⟨_, heq⟩ <;> cases heq

/-- The start of the new process. -/
theorem advance_starting (hwf : s.Wf) (hwf' : s'.Wf) (hsplit : progs = done ++ prog :: todo)
    (h : Adding w₀ done todo (some e) s.world log) (he : e ∈ s.world.processMap)
    (hname : e.name = prog.name) (hcfg : s.world.configOf e.obj = some prog)
    (hnew : w₀.nextObj ≤ e.obj) (hnot : .started e.obj ∉ log) (hrep : Replaced w₀ log prog)
    (hexec : execFrame env rest s.world s.ctl (.startProcess prog.name) =
      some (s'.world, s'.ctl, frames)) :
    Advanced w₀ progs (frames ++ [.syncAdd todo]) s'.world log
      (callsBetween s.world s'.world) := by
  have hfind : s.world.find prog.name = some e := hname ▸ hwf.world.find_eq he
  obtain ⟨hagree, rfl, hcalls⟩ := startProcess_exec hwf hwf' hfind hexec
  rw [hcalls]
  refine ⟨⟨[], _, rfl, List.forall_mem_nil _, .adding (by simp [hsplit])
    (h.start hwf.world he hname hcfg hnew hnot hrep hagree)⟩, ⟨by simp, ?_, by simp⟩⟩
  intro o ho
  obtain rfl : o = e.obj := by simpa using ho
  obtain ⟨p, hp, _⟩ := hwf.world.live e he
  exact ⟨hnew, hagree.nextObj.symm ▸ hwf.world.objLt _ _ hp⟩

/-- **A statement of the call advances the call.** -/
theorem Progress.advance (hwf₀ : w₀.Wf) (hnames : (progs.map (·.name)).Nodup) (hwf : s.Wf)
    (hwf' : s'.Wf) (h : Progress w₀ progs (frame :: core) s.world log)
    (hlog : ∀ o, .started o ∈ log → o < s.world.nextObj) (hs : s.stack = frame :: rest)
    (hexec : execFrame env rest s.world s.ctl frame = some (s'.world, s'.ctl, frames)) :
    Advanced w₀ progs (frames ++ core) s'.world log (callsBetween s.world s'.world) := by
  cases h with
  | removing hrem => exact advance_syncRemove hwf hrem hexec
  | discarding hrem hno hf => exact advance_discarding hwf hwf' hrem hno hf hs hexec
  | adding hsplit hadd =>
      rw [List.append_nil]
      exact advance_syncAdd hwf hsplit hnames hadd hexec
  | replacing hsplit hadd he he₀ hname hcfg hf =>
      exact advance_replacing hwf₀ hwf hwf' hsplit hnames hadd he he₀ hname hcfg hf hs hexec
  | creating hsplit hadd hnone hrep =>
      exact advance_creating hwf hsplit hadd hnone hrep hlog hexec
  | starting hsplit hadd he hname hcfg hnew hnot hrep =>
      exact advance_starting hwf hwf' hsplit hadd he hname hcfg hnew hnot hrep hexec

end OwnStep

end Supervisorcpp
