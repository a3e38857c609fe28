/-
# What the client is told about a reload

The handler of `supervisor.reloadConfig` calls `reload_config_` and answers success.
`reload_config_` returns nothing: its checks return early, and its `catch` logs the failure of
`parse_file`, or the exception that has left a nested wait of `sync_processes`, and goes on. So the
answer says nothing about what was done.

The call is followed from its first statement to the answer, whatever its nested waits handle, for
every list of new programs: a name may be defined in several files.

Success is reported faithfully exactly if the files were parsed and the map was synchronised with
them. What can go wrong in between is recorded beside the machine (`Disturbance`): an exception from
a nested wait ends the call, and another reload may begin underneath it when SIGTERM has cleared its
guard.
-/
import Supervisorcpp.Manager.SyncRuns

namespace Supervisorcpp

/-! ## The call and its answer -/

/-- What `parse_file` returned to `reload_config_`; `none` when it was not called. -/
def parseResult (c : Ctl) (env : Answers) : Option (Except String Configuration) :=
  if c.config.configFile = "" ∨ c.daemonState = .restarting then none else some env.parsed

/-- The end of a request handler: the answer is success, or a fault. -/
def replyFrame (request : Request) : Option String → Frame
  | none => .answer request
  | some what => .fault request what

theorem step_replyFrame {s : Sys} {env : Answers} {rest : List Frame} {request : Request}
    {fault : Option String} (hs : s.stack = replyFrame request fault :: rest) :
    step s (.exec env) = some ⟨s.world.note (.answered request fault), s.ctl, rest⟩ := by
  cases fault with
  | none =>
      unfold step
      rw [hs]
      rfl
  | some what =>
      unfold step
      rw [hs]
      rfl

theorem replyFrame_eq_answer {request : Request} {fault : Option String}
    (h : replyFrame request fault = .answer request) : fault = none := by
  cases fault with
  | none => rfl
  | some what => cases h

/-- `config_` and every process are what they were. -/
structure Unchanged (s₀ s : Sys) : Prop where
  config : s.ctl.config = s₀.ctl.config
  processMap : s.world.processMap = s₀.world.processMap
  objs : ∀ e ∈ s₀.world.processMap, s.world.objs e.obj = s₀.world.objs e.obj

/-- The answer is success only if the files were parsed and `process_map_` was synchronised with
them; otherwise it is a fault, and nothing has changed. -/
def Faithful (s₀ : Sys) (parsed : Option (Except String Configuration)) (s : Sys) :
    Option String → Prop
  | none => ∃ newConfig, parsed = some (.ok newConfig) ∧ InSync newConfig.programs s.world
  | some _ => Unchanged s₀ s

/-- Programs of one name compare equal. -/
def Consistent (progs : List ProgramConfig) : Prop :=
  ∀ prog ∈ progs, ∀ prog' ∈ progs, prog'.name = prog.name → prog'.Same prog

/-- The files were parsed, and one map can have all their programs. -/
def Loads (parsed : Option (Except String Configuration)) : Prop :=
  ∃ newConfig, parsed = some (.ok newConfig) ∧ Consistent newConfig.programs

/-- What can happen to a call in its nested waits. -/
inductive Disturbance where
  /-- an exception has reached the `catch` of `reload_config_` -/
  | escaped (what : String)
  /-- another reload has begun to synchronise -/
  | overlapped
  deriving DecidableEq, Repr

/-- What this step does to the call that returns to `below`. -/
def disturbances (below : List Frame) (s : Sys) : Input → List Disturbance
  | .exec env =>
    match s.stack, parseResult s.ctl env with
    | .reloadConfig :: _, some (.ok _) => [.overlapped]
    | _, _ => []
  | .dispatch (.throwingRead what) =>
    if (.reloadFailed :: below) <:+ unwind what s.stack then [.escaped what] else []
  | _ => []

/-- The states, with the log, that the call goes through from `s₁`, behind its first statement,
until it has returned to `below`. -/
def DuringReload (s₁ : Sys) (below : List Frame) (s : Sys × List Disturbance) : Prop :=
  Machine.Reach (Machine.logged step (disturbances below)) (fun s _ => Inside below s.1)
    (fun s => s = (s₁, [])) s

/-- `reload_config_` leaves the processes and `config_` alone, and begins to synchronise exactly
when `parse_file` has returned a configuration. -/
theorem reloadConfig_result {env : Answers} {w w' : World} {c c' : Ctl} {rest frames : List Frame}
    (h : execFrame env rest w c .reloadConfig = some (w', c', frames)) :
    w' = w ∧ c'.config = c.config ∧
      ((frames = [] ∧ ∀ newConfig, parseResult c env ≠ some (.ok newConfig)) ∨
        ∃ newConfig, parseResult c env = some (.ok newConfig) ∧
          frames = syncFrames w newConfig.programs ++ [.reloadDone newConfig]) := by
  unfold parseResult
  obtain ⟨hw, ⟨hcheck, rfl, rfl⟩ | ⟨hfile, hbusy, hparse⟩⟩ := reloadConfig_cases h
  · rw [if_pos hcheck]
    exact ⟨hw, rfl, .inl ⟨rfl, nofun⟩⟩
  · rw [if_neg (not_or.mpr ⟨hfile, hbusy⟩)]
    rcases hparse with ⟨⟨what, hwhat⟩, rfl, rfl⟩ | ⟨newConfig, hok, rfl, rfl⟩
    · refine ⟨hw, rfl, .inl ⟨rfl, ?_⟩⟩
      rw [hwhat]
      exact nofun
    · exact ⟨hw, rfl, .inr ⟨newConfig, congrArg some hok, rfl⟩⟩

/-! ## How far the call has come -/

/-- `prog` has an entry that was made, or left alone, for a program of `done`. -/
def Covered (done : List ProgramConfig) (w : World) (prog : ProgramConfig) : Prop :=
  ∃ e ∈ w.processMap, e.name = prog.name ∧
    ∃ prog' ∈ done, prog'.name = prog.name ∧ w.Configured e.obj prog'

/-- The map has only wanted names, and every program of `done` is covered. -/
structure Adds (progs done : List ProgramConfig) (w : World) : Prop where
  wanted : ∀ e ∈ w.processMap, wanted progs e = true
  covers : ∀ prog ∈ done, Covered done w prog

/-- `prog` has no entry; every other program of `done` is covered. -/
structure Vacant (progs done : List ProgramConfig) (prog : ProgramConfig) (w : World) : Prop where
  wanted : ∀ e ∈ w.processMap, Supervisorcpp.wanted progs e = true
  free : ∀ e ∈ w.processMap, e.name ≠ prog.name
  covers : ∀ other ∈ done, other.name ≠ prog.name → Covered done w other

/-- The statements that are left of a `sync_processes`, and the map they find. -/
inductive Reconciling (progs : List ProgramConfig) : List Frame → World → Prop
  | removing {pre todo : List Entry} {w : World} : w.processMap = pre ++ todo →
      (∀ e ∈ pre, wanted progs e = true) →
      Reconciling progs [.syncRemove (todo.head?.map (·.node)) progs, .syncAdd progs] w
  | discarding {pre todo : List Entry} {e : Entry} {frame : Frame} {w : World} :
      w.processMap = pre ++ e :: todo → (∀ e ∈ pre, wanted progs e = true) →
      wanted progs e = false → Removes e frame →
      Reconciling progs [frame, .syncRemove (todo.head?.map (·.node)) progs, .syncAdd progs] w
  | adding {done todo : List ProgramConfig} {w : World} : progs = done ++ todo →
      Adds progs done w → Reconciling progs [.syncAdd todo] w
  | replacing {done todo : List ProgramConfig} {prog : ProgramConfig} {e : Entry} {frame : Frame}
      {w : World} : progs = done ++ prog :: todo → Adds progs done w → e ∈ w.processMap →
      e.name = prog.name → ¬ w.Configured e.obj prog → Removes e frame →
      Reconciling progs [frame, .addProcess prog, .startProcess prog.name, .syncAdd todo] w
  | creating {done todo : List ProgramConfig} {prog : ProgramConfig} {w : World} :
      progs = done ++ prog :: todo → Vacant progs done prog w →
      Reconciling progs [.addProcess prog, .startProcess prog.name, .syncAdd todo] w
  | starting {done todo : List ProgramConfig} {prog : ProgramConfig} {w : World} :
      progs = done ++ prog :: todo → Adds progs (done ++ [prog]) w →
      Reconciling progs [.startProcess prog.name, .syncAdd todo] w
  | finished {w : World} : Adds progs progs w → Reconciling progs [] w

/-- The call waits for a process to stop. -/
def waits : List Frame → Bool
  | .waitStop _ _ _ (.erase _) :: _ => true
  | _ => false

/-- Statements that let go of objects, and the one behind which nothing follows. -/
def Frame.letsGo : Frame → Bool
  | .release _ | .destructorWait _ | .undefined => true
  | _ => false

section Maps

variable {w w' : World} {progs done : List ProgramConfig} {prog : ProgramConfig}
  {e : Entry}

theorem Covered.agrees (h : Covered done w prog) (hagree : Agrees w w') : Covered done w' prog := by
  obtain ⟨e, he, hname, prog', hprog', hsame, hcfg⟩ := h
  exact ⟨e, hagree.processMap.symm ▸ he, hname, prog', hprog', hsame,
    hcfg.congr (hagree.configs e he)⟩

theorem Covered.append (h : Covered done w prog) (more : List ProgramConfig) :
    Covered (done ++ more) w prog := by
  obtain ⟨e, he, hname, prog', hprog', hsame, hcfg⟩ := h
  exact ⟨e, he, hname, prog', List.mem_append_left _ hprog', hsame, hcfg⟩

/-- A program of another name stays covered when an entry is taken out. -/
theorem Covered.erased (h : Covered done w prog) (hwf : w.Wf) (he : e ∈ w.processMap)
    (hname : prog.name ≠ e.name) (herased : Erased e w w') : Covered done w' prog := by
  obtain ⟨e', he', hname', prog', hprog', hsame, hcfg⟩ := h
  have hin : e' ∈ w'.processMap := by
    apply herased.kept hwf he he'
    rw [hname']
    exact hname
  exact ⟨e', hin, hname', prog', hprog', hsame, hcfg.congr (herased.configs e' hin)⟩

/-- A program stays covered when a name that was free gets an entry. -/
theorem Covered.added (h : Covered done w prog) (hwf : w.Wf) {new : ProgramConfig}
    (hfree : ∀ e ∈ w.processMap, e.name ≠ new.name) : Covered done (w.addProcess new).1 prog := by
  obtain ⟨e, he, hname, prog', hprog', hsame, hcfg⟩ := h
  exact ⟨e, (mem_addProcess hfree).mpr (.inr he), hname, prog', hprog', hsame,
    hcfg.congr (configOf_addProcess hwf he)⟩

theorem Adds.agrees (h : Adds progs done w) (hagree : Agrees w w') : Adds progs done w' where
  wanted := hagree.processMap.symm ▸ h.wanted
  covers := fun prog hprog => (h.covers prog hprog).agrees hagree

theorem Vacant.agrees (h : Vacant progs done prog w) (hagree : Agrees w w') :
    Vacant progs done prog w' where
  wanted := hagree.processMap.symm ▸ h.wanted
  free := hagree.processMap.symm ▸ h.free
  covers := fun other hother hne => (h.covers other hother hne).agrees hagree

/-- An entry with the configuration of the next program is left alone. -/
theorem Adds.keep (h : Adds progs done w) (he : e ∈ w.processMap) (hname : e.name = prog.name)
    (hcfg : w.Configured e.obj prog) : Adds progs (done ++ [prog]) w where
  wanted := h.wanted
  covers := by
    intro other hother
    rcases List.mem_append.mp hother with hdone | hlast
    · exact (h.covers other hdone).append [prog]
    · obtain rfl := List.mem_singleton.mp hlast
      exact ⟨e, he, hname, other, by simp, rfl, hcfg⟩

/-- The entry of the next program is taken out. -/
theorem Adds.discard (h : Adds progs done w) (hwf : w.Wf) (he : e ∈ w.processMap)
    (hname : e.name = prog.name) (herased : Erased e w w') : Vacant progs done prog w' where
  wanted := fun e' he' => h.wanted e' (herased.mem.mp he').1
  free := hname ▸ herased.free hwf he
  covers := by
    intro other hother hne
    rw [← hname] at hne
    exact (h.covers other hother).erased hwf he hne herased

theorem Adds.vacant (h : Adds progs done w) (hnone : ∀ e ∈ w.processMap, e.name ≠ prog.name) :
    Vacant progs done prog w :=
  ⟨h.wanted, hnone, fun other hother _ => h.covers other hother⟩

/-- The next program gets its entry. -/
theorem Vacant.add (h : Vacant progs done prog w) (hwf : w.Wf) (hprog : prog ∈ progs) :
    Adds progs (done ++ [prog]) (w.addProcess prog).1 where
  wanted := by
    intro e he
    rcases (mem_addProcess h.free).mp he with rfl | he
    · exact List.any_eq_true.mpr ⟨prog, hprog, by simp⟩
    · exact h.wanted e he
  covers := by
    intro other hother
    by_cases hname : other.name = prog.name
    · exact ⟨_, (mem_addProcess h.free).mpr (.inl rfl), hname.symm, prog, by simp, hname.symm,
        .of_eq (configOf_addProcess_new w prog)⟩
    · rcases List.mem_append.mp hother with hdone | hlast
      · exact ((h.covers other hdone hname).added hwf h.free).append [prog]
      · exact absurd (congrArg (·.name) (List.mem_singleton.mp hlast)) hname

/-- The map that is left has all the programs when they are consistent. -/
theorem Adds.inSync (h : Adds progs progs w) (hprogs : Consistent progs) : InSync progs w where
  wanted := h.wanted
  found := by
    intro prog hprog
    obtain ⟨e, he, hname, prog', hprog', hsame, hcfg⟩ := h.covers prog hprog
    exact ⟨e, he, hname, hcfg.of_same (hprogs prog hprog prog' hprog' hsame)⟩

/-- No map has two programs of one name that differ. -/
theorem InSync.consistent (h : InSync progs w) (hwf : w.Wf) : Consistent progs := by
  intro prog hprog prog' hprog' hname
  obtain ⟨e, he, hename, hcfg⟩ := h.found prog hprog
  obtain ⟨e', he', hename', hcfg'⟩ := h.found prog' hprog'
  obtain rfl := hwf.entry_ext_name he he' (hename.trans (hname.symm.trans hename'.symm))
  exact hcfg.same hcfg'

end Maps

section Calls

variable {w w' : World} {progs : List ProgramConfig} {core frames rest : List Frame} {frame : Frame}
  {s s' : Sys} {env : Answers} {c c' : Ctl}

/-- What others do leaves the call where it is. -/
theorem Reconciling.agrees (h : Reconciling progs core w) (hagree : Agrees w w') :
    Reconciling progs core w' := by
  have hmap := hagree.processMap
  cases h with
  | removing hsplit hpre => exact .removing (hmap.trans hsplit) hpre
  | discarding hsplit hpre hno hf => exact .discarding (hmap.trans hsplit) hpre hno hf
  | adding hsplit hadds => exact .adding hsplit (hadds.agrees hagree)
  | replacing hsplit hadds he hname hcfg hf =>
      have hcfg' := mt (World.Configured.congr · (hagree.configs _ he).symm) hcfg
      exact .replacing hsplit (hadds.agrees hagree) (hmap ▸ he) hname hcfg' hf
  | creating hsplit hvacant => exact .creating hsplit (hvacant.agrees hagree)
  | starting hsplit hadds => exact .starting hsplit (hadds.agrees hagree)
  | finished hadds => exact .finished (hadds.agrees hagree)

theorem removes_no_catch {e : Entry} (h : Removes e frame) : frame.catches = false := by
  rcases h with rfl | ⟨deadline, phase, rfl⟩ <;> rfl

theorem Reconciling.no_catch (h : Reconciling progs core w) : ∀ f ∈ core, f.catches = false := by
  cases h with
  | discarding _ _ _ hf =>
      refine List.forall_mem_cons.mpr ⟨removes_no_catch hf, ?_⟩
      simp [Frame.catches]
  | replacing _ _ _ _ _ hf =>
      refine List.forall_mem_cons.mpr ⟨removes_no_catch hf, ?_⟩
      simp [Frame.catches]
  | _ => simp [Frame.catches]

/-- While the call waits for a process, that process is one the new programs do not have. -/
theorem Reconciling.not_inSync (h : Reconciling progs core w) (hwf : w.Wf)
    (hwaits : waits core = true) : ¬ InSync progs w := by
  intro hsync
  cases h with
  | @discarding pre todo e frame _ hsplit _ hno hf =>
      have hwant := hsync.wanted e (by simp [hsplit])
      rw [hno] at hwant
      cases hwant
  | @replacing done todo prog e frame _ hsplit _ he hname hcfg hf =>
      obtain ⟨e', he', hname', hcfg'⟩ := hsync.found prog (by simp [hsplit])
      obtain rfl := hwf.entry_ext_name he he' (hname.trans hname'.symm)
      exact hcfg hcfg'
  | _ => cases hwaits

/-- An event loop of the call itself is one in which it waits for a process. -/
theorem Reconciling.waits_of_looping (h : Reconciling progs core w) {now : Int}
    (hcore : core ≠ []) (hloop : looping now (core ++ rest) = true) : waits core = true := by
  cases h with
  | discarding _ _ _ hf =>
      rcases hf with rfl | ⟨deadline, phase, rfl⟩
      · cases hloop
      · rfl
  | replacing _ _ _ _ _ hf =>
      rcases hf with rfl | ⟨deadline, phase, rfl⟩
      · cases hloop
      · rfl
  | finished _ => exact absurd rfl hcore
  | _ => cases hloop

theorem eraseFrames_letsGo {node : NodeId} {held : List Frame}
    (hheld : ∀ f ∈ held, f.letsGo = true) : ∀ f ∈ (w.eraseFrames node held).2, f.letsGo = true :=
  forall_eraseFrames hheld (fun _ => rfl) rfl

/-- What a statement of `remove_process` leaves to do: the rest of the wait, or an object to let go
of. -/
theorem removes_frames {e : Entry} (hf : Removes e frame)
    (hexec : execFrame env rest w c frame = some (w', c', frames)) :
    (∃ f, waits [f] = true ∧ frames = [f]) ∨ ∀ f ∈ frames, f.letsGo = true := by
  rcases hf with rfl | ⟨deadline, phase, rfl⟩
  · obtain ⟨r, hr, hexec⟩ := Option.map_eq_some_iff.mp hexec
    obtain ⟨rfl, _, rfl⟩ := by simpa using hexec
    rcases removeProcess_cases hr with ⟨_, _, hnil⟩ | ⟨e', p, _, _, ⟨_, _, hwait⟩ | ⟨v, _, heq⟩⟩
    · right
      rw [hnil]
      exact List.forall_mem_nil _
    · exact .inl ⟨_, rfl, hwait⟩
    · right
      rw [show r.2 = (v.eraseFrames e'.node []).2 from congrArg Prod.snd heq]
      exact eraseFrames_letsGo (List.forall_mem_nil _)
  · have hheld : ∀ f ∈ [Frame.release e.obj], f.letsGo = true := by simp [Frame.letsGo]
    cases phase with
    | runFor until_ =>
        left
        simp only [execFrame] at hexec
        split at hexec
        · obtain ⟨_, _, rfl⟩ := by simpa using hexec
          exact ⟨_, rfl, rfl⟩
        · cases hexec
    | check =>
        simp only [execFrame, stopProcessReturns] at hexec
        split at hexec
        · left
          split at hexec
          · obtain ⟨_, _, rfl⟩ := by simpa using hexec
            exact ⟨_, rfl, rfl⟩
          · obtain ⟨_, _, rfl⟩ := by simpa using hexec
            exact ⟨_, rfl, rfl⟩
        · right
          obtain ⟨_, _, rfl⟩ := by simpa using hexec
          exact eraseFrames_letsGo hheld

/-- Letting go of objects does nothing else. -/
theorem letsGo_frames (hf : frame.letsGo = true)
    (hexec : execFrame env rest w c frame = some (w', c', frames)) :
    ∀ f ∈ frames, f.letsGo = true := by
  cases frame with
  | release o => grind [execFrame, Option.map_eq_some_iff, Frame.letsGo, releaseProcess]
  | destructorWait o => grind [execFrame, Option.map_eq_some_iff, Frame.letsGo]
  | undefined => cases hexec
  | _ => cases hf

theorem foreign_of_letsGo (hf : frame.letsGo = true) : frame.foreign = true := by
  cases frame <;> first | rfl | cases hf

theorem not_looping_letsGo (now : Int) (hf : frame.letsGo = true) :
    looping now (frame :: rest) = false := by
  cases frame <;> first | rfl | cases hf

end Calls

/-! ## One statement of the call -/

section OwnStatements

variable {progs : List ProgramConfig} {core frames rest : List Frame} {frame : Frame}
  {s s' : Sys} {env : Answers} {e : Entry}

/-- A statement of `remove_process` goes on waiting, or takes the entry out and leaves an object to
let go of. -/
theorem removes_turn (hwf : s.Wf) (hwf' : s'.Wf) (he : e ∈ s.world.processMap)
    (hf : Removes e frame) (hs : s.stack = frame :: rest)
    (hexec : execFrame env rest s.world s.ctl frame = some (s'.world, s'.ctl, frames)) :
    (∃ frame', Removes e frame' ∧ frames = [frame'] ∧ Agrees s.world s'.world) ∨
      ((∀ f ∈ frames, f.letsGo = true) ∧ Erased e s.world s'.world) := by
  rcases removes_exec hwf hwf' he hf hs hexec with ⟨frame', hf', hframes, hagree, _⟩ |
      ⟨hforeign, herased, _⟩
  · exact .inl ⟨frame', hf', hframes, hagree⟩
  · refine .inr ⟨?_, herased⟩
    rcases removes_frames hf hexec with ⟨f, hwaits, rfl⟩ | hdrops
    · -- the wait would be one of the call
      have hforeign := hforeign f List.mem_cons_self
      cases f with
      | waitStop o deadline phase next =>
          cases next with
          | erase node => cases hforeign
          | return_ => cases hwaits
      | _ => cases hwaits
    · exact hdrops

/-- **A statement of the call advances the call.** -/
theorem Reconciling.advance (h : Reconciling progs (frame :: core) s.world) (hwf : s.Wf)
    (hwf' : s'.Wf) (hs : s.stack = frame :: rest)
    (hexec : execFrame env rest s.world s.ctl frame = some (s'.world, s'.ctl, frames)) :
    ∃ drops core', frames ++ core = drops ++ core' ∧ (∀ f ∈ drops, f.letsGo = true) ∧
      Reconciling progs core' s'.world := by
  have hquiet : ∀ {core'}, frames ++ core = core' → Reconciling progs core' s'.world →
      ∃ drops core', frames ++ core = drops ++ core' ∧ (∀ f ∈ drops, f.letsGo = true) ∧
        Reconciling progs core' s'.world :=
    fun {core'} heq h => ⟨[], core', heq, List.forall_mem_nil _, h⟩
  cases h with
  | @removing pre todo _ hsplit hpre =>
      obtain ⟨hw, hturn⟩ := syncRemove_exec hwf.world hsplit hexec
      rw [← hw] at hsplit
      rcases hturn with ⟨rfl, rfl⟩ | ⟨e, todo', rfl, ⟨hwant, rfl⟩ | ⟨hno, rfl⟩⟩
      · refine hquiet rfl (.adding (List.nil_append _).symm ⟨?_, List.forall_mem_nil _⟩)
        rw [hsplit, List.append_nil]
        exact hpre
      · have hmap : s'.world.processMap = (pre ++ [e]) ++ todo' := by simp [hsplit]
        refine hquiet rfl (.removing hmap ?_)
        intro e' he'
        rcases List.mem_append.mp he' with he' | he'
        · exact hpre e' he'
        · obtain rfl := List.mem_singleton.mp he'
          exact hwant
      · exact hquiet rfl (.discarding hsplit hpre hno (.inl rfl))
  | @discarding pre todo e _ _ hsplit hpre hno hf =>
      have he : e ∈ s.world.processMap := by
        rw [hsplit]
        simp
      rcases removes_turn hwf hwf' he hf hs hexec with ⟨frame', hf', rfl, hagree⟩ |
          ⟨hdrops, herased⟩
      · exact hquiet rfl (.discarding (hagree.processMap.trans hsplit) hpre hno hf')
      · have hmap : s'.world.processMap = pre ++ todo := by
          have hnodes := hwf.world.nodes
          rw [hsplit] at hnodes
          rw [herased.processMap, hsplit, filter_node_append hnodes]
        exact ⟨frames, _, rfl, hdrops, .removing hmap hpre⟩
  | @adding done todo _ hsplit hadds =>
      obtain ⟨hw, hturn⟩ := syncAdd_exec hexec
      rw [← hw] at hadds hturn
      rcases hturn with ⟨rfl, rfl⟩ | ⟨prog, todo', rfl, ⟨hnone, rfl⟩ | ⟨e, he, hname, hentry⟩⟩
      · rw [List.append_nil] at hsplit
        exact hquiet rfl (.finished (hsplit ▸ hadds))
      · exact hquiet rfl (.creating hsplit (hadds.vacant hnone))
      · rcases hentry with ⟨hcfg, rfl⟩ | ⟨hne, rfl⟩
        · exact hquiet rfl (.adding (by simp [hsplit]) (hadds.keep he hname hcfg))
        · exact hquiet rfl (.replacing hsplit hadds he hname hne (.inl (by rw [hname])))
  | @replacing done todo prog e _ _ hsplit hadds he hname hcfg hf =>
      rcases removes_turn hwf hwf' he hf hs hexec with ⟨frame', hf', rfl, hagree⟩ |
          ⟨hdrops, herased⟩
      · have hcfg' := mt (World.Configured.congr · (hagree.configs e he).symm) hcfg
        exact hquiet rfl (.replacing hsplit (hadds.agrees hagree) (hagree.processMap ▸ he) hname
          hcfg' hf')
      · exact ⟨frames, _, rfl, hdrops, .creating hsplit (hadds.discard hwf.world he hname herased)⟩
  | @creating done todo prog _ hsplit hvacant =>
      obtain ⟨hw, rfl⟩ := addProcess_exec hvacant.free hexec
      have hprog : prog ∈ progs := by simp [hsplit]
      exact hquiet rfl (.starting hsplit (hw ▸ hvacant.add hwf.world hprog))
  | @starting done todo prog _ hsplit hadds =>
      obtain ⟨e, he, hname, _⟩ := hadds.covers prog (by simp)
      have hfind : s.world.find prog.name = some e := hname ▸ hwf.world.find_eq he
      obtain ⟨hagree, rfl, _⟩ := startProcess_exec hwf hwf' hfind hexec
      exact hquiet rfl (.adding (by simp [hsplit]) (hadds.agrees hagree))

end OwnStatements

/-! ## The whole call -/

/-- The frames above the end of the call: handlers of its nested waits, and its own statements. -/
def Synchronising (progs : List ProgramConfig) (above : List Frame) (w : World) : Prop :=
  ∃ nested core, above = nested ++ core ∧ (∀ f ∈ nested, f.foreign = true) ∧
    (waits core = true ∨ ∀ f ∈ nested, f.letsGo = true) ∧ Reconciling progs core w

section Handlers

variable {progs : List ProgramConfig} {above below frames : List Frame} {frame : Frame}
  {s s' : Sys} {env : Answers} {newConfig : Configuration} {w : World}

theorem Synchronising.exec (h : Synchronising progs (frame :: above) s.world) (hwf : s.Wf)
    (hwf' : s'.Wf) (hs : s.stack = frame :: (above ++ below))
    (hreload : frame = .reloadConfig → frames = [])
    (hexec : execFrame env (above ++ below) s.world s.ctl frame =
      some (s'.world, s'.ctl, frames)) :
    Synchronising progs (frames ++ above) s'.world := by
  obtain ⟨nested, core, hsplit, hnested, hside, hrec⟩ := h
  cases nested with
  | nil =>
      obtain rfl : frame :: above = core := hsplit
      obtain ⟨drops, core', heq, hdrops, hrec'⟩ := hrec.advance hwf hwf' hs hexec
      exact ⟨drops, core', heq, fun f hf => foreign_of_letsGo (hdrops f hf), .inr hdrops, hrec'⟩
  | cons f nested =>
      obtain ⟨rfl, rfl⟩ := List.cons.inj hsplit
      obtain ⟨hf, hnested⟩ := List.forall_mem_cons.mp hnested
      have hforeign := foreign_frames hf hreload hexec
      refine ⟨frames ++ nested, core, (List.append_assoc _ _ _).symm, ?_, ?_, ?_⟩
      · exact List.forall_mem_append.mpr ⟨hforeign, hnested⟩
      · rcases hside with hwaits | hdrops
        · exact .inl hwaits
        · obtain ⟨hdrop, hdrops⟩ := List.forall_mem_cons.mp hdrops
          exact .inr (List.forall_mem_append.mpr ⟨letsGo_frames hdrop hexec, hdrops⟩)
      · exact hrec.agrees (foreign_agrees hwf hwf' hf hs hexec)

/-- An event loop inside the call runs while the call waits for a process. -/
theorem Synchronising.waiting {now : Int} (h : Synchronising progs above w)
    (hloop : looping now (above ++ .reloadDone newConfig :: below) = true) :
    ∃ nested core, above = nested ++ core ∧ (∀ f ∈ nested, f.foreign = true) ∧
      waits core = true ∧ Reconciling progs core w := by
  obtain ⟨nested, core, rfl, hnested, hside, hrec⟩ := h
  refine ⟨nested, core, rfl, hnested, ?_, hrec⟩
  rcases hside with hwaits | hdrops
  · exact hwaits
  · cases nested with
    | nil =>
        apply hrec.waits_of_looping ?_ hloop
        rintro rfl
        cases hloop
    | cons f nested =>
        have hno : looping now (f :: nested ++ core ++ .reloadDone newConfig :: below) = false :=
          not_looping_letsGo now (hdrops f List.mem_cons_self)
        rw [hno] at hloop
        cases hloop

end Handlers

/-- Where the call is. Whatever has happened to it, it ends in the answer; what it has done to the
map is known as long as no other reload has begun underneath. -/
inductive Course (newConfig : Configuration) (below : List Frame) (s : Sys)
    (log : List Disturbance) : Prop
  | underway {above : List Frame} : s.stack = above ++ .reloadDone newConfig :: below →
      (.overlapped ∉ log → log = [] ∧ Synchronising newConfig.programs above s.world) →
      Course newConfig below s log
  | failing {drops : List Frame} : s.stack = drops ++ .reloadFailed :: below →
      (∀ f ∈ drops, f.letsGo = true) →
      (.overlapped ∉ log → log ≠ [] ∧ ¬ InSync newConfig.programs s.world) →
      Course newConfig below s log
  | returned : s.stack = below →
      (.overlapped ∉ log → log = [] ∧ Adds newConfig.programs newConfig.programs s.world ∨
        log ≠ [] ∧ ¬ InSync newConfig.programs s.world) →
      Course newConfig below s log

section Run

variable {newConfig : Configuration} {above below frames rest : List Frame} {frame : Frame}
  {s s' : Sys} {log : List Disturbance} {env : Answers} {progs : List ProgramConfig}
  {w w' : World}

/-- Two lists of one length are not both suffixes, unless they are equal. -/
theorem not_suffix_append {f g : Frame} (hne : f ≠ g) :
    ¬ (f :: below) <:+ above ++ g :: below := by
  intro hsuffix
  have hother := List.suffix_append above (g :: below)
  have hle := List.suffix_of_suffix_length_le hsuffix hother (Nat.le_refl _)
  exact hne (List.cons.inj (hle.eq_of_length rfl)).1

theorem not_inSync_agrees (h : ¬ InSync progs w) (hagree : Agrees w w') : ¬ InSync progs w' := by
  intro hsync
  refine h (hsync.agrees ⟨hagree.processMap.symm, hagree.nextObj.symm, ?_⟩)
  intro e he
  exact (hagree.configs e (hagree.processMap ▸ he)).symm

/-- A statement disturbs the call when it begins to synchronise. -/
theorem disturbances_exec (below : List Frame) (hs : s.stack = frame :: rest)
    (hexec : execFrame env rest s.world s.ctl frame = some (s'.world, s'.ctl, frames)) :
    disturbances below s (.exec env) = [.overlapped] ∨
      (disturbances below s (.exec env) = [] ∧ (frame = .reloadConfig → frames = [])) := by
  by_cases hreload : frame = .reloadConfig
  · subst hreload
    obtain ⟨_, _, ⟨hnil, hno⟩ | ⟨config, hok, _⟩⟩ := reloadConfig_result hexec
    · refine .inr ⟨?_, fun _ => hnil⟩
      simp only [disturbances, hs]
      cases hresult : parseResult s.ctl env with
      | none => rfl
      | some parsed =>
          cases parsed with
          | error what => rfl
          | ok config => exact absurd hresult (hno config)
    · left
      simp only [disturbances, hs, hok]
  · refine .inr ⟨?_, fun heq => absurd heq hreload⟩
    simp only [disturbances, hs]
    split
    · next heq _ => exact absurd (List.cons.inj heq).1 hreload
    · rfl

/-- A statement of the call, or of a handler in its nested waits. -/
theorem Course.exec (h : Course newConfig below s log) (hin : Inside below s) (hwf : s.Wf)
    (hwf' : s'.Wf) (hs : s.stack = frame :: rest) (hs' : s'.stack = frames ++ rest)
    (hexec : execFrame env rest s.world s.ctl frame = some (s'.world, s'.ctl, frames)) :
    Course newConfig below s' (log ++ disturbances below s (.exec env)) := by
  have hquiet : .overlapped ∉ log ++ disturbances below s (.exec env) → .overlapped ∉ log ∧
      log ++ disturbances below s (.exec env) = log ∧ (frame = .reloadConfig → frames = []) := by
    intro hno
    obtain ⟨hno, hnow⟩ : .overlapped ∉ log ∧ .overlapped ∉ disturbances below s (.exec env) := by
      simpa using hno
    rcases disturbances_exec below hs hexec with heq | ⟨heq, hframes⟩
    · rw [heq] at hnow
      exact absurd List.mem_cons_self hnow
    · exact ⟨hno, by rw [heq, List.append_nil], hframes⟩
  cases h with
  | @underway above hstack hmap =>
      cases above with
      | nil =>
          obtain ⟨rfl, rfl⟩ := List.cons.inj (hs.symm.trans hstack)
          obtain ⟨hw, _, rfl⟩ := by simpa [execFrame] using hexec
          refine .returned hs' fun hno => ?_
          obtain ⟨hno, hlog, _⟩ := hquiet hno
          obtain ⟨hnil, nested, core, hsplit, _, _, hrec⟩ := hmap hno
          obtain ⟨rfl, rfl⟩ := List.append_eq_nil_iff.mp hsplit.symm
          cases hrec with
          | finished hadds => exact .inl ⟨hlog.trans hnil, hw ▸ hadds⟩
      | cons f above =>
          obtain ⟨rfl, rfl⟩ := List.cons.inj (hs.symm.trans hstack)
          refine .underway (hs'.trans (List.append_assoc _ _ _).symm) fun hno => ?_
          obtain ⟨hno, hlog, hframes⟩ := hquiet hno
          obtain ⟨hnil, hsync⟩ := hmap hno
          exact ⟨hlog.trans hnil, hsync.exec hwf hwf' hs hframes hexec⟩
  | @failing drops hstack hdrops hmap =>
      cases drops with
      | nil =>
          obtain ⟨rfl, rfl⟩ := List.cons.inj (hs.symm.trans hstack)
          obtain ⟨hw, _, rfl⟩ := by simpa [execFrame] using hexec
          refine .returned hs' fun hno => ?_
          obtain ⟨hno, hlog, _⟩ := hquiet hno
          rw [hlog, ← hw]
          exact .inr (hmap hno)
      | cons f drops =>
          obtain ⟨rfl, rfl⟩ := List.cons.inj (hs.symm.trans hstack)
          obtain ⟨hdrop, hdrops⟩ := List.forall_mem_cons.mp hdrops
          have hagree := foreign_agrees hwf hwf' (foreign_of_letsGo hdrop) hs hexec
          refine .failing (hs'.trans (List.append_assoc _ _ _).symm)
            (List.forall_mem_append.mpr ⟨letsGo_frames hdrop hexec, hdrops⟩) fun hno => ?_
          obtain ⟨hno, hlog, _⟩ := hquiet hno
          obtain ⟨hne, hnot⟩ := hmap hno
          rw [hlog]
          exact ⟨hne, not_inSync_agrees hnot hagree⟩
  | returned hstack _ => exact absurd hstack hin.ne

/-- An event that a nested wait handles, or an exception that leaves it. -/
theorem Course.dispatch {ready : Ready} (h : Course newConfig below s log) (hin : Inside below s)
    (hwf : s.Wf) (hw : s'.world = s.world) (hloop : looping s.world.now s.stack = true)
    (hdisp : dispatch s.world.now s.ctl s.stack ready = some (s'.ctl, s'.stack)) :
    Course newConfig below s' (log ++ disturbances below s (.dispatch ready)) := by
  cases h with
  | @underway above hstack hmap =>
      rcases dispatch_stack hdisp with ⟨pushed, hs', hentry, hno⟩ | ⟨what, hs', rfl⟩
      · have hquiet : disturbances below s (.dispatch ready) = [] := by
          cases ready with
          | throwingRead what => exact absurd rfl (hno what)
          | _ => rfl
        rw [hquiet, List.append_nil]
        rw [hstack, ← List.append_assoc] at hs'
        refine .underway hs' fun hno => ?_
        obtain ⟨hnil, hsync⟩ := hmap hno
        rw [hstack] at hloop
        obtain ⟨nested, core, rfl, hnested, hwaits, hrec⟩ := hsync.waiting hloop
        refine ⟨hnil, pushed ++ nested, core, (List.append_assoc _ _ _).symm, ?_, .inl hwaits,
          hw ▸ hrec⟩
        exact List.forall_mem_append.mpr ⟨fun f hf => entry_foreign (hentry f hf), hnested⟩
      · rw [hstack] at hs' hloop
        by_cases hcatch : ∃ f ∈ above, f.catches = true
        · obtain ⟨above', heq, _⟩ := unwind_caught what (.reloadDone newConfig :: below) hcatch
          have hquiet : disturbances below s (.dispatch (.throwingRead what)) = [] := by
            have hne : Frame.reloadFailed ≠ .reloadDone newConfig := nofun
            simp only [disturbances, hstack, heq]
            exact if_neg (not_suffix_append hne)
          rw [hquiet, List.append_nil]
          refine .underway (hs'.trans heq) fun hno => ?_
          obtain ⟨hnil, hsync⟩ := hmap hno
          obtain ⟨nested, core, rfl, hnested, hwaits, hrec⟩ := hsync.waiting hloop
          have hhandler : ∃ f ∈ nested, f.catches = true := by
            obtain ⟨f, hf, hc⟩ := hcatch
            rcases List.mem_append.mp hf with hf | hf
            · exact ⟨f, hf, hc⟩
            · rw [hrec.no_catch f hf] at hc
              cases hc
          obtain ⟨nested', heq', hnested'⟩ := unwind_caught what
            (core ++ .reloadDone newConfig :: below) hhandler
          rw [List.append_assoc, heq', ← List.append_assoc] at heq
          exact ⟨hnil, nested', core, (List.append_cancel_right heq).symm, hnested' hnested,
            .inl hwaits, hw ▸ hrec⟩
        · have hno : ∀ f ∈ above, f.catches = false :=
            fun f hf => Bool.eq_false_iff.mpr fun hc => hcatch ⟨f, hf, hc⟩
          obtain ⟨drops, heq, hdrops⟩ := unwind_uncaught what (.reloadDone newConfig :: below) hno
          have hescape : disturbances below s (.dispatch (.throwingRead what)) =
              [.escaped what] := by
            simp only [disturbances, hstack, heq]
            exact if_pos (List.suffix_append drops (.reloadFailed :: below))
          rw [hescape]
          refine .failing (hs'.trans heq) ?_ fun hno => ?_
          · intro f hf
            obtain ⟨o, rfl⟩ := hdrops f hf
            rfl
          · refine ⟨by simp, ?_⟩
            have hno : .overlapped ∉ log := fun hmem => hno (List.mem_append_left _ hmem)
            obtain ⟨nested, core, rfl, _, hwaits, hrec⟩ := (hmap hno).2.waiting hloop
            rw [hw]
            exact hrec.not_inSync hwf.world hwaits
  | @failing drops hstack hdrops _ =>
      rw [hstack] at hloop
      cases drops with
      | nil => cases hloop
      | cons f drops =>
          have hno : looping s.world.now (f :: drops ++ .reloadFailed :: below) = false :=
            not_looping_letsGo _ (hdrops f List.mem_cons_self)
          rw [hno] at hloop
          cases hloop
  | returned hstack _ => exact absurd hstack hin.ne

/-- The environment does nothing to the call. -/
theorem Course.agrees (h : Course newConfig below s log) (hs' : s'.stack = s.stack)
    (hagree : Agrees s.world s'.world) : Course newConfig below s' log := by
  cases h with
  | underway hstack hmap =>
      refine .underway (hs'.trans hstack) fun hno => ?_
      obtain ⟨hnil, nested, core, hsplit, hnested, hside, hrec⟩ := hmap hno
      exact ⟨hnil, nested, core, hsplit, hnested, hside, hrec.agrees hagree⟩
  | failing hstack hdrops hmap =>
      refine .failing (hs'.trans hstack) hdrops fun hno => ?_
      exact ⟨(hmap hno).1, not_inSync_agrees (hmap hno).2 hagree⟩
  | returned hstack hmap =>
      refine .returned (hs'.trans hstack) fun hno => ?_
      rcases hmap hno with ⟨hnil, hadds⟩ | ⟨hne, hnot⟩
      · exact .inl ⟨hnil, hadds.agrees hagree⟩
      · exact .inr ⟨hne, not_inSync_agrees hnot hagree⟩

/-- **The course of a call**, from the statement behind `parse_file` to the answer. -/
theorem DuringReload.course {s₁ : Sys} {t : Sys × List Disturbance} (hwf : s₁.Wf)
    (hs₁ : s₁.stack = syncFrames s₁.world newConfig.programs ++ .reloadDone newConfig :: below)
    (h : DuringReload s₁ below t) : t.1.Wf ∧ Course newConfig below t.1 t.2 := by
  refine Machine.Reach.invariant (P := fun t => t.1.Wf ∧ Course newConfig below t.1 t.2) ?_ ?_ h
  · rintro _ rfl
    refine ⟨hwf, .underway hs₁ fun _ => ⟨rfl, [], _, rfl, List.forall_mem_nil _, .inr ?_, ?_⟩⟩
    · exact List.forall_mem_nil _
    · exact .removing (List.nil_append _).symm (List.forall_mem_nil _)
  · rintro t i t' ⟨hwf, hcourse⟩ hin hlogged
    obtain ⟨hstep, hlog⟩ := Machine.logged_eq_some hlogged
    have hwf' := hwf.step hstep
    refine ⟨hwf', ?_⟩
    rw [hlog]
    rcases step_cases hstep with ⟨env, frame, rest, frames, rfl, hs, hs', hexec⟩ |
        ⟨ready, rfl, hw, hloop, _, hdisp⟩ | ⟨hinput, hout, hs', _⟩
    · exact hcourse.exec hin hwf hwf' hs hs' hexec
    · exact hcourse.dispatch hin hwf hw hloop hdisp
    · have hquiet : disturbances below t.1 i = [] := by
        cases i with
        | exec env => exact absurd rfl (hinput.1 env)
        | dispatch ready => exact absurd rfl (hinput.2 ready)
        | _ => rfl
      rw [hquiet, List.append_nil]
      exact hcourse.agrees hs' hout.agrees

end Run

/-! ## The guarantee -/

/-- The handler of `supervisor.reloadConfig` is about to execute the first statement of
`reload_config_`, and it gets these answers. -/
structure Calls (s₀ : Sys) (env : Answers) (rest : List Frame) (s₁ : Sys) : Prop where
  wf : s₀.Wf
  stack : s₀.stack = requestFrames .reloadConfig ++ rest
  step : step s₀ (.exec env) = some s₁

section Answers

variable {s₀ s₁ : Sys} {env : Answers} {rest : List Frame} {fault : Option String}

/-- The first statement returns without a change, or begins to synchronise. -/
theorem Calls.cases (h : Calls s₀ env rest s₁) :
    (s₁.stack = .answer .reloadConfig :: rest ∧ Unchanged s₀ s₁ ∧
      ∀ newConfig, parseResult s₀.ctl env ≠ some (.ok newConfig)) ∨
    ∃ newConfig, parseResult s₀.ctl env = some (.ok newConfig) ∧ s₁.stack =
      syncFrames s₁.world newConfig.programs ++ .reloadDone newConfig ::
        .answer .reloadConfig :: rest := by
  rcases step_cases h.step with ⟨_, frame, rest', frames, heq, hs, hs', hexec⟩ |
      ⟨_, heq, _⟩ | ⟨hinput, _⟩
  · obtain rfl := Input.exec.inj heq
    obtain ⟨rfl, rfl⟩ := List.cons.inj (hs.symm.trans h.stack)
    obtain ⟨hw, hconfig, ⟨rfl, hno⟩ | ⟨newConfig, hok, rfl⟩⟩ := reloadConfig_result hexec
    · exact .inl ⟨hs', ⟨hconfig, by rw [hw], fun _ _ => by rw [hw]⟩, hno⟩
    · refine .inr ⟨newConfig, hok, ?_⟩
      rw [hs', hw]
      simp
  · cases heq
  · exact absurd rfl (hinput.1 env)

/-- A call that has begun to synchronise ends in its answer of success, and what is known of the map
then is known of it for as long as no other reload has begun. -/
theorem Calls.returned {newConfig : Configuration} {s : Sys × List Disturbance}
    (hcall : Calls s₀ env rest s₁)
    (hs₁ : s₁.stack = syncFrames s₁.world newConfig.programs ++ .reloadDone newConfig ::
      .answer .reloadConfig :: rest)
    (hrun : DuringReload s₁ (.answer .reloadConfig :: rest) s)
    (htold : s.1.stack = replyFrame .reloadConfig fault :: rest) :
    fault = none ∧ s.1.Wf ∧ (.overlapped ∉ s.2 →
      s.2 = [] ∧ Adds newConfig.programs newConfig.programs s.1.world ∨
        s.2 ≠ [] ∧ ¬ InSync newConfig.programs s.1.world) := by
  obtain ⟨hwf, hcourse⟩ := hrun.course (hcall.wf.step hcall.step) hs₁
  cases hcourse with
  | underway hstack _ =>
      have hlen := congrArg List.length (htold.symm.trans hstack)
      simp only [List.length_append, List.length_cons] at hlen
      omega
  | failing hstack _ _ =>
      have hlen := congrArg List.length (htold.symm.trans hstack)
      simp only [List.length_append, List.length_cons] at hlen
      omega
  | returned hstack hmap =>
      exact ⟨replyFrame_eq_answer (List.cons.inj (htold.symm.trans hstack)).1, hwf, hmap⟩

/-- A call that has not begun to synchronise is at its answer of success. -/
theorem DuringReload.at_once {below : List Frame} {s : Sys × List Disturbance}
    (hs₁ : s₁.stack = below) (h : DuringReload s₁ below s) : s = (s₁, []) := by
  refine Machine.Reach.invariant (P := fun s => s = (s₁, [])) (fun _ hs => hs) ?_ h
  rintro _ i s' rfl hin _
  exact absurd hs₁ hin.ne

/-- **A reload is always answered with success.**  When the files were not parsed, nothing has
changed. The answer is faithful exactly when they were parsed, no two of their programs differ under
one name, and no exception has left a nested wait for the `catch` of `reload_config_`. Where another
reload has begun underneath, the first two are still needed. -/
theorem reload_faithful_iff {s : Sys × List Disturbance} (hcall : Calls s₀ env rest s₁)
    (hrun : DuringReload s₁ (.answer .reloadConfig :: rest) s)
    (htold : s.1.stack = replyFrame .reloadConfig fault :: rest) :
    fault = none ∧
      ((∀ newConfig, parseResult s₀.ctl env ≠ some (.ok newConfig)) → Unchanged s₀ s.1) ∧
      (Faithful s₀ (parseResult s₀.ctl env) s.1 fault → Loads (parseResult s₀.ctl env)) ∧
      (.overlapped ∉ s.2 → (Faithful s₀ (parseResult s₀.ctl env) s.1 fault ↔
        Loads (parseResult s₀.ctl env) ∧ s.2 = [])) := by
  rcases hcall.cases with ⟨hs₁, hsame, hno⟩ | ⟨newConfig, hok, hs₁⟩
  · obtain rfl := hrun.at_once hs₁
    obtain rfl := replyFrame_eq_answer (List.cons.inj (htold.symm.trans hs₁)).1
    refine ⟨rfl, fun _ => hsame, ?_, fun _ => ⟨?_, ?_⟩⟩
    · rintro ⟨newConfig, hok, _⟩
      exact absurd hok (hno newConfig)
    · rintro ⟨newConfig, hok, _⟩
      exact absurd hok (hno newConfig)
    · rintro ⟨⟨newConfig, hok, _⟩, _⟩
      exact absurd hok (hno newConfig)
  · obtain ⟨rfl, hwf, hmap⟩ := hcall.returned hs₁ hrun htold
    have hfaithful : Faithful s₀ (parseResult s₀.ctl env) s.1 none ↔
        InSync newConfig.programs s.1.world := by
      constructor
      · rintro ⟨config, hconfig, hsync⟩
        obtain rfl := Except.ok.inj (Option.some.inj (hconfig.symm.trans hok))
        exact hsync
      · exact fun hsync => ⟨newConfig, hok, hsync⟩
    rw [hfaithful]
    refine ⟨rfl, fun hbad => absurd hok (hbad newConfig),
      fun hsync => ⟨newConfig, hok, hsync.consistent hwf.world⟩, fun hno => ⟨?_, ?_⟩⟩
    · intro hsync
      refine ⟨⟨newConfig, hok, hsync.consistent hwf.world⟩, ?_⟩
      rcases hmap hno with ⟨hnil, _⟩ | ⟨_, hnot⟩
      · exact hnil
      · exact absurd hsync hnot
    · rintro ⟨⟨config, hconfig, hprogs⟩, hnil⟩
      obtain rfl := Except.ok.inj (Option.some.inj (hconfig.symm.trans hok))
      rcases hmap hno with ⟨_, hadds⟩ | ⟨hne, _⟩
      · exact hadds.inSync hprogs
      · exact absurd hnil hne

end Answers

/-- A daemon with "web" running, at the call of `reload_config_` by the request. -/
def asked : Option Sys :=
  Machine.run step (bootSimple ["web"]) [.forking ⟨404, by decide⟩, .next, .request .reloadConfig]

/-- What is below the handler of the request. -/
def belowRequest : List Frame := [.run, .endRun, .stopAll, .clearMap]

theorem asked_stack : (asked.any fun s => decide (s.stack =
    requestFrames .reloadConfig ++ belowRequest ∧ s.ctl.config.configFile ≠ "" ∧
      s.ctl.daemonState ≠ .restarting)) = true := by
  decide

/-- The call adds "new". -/
def Input.throughReload : List Input :=
  [.next, .next, .next, .next, .forking ⟨405, by decide⟩, .next, .next, .next]

/-- A test for the steps of a call: the stack is above `below`. -/
def staysAbove (below : List Frame) (s : Sys × List Disturbance) (_ : Input) : Bool :=
  decide (below.length < s.1.stack.length) &&
    decide (s.1.stack.drop (s.1.stack.length - below.length) = below)

theorem inside_of_staysAbove {below : List Frame} (s : Sys × List Disturbance) (i : Input)
    (h : staysAbove below s i = true) : Inside below s.1 := by
  simp only [staysAbove, Bool.and_eq_true, decide_eq_true_eq] at h
  exact inside_of_drop h.1 h.2

theorem reload_faithful_renewed : ∃ s₀ env rest s₁ s, Calls s₀ env rest s₁ ∧
    DuringReload s₁ (.answer .reloadConfig :: rest) s ∧
    s.1.stack = replyFrame .reloadConfig none :: rest ∧ .overlapped ∉ s.2 ∧
    Faithful s₀ (parseResult s₀.ctl env) s.1 none := by
  cases hs₀ : asked with
  | none => exact absurd hs₀ (by decide)
  | some s₀ =>
      let env : Answers := { parsed := .ok renewed }
      let below : List Frame := .answer .reloadConfig :: belowRequest
      have hwf : s₀.Wf := Sys.Wf.reach (.of_run (.init (boot_bootSimple ["web"])) hs₀)
      have hstack := asked_stack
      simp only [hs₀, Option.any_some, decide_eq_true_eq] at hstack
      obtain ⟨hstack, hfile, hbusy⟩ := hstack
      have hloads : Loads (parseResult s₀.ctl env) := by
        refine ⟨renewed, by simp [parseResult, hfile, hbusy, env], ?_⟩
        unfold Consistent
        decide
      have htest : (asked.any fun s₀ => (step s₀ (.exec env)).any fun s₁ =>
          (Machine.guardedRun (Machine.logged step (disturbances below)) (staysAbove below)
            (s₁, []) Input.throughReload).any fun s => decide
              (s.1.stack = replyFrame .reloadConfig none :: belowRequest ∧ s.2 = [])) = true := by
        decide
      rw [hs₀, Option.any_some] at htest
      cases hs₁ : step s₀ (.exec env) with
      | none =>
          rw [hs₁] at htest
          cases htest
      | some s₁ =>
          rw [hs₁, Option.any_some] at htest
          have hcall : Calls s₀ env belowRequest s₁ := ⟨hwf, hstack, hs₁⟩
          have hstart : DuringReload s₁ below (s₁, []) := .init rfl
          obtain ⟨s, hrun, hend⟩ :=
            Machine.Reach.exists_of_guardedRun inside_of_staysAbove hstart htest
          obtain ⟨htold, hnil⟩ := of_decide_eq_true hend
          have hno : .overlapped ∉ s.2 := by
            rw [hnil]
            exact List.not_mem_nil
          exact ⟨s₀, env, belowRequest, s₁, s, hcall, hrun, htold, hno,
            ((reload_faithful_iff hcall hrun htold).2.2.2 hno).mpr ⟨hloads, hnil⟩⟩

/-- The configuration file is gone: the client is told that the reload was a success. -/
theorem failed_reload_answers_success : ∃ s₀ env rest s₁,
    Machine.Reach step Machine.anyStep Boot s₀ ∧ Calls s₀ env rest s₁ ∧
    env.parsed = .error "Configuration file not found: /etc/supervisord.conf" ∧
    s₁.stack = replyFrame .reloadConfig none :: rest ∧
    (∃ s₂, step s₁ .next = some s₂ ∧
      s₂.world.trace.head? = some (.answered .reloadConfig none)) ∧
    ¬ Faithful s₀ (parseResult s₀.ctl env) s₁ none := by
  cases hs₀ : asked with
  | none => exact absurd hs₀ (by decide)
  | some s₀ =>
      let env : Answers :=
        { parsed := .error "Configuration file not found: /etc/supervisord.conf" }
      have hreach : Machine.Reach step Machine.anyStep Boot s₀ :=
        .of_run (.init (boot_bootSimple ["web"])) hs₀
      have hstack := asked_stack
      simp only [hs₀, Option.any_some, decide_eq_true_eq] at hstack
      obtain ⟨hstack, hfile, hbusy⟩ := hstack
      have hresult : parseResult s₀.ctl env = some env.parsed := by
        simp [parseResult, hfile, hbusy]
      cases hs₁ : step s₀ (.exec env) with
      | none => simp [step, hstack, requestFrames, execFrame, hfile, hbusy, env] at hs₁
      | some s₁ =>
          have hcall : Calls s₀ env belowRequest s₁ := ⟨.reach hreach, hstack, hs₁⟩
          have hbad : ∀ newConfig, parseResult s₀.ctl env ≠ some (.ok newConfig) := by
            intro newConfig hok
            rw [hresult] at hok
            cases Option.some.inj hok
          rcases hcall.cases with ⟨htold, _, _⟩ | ⟨newConfig, hok, _⟩
          · have htold : s₁.stack = replyFrame .reloadConfig none :: belowRequest := htold
            refine ⟨s₀, env, belowRequest, s₁, hreach, hcall, rfl, htold,
              ⟨_, step_replyFrame htold, rfl⟩, ?_⟩
            rintro ⟨newConfig, hok, _⟩
            exact hbad newConfig hok
          · exact absurd hok (hbad newConfig)

end Supervisorcpp
