/-
# Runs of `sync_processes`

The statements of the call and of the handlers in its nested waits, put together: from the first
statement to the return, whatever is handled in between. A second call with the same programs finds
every entry as it wants it.

The log of the call is not made of the names of its statements but of what they do to the world:
calls of `start`, `stop` and `kill` are read off the trace, additions and removals off the map. What
handlers in the nested waits do is on the same trace and is not counted, since their statements are
foreign.
-/
import Supervisorcpp.Manager.Sync

namespace Supervisorcpp

/-! ## The whole call -/

/-- The call that returns to `rest` is in progress, under the handlers of its nested waits. -/
structure Syncing (w₀ : World) (progs : List ProgramConfig) (rest : List Frame) (s : Sys)
    (log : List OwnCall) : Prop where
  stack : ∃ nested core, s.stack = nested ++ (core ++ rest) ∧ (∀ f ∈ nested, f.foreign = true) ∧
    Progress w₀ progs core s.world log
  calls : CallsOk w₀ progs s.world log

section Call

variable {w₀ : World} {progs : List ProgramConfig} {rest core frames : List Frame} {s s' : Sys}
  {log calls : List OwnCall} {env : Answers} {frame : Frame} {i : Input}

/-- A removal is a statement of the call, and catches nothing. -/
theorem Removes.ofSync {e : Entry} (h : Removes e frame) :
    frame.ofSync = true ∧ frame.catches = false := by
  rcases h with rfl | ⟨deadline, phase, rfl⟩
  · exact ⟨rfl, rfl⟩
  · exact ⟨rfl, rfl⟩

/-- No statement of the call catches an exception. -/
theorem Progress.no_catch {w : World} (h : Progress w₀ progs core w log) :
    ∀ f ∈ core, f.catches = false := by
  cases h with
  | discarding _ _ hf =>
      refine List.forall_mem_cons.mpr ⟨hf.ofSync.2, ?_⟩
      simp [Frame.catches]
  | replacing _ _ _ _ _ _ hf =>
      refine List.forall_mem_cons.mpr ⟨hf.ofSync.2, ?_⟩
      simp [Frame.catches]
  | _ => simp [Frame.catches]

/-- What is left of the call are statements of the call. -/
theorem Progress.ofSync {w : World} (h : Progress w₀ progs (frame :: core) w log) :
    frame.ofSync = true := by
  cases h with
  | discarding _ _ hf => exact hf.ofSync.1
  | replacing _ _ _ _ _ _ hf => exact hf.ofSync.1
  | _ => rfl

theorem CallsOk.append {w : World} (h : CallsOk w₀ progs w log) (h' : CallsOk w₀ progs w calls) :
    CallsOk w₀ progs w (log ++ calls) where
  stopped := fun o ho => (List.mem_append.mp ho).elim (h.stopped o) (h'.stopped o)
  started := fun o ho => (List.mem_append.mp ho).elim (h.started o) (h'.started o)
  killed := fun o ho => (List.mem_append.mp ho).elim (h.killed o) (h'.killed o)

/-- What was right of the calls so far stays right. -/
theorem CallsOk.step (h : CallsOk w₀ progs s.world log) (hwf : s.Wf)
    (hstep : step s i = some s') : CallsOk w₀ progs s'.world log where
  stopped := h.stopped
  started := fun o ho =>
    ⟨(h.started o ho).1, Nat.lt_of_lt_of_le (h.started o ho).2 (hwf.step_nextObj hstep)⟩
  killed := fun o ho => hwf.step_gone hstep (h.killed o ho)

/-- `release` and the rest of a destructor's `kill`: the last reference kills a child that is left. -/
theorem destructor_calls {o : ObjId} (hwf : s.Wf) (hframe : frame = .release o ∨
    frame = .destructorWait o)
    (hexec : execFrame env rest s.world s.ctl frame = some (s'.world, s'.ctl, frames)) :
    ∀ c ∈ callsBetween s.world s'.world, c = .killed o ∧ s.world.Gone o := by
  have hquiet : ∀ {w : World}, s'.world = w → w.processMap = s.world.processMap →
      w.trace = s.world.trace → callsBetween s.world s'.world = [] := by
    intro w hw hmap htrace
    rw [callsBetween, hw, eventCalls_of_trace htrace, mapChanges_of_map hmap]
    rfl
  rcases hframe with rfl | rfl
  · obtain ⟨⟨v, fs⟩, hv, h⟩ := Option.map_eq_some_iff.mp hexec
    obtain ⟨hw, _, _⟩ := by simpa using h
    unfold releaseProcess at hv
    split at hv
    · obtain ⟨rfl, _⟩ := Prod.mk.inj (Option.some.inj hv)
      simp [hquiet hw.symm rfl rfl]
    · next hlast =>
        split at hv
        · obtain ⟨rfl, _⟩ := Prod.mk.inj (Option.some.inj hv)
          simp [hquiet hw.symm rfl rfl]
        · next p hp =>
            split at hv
            · obtain ⟨v', hkill, hv⟩ := Option.map_eq_some_iff.mp hv
              obtain ⟨rfl, _⟩ := Prod.mk.inj hv
              rw [← hw, callsBetween_of_sameMap (.callKill hkill), callKill_eventCalls hkill]
              intro c hc
              have hunmapped : s.world.mapped o = false := by
                simp only [Bool.or_eq_true, not_or] at hlast
                simpa using hlast.1
              exact ⟨List.mem_singleton.mp hc, hunmapped, hwf.world.objLt o p hp⟩
            · obtain ⟨rfl, _⟩ := Prod.mk.inj (Option.some.inj hv)
              simp [hquiet hw.symm rfl rfl]
  · obtain ⟨v, hv, h⟩ := Option.map_eq_some_iff.mp hexec
    obtain ⟨hw, _, _⟩ := by simpa using h
    have hsame := World.SameMap.finishKill hv
    have htrace : v.trace = s.world.trace := by
      obtain ⟨p, _, ⟨_, rfl⟩ | ⟨c, _, _, rfl⟩⟩ := World.finishKill_cases hv <;> rfl
    simp [hquiet hw.symm hsame.processMap htrace]

/-- A statement of others calls no member function on behalf of the call, but a destructor may run. -/
theorem ownCalls_foreign (hwf : s.Wf) (hf : frame.foreign = true) (hs : s.stack = frame :: rest)
    (hstep : step s (.exec env) = some s')
    (hexec : execFrame env rest s.world s.ctl frame = some (s'.world, s'.ctl, frames)) :
    ∀ c ∈ ownCalls s (.exec env), ∃ o, c = .killed o ∧ s.world.Gone o := by
  rw [ownCalls_exec hs hstep]
  intro c hc
  split at hc
  · next hsync =>
      have hdestructor : ∃ o, frame = .release o ∨ frame = .destructorWait o := by
        cases frame with
        | release o => exact ⟨o, .inl rfl⟩
        | destructorWait o => exact ⟨o, .inr rfl⟩
        | waitStop o deadline phase next =>
            cases next with
            | erase node => cases hf
            | return_ => cases hsync
        | syncRemove it progs => cases hf
        | syncAdd progs => cases hf
        | startProcess name => cases hf
        | removeProcess name => cases hf
        | addProcess config => cases hf
        | _ => cases hsync
      obtain ⟨o, ho⟩ := hdestructor
      exact ⟨o, destructor_calls hwf ho hexec c hc⟩
  · cases hc

/-- A statement that is handled in a wait leaves the call where it is. -/
theorem Syncing.exec_foreign {nested rest' : List Frame} (hwf : s.Wf)
    (hstack : s.stack = frame :: nested ++ (core ++ rest)) (hs : s.stack = frame :: rest')
    (hnested : ∀ f ∈ frame :: nested, f.foreign = true)
    (hprog : Progress w₀ progs core s.world log) (hcalls : CallsOk w₀ progs s.world log)
    (hno : beginsNoSync s (.exec env)) (hstep : step s (.exec env) = some s')
    (hs' : s'.stack = frames ++ rest')
    (hexec : execFrame env rest' s.world s.ctl frame = some (s'.world, s'.ctl, frames)) :
    Syncing w₀ progs rest s' (log ++ ownCalls s (.exec env)) := by
  obtain ⟨hf, hnested⟩ := List.forall_mem_cons.mp hnested
  have hreload : frame = .reloadConfig → frames = [] := by
    rintro rfl
    have hcond := hno (by rw [hs]; rfl)
    rcases reloadConfig_cases hexec with
      ⟨_, ⟨_, _, hnil⟩ | ⟨hfile, hbusy, ⟨_, _, hnil⟩ | ⟨_, hok, _⟩⟩⟩
    · exact hnil
    · exact hnil
    · rcases hcond with hempty | hrestart | ⟨what, herr⟩
      · exact absurd hempty hfile
      · exact absurd hrestart hbusy
      · rw [herr] at hok
        cases hok
  have hrest : rest' = nested ++ (core ++ rest) := by
    rw [hs] at hstack
    exact (List.cons.inj hstack).2
  have hkills := ownCalls_foreign hwf hf hs hstep hexec
  have hquiet : StartsNothing (ownCalls s (.exec env)) := by
    intro o ho
    obtain ⟨o', heq, _⟩ := hkills _ ho
    cases heq
  refine ⟨⟨frames ++ nested, core, by rw [hs', hrest, List.append_assoc], ?_, ?_⟩, ?_⟩
  · intro f hmem
    rcases List.mem_append.mp hmem with hmem | hmem
    · exact foreign_frames hf hreload hexec f hmem
    · exact hnested f hmem
  · exact hprog.agrees (foreign_agrees hwf (hwf.step hstep) hf hs hexec) hquiet
  · refine (hcalls.step hwf hstep).append ⟨?_, ?_, ?_⟩
    · intro o ho
      obtain ⟨o', heq, _⟩ := hkills _ ho
      cases heq
    · exact fun o ho => absurd ho (hquiet o)
    · intro o ho
      obtain ⟨o', heq, hgone⟩ := hkills _ ho
      obtain rfl := OwnCall.killed.inj heq
      exact hwf.step_gone hstep hgone

/-- A statement of the call itself. -/
theorem Syncing.exec_own (hwf₀ : w₀.Wf) (hnames : (progs.map (·.name)).Nodup) (hwf : s.Wf)
    (hs : s.stack = frame :: (core ++ rest))
    (hprog : Progress w₀ progs (frame :: core) s.world log) (hcalls : CallsOk w₀ progs s.world log)
    (hstep : step s (.exec env) = some s') (hs' : s'.stack = frames ++ (core ++ rest))
    (hexec : execFrame env (core ++ rest) s.world s.ctl frame =
      some (s'.world, s'.ctl, frames)) :
    Syncing w₀ progs rest s' (log ++ ownCalls s (.exec env)) := by
  rw [ownCalls_exec hs hstep, if_pos hprog.ofSync]
  have hlog : ∀ o, .started o ∈ log → o < s.world.nextObj := fun o ho => (hcalls.started o ho).2
  obtain ⟨⟨drops, core', heq, hdrops, hprog'⟩, hcalls'⟩ :=
    hprog.advance hwf₀ hnames hwf (hwf.step hstep) hlog hs hexec
  refine ⟨⟨drops, core', ?_, hdrops, hprog'⟩, (hcalls.step hwf hstep).append hcalls'⟩
  rw [hs', ← List.append_assoc, heq, List.append_assoc]

/-- An event that is handled in a nested wait, or an exception that is caught there. -/
theorem Syncing.dispatch {ready : Ready} {newConfig : Configuration} {above below : List Frame}
    (h : Syncing w₀ progs (.reloadDone newConfig :: below) s log) (hw : s'.world = s.world)
    (hdisp : dispatch s.world.now s.ctl s.stack ready = some (s'.ctl, s'.stack))
    (hin : s'.stack = above ++ .reloadDone newConfig :: below) :
    Syncing w₀ progs (.reloadDone newConfig :: below) s' log := by
  obtain ⟨⟨nested, core, hstack, hnested, hprog⟩, hcalls⟩ := h
  rw [← hw] at hprog hcalls
  rcases dispatch_stack hdisp with ⟨pushed, hs', hentry, _⟩ | ⟨what, hs', _⟩
  · refine ⟨⟨pushed ++ nested, core, ?_, ?_, hprog⟩, hcalls⟩
    · rw [hs', hstack, List.append_assoc]
    · intro f hf
      rcases List.mem_append.mp hf with hf | hf
      · exact entry_foreign (hentry f hf)
      · exact hnested f hf
  · rw [hstack] at hs'
    by_cases hcatch : ∃ f ∈ nested, f.catches = true
    · obtain ⟨nested', heq, hnested'⟩ := unwind_caught what
        (core ++ .reloadDone newConfig :: below) hcatch
      exact ⟨⟨nested', core, hs'.trans heq, hnested' hnested, hprog⟩, hcalls⟩
    · -- the exception leaves the call, which then does not return
      have hno : ∀ f ∈ nested ++ core, f.catches = false := by
        intro f hf
        rcases List.mem_append.mp hf with hf | hf
        · exact Bool.eq_false_iff.mpr fun hc => hcatch ⟨f, hf, hc⟩
        · exact hprog.no_catch f hf
      obtain ⟨xs, heq, _⟩ := unwind_uncaught what (.reloadDone newConfig :: below) hno
      rw [← List.append_assoc, heq, hin] at hs'
      have hlast := (List.append_inj' hs' rfl).2
      cases hlast

/-- What the log and the stack of the call look like in every state it goes through. -/
theorem DuringSync.syncing {s₀ : Sys} {newConfig : Configuration} {below : List Frame}
    {s : Sys × List OwnCall} (hwf₀ : s₀.Wf) (hnames : (progs.map (·.name)).Nodup)
    (hs₀ : s₀.stack = syncFrames s₀.world progs ++ .reloadDone newConfig :: below)
    (h : DuringSync s₀ (.reloadDone newConfig :: below) s) :
    s.1.Wf ∧ ∀ above, s.1.stack = above ++ .reloadDone newConfig :: below →
      Syncing s₀.world progs (.reloadDone newConfig :: below) s.1 s.2 := by
  refine Machine.Reach.invariant (P := fun s => s.1.Wf ∧
    ∀ above, s.1.stack = above ++ .reloadDone newConfig :: below →
      Syncing s₀.world progs (.reloadDone newConfig :: below) s.1 s.2) ?_ ?_ h
  · rintro _ rfl
    refine ⟨hwf₀, fun _ _ => ⟨⟨[], syncFrames s₀.world progs, hs₀, List.forall_mem_nil _, ?_⟩,
      .nil _⟩⟩
    have hstart : Removing s₀.world progs [] s₀.world.processMap s₀.world :=
      ⟨rfl, rfl, rfl, fun _ _ => rfl⟩
    exact .removing hstart
  · rintro s i s' ⟨hwf, hsync⟩ ⟨⟨above, hne, hin⟩, hno⟩ hlogged
    obtain ⟨hstep, hlog⟩ := Machine.logged_eq_some hlogged
    refine ⟨hwf.step hstep, fun above' hin' => ?_⟩
    have hcur := hsync above hin
    rcases step_cases hstep with ⟨env, frame, rest', frames, rfl, hs, hs', hexec⟩ |
        ⟨ready, rfl, hw, _, _, hdisp⟩ | ⟨hinput, hout, hs', _⟩
    · obtain ⟨⟨nested, core, hstack, hnested, hprog⟩, hcalls⟩ := hcur
      rw [hlog]
      cases nested with
      | cons f nested =>
          obtain ⟨rfl, _⟩ := List.cons.inj (hs.symm.trans hstack)
          exact Syncing.exec_foreign hwf hstack hs hnested hprog hcalls hno hstep hs' hexec
      | nil =>
          cases core with
          | cons f core =>
              obtain ⟨rfl, rfl⟩ := List.cons.inj (hs.symm.trans hstack)
              exact Syncing.exec_own hwf₀.world hnames hwf hs hprog hcalls hstep hs' hexec
          | nil =>
              rw [hin] at hstack
              exact absurd (List.append_cancel_right hstack) hne
    · have hinput : ∀ env, Input.dispatch ready ≠ .exec env := nofun
      rw [hlog, ownCalls_outside hinput, List.append_nil]
      exact hcur.dispatch hw hdisp hin'
    · rw [hlog, ownCalls_outside hinput.1]
      obtain ⟨⟨nested, core, hstack, hnested, hprog⟩, hcalls⟩ := hcur
      have hnone : StartsNothing [] := fun _ => List.not_mem_nil
      refine ⟨⟨nested, core, hs'.trans hstack, hnested, hprog.agrees hout.agrees hnone⟩, ?_⟩
      rw [List.append_nil]
      exact hcalls.step hwf hstep

end Call

/-! ## The return of the call -/

section Return

variable {w₀ w : World} {progs : List ProgramConfig} {log : List OwnCall} {e : Entry}
  {prog : ProgramConfig}

/-- After the second loop every entry is the settled one of a program. -/
theorem Adding.settled (h : Adding w₀ progs [] none w log) (he : e ∈ w.processMap) :
    ∃ prog ∈ progs, Settled w₀ w log prog e := by
  rcases h.covered e he with hcur | ⟨_, ⟨prog, hprog, _⟩, _⟩ | hset
  · cases hcur
  · cases hprog
  · exact hset

/-- The entry of a program is settled. -/
theorem Adding.settled_of_name (h : Adding w₀ progs [] none w log)
    (hnames : (progs.map (·.name)).Nodup) (he : e ∈ w.processMap) (hprog : prog ∈ progs)
    (hname : prog.name = e.name) : Settled w₀ w log prog e := by
  obtain ⟨prog', hprog', hset⟩ := h.settled he
  obtain rfl : prog' = prog := List.inj_on_of_nodup_map hnames hprog' hprog
    (hset.name.symm.trans hname.symm)
  exact hset

/-- Behind the second loop the map is reconciled. -/
theorem Adding.synced (hwf₀ : w₀.Wf) (hnames : (progs.map (·.name)).Nodup)
    (h : Adding w₀ progs [] none w log) (hcalls : CallsOk w₀ progs w log) :
    Synced w₀ progs w log where
  keys := by
    intro name
    constructor
    · rintro ⟨e, he, rfl⟩
      obtain ⟨prog, hprog, hset⟩ := h.settled he
      exact ⟨prog, hprog, hset.name.symm⟩
    · rintro ⟨prog, hprog, rfl⟩
      exact h.present prog hprog
  configs := fun e he prog hprog hname => (h.settled_of_name hnames he hprog hname).config
  kept := by
    intro e he prog hprog hname hcfg
    have hin : e ∈ w.processMap := by
      obtain ⟨e', he', hname'⟩ := h.present prog hprog
      rcases (h.settled_of_name hnames he' hprog hname'.symm).origin with ⟨hold, _⟩ | ⟨_, _, hother⟩
      · rw [hwf₀.entry_ext_name he hold (hname.symm.trans hname'.symm)]
        exact he'
      · exact absurd hcfg (hother.2 e he hname.symm)
    refine ⟨hin, ?_, ?_, ?_⟩
    · intro hstart
      obtain ⟨p, hp, _⟩ := hwf₀.live e he
      exact Nat.not_le_of_lt (hwf₀.objLt _ _ hp) (hcalls.started e.obj hstart).1
    · intro hstop
      obtain ⟨e', he', hobj, hold⟩ := hcalls.stopped e.obj hstop
      obtain rfl := hwf₀.entry_ext_obj he' he hobj
      exact hold prog hprog hname hcfg
    · intro hkill
      have hgone := (hcalls.killed e.obj hkill).unmapped
      have hmapped : w.mapped e.obj = true := List.any_eq_true.mpr ⟨e, hin, by simp⟩
      rw [hgone] at hmapped
      cases hmapped
  fresh := by
    intro e he prog hprog hname hother
    rcases (h.settled_of_name hnames he hprog hname).origin with
      ⟨hold, hcfg⟩ | ⟨hnew, hexact, honce, _⟩
    · exact absurd hcfg (hother e hold rfl)
    · exact ⟨hnew, hexact, honce⟩

end Return

/-! ## The second call -/

/-- The map `w` has exactly these programs. -/
structure InSync (progs : List ProgramConfig) (w : World) : Prop where
  wanted : ∀ e ∈ w.processMap, wanted progs e = true
  found : ∀ prog ∈ progs, ∃ e ∈ w.processMap, e.name = prog.name ∧ w.Configured e.obj prog

/-- Where a call is that finds every entry as it wants it. -/
structure Rechecking (w₀ : World) (progs : List ProgramConfig) (rest : List Frame)
    (s : Sys × List OwnCall) : Prop where
  wf : s.1.Wf
  log : s.2 = []
  agrees : Agrees w₀ s.1.world
  stack : (∃ pre todo, w₀.processMap = pre ++ todo ∧ s.1.stack =
      .syncRemove (todo.head?.map (·.node)) progs :: .syncAdd progs :: rest) ∨
    (∃ done todo, progs = done ++ todo ∧ s.1.stack = .syncAdd todo :: rest) ∨ s.1.stack = rest

section SecondCall

variable {w w' w'' : World} {progs : List ProgramConfig} {rest frames : List Frame}
  {s : Sys} {t t' : Sys × List OwnCall} {env : Answers} {frame : Frame} {i : Input}

theorem InSync.agrees (h : InSync progs w) (hagree : Agrees w w') : InSync progs w' where
  wanted := hagree.processMap.symm ▸ h.wanted
  found := by
    intro prog hprog
    obtain ⟨e, he, hname, hcfg⟩ := h.found prog hprog
    exact ⟨e, hagree.processMap.symm ▸ he, hname, hcfg.congr (hagree.configs e he)⟩

/-- A reconciled map has what is wanted, and nothing else. -/
theorem Synced.inSync {w₀ : World} {log : List OwnCall} (h : Synced w₀ progs w log) :
    InSync progs w where
  wanted := by
    intro e he
    obtain ⟨prog, hprog, hname⟩ := (h.keys e.name).mp ⟨e, he, rfl⟩
    simpa [Supervisorcpp.wanted] using ⟨prog, hprog, hname⟩
  found := by
    intro prog hprog
    obtain ⟨e, he, hname⟩ := (h.keys prog.name).mpr ⟨prog, hprog, rfl⟩
    exact ⟨e, he, hname, h.configs e he prog hprog hname.symm⟩

/-- The first loop passes every entry. -/
theorem recheck_syncRemove {pre todo : List Entry} (hwf : w.Wf) (h : InSync progs w)
    (hmap : w.processMap = pre ++ todo) {c c' : Ctl}
    (hexec : execFrame env rest w c (.syncRemove (todo.head?.map (·.node)) progs) =
      some (w', c', frames)) :
    w' = w ∧ (frames = [] ∨ ∃ pre' todo', w.processMap = pre' ++ todo' ∧
      frames = [.syncRemove (todo'.head?.map (·.node)) progs]) := by
  obtain ⟨hw, hturn⟩ := syncRemove_exec hwf hmap hexec
  refine ⟨hw, ?_⟩
  rcases hturn with ⟨_, rfl⟩ | ⟨e, todo', rfl, ⟨_, rfl⟩ | ⟨hno, _⟩⟩
  · exact .inl rfl
  · exact .inr ⟨pre ++ [e], todo', by simp [hmap], rfl⟩
  · have hwant := h.wanted e (by simp [hmap])
    rw [hno] at hwant
    cases hwant

/-- The second loop leaves every entry alone. -/
theorem recheck_syncAdd {done todo : List ProgramConfig} (hwf : w.Wf) (h : InSync progs w)
    (hsplit : progs = done ++ todo) {c c' : Ctl}
    (hexec : execFrame env rest w c (.syncAdd todo) = some (w', c', frames)) :
    w' = w ∧ (frames = [] ∨ ∃ done' todo', progs = done' ++ todo' ∧ frames = [.syncAdd todo']) := by
  obtain ⟨hw, hturn⟩ := syncAdd_exec hexec
  refine ⟨hw, ?_⟩
  rcases hturn with ⟨_, rfl⟩ | ⟨prog, todo', rfl, hprog⟩
  · exact .inl rfl
  · obtain ⟨e, he, hname, hcfg⟩ := h.found prog (by simp [hsplit])
    rcases hprog with ⟨hnone, _⟩ | ⟨e', he', hname', ⟨_, rfl⟩ | ⟨hne, _⟩⟩
    · exact absurd hname (hnone e he)
    · exact .inr ⟨done ++ [prog], todo', by simp [hsplit], rfl⟩
    · obtain rfl := hwf.entry_ext_name he he' (hname.trans hname'.symm)
      exact absurd hcfg hne

/-- A second call finds nothing to do. -/
theorem Rechecking.step (hsync : InSync progs w) (h : Rechecking w progs rest t)
    (hin : Inside rest t.1) (hlogged : Machine.logged step ownCalls t i = some t') :
    Rechecking w progs rest t' := by
  obtain ⟨hstep, hlog⟩ := Machine.logged_eq_some hlogged
  have hnow := hsync.agrees h.agrees
  have hwf := h.wf.world
  have hne := hin.ne
  rw [h.log, List.nil_append] at hlog
  rcases step_cases hstep with ⟨env, frame, rest', frames, rfl, hs, hs', hexec⟩ |
      ⟨ready, rfl, _, hloop, _, _⟩ | ⟨hinput, hout, hs', _⟩
  · have hquiet : t'.1.world = t.1.world → t'.2 = [] := by
      intro hw
      rw [hlog, ownCalls_exec hs hstep, hw, callsBetween_self]
      simp
    rcases h.stack with ⟨pre, todo, hmap, hstack⟩ | ⟨done, todo, hsplit, hstack⟩ | hstack
    · obtain ⟨rfl, rfl⟩ := List.cons.inj (hs.symm.trans hstack)
      obtain ⟨hw, hend⟩ := recheck_syncRemove hwf hnow (h.agrees.processMap.trans hmap) hexec
      refine ⟨h.wf.step hstep, hquiet hw, hw ▸ h.agrees, ?_⟩
      rcases hend with rfl | ⟨pre', todo', hmap', rfl⟩
      · exact .inr (.inl ⟨[], progs, rfl, hs'⟩)
      · exact .inl ⟨pre', todo', h.agrees.processMap.symm.trans hmap', hs'⟩
    · obtain ⟨rfl, rfl⟩ := List.cons.inj (hs.symm.trans hstack)
      obtain ⟨hw, hend⟩ := recheck_syncAdd hwf hnow hsplit hexec
      refine ⟨h.wf.step hstep, hquiet hw, hw ▸ h.agrees, ?_⟩
      rcases hend with rfl | ⟨done', todo', hsplit', rfl⟩
      · exact .inr (.inr hs')
      · exact .inr (.inl ⟨done', todo', hsplit', hs'⟩)
    · exact absurd hstack hne
  · -- no event loop is running inside the call
    rcases h.stack with ⟨_, _, _, hstack⟩ | ⟨_, _, _, hstack⟩ | hstack
    · simp [hstack, looping] at hloop
    · simp [hstack, looping] at hloop
    · exact absurd hstack hne
  · rw [ownCalls_outside hinput.1] at hlog
    exact ⟨h.wf.step hstep, hlog, h.agrees.trans hout.agrees, hs' ▸ h.stack⟩

/-- A call that finds every entry as it wants it does nothing. -/
theorem DuringSync.rechecking (hwf : s.Wf) (hsync : InSync progs s.world)
    (hs : s.stack = syncFrames s.world progs ++ rest) (h : DuringSync s rest t) :
    Rechecking s.world progs rest t := by
  refine Machine.Reach.invariant (P := Rechecking s.world progs rest) ?_ ?_ h
  · rintro _ rfl
    exact ⟨hwf, rfl, .refl _, .inl ⟨[], s.world.processMap, rfl, hs⟩⟩
  · exact fun _ _ _ ht hguard hlogged => ht.step hsync hguard.1 hlogged

end SecondCall

/-! ## The guarantee -/

/-- **A reload reconciles the map with the new programs.**  Let `sync_processes` be called in
`reload_config_` with programs of distinct names, and let it return with no other `sync_processes`
begun in between, whatever its nested waits have handled. Then the map has exactly the new
programs, each with a configuration that compares equal to the new one; unchanged entries have kept
their objects, which the call has neither started, stopped nor killed; every other entry is a new object
with the new configuration that was started once, after the old one was out of the map. A later call
with the same programs adds, removes, starts and stops nothing. -/
theorem sync_processes_reconciles {s₀ : Sys} {newConfig : Configuration} {rest : List Frame}
    {s : Sys × List OwnCall} (hwf : s₀.Wf) (hnames : (newConfig.programs.map (·.name)).Nodup)
    (hcall : s₀.stack = syncFrames s₀.world newConfig.programs ++ .reloadDone newConfig :: rest)
    (hrun : DuringSync s₀ (.reloadDone newConfig :: rest) s)
    (hreturn : s.1.stack = .reloadDone newConfig :: rest) :
    Synced s₀.world newConfig.programs s.1.world s.2 ∧
      ∀ s₂ rest₂ t, s₂.Wf → Agrees s.1.world s₂.world →
        s₂.stack = syncFrames s₂.world newConfig.programs ++ rest₂ → DuringSync s₂ rest₂ t →
        t.2 = [] ∧ Agrees s₂.world t.1.world := by
  obtain ⟨_, hsyncing⟩ := hrun.syncing hwf hnames hcall
  obtain ⟨⟨nested, core, hstack, _, hprog⟩, hcalls⟩ := hsyncing [] hreturn
  have hempty : nested = [] ∧ core = [] := by
    rw [hreturn, ← List.append_assoc] at hstack
    have hnil : [] = nested ++ core := List.append_cancel_right ((List.nil_append _).trans hstack)
    exact List.append_eq_nil_iff.mp hnil.symm
  obtain ⟨rfl, rfl⟩ := hempty
  have hsynced : Synced s₀.world newConfig.programs s.1.world s.2 := by
    cases hprog with
    | finished hadd => exact hadd.synced hwf.world hnames hcalls
  refine ⟨hsynced, ?_⟩
  intro s₂ rest₂ t hwf₂ hagree hcall₂ hrun₂
  have hrecheck := hrun₂.rechecking hwf₂ (hsynced.inSync.agrees hagree) hcall₂
  exact ⟨hrecheck.log, hrecheck.agrees⟩

/-- A test for the steps of a call: the stack is above `rest`, and no reload is next. -/
def staysInside (rest : List Frame) (s : Sys × List OwnCall) (_ : Input) : Bool :=
  decide (rest.length < s.1.stack.length) &&
    decide (s.1.stack.drop (s.1.stack.length - rest.length) = rest) &&
    decide (s.1.stack.head? ≠ some .reloadConfig)

theorem inside_of_drop {rest : List Frame} {s : Sys} (hlen : rest.length < s.stack.length)
    (hdrop : s.stack.drop (s.stack.length - rest.length) = rest) : Inside rest s := by
  refine ⟨s.stack.take (s.stack.length - rest.length), ?_, ?_⟩
  · rw [← List.length_pos_iff, List.length_take]
    omega
  · have hsplit := List.take_append_drop (s.stack.length - rest.length) s.stack
    rw [hdrop] at hsplit
    exact hsplit.symm

theorem inside_of_staysInside {rest : List Frame} (s : Sys × List OwnCall) (i : Input)
    (h : staysInside rest s i = true) : Inside rest s.1 ∧ beginsNoSync s.1 i := by
  simp only [staysInside, Bool.and_eq_true, decide_eq_true_eq] at h
  obtain ⟨⟨hlen, hdrop⟩, hhead⟩ := h
  refine ⟨inside_of_drop hlen hdrop, ?_⟩
  cases i with
  | exec env => exact fun hreload => absurd hreload hhead
  | _ => trivial

/-- The configuration with "new" in the place of "old". -/
def renewed : Configuration := ⟨"/etc/supervisord.conf", [.simple "new", .simple "web"]⟩

/-- A daemon with "old" and "web" running, at the call of `sync_processes` for it. -/
def renewing : Option Sys :=
  Machine.run step (bootSimple ["old", "web"]) [.forking ⟨400, by decide⟩,
    .forking ⟨401, by decide⟩, .next, .request .reloadConfig, .exec { parsed := .ok renewed }]

/-- The call waits for "old", answers a request and is told of the exit; then it adds "new". -/
def Input.throughSync : List Input :=
  [.next, .next, .next, .request (.startProcess ["web"]), .next, .childExit 0 (.exited 0),
    .dispatch .sigchld, .next, .seconds 1, .next, .next, .next, .next, .next, .next, .next, .next,
    .forking ⟨402, by decide⟩, .next, .next]

theorem sync_processes_reconciles_renewed : ∃ s₀ rest s, s₀.Wf ∧
    (renewed.programs.map (·.name)).Nodup ∧
    s₀.stack = syncFrames s₀.world renewed.programs ++ .reloadDone renewed :: rest ∧
    DuringSync s₀ (.reloadDone renewed :: rest) s ∧ s.1.stack = .reloadDone renewed :: rest ∧
    s.2 = [.stopped 0, .removed 0, .added 2, .started 2] ∧
    Synced s₀.world renewed.programs s.1.world s.2 := by
  have hnames : (renewed.programs.map (·.name)).Nodup := by decide
  cases hs₀ : renewing with
  | none => exact absurd hs₀ (by decide)
  | some s₀ =>
      let rest : List Frame := [.answer .reloadConfig, .run, .endRun, .stopAll, .clearMap]
      have hwf : s₀.Wf := Sys.Wf.reach (.of_run (.init (boot_bootSimple ["old", "web"])) hs₀)
      have hcall : s₀.stack =
          syncFrames s₀.world renewed.programs ++ .reloadDone renewed :: rest := by
        have htest : (renewing.any fun s => decide (s.stack =
            syncFrames s.world renewed.programs ++ .reloadDone renewed :: rest)) = true := by decide
        simpa [hs₀] using htest
      have htest : (renewing.any fun s₀ => (Machine.guardedRun (Machine.logged step ownCalls)
          (staysInside (.reloadDone renewed :: rest)) (s₀, []) Input.throughSync).any fun s =>
            decide (s.1.stack = .reloadDone renewed :: rest ∧
              s.2 = [.stopped 0, .removed 0, .added 2, .started 2])) = true := by decide
      rw [hs₀] at htest
      have hstart : DuringSync s₀ (.reloadDone renewed :: rest) (s₀, []) := .init rfl
      obtain ⟨s, hrun, hend⟩ := Machine.Reach.exists_of_guardedRun inside_of_staysInside hstart htest
      obtain ⟨hreturn, hlog⟩ := of_decide_eq_true hend
      exact ⟨s₀, rest, s, hwf, hnames, hcall, hrun, hreturn, hlog,
        (sync_processes_reconciles hwf hnames hcall hrun hreturn).1⟩

end Supervisorcpp
