/-
# Every handler returns

A handler that waits suspends those below it, and while it waits other handlers run on top of it. In a
run that goes on for ever and in which, from some time on, nothing arrives but ticks and exits, every
statement on the stack is nevertheless left behind: the waits have deadlines, the loops run over a map
that nobody extends, and a child that is sent `SIGKILL` exits. So the daemon comes back to its event
loop and every request is answered, and a daemon that is told to shut down ends.

The argument is about one frame at a time: it returns if, whenever it is on top, the stack is later
what was below it, with no new entries in the map. Frames that push others return because those do,
so the induction goes from the innermost statement outwards.
-/
import Supervisorcpp.Lib.LeadsTo
import Supervisorcpp.Manager.Answers
import Supervisorcpp.Manager.Blocking

namespace Supervisorcpp

open Machine (Endless)

/-! ## Quiet runs -/

/-- The daemon waits in `waitpid` for a child of `o` that has not exited. -/
def Blocked (s : Sys) (o : ObjId) : Prop :=
  (∃ frame rest, s.stack = frame :: rest ∧ frame.blocksOn = some o) ∧
    s.world.finishKill o {} = none

/-- An endless run in which nothing arrives but ticks and exits, and in which the surroundings do
their part: time passes, the daemon's thread is scheduled, and a child that the daemon waits for
after it has sent it `SIGKILL` exits. -/
structure QuietRun extends Endless step where
  start : Machine.Reach step Machine.anyStep Boot (state 0)
  quiet : ∀ n ready, input n = .dispatch ready → ready = .timer ∨ ready = .sigchld
  time : ∀ t, ∃ n, t ≤ (state n).world.now
  thread : toEndless.Fair fun i => ∃ env, i = .exec env
  exits : ∀ n o, Blocked (state n) o → ∃ m, n ≤ m ∧ ¬ Blocked (state m) o
  /-- no iterator is used that a nested reload has made invalid -/
  defined : ∀ n rest, (state n).stack ≠ .undefined :: rest

namespace QuietRun

variable {r : QuietRun}

theorem reach (r : QuietRun) (n : ℕ) : Machine.Reach step Machine.anyStep Boot (r.state n) :=
  Endless.reach r.start n

theorem wf (r : QuietRun) (n : ℕ) : (r.state n).Wf := Sys.Wf.reach (r.reach n)

/-- The two handlers that a quiet run starts. -/
def IsTick (frame : Frame) : Prop := frame = .onTimer none ∨ frame = .handleSigchld

/-- One step of a quiet run. -/
theorem step_cases (r : QuietRun) (n : ℕ) :
    (∃ env frame rest frames, r.input n = .exec env ∧ (r.state n).stack = frame :: rest ∧
        (r.state (n + 1)).stack = frames ++ rest ∧
        execFrame env rest (r.state n).world (r.state n).ctl frame =
          some ((r.state (n + 1)).world, (r.state (n + 1)).ctl, frames)) ∨
    (∃ frame, IsTick frame ∧ (r.state (n + 1)).world = (r.state n).world ∧
        (r.state (n + 1)).ctl = (r.state n).ctl ∧
        looping (r.state n).world.now (r.state n).stack = true ∧
        (r.state n).ctl.ioStopped = false ∧
        (r.state (n + 1)).stack = frame :: (r.state n).stack ∧ ∀ env, r.input n ≠ .exec env) ∨
    (Outside (r.state n).world (r.state (n + 1)).world ∧
        (r.state (n + 1)).stack = (r.state n).stack ∧ (r.state (n + 1)).ctl = (r.state n).ctl ∧
        ∀ env, r.input n ≠ .exec env) := by
  rcases Supervisorcpp.step_cases (r.next n) with ⟨env, frame, rest, frames, hi, hs, hs', hexec⟩ |
      ⟨ready, hi, hw, hloop, hstopped, hdisp⟩ | ⟨⟨hne, _⟩, hout, hs, hc⟩
  · exact .inl ⟨env, frame, rest, frames, hi, hs, hs', hexec⟩
  · have hnot : ∀ env, r.input n ≠ .exec env := by
      rw [hi]
      nofun
    right; left
    rcases r.quiet n ready hi with rfl | rfl
    · simp only [dispatch] at hdisp
      split at hdisp
      · obtain ⟨hc, hs⟩ := Prod.mk.inj (Option.some.inj hdisp)
        exact ⟨_, .inl rfl, hw, hc.symm, hloop, hstopped, hs.symm, hnot⟩
      · cases hdisp
    · obtain ⟨hc, hs⟩ := Prod.mk.inj (Option.some.inj hdisp)
      exact ⟨_, .inr rfl, hw, hc.symm, hloop, hstopped, hs.symm, hnot⟩
  · exact .inr (.inr ⟨hout, hs, hc, hne⟩)

end QuietRun

/-! ## Executing a statement -/

/-- `frame` is on top of `rest`, and the rest of the daemon meets `P`. -/
def On (frame : Frame) (rest : List Frame) (P : World → Ctl → Prop) (s : Sys) : Prop :=
  s.stack = frame :: rest ∧ P s.world s.ctl

/-- `frame` has been executed on top of `rest` where `P` held. -/
def After (frame : Frame) (rest : List Frame) (P : World → Ctl → Prop) (s : Sys) : Prop :=
  ∃ env w c frames, w.Wf ∧ P w c ∧
    execFrame env rest w c frame = some (s.world, s.ctl, frames) ∧ s.stack = frames ++ rest

/-- What the surroundings do not change. -/
def Lasts (P : World → Ctl → Prop) : Prop := ∀ w w' c, Outside w w' → P w c → P w' c

/-- The stack is `stack` and the map is `entries`. -/
def At (stack : List Frame) (entries : List Entry) (s : Sys) : Prop :=
  s.stack = stack ∧ s.world.processMap = entries

/-- The stack is `stack`, and no entry has been added to `entries`. -/
def Left (stack : List Frame) (entries : List Entry) (s : Sys) : Prop :=
  s.stack = stack ∧ s.world.processMap.Sublist entries

theorem Lasts.map (entries : List Entry) : Lasts fun w _ => w.processMap = entries :=
  fun _ _ _ hout h => hout.processMap_eq.trans h

namespace QuietRun

variable {r : QuietRun} {frame : Frame} {rest : List Frame} {P : World → Ctl → Prop}
  {entries : List Entry} {Q : Sys → Prop}

/-- A statement stays on top until it is executed. -/
theorem on_unless (hP : Lasts P)
    (hloop : ∀ w c, P w c → looping w.now (frame :: rest) = true → c.ioStopped = true) :
    r.Unless (On frame rest P) (After frame rest P) := by
  rintro n ⟨hs, hp⟩
  rcases r.step_cases n with ⟨env, f, fs, frames, _, hstack, hstack', hexec⟩ |
      ⟨f, _, _, _, hrun, hgoes, _⟩ | ⟨hout, hstack, hctl, _⟩
  · obtain ⟨rfl, rfl⟩ := List.cons.inj (hs.symm.trans hstack)
    exact .inr ⟨env, _, _, frames, (r.wf n).world, hp, hexec, hstack'⟩
  · rw [hloop _ _ hp (hs ▸ hrun)] at hgoes
    cases hgoes
  · exact .inl ⟨hstack.trans hs, hctl ▸ hP _ _ _ hout hp⟩

/-- A statement that can be executed is executed. -/
theorem exec_leadsTo (hP : Lasts P)
    (hloop : ∀ w c, P w c → looping w.now (frame :: rest) = true → c.ioStopped = true)
    (hcan : ∀ w c, w.Wf → P w c → ∃ env, (execFrame env rest w c frame).isSome) :
    r.LeadsTo (On frame rest P) (After frame rest P) := by
  refine (on_unless hP hloop).leadsTo r.thread ?_ ?_
  · rintro n ⟨hs, hp⟩
    obtain ⟨env, hsome⟩ := hcan _ _ (r.wf n).world hp
    refine ⟨.exec env, ⟨env, rfl⟩, ?_⟩
    simp only [step, hs, Option.isSome_map]
    exact hsome
  · rintro n ⟨hs, hp⟩ ⟨env, hi⟩
    rcases r.step_cases n with ⟨env, f, fs, frames, _, hstack, hstack', hexec⟩ |
        ⟨_, _, _, _, _, _, _, hne⟩ | ⟨_, _, _, hne⟩
    · obtain ⟨rfl, rfl⟩ := List.cons.inj (hs.symm.trans hstack)
      exact ⟨env, _, _, frames, (r.wf n).world, hp, hexec, hstack'⟩
    · exact absurd hi (hne env)
    · exact absurd hi (hne env)

theorem looping_of_ready (hready : frame.ready = true) (now : Int) :
    looping now (frame :: rest) = false := by
  cases frame with
  | waitAll deadline phase => cases phase <;> first | rfl | cases hready
  | waitStop o deadline phase next => cases phase <;> first | rfl | cases hready
  | run => cases hready
  | _ => rfl

/-- **The rule of one statement.**  What the frames it leaves lead to, it leads to. -/
theorem leadsTo_of_exec (hready : frame.ready = true)
    (h : ∀ {env w w' c c' frames}, w.Wf → w.processMap = entries →
      execFrame env rest w c frame = some (w', c', frames) →
      r.LeadsTo (At (frames ++ rest) w'.processMap) Q) :
    r.LeadsTo (At (frame :: rest) entries) Q := by
  have hexec : r.LeadsTo (At (frame :: rest) entries)
      (After frame rest fun w _ => w.processMap = entries) :=
    exec_leadsTo (Lasts.map entries) (fun _ _ _ hloop => absurd hloop (by simp [looping_of_ready hready]))
      (fun _ _ hwf _ => ⟨{}, execFrame_isSome hwf hready⟩)
  refine hexec.trans ?_
  rintro n ⟨env, w, c, frames, hwf, hmap, hrun, hstack⟩
  exact h hwf hmap hrun n ⟨hstack, rfl⟩

/-! ## Statements that are left behind -/

/-- Once on top, the frame is left behind, and meanwhile nothing is added to the map. -/
def Returns (r : QuietRun) (frame : Frame) : Prop :=
  ∀ rest entries, r.LeadsTo (At (frame :: rest) entries) (Left rest entries)

/-- What is left to a frame below may have fewer entries. -/
theorem left_leadsTo (h : ∀ entries', entries'.Sublist entries → r.LeadsTo (At rest entries') Q) :
    r.LeadsTo (Left rest entries) Q :=
  fun n hn => h _ hn.2 n ⟨hn.1, rfl⟩

theorem Left.of_sublist {stack : List Frame} {entries' : List Entry} {s : Sys}
    (h : Left stack entries' s) (hsub : entries'.Sublist entries) : Left stack entries s :=
  ⟨h.1, h.2.trans hsub⟩

/-- Frames that return do so one after the other. -/
theorem returns_all {frames : List Frame} (h : ∀ f ∈ frames, Returns r f) :
    r.LeadsTo (At (frames ++ rest) entries) (Left rest entries) := by
  induction frames generalizing entries with
  | nil => exact .of_imp fun s hs => ⟨hs.1, hs.2 ▸ List.Sublist.refl _⟩
  | cons f fs ih =>
      obtain ⟨hf, hfs⟩ := List.forall_mem_cons.mp h
      refine (hf (fs ++ rest) entries).trans (left_leadsTo fun entries' hsub => ?_)
      exact (ih hfs).mono (fun _ => id) fun _ hs => Left.of_sublist hs hsub

/-- A statement whose frames are left behind is left behind. -/
theorem returns_of_exec (hready : frame.ready = true)
    (h : ∀ {env rest w w' c c' frames}, w.Wf →
      execFrame env rest w c frame = some (w', c', frames) →
      w'.processMap.Sublist w.processMap ∧ ∀ f ∈ frames, Returns r f) : Returns r frame := by
  intro rest entries
  refine leadsTo_of_exec hready fun hwf hmap hexec => ?_
  obtain ⟨hsub, hframes⟩ := h hwf hexec
  exact (returns_all hframes).mono (fun _ => id) fun _ hs => Left.of_sublist hs (hmap ▸ hsub)

end QuietRun

/-! ## The map shrinks -/

section Shrinks

variable {env : Answers} {w w' : World} {c c' : Ctl} {frame : Frame} {rest frames : List Frame}

theorem eraseFrames_sublist (w : World) (node : NodeId) (held : List Frame) :
    (w.eraseFrames node held).1.processMap.Sublist w.processMap := by
  unfold World.eraseFrames
  split
  · next v o h =>
      obtain ⟨e, _, _, _, rfl⟩ := World.eraseNode_cases h
      exact List.filter_sublist
  · exact List.Sublist.refl _

/-- Only `add_process` adds to the map. -/
theorem execFrame_sublist (hadd : ∀ config, frame ≠ .addProcess config)
    (h : execFrame env rest w c frame = some (w', c', frames)) :
    w'.processMap.Sublist w.processMap := by
  have hsame : ∀ {v}, w.SameMap v → v.processMap.Sublist w.processMap := fun hsame => by
    rw [hsame.processMap]
  cases hf : frame.foreign with
  | true => exact hsame (foreign_sameMap hf h)
  | false =>
      cases frame with
      | startProcess name =>
          simp only [execFrame] at h
          split at h
          · obtain ⟨rfl, _⟩ := by simpa using h
            exact List.Sublist.refl _
          · obtain ⟨⟨v, b⟩, hv, h⟩ := Option.map_eq_some_iff.mp h
            obtain ⟨rfl, _⟩ := by simpa using h
            exact hsame (.callStart hv)
      | removeProcess name =>
          obtain ⟨⟨v, fs⟩, hv, h⟩ := Option.map_eq_some_iff.mp h
          obtain ⟨rfl, _, _⟩ := by simpa using h
          rcases removeProcess_cases hv with
            ⟨_, rfl, _⟩ | ⟨e, p, _, _, ⟨_, hstop, _⟩ | ⟨u, hu, heq⟩⟩
          · exact List.Sublist.refl _
          · exact hsame (.callStop hstop)
          · obtain ⟨rfl, _⟩ := Prod.mk.inj heq
            have hsub := eraseFrames_sublist u e.node []
            rcases hu with ⟨_, rfl⟩ | ⟨_, hstop⟩
            · exact hsub
            · exact hsub.trans (hsame (.callStop hstop))
      | waitStop o deadline phase next =>
          cases next with
          | return_ => cases hf
          | erase node =>
              cases phase with
              | check =>
                  simp only [execFrame] at h
                  split at h
                  · have hreap := hsame (World.SameMap.handleSigchld w)
                    split at h <;>
                      (obtain ⟨rfl, _⟩ := Prod.mk.inj (Option.some.inj h); exact hreap)
                  · obtain ⟨rfl, _⟩ := Prod.mk.inj (Option.some.inj h)
                    exact eraseFrames_sublist (w.note _) node _
              | runFor until_ =>
                  simp only [execFrame] at h
                  split at h
                  · obtain ⟨rfl, _⟩ := by simpa using h
                    exact List.Sublist.refl _
                  · cases h
      | addProcess config => exact absurd rfl (hadd config)
      | syncRemove it newPrograms =>
          cases it with
          | none =>
              obtain ⟨rfl, _⟩ := Prod.mk.inj (Option.some.inj h)
              exact List.Sublist.refl _
          | some it =>
              simp only [execFrame] at h
              split at h
              · obtain ⟨rfl, _⟩ := Prod.mk.inj (Option.some.inj h)
                exact List.Sublist.refl _
              · split at h <;>
                  (obtain ⟨rfl, _⟩ := Prod.mk.inj (Option.some.inj h); exact List.Sublist.refl _)
      | syncAdd newPrograms =>
          cases newPrograms with
          | nil =>
              obtain ⟨rfl, _⟩ := Prod.mk.inj (Option.some.inj h)
              exact List.Sublist.refl _
          | cons prog progs =>
              simp only [execFrame] at h
              split at h
              · obtain ⟨rfl, _⟩ := Prod.mk.inj (Option.some.inj h)
                exact List.Sublist.refl _
              · obtain ⟨p, _, h⟩ := Option.map_eq_some_iff.mp h
                split at h <;> (obtain ⟨rfl, _⟩ := Prod.mk.inj h; exact List.Sublist.refl _)
      | clearMap =>
          simp only [execFrame] at h
          split at h
          · obtain ⟨rfl, _⟩ := Prod.mk.inj (Option.some.inj h)
            exact List.Sublist.refl _
          · obtain ⟨rfl, _⟩ := Prod.mk.inj (Option.some.inj h)
            exact eraseFrames_sublist w _ _
      | _ => cases hf

end Shrinks

/-! ## Loops over the map -/

/-- The entries a loop behind `after` has still to come to. -/
def ahead (after : Option String) (entries : List Entry) : List Entry :=
  entries.filter fun e => match after with
    | none => true
    | some k => decide (k < e.name)

/-- Fewer entries, fewer turns to go. -/
theorem ahead_sublist {entries entries' : List Entry} (after : Option String)
    (h : entries'.Sublist entries) : (ahead after entries').length ≤ (ahead after entries).length :=
  (h.filter _).length_le

/-- A turn of the loop leaves fewer entries ahead. -/
theorem ahead_next {w : World} {after : Option String} {e : Entry} (h : w.nextEntry after = some e) :
    (ahead (some e.name) w.processMap).length < (ahead after w.processMap).length := by
  have hin : e ∈ ahead after w.processMap := by
    have hfound := List.find?_some h
    refine List.mem_filter.mpr ⟨World.nextEntry_mem h, ?_⟩
    cases after with
    | none => rfl
    | some k => exact hfound
  have hsub : (ahead (some e.name) w.processMap).Sublist (ahead after w.processMap) := by
    refine List.monotone_filter_right _ fun e' he' => ?_
    have hlt : e.name < e'.name := of_decide_eq_true he'
    cases after with
    | none => rfl
    | some k =>
        have hk : k < e.name := of_decide_eq_true (List.mem_filter.mp hin).2
        exact decide_eq_true (lt_trans hk hlt)
  refine lt_of_le_of_ne hsub.length_le fun heq => ?_
  rw [← hsub.eq_of_length heq] at hin
  exact lt_irrefl _ (of_decide_eq_true (List.mem_filter.mp hin).2)

namespace QuietRun

variable {r : QuietRun}

/-- **The rule for loops over the map.**  A loop that goes on behind the entry it has come to, after
statements that are left behind, is left behind itself. -/
theorem returns_loop {κ : Type} (loop : Option String → κ → Frame)
    (hready : ∀ after k, (loop after k).ready = true)
    (hadd : ∀ after k config, loop after k ≠ .addProcess config)
    (h : ∀ {after k env rest w w' c c' frames}, w.Wf →
      execFrame env rest w c (loop after k) = some (w', c', frames) →
      (∀ f ∈ frames, Returns r f) ∨
        ∃ e k' first, w.nextEntry after = some e ∧ frames = first ++ [loop (some e.name) k'] ∧
          ∀ f ∈ first, Returns r f) (after : Option String) (k : κ) : Returns r (loop after k) := by
  intro rest entries
  induction hn : (ahead after entries).length using Nat.strongRecOn generalizing after k entries with
  | _ n ih =>
      refine leadsTo_of_exec (hready after k) fun {env w w' c c' frames} hwf hmap hexec => ?_
      have hsub : w'.processMap.Sublist entries := hmap ▸ execFrame_sublist (hadd after k) hexec
      rcases h hwf hexec with hframes | ⟨e, k', first, hnext, rfl, hfirst⟩
      · exact (returns_all hframes).mono (fun _ => id) fun _ hs => Left.of_sublist hs hsub
      · rw [List.append_assoc]
        refine (returns_all hfirst).trans (left_leadsTo fun entries' hsub' => ?_)
        have hless : (ahead (some e.name) entries').length < n := by
          have hlt := ahead_next hnext
          have hle := ahead_sublist (some e.name) (hsub'.trans hsub)
          rw [hmap, hn] at hlt
          exact Nat.lt_of_le_of_lt hle hlt
        exact (ih _ hless (some e.name) k' entries' rfl).mono (fun _ => id)
          fun _ hs => Left.of_sublist hs (hsub'.trans hsub)

end QuietRun

/-! ## The blocking `waitpid` -/

section Waitpid

variable {w w' : World} {o : ObjId}

/-- The wait is over when every child of that pid has exited. -/
theorem finishKill_isSome_iff (hwf : w.Wf) : (w.finishKill o {}).isSome = true ↔
    ∃ p, w.objs o = some p ∧ ∀ c ∈ w.children, c.pid = p.pid → c.status.isSome = true := by
  constructor
  · intro h
    obtain ⟨v, hv⟩ := Option.isSome_iff_exists.mp h
    obtain ⟨p, hp, ⟨hnone | hcut, _⟩ | ⟨c, hc, hstatus, _⟩⟩ := World.finishKill_cases hv
    · refine ⟨p, hp, fun c hc hpid => ?_⟩
      rw [← hpid, hwf.childOf_eq hc] at hnone
      cases hnone
    · cases hcut
    · refine ⟨p, hp, fun c' hc' hpid => ?_⟩
      rw [← hpid, hwf.childOf_eq hc'] at hc
      exact Option.some.inj hc ▸ hstatus
  · rintro ⟨p, hp, hexited⟩
    simp only [World.finishKill, hp, Option.bind_some]
    cases hc : w.childOf p.pid with
    | none => rfl
    | some c =>
        obtain ⟨hin, hpid⟩ := World.childOf_mem hc
        obtain ⟨status, hs⟩ := Option.isSome_iff_exists.mp (hexited c hin hpid)
        simp [hs]

/-- A signal can only end the wait earlier. -/
theorem finishKill_env (env : Env) (h : (w.finishKill o {}).isSome = true) :
    (w.finishKill o env).isSome = true := by
  obtain ⟨v, hv⟩ := Option.isSome_iff_exists.mp h
  obtain ⟨p, hp, ⟨hnone | hcut, _⟩ | ⟨c, hc, hstatus, _⟩⟩ := World.finishKill_cases hv
  · simp [World.finishKill, hp, hnone]
  · cases hcut
  · obtain ⟨status, hs⟩ := Option.isSome_iff_exists.mp hstatus
    simp [World.finishKill, hp, hc, hs]

/-- A child that has exited stays so until it is reaped. -/
theorem finishKill_outside (hwf : w.Wf) (hout : Outside w w')
    (h : (w.finishKill o {}).isSome = true) : (w'.finishKill o {}).isSome = true := by
  obtain ⟨p, hp, hexited⟩ := (finishKill_isSome_iff hwf).mp h
  refine (finishKill_isSome_iff (hout.wf hwf)).mpr ⟨p, hout.objs_eq ▸ hp, ?_⟩
  cases hout with
  | childExit cid status _ =>
      intro c hc hpid
      obtain ⟨a, ha, rfl⟩ := List.mem_map.mp hc
      unfold Child.exit
      split
      · rfl
      · exact hexited a ha (by simpa using hpid)
  | clock nanos => exact hexited
  | reorder hperm => exact fun c hc => hexited c (hperm.mem_iff.mp hc)

end Waitpid

namespace QuietRun

variable {r : QuietRun} {frame : Frame} {o : ObjId}

/-- A blocking call runs no event loop. -/
theorem looping_of_blocksOn {rest : List Frame} (h : frame.blocksOn = some o) (now : Int) :
    looping now (frame :: rest) = false := by
  cases frame <;> first | rfl | cases h

theorem execFrame_blocksOn {env : Answers} {rest : List Frame} {w : World} {c : Ctl}
    (h : frame.blocksOn = some o) (hdone : (w.finishKill o {}).isSome = true) :
    (execFrame env rest w c frame).isSome = true := by
  cases frame with
  | killWait o' =>
      obtain rfl := Option.some.inj h
      simpa [execFrame] using finishKill_env env.toEnv hdone
  | destructorWait o' =>
      obtain rfl := Option.some.inj h
      simpa [execFrame] using finishKill_env env.toEnv hdone
  | _ => cases h

theorem execFrame_of_blocksOn {env : Answers} {rest frames : List Frame} {w w' : World} {c c' : Ctl}
    (h : frame.blocksOn = some o) (hexec : execFrame env rest w c frame = some (w', c', frames)) :
    frames = [] ∧ w'.processMap = w.processMap := by
  cases frame with
  | killWait o' =>
      obtain ⟨v, hv, heq⟩ := Option.map_eq_some_iff.mp hexec
      obtain ⟨rfl, _, rfl⟩ := by simpa using heq
      exact ⟨rfl, (World.SameMap.finishKill hv).processMap⟩
  | destructorWait o' =>
      obtain ⟨v, hv, heq⟩ := Option.map_eq_some_iff.mp hexec
      obtain ⟨rfl, _, rfl⟩ := by simpa using heq
      exact ⟨rfl, (World.SameMap.finishKill hv).processMap⟩
  | _ => cases h

/-- The child exits, and `waitpid` returns. -/
theorem returns_blocking (h : frame.blocksOn = some o) : Returns r frame := by
  intro rest entries
  have hP : Lasts fun w _ => w.Wf ∧ w.processMap = entries ∧ (w.finishKill o {}).isSome = true :=
    fun _ _ _ hout hw => ⟨hout.wf hw.1, hout.processMap_eq.trans hw.2.1,
      finishKill_outside hw.1 hout hw.2.2⟩
  have hbefore : r.Unless (On frame rest fun w _ => w.processMap = entries)
      (After frame rest fun w _ => w.processMap = entries) :=
    on_unless (Lasts.map entries) fun _ _ _ hloop => absurd hloop (by simp [looping_of_blocksOn h])
  -- the child has exited, or the statement has been executed all the same
  have hexits : r.LeadsTo (At (frame :: rest) entries) fun s =>
      On frame rest
          (fun w _ => w.Wf ∧ w.processMap = entries ∧ (w.finishKill o {}).isSome = true) s ∨
        After frame rest (fun w _ => w.processMap = entries) s := by
    rintro n hn
    obtain ⟨m, hnm, hm⟩ : ∃ m, n ≤ m ∧ ¬ Blocked (r.state m) o := by
      by_cases hb : Blocked (r.state n) o
      · exact r.exits n o hb
      · exact ⟨n, Nat.le_refl n, hb⟩
    rcases hbefore.lasts hnm hn with hon | ⟨k, hnk, _, hk⟩
    · refine ⟨m, hnm, .inl ⟨hon.1, (r.wf m).world, hon.2, ?_⟩⟩
      by_contra hnone
      exact hm ⟨⟨frame, rest, hon.1, h⟩, Option.not_isSome_iff_eq_none.mp hnone⟩
    · exact ⟨k, hnk, .inr hk⟩
  have hafter : ∀ {P : World → Ctl → Prop}, (∀ w c, P w c → w.processMap = entries) →
      r.LeadsTo (After frame rest P) (Left rest entries) := by
    rintro P hmap n ⟨env, w, c, frames, _, hp, hexec, hstack⟩
    obtain ⟨rfl, hsame⟩ := execFrame_of_blocksOn h hexec
    exact ⟨n, Nat.le_refl n, hstack, by rw [hsame, hmap _ _ hp]⟩
  refine hexits.cases ?_ (hafter fun _ _ hw => hw)
  refine (exec_leadsTo hP
    (fun _ _ _ hloop => absurd hloop (by simp [looping_of_blocksOn h])) ?_).trans
    (hafter fun _ _ hw => hw.2.1)
  exact fun w c _ hw => ⟨{}, execFrame_blocksOn h hw.2.2⟩

end QuietRun

/-! ## Statements that leave nothing, or references to drop -/

/-- Statements after which nothing is left to do. -/
def Frame.silent : Frame → Bool
  | .endRun => true
  | .stopAllDone => true
  | .handleSigchld => true
  | .startProcess _ => true
  | .reloadDone _ => true
  | .reloadFailed => true
  | .rearmSighup => true
  | .ioStop => true
  | .rpcStartProcess _ => true
  | .answer _ => true
  | .fault _ _ => true
  | _ => false

/-- These statements push nothing. -/
theorem execFrame_silent {env : Answers} {rest frames : List Frame} {w w' : World} {c c' : Ctl}
    {frame : Frame} (h : frame.silent = true)
    (hexec : execFrame env rest w c frame = some (w', c', frames)) : frames = [] := by
  cases frame with
  | startProcess name =>
      simp only [execFrame] at hexec
      split at hexec
      · obtain ⟨_, _, rfl⟩ := by simpa using hexec
        rfl
      · obtain ⟨v, _, heq⟩ := Option.map_eq_some_iff.mp hexec
        obtain ⟨_, _, rfl⟩ := by simpa using heq
        rfl
  | rpcStartProcess params =>
      obtain ⟨v, _, heq⟩ := Option.map_eq_some_iff.mp hexec
      obtain ⟨_, _, rfl⟩ := by simpa using heq
      rfl
  | endRun | stopAllDone | handleSigchld | reloadDone newConfig | reloadFailed | rearmSighup
  | ioStop | answer request | fault request what =>
      obtain ⟨_, _, rfl⟩ := by simpa [execFrame] using hexec
      rfl
  | _ => cases h

namespace QuietRun

variable {r : QuietRun} {frame : Frame}

theorem returns_undefined : Returns r .undefined :=
  fun rest _ n hs => absurd hs.1 (r.defined n rest)

/-- So they return at once. -/
theorem returns_silent (h : frame.silent = true) : Returns r frame := by
  refine returns_of_exec ?_ fun {env rest w w' c c' frames} _ hexec => ⟨?_, ?_⟩
  · cases frame <;> first | rfl | cases h
  · refine execFrame_sublist ?_ hexec
    rintro config rfl
    cases h
  · rw [execFrame_silent h hexec]
    exact List.forall_mem_nil _

theorem returns_release (o : ObjId) : Returns r (.release o) := by
  have hadd : ∀ config, Frame.release o ≠ .addProcess config := by simp
  refine returns_of_exec rfl fun {env rest w w' c c' frames} _ hexec =>
    ⟨execFrame_sublist hadd hexec, ?_⟩
  obtain ⟨⟨v, fs⟩, hv, heq⟩ := Option.map_eq_some_iff.mp hexec
  obtain ⟨_, _, rfl⟩ := by simpa using heq
  rcases releaseProcess_cases hv with ⟨rfl, _⟩ | ⟨rfl, _⟩ | ⟨_, _, _, _, rfl⟩
  · exact List.forall_mem_nil _
  · exact List.forall_mem_nil _
  · exact List.forall_mem_singleton.mpr (returns_blocking rfl)

theorem returns_eraseFrames {w : World} {node : NodeId} {held : List Frame}
    (h : ∀ f ∈ held, Returns r f) : ∀ f ∈ (w.eraseFrames node held).2, Returns r f :=
  forall_eraseFrames h returns_release returns_undefined

/-! ## The loops -/

/-- The loop of `start_all` ends: the map gets no new entries while it runs. -/
theorem returns_startAll (after : Option String) : Returns r (.startAll after) := by
  refine returns_loop (fun after (_ : Unit) => .startAll after) (fun _ _ => rfl) (by simp) ?_ after ()
  intro after _ env rest w w' c c' frames _ hexec
  simp only [execFrame] at hexec
  cases he : w.nextEntry after with
  | none =>
      simp only [he] at hexec
      obtain ⟨_, _, rfl⟩ := by simpa using hexec
      exact .inl (List.forall_mem_nil _)
  | some e =>
      simp only [he] at hexec
      obtain ⟨v, _, heq⟩ := Option.map_eq_some_iff.mp hexec
      obtain ⟨_, _, rfl⟩ := by simpa using heq
      exact .inr ⟨e, (), [], rfl, rfl, List.forall_mem_nil _⟩

/-- So does a tick. -/
theorem returns_onTimer (after : Option String) : Returns r (.onTimer after) := by
  refine returns_loop (fun after (_ : Unit) => .onTimer after) (fun _ _ => rfl) (by simp) ?_ after ()
  intro after _ env rest w w' c c' frames _ hexec
  simp only [execFrame] at hexec
  cases he : w.nextEntry after with
  | none =>
      simp only [he] at hexec
      obtain ⟨_, _, rfl⟩ := by simpa using hexec
      exact .inl (List.forall_mem_nil _)
  | some e =>
      simp only [he] at hexec
      obtain ⟨v, _, heq⟩ := Option.map_eq_some_iff.mp hexec
      obtain ⟨_, _, rfl⟩ := by simpa using heq
      exact .inr ⟨e, (), [], rfl, rfl, List.forall_mem_nil _⟩

/-- So does the loop that kills. -/
theorem returns_stopAllKill (after : Option String) : Returns r (.stopAllKill after) := by
  refine returns_loop (fun after (_ : Unit) => .stopAllKill after) (fun _ _ => rfl) (by simp) ?_
    after ()
  intro after _ env rest w w' c c' frames _ hexec
  simp only [execFrame] at hexec
  cases he : w.nextEntry after with
  | none =>
      simp only [he] at hexec
      obtain ⟨_, _, rfl⟩ := by simpa using hexec
      exact .inl (List.forall_mem_singleton.mpr (returns_silent rfl))
  | some e =>
      simp only [he] at hexec
      split at hexec
      · obtain ⟨v, _, heq⟩ := Option.map_eq_some_iff.mp hexec
        obtain ⟨_, _, rfl⟩ := by simpa using heq
        exact .inr ⟨e, (), [.killWait e.obj], rfl, rfl,
          List.forall_mem_singleton.mpr (returns_blocking rfl)⟩
      · obtain ⟨_, _, rfl⟩ := by simpa using hexec
        exact .inr ⟨e, (), [], rfl, rfl, List.forall_mem_nil _⟩

end QuietRun

/-! ## Time -/

namespace QuietRun

variable {r : QuietRun}

/-- Time does not go back. -/
theorem now_mono (r : QuietRun) {n m : ℕ} (hnm : n ≤ m) :
    (r.state n).world.now ≤ (r.state m).world.now := by
  induction hnm with
  | refl => exact Int.le_refl _
  | step hnm ih =>
      refine Int.le_trans ih ?_
      rcases Sys.Wf.step_world (r.next _) with ⟨env, frame, rest, _, hs, heff⟩ | hworld | hout
      · exact Int.le_of_eq (heff {} ((r.wf _).within hs)).now_eq.symm
      · rw [hworld]
      · exact hout.now_le

/-- Any time comes. -/
theorem time_comes (r : QuietRun) (t : Int) :
    r.LeadsTo (fun _ => True) fun s => t ≤ s.world.now := by
  intro n _
  obtain ⟨m, hm⟩ := r.time t
  exact ⟨max n m, Nat.le_max_left n m, Int.le_trans hm (r.now_mono (Nat.le_max_right n m))⟩

end QuietRun

/-! ## Waits with a deadline

A `reap_until_` loop is not left alone: while `run_for` lasts, ticks and exits are handled on top of
it. But no slice of `run_for` ends much later than the deadline, so when that time has come nothing
is dispatched any more and the condition is looked at for the last time. -/

/-- A `reap_until_` loop with this deadline, in its two phases. -/
structure WaitLoop (r : QuietRun) (wait : Phase → Frame) (deadline : Int) : Prop where
  ready : (wait .check).ready = true
  loops : ∀ until_ now rest, looping now (wait (.runFor until_) :: rest) = decide (now < until_)
  shrinks : ∀ phase config, wait phase ≠ .addProcess config
  check : ∀ {env rest w w' c c' frames},
    execFrame env rest w c (wait .check) = some (w', c', frames) →
    (w.now < deadline ∧ (frames = [wait .check] ∨
      frames = [wait (.runFor (w.now + runForSlice))])) ∨ ∀ f ∈ frames, QuietRun.Returns r f
  runFor : ∀ env rest w c until_, execFrame env rest w c (wait (.runFor until_)) =
    if until_ ≤ w.now || c.ioStopped then some (w, c, [wait .check]) else none

/-- The frames of a tick or an exit being handled. -/
def Frame.ticks : Frame → Bool
  | .onTimer _ => true
  | .handleSigchld => true
  | _ => false

theorem execFrame_ticks {env : Answers} {rest frames : List Frame} {w w' : World} {c c' : Ctl}
    {frame : Frame} (h : frame.ticks = true)
    (hexec : execFrame env rest w c frame = some (w', c', frames)) :
    frames = [] ∨ ∃ tick, frames = [tick] ∧ tick.ticks = true := by
  cases frame with
  | onTimer after =>
      simp only [execFrame] at hexec
      split at hexec
      · obtain ⟨_, _, rfl⟩ := by simpa using hexec
        exact .inl rfl
      · obtain ⟨v, _, heq⟩ := Option.map_eq_some_iff.mp hexec
        obtain ⟨_, _, rfl⟩ := by simpa using heq
        exact .inr ⟨_, rfl, rfl⟩
  | handleSigchld => exact .inl (execFrame_silent rfl hexec)
  | _ => cases h

namespace QuietRun

variable {r : QuietRun} {wait : Phase → Frame} {deadline late : Int} {rest : List Frame}
  {entries : List Entry}

/-- The handlers of ticks and exits return. -/
theorem returns_tick {tick : Frame} (h : tick.ticks = true) : Returns r tick := by
  cases tick with
  | onTimer after => exact returns_onTimer after
  | handleSigchld => exact returns_silent rfl
  | _ => cases h

/-- The wait is still there, perhaps under a tick, and its slice ends at `late` at the latest. -/
def Waiting (wait : Phase → Frame) (late : Int) (rest : List Frame) (entries : List Entry)
    (s : Sys) : Prop :=
  ∃ ticks phase, s.stack = ticks ++ wait phase :: rest ∧ s.world.processMap.Sublist entries ∧
    (∀ until_, phase = .runFor until_ → until_ ≤ late) ∧
    (ticks = [] ∨ ∃ tick, ticks = [tick] ∧ tick.ticks = true)

/-- The wait is over. -/
def Gone (r : QuietRun) (rest : List Frame) (entries : List Entry) (s : Sys) : Prop :=
  ∃ frames, s.stack = frames ++ rest ∧ s.world.processMap.Sublist entries ∧
    ∀ f ∈ frames, Returns r f

theorem gone_leadsTo : r.LeadsTo (Gone r rest entries) (Left rest entries) := by
  rintro n ⟨frames, hs, hsub, hframes⟩
  obtain ⟨m, hnm, hm⟩ := returns_all hframes n ⟨hs, rfl⟩
  exact ⟨m, hnm, Left.of_sublist hm hsub⟩

theorem waiting_unless (hwait : WaitLoop r wait deadline) (hlate : deadline + runForSlice ≤ late) :
    r.Unless (Waiting wait late rest entries) (Gone r rest entries) := by
  rintro n ⟨ticks, phase, hs, hsub, hphase, hticks⟩
  rcases r.step_cases n with ⟨env, frame, fs, frames, _, hstack, hstack', hexec⟩ |
      ⟨frame, htick, hworld, _, hloop, _, hstack', _⟩ | ⟨hout, hstack', _, _⟩
  · rw [hs] at hstack
    rcases hticks with rfl | ⟨tick, rfl, htick⟩
    · -- the wait itself is on top
      obtain ⟨rfl, rfl⟩ := List.cons.inj hstack
      have hsub' := (execFrame_sublist (hwait.shrinks phase) hexec).trans hsub
      cases phase with
      | check =>
          rcases hwait.check hexec with ⟨hnow, rfl | rfl⟩ | hframes
          · exact .inl ⟨[], .check, hstack', hsub', nofun, .inl rfl⟩
          · refine .inl ⟨[], _, hstack', hsub', ?_, .inl rfl⟩
            rintro until_ heq
            obtain rfl := Phase.runFor.inj heq
            omega
          · exact .inr ⟨frames, hstack', hsub', hframes⟩
      | runFor until_ =>
          rw [hwait.runFor] at hexec
          split at hexec
          · obtain ⟨_, _, rfl⟩ := by simpa using hexec
            exact .inl ⟨[], .check, hstack', hsub', nofun, .inl rfl⟩
          · cases hexec
    · -- a tick is being handled on top of the wait
      obtain ⟨rfl, rfl⟩ := List.cons.inj hstack
      have hadd : ∀ config, tick ≠ .addProcess config := by
        rintro config rfl
        cases htick
      have hsub' := (execFrame_sublist hadd hexec).trans hsub
      rcases execFrame_ticks htick hexec with rfl | ⟨next, rfl, hnext⟩
      · exact .inl ⟨[], phase, hstack', hsub', hphase, .inl rfl⟩
      · exact .inl ⟨[next], phase, hstack', hsub', hphase, .inr ⟨next, rfl, hnext⟩⟩
  · rcases hticks with rfl | ⟨tick, rfl, htick'⟩
    · refine .inl ⟨[frame], phase, by rw [hstack', hs]; rfl, hworld ▸ hsub, hphase, ?_⟩
      refine .inr ⟨frame, rfl, ?_⟩
      rcases htick with rfl | rfl <;> rfl
    · have hno : looping (r.state n).world.now (tick :: wait phase :: rest) = false := by
        cases tick <;> first | rfl | cases htick'
      rw [hs, List.singleton_append, hno] at hloop
      cases hloop
  · exact .inl ⟨ticks, phase, hstack'.trans hs, hout.processMap_eq ▸ hsub, hphase, hticks⟩

/-- When it is late enough, the condition is looked at for the last time. -/
theorem late_check_leadsTo (hwait : WaitLoop r wait deadline) (hlate : deadline ≤ late) :
    r.LeadsTo (On (wait .check) rest fun w _ => w.processMap.Sublist entries ∧ late ≤ w.now)
      (Gone r rest entries) := by
  have hP : Lasts fun w _ => w.processMap.Sublist entries ∧ late ≤ w.now := fun _ _ _ hout hw =>
    ⟨hout.processMap_eq ▸ hw.1, Int.le_trans hw.2 hout.now_le⟩
  refine (exec_leadsTo hP
    (fun _ _ _ hloop => absurd hloop (by simp [looping_of_ready hwait.ready]))
    fun _ _ hwf _ => ⟨{}, execFrame_isSome hwf hwait.ready⟩).trans ?_
  rintro n ⟨env, w, c, frames, _, ⟨hsub, hnow⟩, hexec, hstack⟩
  have hsub' := (execFrame_sublist (hwait.shrinks .check) hexec).trans hsub
  rcases hwait.check hexec with ⟨hearly, _⟩ | hframes
  · omega
  · exact ⟨n, Nat.le_refl n, frames, hstack, hsub', hframes⟩

/-- A wait whose time is over is left. -/
theorem late_leadsTo (hwait : WaitLoop r wait deadline) (hlate : deadline ≤ late) {phase : Phase}
    (hphase : ∀ until_, phase = .runFor until_ → until_ ≤ late) :
    r.LeadsTo (On (wait phase) rest fun w _ => w.processMap.Sublist entries ∧ late ≤ w.now)
      (Gone r rest entries) := by
  cases phase with
  | check => exact late_check_leadsTo hwait hlate
  | runFor until_ =>
      have hle := hphase until_ rfl
      have hP : Lasts fun w _ => w.processMap.Sublist entries ∧ late ≤ w.now :=
        fun _ _ _ hout hw =>
          ⟨hout.processMap_eq ▸ hw.1, Int.le_trans hw.2 hout.now_le⟩
      have hover : ∀ {w : World}, late ≤ w.now → until_ ≤ w.now := fun hw => Int.le_trans hle hw
      refine (exec_leadsTo hP ?_ ?_).trans ?_
      · rintro w _ ⟨_, hw⟩ hloop
        rw [hwait.loops] at hloop
        exact absurd (of_decide_eq_true hloop) (Int.not_lt.mpr (hover hw))
      · rintro w c _ ⟨_, hw⟩
        refine ⟨{}, ?_⟩
        rw [hwait.runFor, if_pos (by simp [hover hw])]
        rfl
      · refine Endless.LeadsTo.trans ?_ (late_check_leadsTo hwait hlate)
        rintro n ⟨env, w, c, frames, _, hw, hexec, hstack⟩
        rw [hwait.runFor, if_pos (by simp [hover hw.2])] at hexec
        obtain ⟨hworld, _, rfl⟩ := by simpa using hexec
        exact ⟨n, Nat.le_refl n, hstack, hworld ▸ hw⟩

/-- **Every wait ends.** -/
theorem returns_wait (hwait : WaitLoop r wait deadline) (phase : Phase) :
    Returns r (wait phase) := by
  intro rest entries
  -- the slice that is under way may be any one
  obtain ⟨late, hlate, hphase⟩ : ∃ late, deadline + runForSlice ≤ late ∧
      ∀ until_, phase = .runFor until_ → until_ ≤ late := by
    cases phase with
    | check => exact ⟨deadline + runForSlice, Int.le_refl _, nofun⟩
    | runFor until_ =>
        refine ⟨max (deadline + runForSlice) until_, Int.le_max_left _ _, ?_⟩
        rintro u heq
        obtain rfl := Phase.runFor.inj heq
        exact Int.le_max_right _ _
  have hslice : deadline ≤ late := by
    have hpos : (0 : Int) ≤ runForSlice := by decide
    omega
  have hunless : r.Unless (Waiting wait late rest entries) (Gone r rest entries) :=
    waiting_unless hwait hlate
  have hcomes := (r.time_comes late).during hunless
  refine Endless.LeadsTo.trans (Q := Gone r rest entries) ?_ gone_leadsTo
  refine (hcomes.mono ?_ fun _ => id).cases ?_ (.of_imp fun _ => id)
  · rintro s ⟨hs, hmap⟩
    exact ⟨trivial, [], phase, hs, hmap ▸ List.Sublist.refl _, hphase, .inl rfl⟩
  · rintro n ⟨hnow, ticks, phase', hs, hsub, hphase', rfl | ⟨tick, rfl, htick⟩⟩
    · exact late_leadsTo hwait hslice hphase' n ⟨hs, hsub, hnow⟩
    · obtain ⟨m, hnm, hm⟩ := returns_tick htick (wait phase' :: rest) _ n ⟨hs, rfl⟩
      have hlater := Int.le_trans hnow (r.now_mono hnm)
      obtain ⟨k, hmk, hk⟩ := late_leadsTo hwait hslice hphase' m ⟨hm.1, hm.2.trans hsub, hlater⟩
      exact ⟨k, Nat.le_trans hnm hmk, hk⟩

end QuietRun

end Supervisorcpp
