/-
# Reloads do not overlap

`reload_config_` refuses to run while `daemon_state_` is `RESTARTING`, which is how it keeps a reload
handled in the nested loop of a `sync_processes` from starting a second one underneath it. The guard
is only as good as the variable: the handler of SIGTERM and SIGINT stores `SHUTDOWN` over
`RESTARTING`, and then a reload passes.

This module says which statements schedule the work of a reload and which ones store to
`daemon_state_`, and follows the two along every run.

The invariant counts: of all frames on the stack at most one belongs to a reload in progress, and
while there is one `daemon_state_` is `RESTARTING`. The counterexample is a reload during the
shutdown that SIGTERM has begun.
-/
import Mathlib.Data.List.Count
import Supervisorcpp.Manager.Invariant

namespace Supervisorcpp

/-! ## The statements of a reload -/

/-- The statements of `reload_config_` and of the `sync_processes` it calls. -/
def Frame.reloading : Frame → Bool
  | .startProcess _ | .removeProcess _ | .addProcess _ | .syncRemove _ _ | .syncAdd _
  | .reloadConfig | .reloadDone _ | .reloadFailed => true
  | _ => false

/-- The statements that schedule statements of a reload. -/
def Frame.schedules : Frame → Bool
  | .syncRemove _ _ | .syncAdd _ | .reloadConfig => true
  | _ => false

/-- The statements that store to `daemon_state_` or `config_`. -/
def Frame.stores : Frame → Bool
  | .reloadConfig | .reloadDone _ | .reloadFailed => true
  | _ => false

/-- An activation of `sync_processes`: it is over when its second loop is. -/
def Frame.isSyncAdd : Frame → Bool
  | .syncAdd _ => true
  | _ => false

/-- The end of a `reload_config_` that has passed its checks, normal or by its `catch`. -/
def Frame.endsReload : Frame → Bool
  | .reloadDone _ | .reloadFailed => true
  | _ => false

/-- The activations of `sync_processes` in progress. -/
def activations (stack : List Frame) : Nat := stack.countP Frame.isSyncAdd

/-- The reloads in progress. -/
def reloads (stack : List Frame) : Nat := stack.countP Frame.endsReload

section Statements

variable {env : Answers} {w w' : World} {frame : Frame} {rest frames : List Frame} {c c' : Ctl}

/-- `remove_process` finds nothing, or stops its process and waits, or erases at once. -/
theorem removeProcess_cases {name : String} (h : removeProcess w name env = some (w', frames)) :
    (w.find name = none ∧ w' = w ∧ frames = []) ∨
    ∃ e p, w.find name = some e ∧ w.objs e.obj = some p ∧
      ((0 < p.pid ∧ w.callStop e.obj env.toEnv = some (w', true) ∧
        frames = [.waitStop e.obj (deadlineIn w'.now (p.config.stopwaitsecs + 1)) .check
          (.erase e.node)]) ∨
      ∃ v, (p.pid ≤ 0 ∧ v = w ∨ 0 < p.pid ∧ w.callStop e.obj env.toEnv = some (v, false)) ∧
        (w', frames) = v.eraseFrames e.node []) := by
  unfold removeProcess at h
  cases hfind : w.find name with
  | none =>
      obtain ⟨rfl, rfl⟩ : w = w' ∧ [] = frames := by simpa [hfind] using h
      exact .inl ⟨rfl, rfl, rfl⟩
  | some e =>
      simp only [hfind] at h
      obtain ⟨p, hp, h⟩ := Option.bind_eq_some_iff.mp h
      refine .inr ⟨e, p, rfl, hp, ?_⟩
      split at h
      · next hpos =>
          obtain ⟨⟨v, r⟩, hv, h⟩ := Option.map_eq_some_iff.mp h
          cases r with
          | true =>
              obtain ⟨rfl, rfl⟩ := Prod.mk.inj h
              exact .inl ⟨hpos, hv, rfl⟩
          | false => exact .inr ⟨v, .inr ⟨hpos, hv⟩, h.symm⟩
      · next hpos => exact .inr ⟨w, .inl ⟨by omega, rfl⟩, (Option.some.inj h).symm⟩

theorem eraseFrames_quiet {node : NodeId} {held : List Frame}
    (hheld : ∀ f ∈ held, f.reloading = false) :
    ∀ f ∈ (w.eraseFrames node held).2, f.reloading = false :=
  forall_eraseFrames hheld (fun _ => rfl) rfl

theorem removeProcess_quiet {name : String} (h : removeProcess w name env = some (w', frames)) :
    ∀ f ∈ frames, f.reloading = false := by
  rcases removeProcess_cases h with ⟨_, _, rfl⟩ | ⟨e, p, _, _, ⟨_, _, rfl⟩ | ⟨v, _, heq⟩⟩
  · simp
  · simp [Frame.reloading]
  · rw [show frames = (v.eraseFrames e.node []).2 from congrArg Prod.snd heq]
    exact eraseFrames_quiet (by simp)

theorem stopProcessReturns_quiet (w : World) (o : ObjId) (next : AfterStop) :
    ∀ f ∈ (stopProcessReturns w o next).2, f.reloading = false := by
  have hheld : ∀ f ∈ [Frame.release o], f.reloading = false := by simp [Frame.reloading]
  cases next with
  | return_ => exact hheld
  | erase node => exact eraseFrames_quiet hheld

theorem rpcStopProcess_quiet {params : List String}
    (h : rpcStopProcess w params env = some (w', frames)) : ∀ f ∈ frames, f.reloading = false := by
  cases params with
  | nil =>
      obtain ⟨_, rfl⟩ := Prod.mk.inj (Option.some.inj h)
      simp
  | cons name params =>
      simp only [rpcStopProcess] at h
      grind [Option.bind_eq_some_iff, Frame.reloading]

/-- Only three statements schedule work of a reload. -/
theorem execFrame_quiet (hq : frame.schedules = false)
    (h : execFrame env rest w c frame = some (w', c', frames)) :
    ∀ f ∈ frames, f.reloading = false := by
  cases frame with
  | waitStop o deadline phase next =>
      have hend := stopProcessReturns_quiet w o next
      cases phase <;> simp only [execFrame] at h <;> grind [Frame.reloading]
  | waitAll deadline phase => cases phase <;> simp only [execFrame] at h <;> grind [Frame.reloading]
  | removeProcess name =>
      obtain ⟨r, hr, h⟩ := Option.map_eq_some_iff.mp h
      obtain ⟨rfl, _, rfl⟩ := by simpa using h
      exact removeProcess_quiet hr
  | rpcStopProcess params =>
      obtain ⟨r, hr, h⟩ := Option.map_eq_some_iff.mp h
      obtain ⟨rfl, _, rfl⟩ := by simpa using h
      exact rpcStopProcess_quiet hr
  | clearMap =>
      have herase : ∀ node, ∀ f ∈ (w.eraseFrames node []).2, f.reloading = false :=
        fun node => eraseFrames_quiet (by simp)
      grind [execFrame, Frame.reloading]
  | _ =>
      grind [execFrame, Option.map_eq_some_iff, Frame.reloading, Frame.schedules, releaseProcess]

/-- Only three statements store to `daemon_state_` or `config_`. -/
theorem execFrame_stores (hq : frame.stores = false)
    (h : execFrame env rest w c frame = some (w', c', frames)) :
    c'.daemonState = c.daemonState ∧ c'.config = c.config := by
  unfold execFrame at h
  split at h
  all_goals grind [Option.map_eq_some_iff, Frame.stores]

/-- One turn of the first loop keeps the iteration going or ends it. -/
theorem syncRemove_frames {it : Option NodeId} {progs : List ProgramConfig}
    (h : execFrame env rest w c (.syncRemove it progs) = some (w', c', frames)) :
    ∀ f ∈ frames, f.isSyncAdd = false ∧ f.endsReload = false := by
  cases it with
  | none =>
      obtain ⟨_, _, rfl⟩ := by simpa [execFrame] using h
      simp
  | some it =>
      simp only [execFrame] at h
      grind [Frame.isSyncAdd, Frame.endsReload]

/-- One turn of the second loop ends with the rest of it, or the loop is over. -/
theorem syncAdd_frames {progs : List ProgramConfig}
    (h : execFrame env rest w c (.syncAdd progs) = some (w', c', frames)) :
    frames = [] ∨ ∃ pushed progs', frames = pushed ++ [.syncAdd progs'] ∧
      ∀ f ∈ pushed, f.isSyncAdd = false ∧ f.endsReload = false := by
  cases progs with
  | nil =>
      obtain ⟨_, _, rfl⟩ := by simpa [execFrame] using h
      exact .inl rfl
  | cons prog progs =>
      right
      simp only [execFrame] at h
      split at h
      · obtain ⟨_, _, rfl⟩ := by simpa using h
        exact ⟨[.addProcess prog, .startProcess prog.name], progs, rfl,
          by simp [Frame.isSyncAdd, Frame.endsReload]⟩
      · obtain ⟨p, _, h⟩ := Option.map_eq_some_iff.mp h
        split at h
        · obtain ⟨_, _, rfl⟩ := by simpa using h
          exact ⟨[], progs, rfl, by simp⟩
        · obtain ⟨_, _, rfl⟩ := by simpa using h
          exact ⟨[.removeProcess prog.name, .addProcess prog, .startProcess prog.name], progs, rfl,
            by simp [Frame.isSyncAdd, Frame.endsReload]⟩

/-- `reload_config_` returns at one of its checks, fails to parse, or begins to synchronise. -/
theorem reloadConfig_cases
    (h : execFrame env rest w c .reloadConfig = some (w', c', frames)) :
    w' = w ∧
      (((c.config.configFile = "" ∨ c.daemonState = .restarting) ∧ c' = c ∧ frames = []) ∨
      (c.config.configFile ≠ "" ∧ c.daemonState ≠ .restarting ∧
        ((∃ what, env.parsed = .error what) ∧ c' = { c with daemonState := .running } ∧
            frames = [] ∨
          ∃ newConfig, env.parsed = .ok newConfig ∧ c' = { c with daemonState := .restarting } ∧
            frames = [.syncRemove (w.processMap.head?.map (·.node)) newConfig.programs,
              .syncAdd newConfig.programs, .reloadDone newConfig]))) := by
  simp only [execFrame] at h
  split at h
  · next hfile =>
      obtain ⟨hw, rfl, rfl⟩ := by simpa using h
      exact ⟨hw.symm, .inl ⟨.inl hfile, rfl, rfl⟩⟩
  · next hfile =>
      split at h
      · next hbusy =>
          obtain ⟨hw, rfl, rfl⟩ := by simpa using h
          exact ⟨hw.symm, .inl ⟨.inr hbusy, rfl, rfl⟩⟩
      · next hbusy =>
          split at h
          · next what hparsed =>
              obtain ⟨hw, rfl, rfl⟩ := by simpa using h
              exact ⟨hw.symm, .inr ⟨hfile, hbusy, .inl ⟨⟨what, hparsed⟩, rfl, rfl⟩⟩⟩
          · next newConfig hparsed =>
              obtain ⟨hw, rfl, rfl⟩ := by simpa using h
              exact ⟨hw.symm, .inr ⟨hfile, hbusy, .inr ⟨newConfig, hparsed, rfl, rfl⟩⟩⟩

end Statements

/-! ## What a step does to reloads in progress -/

/-- Every activation of `sync_processes` returns into the reload that called it. -/
def Paired : List Frame → Prop
  | [] => True
  | frame :: rest =>
    (frame.isSyncAdd = true → ∃ newConfig rest', rest = .reloadDone newConfig :: rest') ∧
      Paired rest

section Stacks

variable {frame : Frame} {frames rest stack : List Frame}

theorem Paired.append (hframes : ∀ f ∈ frames, f.isSyncAdd = false) (h : Paired rest) :
    Paired (frames ++ rest) := by
  induction frames with
  | nil => exact h
  | cons f frames ih =>
      obtain ⟨hf, hframes⟩ := List.forall_mem_cons.mp hframes
      refine ⟨?_, ih hframes⟩
      intro hsync
      rw [hf] at hsync
      cases hsync

/-- A stack of paired activations has as many reloads, and one more when it starts with the end of
a reload. -/
theorem Paired.activations_lt (h : Paired stack) : activations stack ≤ reloads stack ∧
    ∀ newConfig rest, stack = .reloadDone newConfig :: rest →
      activations stack < reloads stack := by
  induction stack with
  | nil => exact ⟨Nat.le_refl 0, nofun⟩
  | cons frame rest ih =>
      obtain ⟨hle, hlt⟩ := ih h.2
      unfold activations reloads at hle hlt ⊢
      rw [List.countP_cons, List.countP_cons]
      cases hsync : frame.isSyncAdd with
      | false =>
          simp only [Bool.false_eq_true, if_false]
          refine ⟨by omega, ?_⟩
          intro newConfig rest' heq
          obtain ⟨rfl, rfl⟩ := List.cons.inj heq
          simp only [Frame.endsReload, if_true]
          omega
      | true =>
          obtain ⟨newConfig, rest', hrest⟩ := h.1 hsync
          have hbelow := hlt newConfig rest' hrest
          simp only [if_true]
          refine ⟨by omega, ?_⟩
          intro newConfig' rest'' heq
          obtain ⟨rfl, -⟩ := List.cons.inj heq
          cases hsync

theorem Paired.unwind (what : String) (h : Paired stack) : Paired (unwind what stack) := by
  induction stack with
  | nil => trivial
  | cons frame rest ih =>
      have hrest := ih h.2
      cases frame with
      | waitStop o deadline phase next => exact ⟨nofun, hrest⟩
      | release o => exact ⟨nofun, hrest⟩
      | answer request => exact ⟨nofun, h.2⟩
      | reloadDone newConfig => exact ⟨nofun, h.2⟩
      | run => exact h.2
      | _ => exact hrest

theorem reloads_unwind (what : String) (stack : List Frame) :
    reloads (unwind what stack) ≤ reloads stack := by
  induction stack with
  | nil => exact Nat.le_refl 0
  | cons frame rest ih =>
      unfold reloads at ih ⊢
      cases frame <;> simp_all [Supervisorcpp.unwind, List.countP_cons, Frame.endsReload]
      all_goals omega

theorem reloads_append (hframes : ∀ f ∈ frames, f.endsReload = false) :
    reloads (frames ++ rest) = reloads rest := by
  unfold reloads
  rw [List.countP_append, List.countP_eq_zero.mpr]
  · omega
  · intro f hf
    simp [hframes f hf]

theorem reloads_cons_le (frame : Frame) (rest : List Frame) :
    reloads rest ≤ reloads (frame :: rest) := by
  unfold reloads
  rw [List.countP_cons]
  omega

theorem not_isSyncAdd_of_quiet (h : frame.reloading = false) : frame.isSyncAdd = false := by
  cases frame <;> first | rfl | cases h

theorem not_endsReload_of_quiet (h : frame.reloading = false) : frame.endsReload = false := by
  cases frame <;> first | rfl | cases h

/-- A handler brings no activation and no reload in progress with it. -/
theorem entry_quiet (h : frame.IsEntry) :
    frame.isSyncAdd = false ∧ frame.endsReload = false := by
  cases frame <;> first | exact ⟨rfl, rfl⟩ | cases h

end Stacks

/-- An event leaves `daemon_state_` alone, or is SIGTERM or SIGINT. -/
theorem dispatch_daemonState {now : Int} {c c' : Ctl} {stack stack' : List Frame} {ready : Ready}
    (h : dispatch now c stack ready = some (c', stack')) :
    (ready ≠ .sigterm ∧ c'.daemonState = c.daemonState) ∨
      (ready = .sigterm ∧ c'.daemonState = .shutdown) := by
  cases ready <;> grind [dispatch]

/-- At most one reload is in progress, each activation belongs to one, and `daemon_state_` is what
keeps a second one out. -/
structure Sys.OneReload (s : Sys) : Prop where
  paired : Paired s.stack
  single : reloads s.stack ≤ 1
  busy : 0 < reloads s.stack →
    s.ctl.daemonState = .restarting ∨ s.ctl.daemonState = .shutdown

/-- `reload_config_` is not called, with a file to reload, while an earlier call is in progress and
`daemon_state_` is `SHUTDOWN`. -/
def reloadsGuarded (s : Sys) : Input → Bool
  | .exec _ =>
    match s.stack with
    | .reloadConfig :: _ =>
      decide (s.ctl.config.configFile = "" ∨ s.ctl.daemonState ≠ .shutdown ∨ reloads s.stack = 0)
    | _ => true
  | _ => true

section Steps

variable {s s' : Sys} {env : Answers} {frame : Frame} {rest frames : List Frame}

/-- A statement that neither schedules nor stores. -/
theorem Sys.OneReload.exec_plain (h : s.OneReload) (hs : s.stack = frame :: rest)
    (hs' : s'.stack = frames ++ rest)
    (hstate : s'.ctl.daemonState = s.ctl.daemonState)
    (hframes : ∀ f ∈ frames, f.isSyncAdd = false ∧ f.endsReload = false) : s'.OneReload := by
  have hpaired := h.paired
  have hsingle := h.single
  have hbusy := h.busy
  rw [hs] at hpaired hsingle hbusy
  have hle := reloads_cons_le frame rest
  have hsame : reloads s'.stack = reloads rest := by
    rw [hs']
    exact reloads_append fun f hf => (hframes f hf).2
  refine ⟨?_, by omega, ?_⟩
  · rw [hs']
    exact hpaired.2.append fun f hf => (hframes f hf).1
  · intro hpos
    rw [hstate]
    exact hbusy (by omega)

theorem Sys.OneReload.exec_syncAdd {progs : List ProgramConfig} (h : s.OneReload)
    (hs : s.stack = .syncAdd progs :: rest) (hs' : s'.stack = frames ++ rest)
    (hexec : execFrame env rest s.world s.ctl (.syncAdd progs) = some (s'.world, s'.ctl, frames)) :
    s'.OneReload := by
  obtain ⟨hstate, _⟩ := execFrame_stores rfl hexec
  have hpaired := h.paired
  rw [hs] at hpaired
  rcases syncAdd_frames hexec with rfl | ⟨pushed, progs', rfl, hpushed⟩
  · exact h.exec_plain hs hs' hstate (List.forall_mem_nil _)
  · -- the rest of the loop takes the place of the loop
    have hstack : s'.stack = pushed ++ (.syncAdd progs' :: rest) := by
      rw [hs']
      simp
    have hsame : reloads s'.stack = reloads s.stack := by
      rw [hstack, reloads_append fun f hf => (hpushed f hf).2, hs]
      rfl
    refine ⟨?_, hsame ▸ h.single, ?_⟩
    · rw [hstack]
      have hnext : Paired (.syncAdd progs' :: rest) := ⟨fun _ => hpaired.1 rfl, hpaired.2⟩
      exact hnext.append fun f hf => (hpushed f hf).1
    · rw [hsame, hstate]
      exact h.busy

theorem Sys.OneReload.exec_reloadConfig (h : s.OneReload)
    (hguard : s.ctl.config.configFile = "" ∨ s.ctl.daemonState ≠ .shutdown ∨ reloads s.stack = 0)
    (hs : s.stack = .reloadConfig :: rest) (hs' : s'.stack = frames ++ rest)
    (hexec : execFrame env rest s.world s.ctl .reloadConfig = some (s'.world, s'.ctl, frames)) :
    s'.OneReload := by
  rcases reloadConfig_cases hexec with ⟨_, ⟨_, hctl, rfl⟩ | ⟨hfile, hstate, hend⟩⟩
  · exact h.exec_plain hs hs' (by rw [hctl]) (List.forall_mem_nil _)
  · -- the checks are passed, so no reload is in progress
    have hzero : reloads s.stack = 0 := by
      rcases hguard with hempty | hnot | hzero
      · exact absurd hempty hfile
      · by_contra hpos
        rcases h.busy (by omega) with hb | hb
        · exact hstate hb
        · exact hnot hb
      · exact hzero
    have hpaired := h.paired
    rw [hs] at hpaired hzero
    have hrest : reloads rest = 0 := by
      have hle := reloads_cons_le .reloadConfig rest
      omega
    rcases hend with ⟨_, hctl, rfl⟩ | ⟨newConfig, _, hctl, rfl⟩
    · refine ⟨hs' ▸ hpaired.2, ?_, ?_⟩
      · rw [hs']
        show reloads rest ≤ 1
        omega
      · rw [hs']
        intro hpos
        have hpos' : 0 < reloads rest := hpos
        omega
    · refine ⟨?_, ?_, fun _ => .inl (by rw [hctl])⟩
      · rw [hs']
        exact ⟨nofun, fun _ => ⟨newConfig, rest, rfl⟩, nofun, hpaired.2⟩
      · rw [hs']
        unfold reloads at hrest ⊢
        simp [List.countP_cons, Frame.endsReload, hrest]

theorem Sys.OneReload.exec (h : s.OneReload) (hguard : reloadsGuarded s (.exec env) = true)
    (hs : s.stack = frame :: rest) (hs' : s'.stack = frames ++ rest)
    (hexec : execFrame env rest s.world s.ctl frame = some (s'.world, s'.ctl, frames)) :
    s'.OneReload := by
  -- the end of a reload leaves none in progress
  have hended : frame.endsReload = true → frames = [] → s'.OneReload := by
    intro hend hnil
    have hpaired := h.paired
    have hsingle := h.single
    rw [hs] at hpaired hsingle
    have hzero : reloads s'.stack = 0 := by
      rw [hs', hnil]
      unfold reloads at hsingle ⊢
      rw [List.countP_cons, if_pos hend] at hsingle
      show rest.countP Frame.endsReload = 0
      omega
    refine ⟨?_, by omega, fun hpos => by omega⟩
    rw [hs', hnil]
    exact hpaired.2
  cases frame with
  | reloadConfig =>
      have hcond := hguard
      simp only [reloadsGuarded, hs, decide_eq_true_eq] at hcond
      exact h.exec_reloadConfig (by rw [hs]; exact hcond) hs hs' hexec
  | reloadDone newConfig =>
      obtain ⟨_, _, hnil⟩ := by simpa [execFrame] using hexec
      exact hended rfl hnil
  | reloadFailed =>
      obtain ⟨_, _, hnil⟩ := by simpa [execFrame] using hexec
      exact hended rfl hnil
  | syncAdd progs => exact h.exec_syncAdd hs hs' hexec
  | syncRemove it progs =>
      exact h.exec_plain hs hs' (execFrame_stores rfl hexec).1 (syncRemove_frames hexec)
  | _ =>
      refine h.exec_plain hs hs' (execFrame_stores rfl hexec).1 fun f hf => ?_
      have hquiet := execFrame_quiet rfl hexec f hf
      exact ⟨not_isSyncAdd_of_quiet hquiet, not_endsReload_of_quiet hquiet⟩

/-- Only `reload_config_` itself makes reloads more. -/
theorem execFrame_reloads_le {w w' : World} {c c' : Ctl} (hne : frame ≠ .reloadConfig)
    (hexec : execFrame env rest w c frame = some (w', c', frames)) :
    reloads (frames ++ rest) ≤ reloads (frame :: rest) := by
  have hnone : (∀ f ∈ frames, f.endsReload = false) →
      reloads (frames ++ rest) ≤ reloads (frame :: rest) := by
    intro hframes
    rw [reloads_append hframes]
    exact reloads_cons_le frame rest
  cases frame with
  | reloadConfig => exact absurd rfl hne
  | syncAdd progs =>
      apply hnone
      rcases syncAdd_frames hexec with rfl | ⟨pushed, progs', rfl, hpushed⟩
      · simp
      · intro f hf
        rcases List.mem_append.mp hf with hf | hf
        · exact (hpushed f hf).2
        · obtain rfl := List.mem_singleton.mp hf
          rfl
  | syncRemove it progs => exact hnone fun f hf => (syncRemove_frames hexec f hf).2
  | _ => exact hnone fun f hf => not_endsReload_of_quiet (execFrame_quiet rfl hexec f hf)

theorem Sys.OneReload.dispatch {ready : Ready} (h : s.OneReload)
    (hdisp : dispatch s.world.now s.ctl s.stack ready = some (s'.ctl, s'.stack)) :
    s'.OneReload := by
  have hstate : ∀ n : Nat, (0 < n → s.ctl.daemonState = .restarting ∨
      s.ctl.daemonState = .shutdown) → 0 < n →
      s'.ctl.daemonState = .restarting ∨ s'.ctl.daemonState = .shutdown := by
    intro n hbusy hpos
    rcases dispatch_daemonState hdisp with ⟨_, heq⟩ | ⟨_, heq⟩
    · rw [heq]
      exact hbusy hpos
    · exact .inr heq
  rcases dispatch_stack hdisp with ⟨pushed, hs', hentry, _⟩ | ⟨what, hs', _⟩
  · have hsame : reloads s'.stack = reloads s.stack := by
      rw [hs']
      exact reloads_append fun f hf => (entry_quiet (hentry f hf)).2
    refine ⟨?_, hsame ▸ h.single, hsame ▸ hstate _ h.busy⟩
    rw [hs']
    exact h.paired.append fun f hf => (entry_quiet (hentry f hf)).1
  · have hle : reloads s'.stack ≤ reloads s.stack := hs' ▸ reloads_unwind what s.stack
    have hsingle := h.single
    refine ⟨hs' ▸ h.paired.unwind what, by omega, hstate _ fun hpos => h.busy (by omega)⟩

theorem Sys.OneReload.step {i : Input} (h : s.OneReload) (hguard : reloadsGuarded s i = true)
    (hstep : step s i = some s') : s'.OneReload := by
  rcases step_cases hstep with ⟨env, frame, rest, frames, rfl, hs, hs', hexec⟩ |
      ⟨ready, rfl, _, _, _, hdisp⟩ | ⟨_, _, hs', hctl⟩
  · exact h.exec hguard hs hs' hexec
  · exact h.dispatch hdisp
  · exact ⟨hs' ▸ h.paired, hs' ▸ h.single, hctl ▸ hs' ▸ h.busy⟩

theorem Sys.OneReload.boot (h : Boot s) : s.OneReload := by
  have hframes : ∀ f ∈ s.stack, f.isSyncAdd = false ∧ f.endsReload = false := by
    intro f hf
    rcases Sys.Wf.boot_frames h f hf with ⟨o, rfl⟩ | rfl | rfl | rfl | rfl | rfl <;>
      exact ⟨rfl, rfl⟩
  have hnil : s.stack = s.stack ++ [] := (List.append_nil _).symm
  have hzero : reloads s.stack = 0 := by
    rw [hnil]
    exact reloads_append fun f hf => (hframes f hf).2
  refine ⟨?_, by omega, fun hpos => by omega⟩
  rw [hnil]
  exact Paired.append (fun f hf => (hframes f hf).1) trivial

end Steps

/-! ## Runs -/

/-- **Reloads exclude each other.**  In every run in which no `reload_config_` is called while an
earlier one is in progress and `daemon_state_` is `SHUTDOWN`, at most one activation of
`sync_processes` is in progress. -/
theorem one_sync_in_progress {s : Sys}
    (h : Machine.Reach step (fun s i => reloadsGuarded s i = true) Boot s) :
    activations s.stack ≤ 1 := by
  have hone : s.OneReload := h.invariant (fun _ => Sys.OneReload.boot)
    fun _ _ _ hs hguard hstep => hs.step hguard hstep
  exact Nat.le_trans hone.paired.activations_lt.1 hone.single

/-- The inputs that bring a daemon with one program into the wait of a reload that removes it. -/
def Input.intoReload : List Input :=
  [.forking ⟨300, by decide⟩, .next, .request .reloadConfig,
    .exec { parsed := .ok ⟨"/etc/supervisord.conf", []⟩ }, .next, .next, .next]

/-- A reload requested inside that wait is refused. -/
theorem one_sync_in_progress_nested : ∃ s,
    Machine.Reach step (fun s i => reloadsGuarded s i = true) Boot s ∧
      1 ≤ activations s.stack ∧ activations s.stack ≤ 1 := by
  obtain ⟨s, hreach, hone⟩ := Machine.Reach.exists_of_guardedRun
    (p := fun s : Sys => decide (1 ≤ activations s.stack)) (fun _ _ h => h)
    (.init (boot_bootSimple ["web"]))
    (show (Machine.guardedRun step reloadsGuarded (bootSimple ["web"])
      (Input.intoReload ++ [.request .reloadConfig,
        .exec { parsed := .ok ⟨"/etc/supervisord.conf", []⟩ }])).any _ = true by decide)
  exact ⟨s, hreach, of_decide_eq_true hone, one_sync_in_progress hreach⟩

/-- SIGTERM inside that wait, then a reload requested inside the wait of `stop_all`: the second
`sync_processes` runs inside the first. -/
theorem reload_during_shutdown_overlaps : ∃ s,
    Machine.Reach step Machine.anyStep Boot s ∧ ¬ activations s.stack ≤ 1 := by
  obtain ⟨s, hreach, htwo⟩ := Machine.Reach.exists_of_run
    (p := fun s : Sys => decide (¬ activations s.stack ≤ 1))
    (.init (boot_bootSimple ["web"]))
    (show (Machine.run step (bootSimple ["web"])
      (Input.intoReload ++ [.dispatch .sigterm, .next, .next, .next, .next,
        .request .reloadConfig, .exec { parsed := .ok ⟨"/etc/supervisord.conf", []⟩ }])).any _ = true
      by decide)
  exact ⟨s, hreach, of_decide_eq_true htwo⟩

end Supervisorcpp
