/-
# Shutdown is announced and final

A shutdown begins to stop processes when the handler of SIGTERM or SIGINT runs, or the task that
`supervisor.shutdown` posted. The handler stores `SHUTDOWN` first; the task stores nothing, and a
reload that begins or ends later stores over the variable.

The log beside the machine remembers the events that began a shutdown.

The condition is about the posted task and about reloads: the task is not run while the state is
anything but `SHUTDOWN`, and no reload begins after that. Both are read off the state before the
step.
-/
import Supervisorcpp.Manager.Reload

namespace Supervisorcpp

/-! ## The property -/

/-- The event of this step, if it begins to stop processes for a shutdown. -/
def beginsShutdown (_ : Sys) : Input → List Ready
  | .dispatch .sigterm => [.sigterm]
  | .dispatch .posted => [.posted]
  | _ => []

/-- Once a shutdown has begun and until the event loop has ended, `daemon_state_` is `SHUTDOWN`. -/
def Announced (s : Sys × List Ready) : Prop :=
  s.2 ≠ [] → .run ∈ s.1.stack → s.1.ctl.daemonState = .shutdown

/-- The state in which the daemon starts, with nothing logged. -/
def BootLogged (s : Sys × List Ready) : Prop := Boot s.1 ∧ s.2 = []

/-- A posted shutdown runs only when `SHUTDOWN` is stored already, SIGTERM and SIGINT are handled
only while no reload is in progress, and `reload_config_` is not called, with a file to reload, when
`daemon_state_` is `SHUTDOWN`. -/
def shutdownKept (s : Sys) : Input → Bool
  | .dispatch .posted => decide (s.ctl.daemonState = .shutdown)
  | .dispatch .sigterm => decide (reloads s.stack = 0)
  | .exec _ =>
    match s.stack with
    | .reloadConfig :: _ =>
      decide (s.ctl.config.configFile = "" ∨ s.ctl.daemonState ≠ .shutdown)
    | _ => true
  | _ => true

/-! ## What a step preserves -/

/-- A shutdown that has begun is announced, and no reload is left to store over it. -/
structure Final (s : Sys × List Ready) : Prop where
  announced : s.2 ≠ [] → s.1.ctl.daemonState = .shutdown
  unreloaded : s.1.ctl.daemonState = .shutdown → reloads s.1.stack = 0

section Steps

variable {s s' : Sys} {log : List Ready} {env : Answers} {frame : Frame}
  {rest frames : List Frame}

theorem Final.of_not_shutdown (hlog : log = []) (hstate : s.ctl.daemonState ≠ .shutdown) :
    Final (s, log) :=
  ⟨fun hne => absurd hlog hne, fun h => absurd h hstate⟩

/-- A reload that does nothing keeps the announcement. -/
theorem Final.exec_reloadConfig (h : Final (s, log))
    (hguard : s.ctl.config.configFile = "" ∨ s.ctl.daemonState ≠ .shutdown)
    (hs : s.stack = .reloadConfig :: rest) (hs' : s'.stack = frames ++ rest)
    (hexec : execFrame env rest s.world s.ctl .reloadConfig = some (s'.world, s'.ctl, frames)) :
    Final (s', log) := by
  rcases reloadConfig_cases hexec with ⟨_, ⟨_, hctl, rfl⟩ | ⟨hfile, _, hend⟩⟩
  · refine ⟨fun hne => hctl ▸ h.announced hne, ?_⟩
    intro hstate
    have hzero := h.unreloaded (hctl ▸ hstate)
    rw [hs] at hzero
    have hle := reloads_cons_le .reloadConfig rest
    rw [hs']
    show reloads rest = 0
    omega
  · -- a reload that passes its checks finds no shutdown under way
    have hnot : s.ctl.daemonState ≠ .shutdown := hguard.resolve_left hfile
    have hlog : log = [] := by
      by_contra hne
      exact hnot (h.announced hne)
    apply Final.of_not_shutdown hlog
    rcases hend with ⟨_, hctl, _⟩ | ⟨_, _, hctl, _⟩
    · simp [hctl]
    · simp [hctl]

/-- A reload in progress means that no shutdown has begun, so its end may store `RUNNING`. -/
theorem Final.exec_endsReload (h : Final (s, log)) (hend : frame.endsReload = true)
    (hs : s.stack = frame :: rest)
    (hexec : execFrame env rest s.world s.ctl frame = some (s'.world, s'.ctl, frames)) :
    Final (s', log) := by
  have hpos : 0 < reloads s.stack := by
    rw [hs]
    unfold reloads
    rw [List.countP_cons, if_pos hend]
    omega
  have hlog : log = [] := by
    by_contra hne
    have hzero : reloads s.stack = 0 := h.unreloaded (h.announced hne)
    omega
  apply Final.of_not_shutdown hlog
  cases frame with
  | reloadDone newConfig =>
      obtain ⟨_, hctl, _⟩ := by simpa [execFrame] using hexec
      simp [← hctl]
  | reloadFailed =>
      obtain ⟨_, hctl, _⟩ := by simpa [execFrame] using hexec
      simp [← hctl]
  | _ => cases hend

/-- Every statement that keeps to the condition keeps the announcement. -/
theorem Final.exec (h : Final (s, log)) (hguard : shutdownKept s (.exec env) = true)
    (hs : s.stack = frame :: rest) (hs' : s'.stack = frames ++ rest)
    (hexec : execFrame env rest s.world s.ctl frame = some (s'.world, s'.ctl, frames)) :
    Final (s', log) := by
  by_cases hconfig : frame = .reloadConfig
  · subst hconfig
    simp only [shutdownKept, hs, decide_eq_true_eq] at hguard
    exact h.exec_reloadConfig hguard hs hs' hexec
  · by_cases hend : frame.endsReload = true
    · exact h.exec_endsReload hend hs hexec
    · have hstores : frame.stores = false := by
        cases frame <;> first | rfl | exact absurd rfl hconfig | exact absurd rfl hend
      have hstate := (execFrame_stores hstores hexec).1
      have hle : reloads s'.stack ≤ reloads s.stack := by
        rw [hs', hs]
        exact execFrame_reloads_le hconfig hexec
      refine ⟨fun hne => hstate.trans (h.announced hne), ?_⟩
      intro hshut
      have hzero : reloads s.stack = 0 := h.unreloaded (hstate ▸ hshut)
      show reloads s'.stack = 0
      omega

/-- An event that begins a shutdown is the one that is recorded. -/
theorem Final.dispatch {ready : Ready} (h : Final (s, log))
    (hguard : shutdownKept s (.dispatch ready) = true)
    (hdisp : dispatch s.world.now s.ctl s.stack ready = some (s'.ctl, s'.stack)) :
    Final (s', log ++ beginsShutdown s (.dispatch ready)) := by
  have hle : reloads s'.stack ≤ reloads s.stack := by
    rcases dispatch_stack hdisp with ⟨pushed, hs', hentry, _⟩ | ⟨what, hs', _⟩
    · rw [hs']
      exact Nat.le_of_eq (reloads_append fun f hf => (entry_quiet (hentry f hf)).2)
    · rw [hs']
      exact reloads_unwind what s.stack
  rcases dispatch_daemonState hdisp with ⟨hsigterm, hstate⟩ | ⟨rfl, hstate⟩
  · constructor
    · -- only a posted shutdown begins without storing
      intro hne
      rw [hstate]
      by_cases hposted : ready = .posted
      · subst hposted
        exact of_decide_eq_true hguard
      · apply h.announced
        have hnone : beginsShutdown s (.dispatch ready) = [] := by
          cases ready <;> first | rfl | exact absurd rfl hposted | exact absurd rfl hsigterm
        simpa [hnone] using hne
    · intro hshut
      have hzero : reloads s.stack = 0 := h.unreloaded (hstate ▸ hshut)
      show reloads s'.stack = 0
      omega
  · refine ⟨fun _ => hstate, fun _ => ?_⟩
    have hzero : reloads s.stack = 0 := of_decide_eq_true hguard
    show reloads s'.stack = 0
    omega

end Steps

/-- The announcement is final in every step that keeps to the condition. -/
theorem Final.step {s s' : Sys × List Ready} {i : Input} (h : Final s)
    (hguard : shutdownKept s.1 i = true)
    (hstep : Machine.logged step beginsShutdown s i = some s') : Final s' := by
  obtain ⟨s, log⟩ := s
  obtain ⟨s', log'⟩ := s'
  obtain ⟨hstep, rfl⟩ := Machine.logged_eq_some hstep
  rcases step_cases hstep with ⟨env, frame, rest, frames, rfl, hs, hs', hexec⟩ |
      ⟨ready, rfl, _, _, _, hdisp⟩ | ⟨hno, hout, hs', hctl⟩
  · have hfinal := h.exec hguard hs hs' hexec
    simpa [beginsShutdown] using hfinal
  · exact h.dispatch hguard hdisp
  · have hnone : beginsShutdown s i = [] := by
      cases i with
      | dispatch ready => exact absurd rfl (hno.2 ready)
      | _ => rfl
    rw [hnone, List.append_nil]
    exact ⟨fun hne => hctl ▸ h.announced hne, fun hshut => hs' ▸ h.unreloaded (hctl ▸ hshut)⟩

theorem Final.boot {s : Sys × List Ready} (h : BootLogged s) : Final s := by
  obtain ⟨hboot, hlog⟩ := h
  apply Final.of_not_shutdown hlog
  obtain ⟨config, now, hs⟩ := hboot
  rw [hs]
  exact nofun

/-! ## Runs -/

/-- **A shutdown is announced and final.**  In every run whose steps keep to `shutdownKept`, from
the event that begins a shutdown to the end of the event loop `daemon_state_` is `SHUTDOWN`. -/
theorem shutdown_announced {s : Sys × List Ready}
    (h : Machine.Reach (Machine.logged step beginsShutdown)
      (fun s i => shutdownKept s.1 i = true) BootLogged s) : Announced s := by
  have hfinal : Final s := h.invariant (fun _ => Final.boot)
    fun _ _ _ hs hguard hstep => hs.step hguard hstep
  exact fun hbegun _ => hfinal.announced hbegun

/-- SIGTERM, and inside the wait of its `stop_all` a shutdown by request. -/
theorem shutdown_announced_twice : ∃ s,
    Machine.Reach (Machine.logged step beginsShutdown) (fun s i => shutdownKept s.1 i = true)
      BootLogged s ∧ s.2 = [.sigterm, .posted] ∧ .run ∈ s.1.stack ∧
      s.1.ctl.daemonState = .shutdown := by
  obtain ⟨s, hreach, hlog⟩ := Machine.Reach.exists_of_guardedRun
    (p := fun s : Sys × List Ready => decide (s.2 = [.sigterm, .posted] ∧ .run ∈ s.1.stack))
    (fun _ _ h => h)
    (Machine.Reach.init (show BootLogged (bootSimple ["web"], []) from ⟨boot_bootSimple _, rfl⟩))
    (show (Machine.guardedRun (Machine.logged step beginsShutdown)
      (fun s i => shutdownKept s.1 i) (bootSimple ["web"], [])
      [.forking ⟨100, by decide⟩, .next, .dispatch .sigterm, .next, .next, .next, .next,
        .request .shutdown, .next, .dispatch .posted]).any _ = true by decide)
  obtain ⟨hlog, hrun⟩ := of_decide_eq_true hlog
  exact ⟨s, hreach, hlog, hrun, shutdown_announced hreach (by simp [hlog]) hrun⟩

/-- A shutdown by request stops processes while `daemon_state_` still is `RUNNING`. -/
theorem posted_shutdown_unannounced : ∃ s,
    Machine.Reach (Machine.logged step beginsShutdown) Machine.anyStep BootLogged s ∧
      ¬ Announced s := by
  obtain ⟨s, hreach, hs⟩ := Machine.Reach.exists_of_run
    (p := fun s : Sys × List Ready =>
      decide (s.2 ≠ [] ∧ .run ∈ s.1.stack ∧ s.1.ctl.daemonState ≠ .shutdown))
    (Machine.Reach.init (show BootLogged (bootSimple ["web"], []) from ⟨boot_bootSimple _, rfl⟩))
    (show (Machine.run (Machine.logged step beginsShutdown) (bootSimple ["web"], [])
      [.forking ⟨100, by decide⟩, .next, .request .shutdown, .next, .dispatch .posted]).any _ = true
      by decide)
  obtain ⟨hlog, hrun, hstate⟩ := of_decide_eq_true hs
  exact ⟨s, hreach, fun hannounced => hstate (hannounced hlog hrun)⟩

end Supervisorcpp
