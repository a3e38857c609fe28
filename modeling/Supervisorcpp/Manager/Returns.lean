/-
# Every statement is left behind

The statements of the daemon one by one, the innermost first: what drops a reference, then the waits,
then what stops processes, then the two loops of a reload. Only the event loop of `Supervisord::run`
is not left unless it is stopped.
-/
import Supervisorcpp.Manager.Progress

namespace Supervisorcpp

open Machine (Endless)

/-! ## Waits and stops -/

namespace QuietRun

variable {r : QuietRun}

theorem stopProcessReturns_returns {w : World} {o : ObjId} {next : AfterStop} :
    ∀ f ∈ (stopProcessReturns w o next).2, Returns r f := by
  have hdrop : ∀ f ∈ [Frame.release o], Returns r f :=
    List.forall_mem_singleton.mpr (returns_release o)
  cases next with
  | return_ => exact hdrop
  | erase node => exact returns_eraseFrames hdrop

/-- A stop returns: its wait has a deadline. -/
theorem returns_waitStop (o : ObjId) (deadline : Int) (phase : Phase) (next : AfterStop) :
    Returns r (.waitStop o deadline phase next) := by
  suffices hwait : WaitLoop r (fun phase => .waitStop o deadline phase next) deadline from
    returns_wait hwait phase
  refine ⟨rfl, fun _ _ _ => rfl, by simp, ?_, fun _ _ _ _ _ => rfl⟩
  intro env rest w w' c c' frames hexec
  simp only [execFrame] at hexec
  split at hexec
  · next hgoes =>
      left
      split at hexec
      · obtain ⟨_, _, rfl⟩ := by simpa using hexec
        exact ⟨hgoes.2, .inl rfl⟩
      · obtain ⟨_, _, rfl⟩ := by simpa using hexec
        exact ⟨hgoes.2, .inr rfl⟩
  · right
    obtain ⟨_, hrest⟩ := Prod.mk.inj (Option.some.inj hexec)
    obtain ⟨_, rfl⟩ := Prod.mk.inj hrest
    exact stopProcessReturns_returns

/-- So does the wait of `stop_all`. -/
theorem returns_waitAll (deadline : Int) (phase : Phase) :
    Returns r (.waitAll deadline phase) := by
  suffices hwait : WaitLoop r (.waitAll deadline) deadline from returns_wait hwait phase
  refine ⟨rfl, fun _ _ _ => rfl, by simp, ?_, fun _ _ _ _ _ => rfl⟩
  intro env rest w w' c c' frames hexec
  simp only [execFrame] at hexec
  split at hexec
  · next hgoes =>
      have hnow : w.now < deadline := of_decide_eq_true (Bool.and_eq_true_iff.mp hgoes).2
      left
      split at hexec
      · obtain ⟨_, _, rfl⟩ := by simpa using hexec
        exact ⟨hnow, .inl rfl⟩
      · obtain ⟨_, _, rfl⟩ := by simpa using hexec
        exact ⟨hnow, .inr rfl⟩
  · right
    obtain ⟨_, _, rfl⟩ := by simpa using hexec
    exact List.forall_mem_singleton.mpr (returns_stopAllKill none)

theorem returns_stopAllSignal (after : Option String) (signaled : Nat) :
    Returns r (.stopAllSignal after signaled) := by
  refine returns_loop .stopAllSignal (fun _ _ => rfl) (by simp) ?_ after signaled
  intro after signaled env rest w w' c c' frames _ hexec
  simp only [execFrame] at hexec
  cases he : w.nextEntry after with
  | none =>
      left
      simp only [he] at hexec
      split at hexec
      · obtain ⟨_, _, rfl⟩ := by simpa using hexec
        exact List.forall_mem_singleton.mpr (returns_silent rfl)
      · obtain ⟨_, _, rfl⟩ := by simpa using hexec
        exact List.forall_mem_singleton.mpr (returns_waitAll _ _)
  | some e =>
      right
      simp only [he] at hexec
      split at hexec
      · obtain ⟨v, _, heq⟩ := Option.map_eq_some_iff.mp hexec
        obtain ⟨_, _, rfl⟩ := by simpa using heq
        exact ⟨e, _, [], rfl, rfl, List.forall_mem_nil _⟩
      · obtain ⟨_, _, rfl⟩ := by simpa using hexec
        exact ⟨e, _, [], rfl, rfl, List.forall_mem_nil _⟩

/-- A statement all of whose frames are known to be left behind. -/
theorem returns_of_frames {frame : Frame} (hready : frame.ready = true)
    (hadd : ∀ config, frame ≠ .addProcess config)
    (h : ∀ {env rest w w' c c' frames}, execFrame env rest w c frame = some (w', c', frames) →
      ∀ f ∈ frames, Returns r f) : Returns r frame :=
  returns_of_exec hready fun _ hexec => ⟨execFrame_sublist hadd hexec, h hexec⟩

theorem returns_stopAll : Returns r .stopAll := by
  refine returns_of_frames rfl (by simp) fun {env rest w w' c c' frames} hexec => ?_
  simp only [execFrame] at hexec
  split at hexec
  · obtain ⟨_, _, rfl⟩ := by simpa using hexec
    exact List.forall_mem_singleton.mpr (returns_silent rfl)
  · obtain ⟨_, _, rfl⟩ := by simpa using hexec
    exact List.forall_mem_singleton.mpr (returns_stopAllSignal none 0)

/-- A removal returns. -/
theorem returns_removeProcess (name : String) : Returns r (.removeProcess name) := by
  refine returns_of_frames rfl (by simp) fun {env rest w w' c c' frames} hexec => ?_
  obtain ⟨⟨v, fs⟩, hv, heq⟩ := Option.map_eq_some_iff.mp hexec
  obtain ⟨_, _, rfl⟩ := by simpa using heq
  rcases removeProcess_cases hv with ⟨_, _, rfl⟩ | ⟨e, p, _, _, ⟨_, _, rfl⟩ | ⟨u, _, heq⟩⟩
  · exact List.forall_mem_nil _
  · exact List.forall_mem_singleton.mpr (returns_waitStop _ _ _ _)
  · obtain ⟨_, rfl⟩ := Prod.mk.inj heq
    exact returns_eraseFrames (List.forall_mem_nil _)

theorem returns_rpcStopProcess (params : List String) : Returns r (.rpcStopProcess params) := by
  refine returns_of_frames rfl (by simp) fun {env rest w w' c c' frames} hexec => ?_
  obtain ⟨⟨v, fs⟩, hv, heq⟩ := Option.map_eq_some_iff.mp hexec
  obtain ⟨_, _, rfl⟩ := by simpa using heq
  rcases rpcStopProcess_answers hv with ⟨_, rfl⟩ | ⟨_, o, deadline, rfl⟩
  · exact List.forall_mem_nil _
  · exact List.forall_mem_cons.mpr
      ⟨returns_waitStop _ _ _ _, List.forall_mem_singleton.mpr (returns_silent rfl)⟩

end QuietRun

/-! ## Reloads -/

/-- The entries the removal loop has still to come to. -/
def remaining (it : Option NodeId) (entries : List Entry) : List Entry :=
  match it.bind fun node => entries.find? fun e => e.node = node with
  | none => []
  | some e => entries.filter fun e' => e.name ≤ e'.name

/-- The entries from an iterator on. -/
theorem remaining_some {node : NodeId} {entries : List Entry} {e : Entry}
    (h : entries.find? (fun e => e.node = node) = some e) :
    remaining (some node) entries = entries.filter fun e' => e.name ≤ e'.name := by
  simp [remaining, h]

/-- The next node has a later name. -/
theorem nextNodeAfter_name {node next : NodeId} {entries : List Entry} {e : Entry}
    (hsorted : entries.Pairwise fun a b => a.name < b.name)
    (h : entries.find? (fun e => e.node = node) = some e)
    (hnext : nextNodeAfter node entries = some next) :
    ∃ e' ∈ entries, e'.node = next ∧ e.name < e'.name := by
  induction entries with
  | nil => cases h
  | cons a as ih =>
      obtain ⟨ha, has⟩ := List.pairwise_cons.mp hsorted
      by_cases hnode : a.node = node
      · obtain rfl : a = e := by simpa [hnode] using h
        rw [nextNodeAfter, if_pos hnode] at hnext
        obtain ⟨e', he', rfl⟩ := Option.map_eq_some_iff.mp hnext
        have hin : e' ∈ as := List.mem_of_mem_head? he'
        exact ⟨e', List.mem_cons_of_mem _ hin, rfl, ha e' hin⟩
      · rw [nextNodeAfter, if_neg hnode] at hnext
        obtain ⟨e', he', hnext', hlt⟩ := ih has (by simpa [hnode] using h) hnext
        exact ⟨e', List.mem_cons_of_mem _ he', hnext', hlt⟩

/-- The loop has fewer entries to come to after each turn, whatever has been erased. -/
theorem remaining_next {w : World} (hwf : w.Wf) {node : NodeId} {e : Entry} {entries : List Entry}
    (h : w.processMap.find? (fun e => e.node = node) = some e)
    (hsub : entries.Sublist w.processMap) :
    (remaining (nextNodeAfter node w.processMap) entries).length <
      (remaining (some node) w.processMap).length := by
  have hin : e ∈ w.processMap.filter fun e' => e.name ≤ e'.name :=
    List.mem_filter.mpr ⟨List.mem_of_find?_eq_some h, decide_eq_true (le_refl e.name)⟩
  rw [remaining_some h]
  cases hnext : nextNodeAfter node w.processMap with
  | none => exact List.length_pos_of_mem hin
  | some next =>
      cases hfound : entries.find? fun e => e.node = next with
      | none =>
          have hnone : remaining (some next) entries = [] := by simp [remaining, hfound]
          rw [hnone]
          exact List.length_pos_of_mem hin
      | some e' =>
          have he' : e' ∈ entries := List.mem_of_find?_eq_some hfound
          have hnode : e'.node = next := by simpa using List.find?_some hfound
          obtain ⟨e'', he'', hnode', hlt⟩ := nextNodeAfter_name hwf.sorted h hnext
          obtain rfl := hwf.entry_ext_node (hsub.subset he') he'' (hnode.trans hnode'.symm)
          rw [remaining_some hfound]
          have hless : (entries.filter fun a => e'.name ≤ a.name).Sublist
              (w.processMap.filter fun a => e.name ≤ a.name) := by
            refine (hsub.filter _).trans (List.monotone_filter_right _ fun a ha => ?_)
            exact decide_eq_true (le_of_lt (lt_of_lt_of_le hlt (of_decide_eq_true ha)))
          refine lt_of_le_of_ne hless.length_le fun heq => ?_
          rw [← hless.eq_of_length heq] at hin
          exact absurd (of_decide_eq_true (List.mem_filter.mp hin).2) (not_le.mpr hlt)

namespace QuietRun

variable {r : QuietRun}

/-- The first loop of a reload ends: its iterator only goes forward. -/
theorem returns_syncRemove (newPrograms : List ProgramConfig) (it : Option NodeId) :
    Returns r (.syncRemove it newPrograms) := by
  intro rest entries
  induction hn : (remaining it entries).length using Nat.strongRecOn generalizing it entries with
  | _ n ih =>
      refine leadsTo_of_exec rfl fun {env w w' c c' frames} hwf hmap hexec => ?_
      cases it with
      | none =>
          obtain ⟨rfl, _, rfl⟩ := by simpa [execFrame] using hexec
          exact .of_imp fun s hs => ⟨hs.1, by rw [hs.2, hmap]⟩
      | some node =>
          simp only [execFrame] at hexec
          cases hfound : w.processMap.find? fun e => e.node = node with
          | none =>
              simp only [hfound] at hexec
              obtain ⟨_, _, rfl⟩ := by simpa using hexec
              exact fun n hs => absurd hs.1 (r.defined n rest)
          | some e =>
              simp only [hfound] at hexec
              -- the next turn, on the entries that are left
              have hturn : ∀ entries', entries'.Sublist w.processMap →
                  r.LeadsTo (At (.syncRemove (nextNodeAfter node w.processMap) newPrograms :: rest)
                    entries') (Left rest entries) := by
                intro entries' hsub
                have hless := remaining_next hwf hfound hsub
                rw [hmap, hn] at hless
                rw [hmap] at hsub ⊢
                exact (ih _ hless _ entries' rfl).mono (fun _ => id)
                  fun _ hs => Left.of_sublist hs hsub
              split at hexec
              · obtain ⟨rfl, _, rfl⟩ := by simpa using hexec
                exact hturn _ (List.Sublist.refl _)
              · obtain ⟨rfl, _, rfl⟩ := by simpa using hexec
                exact (returns_removeProcess e.name _ _).trans (left_leadsTo hturn)

/-! ## Every statement -/

/-- Once on top, the frame is left behind. -/
def Ends (r : QuietRun) (frame : Frame) : Prop :=
  ∀ rest, r.LeadsTo (fun s => s.stack = frame :: rest) fun s => s.stack = rest

/-- What returns ends. -/
theorem Returns.ends {frame : Frame} (h : Returns r frame) : Ends r frame := by
  intro rest n hs
  obtain ⟨m, hnm, hm⟩ := h rest _ n ⟨hs, rfl⟩
  exact ⟨m, hnm, hm.1⟩

/-- Frames that end do so one after the other. -/
theorem ends_all {frames rest : List Frame} (h : ∀ f ∈ frames, Ends r f) :
    r.LeadsTo (fun s => s.stack = frames ++ rest) fun s => s.stack = rest := by
  induction frames with
  | nil => exact .of_imp fun _ => id
  | cons f fs ih =>
      obtain ⟨hf, hfs⟩ := List.forall_mem_cons.mp h
      exact (hf (fs ++ rest)).trans (ih hfs)

theorem ends_of_exec {frame : Frame} (hready : frame.ready = true)
    (h : ∀ {env rest w w' c c' frames}, execFrame env rest w c frame = some (w', c', frames) →
      ∀ f ∈ frames, Ends r f) : Ends r frame := by
  intro rest n hs
  have hmap : ∀ entries, r.LeadsTo (At (frame :: rest) entries) fun s => s.stack = rest :=
    fun entries => leadsTo_of_exec hready fun _ _ hexec =>
      (ends_all (h hexec)).mono (fun _ hs => hs.1) fun _ => id
  exact hmap _ n ⟨hs, rfl⟩

theorem ends_addProcess (config : ProgramConfig) : Ends r (.addProcess config) := by
  refine ends_of_exec rfl fun {env rest w w' c c' frames} hexec => ?_
  obtain ⟨_, _, rfl⟩ := by simpa [execFrame] using hexec
  intro f hf
  obtain ⟨o, _, rfl⟩ := by simpa using hf
  exact (returns_release o).ends

/-- The second loop ends: every turn takes one program. -/
theorem ends_syncAdd (newPrograms : List ProgramConfig) : Ends r (.syncAdd newPrograms) := by
  induction newPrograms with
  | nil =>
      refine ends_of_exec rfl fun {env rest w w' c c' frames} hexec => ?_
      obtain ⟨_, _, rfl⟩ := by simpa [execFrame] using hexec
      exact List.forall_mem_nil _
  | cons prog progs ih =>
      have hadd : ∀ f ∈ [Frame.addProcess prog, .startProcess prog.name, .syncAdd progs], Ends r f :=
        List.forall_mem_cons.mpr ⟨ends_addProcess prog, List.forall_mem_cons.mpr
          ⟨(returns_silent rfl).ends, List.forall_mem_singleton.mpr ih⟩⟩
      refine ends_of_exec rfl fun {env rest w w' c c' frames} hexec => ?_
      simp only [execFrame] at hexec
      split at hexec
      · obtain ⟨_, _, rfl⟩ := by simpa using hexec
        exact hadd
      · obtain ⟨p, _, heq⟩ := Option.map_eq_some_iff.mp hexec
        split at heq
        · obtain ⟨_, _, rfl⟩ := by simpa using heq
          exact List.forall_mem_singleton.mpr ih
        · obtain ⟨_, _, rfl⟩ := by simpa using heq
          exact List.forall_mem_cons.mpr ⟨(returns_removeProcess prog.name).ends, hadd⟩

/-- A reload ends. -/
theorem ends_reloadConfig : Ends r .reloadConfig := by
  refine ends_of_exec rfl fun {env rest w w' c c' frames} hexec => ?_
  simp only [execFrame] at hexec
  split at hexec
  · obtain ⟨_, _, rfl⟩ := by simpa using hexec
    exact List.forall_mem_nil _
  · split at hexec
    · obtain ⟨_, _, rfl⟩ := by simpa using hexec
      exact List.forall_mem_nil _
    · split at hexec
      · obtain ⟨_, _, rfl⟩ := by simpa using hexec
        exact List.forall_mem_nil _
      · obtain ⟨_, _, rfl⟩ := by simpa using hexec
        exact List.forall_mem_cons.mpr ⟨(returns_syncRemove _ _).ends, List.forall_mem_cons.mpr
          ⟨ends_syncAdd _, List.forall_mem_singleton.mpr (returns_silent rfl).ends⟩⟩

/-- The destruction of the map empties it. -/
theorem clearMap_leadsTo (rest : List Frame) (entries : List Entry) :
    r.LeadsTo (At (.clearMap :: rest) entries) (At rest []) := by
  induction hn : entries.length using Nat.strongRecOn generalizing entries with
  | _ n ih =>
      refine leadsTo_of_exec rfl fun {env w w' c c' frames} hwf hmap hexec => ?_
      simp only [execFrame] at hexec
      cases hw : w.processMap with
      | nil =>
          simp only [hw] at hexec
          obtain ⟨rfl, _, rfl⟩ := by simpa using hexec
          exact .of_imp fun s hs => ⟨hs.1, hs.2.trans hw⟩
      | cons e es =>
          have herase : w.eraseNode e.node =
              some ({ w with processMap := w.processMap.filter fun e' => e'.node ≠ e.node }, e.obj) := by
            simp [World.eraseNode, hw]
          simp only [hw, World.eraseFrames, herase] at hexec
          obtain ⟨rfl, _, rfl⟩ := by simpa using hexec
          have hless : (w.processMap.filter fun e' => e'.node ≠ e.node).length < n := by
            rw [← hn, ← hmap, hw]
            simpa using Nat.lt_succ_of_le (List.length_filter_le _ es)
          refine (returns_release e.obj _ _).trans (left_leadsTo fun entries' hsub => ?_)
          have hle := hsub.length_le
          rw [hw] at hless
          exact ih _ (Nat.lt_of_le_of_lt hle (by simpa [hw] using hless)) entries' rfl

/-- The destruction of the map ends: every turn takes one entry. -/
theorem ends_clearMap : Ends r .clearMap := by
  intro rest n hs
  obtain ⟨m, hnm, hm⟩ := clearMap_leadsTo rest _ n ⟨hs, rfl⟩
  exact ⟨m, hnm, hm.1⟩

/-- **Every statement is left behind**, but for the event loop of `Supervisord::run`. -/
theorem ends (frame : Frame) (h : frame ≠ .run) : Ends r frame := by
  cases frame with
  | run => exact absurd rfl h
  | startAll after => exact (returns_startAll after).ends
  | onTimer after => exact (returns_onTimer after).ends
  | stopAll => exact returns_stopAll.ends
  | stopAllSignal after signaled => exact (returns_stopAllSignal after signaled).ends
  | waitAll deadline phase => exact (returns_waitAll deadline phase).ends
  | stopAllKill after => exact (returns_stopAllKill after).ends
  | waitStop o deadline phase next => exact (returns_waitStop o deadline phase next).ends
  | killWait o => exact (returns_blocking rfl).ends
  | destructorWait o => exact (returns_blocking rfl).ends
  | release o => exact (returns_release o).ends
  | removeProcess name => exact (returns_removeProcess name).ends
  | addProcess config => exact ends_addProcess config
  | syncRemove it newPrograms => exact (returns_syncRemove newPrograms it).ends
  | syncAdd newPrograms => exact ends_syncAdd newPrograms
  | reloadConfig => exact ends_reloadConfig
  | clearMap => exact ends_clearMap
  | rpcStopProcess params => exact (returns_rpcStopProcess params).ends
  | undefined => exact returns_undefined.ends
  | _ => exact (returns_silent rfl).ends

end QuietRun

end Supervisorcpp
