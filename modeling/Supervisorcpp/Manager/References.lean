/-
# An object lives while something refers to it

`process_map_` and the local `shared_ptr`s of the handlers are the only references to a `Process`.
Every object is in the map or referred to by a frame that is going to drop it; so once the map and the
stack are empty, every object has been destroyed.

An invalid iterator ends what can be said: after a statement that has used one the daemon is broken,
and the claim is about the runs before that.
-/
import Supervisorcpp.Manager.Blocking

namespace Supervisorcpp

/-- The frame holds a reference to `o`, or is destroying it. -/
def Frame.refers (o : ObjId) (f : Frame) : Bool := f.holds o || decide (f = .destructorWait o)

/-- Something refers to `o`. -/
def Referred (w : World) (stack : List Frame) (o : ObjId) : Prop :=
  w.mapped o = true ∨ ∃ f ∈ stack, f.refers o = true

/-- Nothing is leaked. -/
def NoLeak (w : World) (stack : List Frame) : Prop :=
  ∀ o, (w.objs o).isSome = true → Referred w stack o

section References

variable {env : Answers} {w w' : World} {c c' : Ctl} {frame : Frame} {rest frames stack : List Frame}
  {o : ObjId}

@[simp] theorem refers_release : (Frame.release o).refers o = true := by
  simp [Frame.refers, Frame.holds]

@[simp] theorem refers_waitStop {deadline : Int} {phase : Phase} {next : AfterStop} :
    (Frame.waitStop o deadline phase next).refers o = true := by
  simp [Frame.refers, Frame.holds]

/-- More frames, more references. -/
theorem Referred.mono {stack' : List Frame} (h : Referred w stack o)
    (hsub : ∀ f ∈ stack, f.refers o = true → ∃ g ∈ stack', g.refers o = true) :
    Referred w stack' o := by
  rcases h with h | ⟨f, hf, ho⟩
  · exact .inl h
  · exact .inr (hsub f hf ho)

/-- A statement that neither adds objects nor changes the map, and replaces the references of its
frame. -/
theorem NoLeak.exec (h : NoLeak w (frame :: rest)) (hsame : w'.processMap = w.processMap)
    (hobjs : ∀ o, (w'.objs o).isSome = true → (w.objs o).isSome = true)
    (hframe : ∀ o, (w'.objs o).isSome = true → frame.refers o = true →
      Referred w' (frames ++ rest) o) : NoLeak w' (frames ++ rest) := by
  intro o ho
  rcases h o (hobjs o ho) with hmap | ⟨f, hf, hrefers⟩
  · left
    simpa [World.mapped, hsame] using hmap
  · rcases List.mem_cons.mp hf with rfl | hf
    · exact hframe o ho hrefers
    · exact .inr ⟨f, List.mem_append_right _ hf, hrefers⟩

/-- What a statement that adds no process does to the objects. -/
theorem objs_of_configs (hwf : w'.Wf) (hnext : w'.nextObj = w.nextObj) (h : ConfigsFrom w w')
    (ho : (w'.objs o).isSome = true) : (w.objs o).isSome = true := by
  obtain ⟨q, hq⟩ := Option.isSome_iff_exists.mp ho
  obtain ⟨p, hp, _⟩ := h o q (hnext ▸ hwf.objLt o q hq) hq
  exact Option.isSome_iff_exists.mpr ⟨p, hp⟩

/-- The object of the erased entry gets a frame that drops it, unless the iterator dangles. -/
theorem eraseFrames_noLeak (hwf : w.Wf) (node : NodeId) (held : List Frame)
    (h : NoLeak w (held ++ rest)) : (w.eraseFrames node held).2 = [.undefined] ∨
      NoLeak (w.eraseFrames node held).1 ((w.eraseFrames node held).2 ++ rest) := by
  unfold World.eraseFrames
  cases he : w.eraseNode node with
  | none => exact .inl rfl
  | some z =>
      obtain ⟨v, o'⟩ := z
      obtain ⟨e, hin, hnode, hobj, rfl⟩ := World.eraseNode_cases he
      right
      intro o ho
      rcases h o ho with hmap | ⟨f, hf, hrefers⟩
      · obtain ⟨e', he', rfl⟩ := World.mapped_iff.mp hmap
        by_cases hsame : e'.node = node
        · obtain rfl := hwf.entry_ext_node he' hin (hsame.trans hnode.symm)
          exact .inr ⟨.release e'.obj, by simp [hobj], refers_release⟩
        · exact .inl (World.mapped_iff.mpr ⟨e', List.mem_filter.mpr ⟨he', by simpa using hsame⟩, rfl⟩)
      · refine .inr ⟨f, ?_, hrefers⟩
        rcases List.mem_append.mp hf with hf | hf
        · exact List.mem_append_left _ (List.mem_append_left _ hf)
        · exact List.mem_append_right _ hf

theorem stopProcessReturns_noLeak (hwf : w.Wf) {deadline : Int} {phase : Phase} {next : AfterStop}
    (h : NoLeak w (.waitStop o deadline phase next :: rest)) :
    (stopProcessReturns w o next).2 = [.undefined] ∨
      NoLeak (stopProcessReturns w o next).1 ((stopProcessReturns w o next).2 ++ rest) := by
  -- the local reference becomes a frame of its own
  have hdrop : NoLeak (w.note (.stopReturned o (w.pidOf o))) ([.release o] ++ rest) := by
    refine h.exec rfl (fun _ => id) fun o' _ hrefers => ?_
    obtain rfl : o = o' := by simpa [Frame.refers, Frame.holds] using hrefers
    exact .inr ⟨.release o, by simp, refers_release⟩
  cases next with
  | return_ => exact .inr hdrop
  | erase node => exact eraseFrames_noLeak (hwf.note _) node _ hdrop

/-- The last reference destroys its object. -/
theorem releaseProcess_noLeak (h : NoLeak w (.release o :: rest))
    (hexec : releaseProcess w o rest env = some (w', frames)) : NoLeak w' (frames ++ rest) := by
  rcases releaseProcess_cases hexec with ⟨rfl, rfl, hheld⟩ | ⟨rfl, rfl⟩ | ⟨_, _, _, hkill, rfl⟩
  · refine h.exec rfl (fun _ => id) fun o' ho' hrefers => ?_
    obtain rfl : o = o' := by simpa [Frame.refers, Frame.holds] using hrefers
    rcases hheld with hheld | hnone
    · rcases Bool.or_eq_true_iff.mp hheld with hmap | hany
      · exact .inl hmap
      · obtain ⟨f, hf, hholds⟩ := List.any_eq_true.mp hany
        exact .inr ⟨f, hf, by simp [Frame.refers, hholds]⟩
    · rw [hnone] at ho'
      cases ho'
  · refine h.exec rfl ?_ fun o' ho' hrefers => ?_
    · intro o' ho'
      by_cases heq : o' = o
      · simp [World.destroy, heq] at ho'
      · simpa [World.destroy, heq] using ho'
    · obtain rfl : o = o' := by simpa [Frame.refers, Frame.holds] using hrefers
      simp [World.destroy] at ho'
  · obtain ⟨p, _, rfl⟩ := Option.map_eq_some_iff.mp hkill
    refine h.exec rfl (fun _ => id) fun o' _ hrefers => ?_
    obtain rfl : o = o' := by simpa [Frame.refers, Frame.holds] using hrefers
    exact .inr ⟨.destructorWait o, by simp, by simp [Frame.refers]⟩

theorem addProcess_noLeak (hwf : w.Wf) (config : ProgramConfig) (h : NoLeak w rest) :
    NoLeak (w.addProcess config).1
      (((w.addProcess config).2.map Frame.release).toList ++ rest) := by
  intro o ho
  by_cases hnew : o = w.nextObj
  · left
    subst hnew
    refine World.mapped_iff.mpr ?_
    unfold World.addProcess
    dsimp only
    split
    · next e he =>
        obtain ⟨hin, _⟩ := World.find_mem he
        exact ⟨_, List.mem_map.mpr ⟨e, hin, rfl⟩, by simp⟩
    · exact ⟨_, World.mem_insertEntry.mpr (.inl rfl), rfl⟩
  · rw [World.addProcess_objs hnew] at ho
    rcases h o ho with hmap | ⟨f, hf, hrefers⟩
    · obtain ⟨e', he', rfl⟩ := World.mapped_iff.mp hmap
      unfold World.addProcess
      dsimp only
      split
      · next e he =>
          by_cases hnode : e'.node = e.node
          · obtain rfl := hwf.entry_ext_node he' (World.find_mem he).1 hnode
            exact .inr ⟨.release e'.obj, by simp, refers_release⟩
          · exact .inl (World.mapped_iff.mpr ⟨e', List.mem_map.mpr ⟨e', he', by simp [hnode]⟩, rfl⟩)
      · exact .inl (World.mapped_iff.mpr ⟨e', World.mem_insertEntry.mpr (.inr he'), rfl⟩)
    · exact .inr ⟨f, List.mem_append_right _ hf, hrefers⟩

/-- A statement that leaves the map and the set of objects alone. -/
theorem NoLeak.of_sameMap (h : NoLeak w (frame :: rest)) (hwf : w'.Wf) (hsame : w.SameMap w')
    (hcfg : ConfigsFrom w w')
    (hframe : ∀ o, frame.refers o = true → ∃ f ∈ frames ++ rest, f.refers o = true) :
    NoLeak w' (frames ++ rest) :=
  h.exec hsame.processMap (fun _ => objs_of_configs hwf hsame.nextObj hcfg)
    fun o _ hrefers => .inr (hframe o hrefers)

/-- The object of a removed entry is referred to by the frame that drops it. -/
theorem removeProcess_noLeak {name : String} (hwf : w.Wf) (hwf' : w'.Wf)
    (h : NoLeak w (.removeProcess name :: rest))
    (hexec : removeProcess w name env = some (w', frames)) :
    frames = [.undefined] ∨ NoLeak w' (frames ++ rest) := by
  have hnone : ∀ o, (Frame.removeProcess name).refers o = true →
      ∃ f ∈ frames ++ rest, f.refers o = true := by
    intro o ho
    simp [Frame.refers, Frame.holds] at ho
  have hdrop : NoLeak w rest := fun o ho => by
    rcases h o ho with hmap | ⟨f, hf, hrefers⟩
    · exact .inl hmap
    · rcases List.mem_cons.mp hf with rfl | hf
      · simp [Frame.refers, Frame.holds] at hrefers
      · exact .inr ⟨f, hf, hrefers⟩
  rcases removeProcess_cases hexec with
    ⟨_, rfl, rfl⟩ | ⟨e, p, _, _, ⟨_, hstop, rfl⟩ | ⟨u, hu, heq⟩⟩
  · exact .inr hdrop
  · exact .inr (h.of_sameMap hwf' (.callStop hstop) (configsFrom_callStop hstop) hnone)
  · obtain ⟨rfl, rfl⟩ := Prod.mk.inj heq
    -- whether or not a `stop` has failed before
    have hbefore : u.Wf ∧ NoLeak u ([] ++ rest) := by
      rcases hu with ⟨_, rfl⟩ | ⟨_, hstop⟩
      · exact ⟨hwf, hdrop⟩
      · have hwfu : u.Wf := callStop_wf hwf hstop
        refine ⟨hwfu, h.of_sameMap hwfu (.callStop hstop) (configsFrom_callStop hstop) ?_⟩
        intro o ho
        simp [Frame.refers, Frame.holds] at ho
    exact eraseFrames_noLeak hbefore.1 e.node [] hbefore.2

theorem waitStop_noLeak {deadline : Int} {phase : Phase} {next : AfterStop} (hwf : w.Wf)
    (hwf' : w'.Wf) (h : NoLeak w (.waitStop o deadline phase next :: rest))
    (hexec : execFrame env rest w c (.waitStop o deadline phase next) = some (w', c', frames)) :
    frames = [.undefined] ∨ NoLeak w' (frames ++ rest) := by
  have hstays : ∀ phase', w.SameMap w' → ConfigsFrom w w' →
      NoLeak w' ([.waitStop o deadline phase' next] ++ rest) := fun phase' hsame hcfg =>
    h.of_sameMap hwf' hsame hcfg fun o' ho => by
      obtain rfl : o = o' := by simpa [Frame.refers, Frame.holds] using ho
      exact ⟨_, List.mem_append_left _ (List.mem_singleton.mpr rfl), refers_waitStop⟩
  cases phase with
  | check =>
      simp only [execFrame] at hexec
      split at hexec
      · right
        have hsame := World.SameMap.handleSigchld w
        have hcfg : ConfigsFrom w w.handleSigchld.1 := configsFrom_reapAll _ _
        split at hexec
        · obtain ⟨rfl, _, rfl⟩ := by simpa using hexec
          exact hstays _ hsame hcfg
        · obtain ⟨rfl, _, rfl⟩ := by simpa using hexec
          exact hstays _ hsame hcfg
      · obtain ⟨rfl, hrest⟩ := Prod.mk.inj (Option.some.inj hexec)
        obtain ⟨_, rfl⟩ := Prod.mk.inj hrest
        exact stopProcessReturns_noLeak hwf h
  | runFor until_ =>
      simp only [execFrame] at hexec
      split at hexec
      · obtain ⟨rfl, _, rfl⟩ := by simpa using hexec
        exact .inr (hstays _ (.refl w) (.refl w))
      · cases hexec

/-- **No statement leaks an object**, unless it uses an iterator that dangles. -/
theorem execFrame_noLeak {s s' : Sys} (hwf : s.Wf) (hwf' : s'.Wf) (hs : s.stack = frame :: rest)
    (h : NoLeak s.world (frame :: rest))
    (hexec : execFrame env rest s.world s.ctl frame = some (s'.world, s'.ctl, frames)) :
    frames = [.undefined] ∨ NoLeak s'.world (frames ++ rest) := by
  -- a frame that refers to nothing, executed without a change to the map
  have hplain : (∀ o, frame.refers o = false) → s.world.SameMap s'.world →
      NoLeak s'.world (frames ++ rest) := fun hnone hsame =>
    h.of_sameMap hwf'.world hsame (execFrame_effect (hwf.within hs) hexec).configs fun o ho => by
      rw [hnone o] at ho
      cases ho
  have hdrop : (∀ o, frame.refers o = false) → NoLeak s.world rest := fun hnone o ho => by
    rcases h o ho with hmap | ⟨f, hf, hrefers⟩
    · exact .inl hmap
    · rcases List.mem_cons.mp hf with rfl | hf
      · rw [hnone o] at hrefers
        cases hrefers
      · exact .inr ⟨f, hf, hrefers⟩
  cases frame with
  | waitStop o deadline phase next => exact waitStop_noLeak hwf.world hwf'.world h hexec
  | release o =>
      obtain ⟨⟨v, fs⟩, hv, heq⟩ := Option.map_eq_some_iff.mp hexec
      obtain ⟨rfl, _, rfl⟩ := by simpa using heq
      exact .inr (releaseProcess_noLeak h hv)
  | destructorWait o =>
      obtain ⟨v, hv, heq⟩ := Option.map_eq_some_iff.mp hexec
      obtain ⟨hw, _, rfl⟩ := by simpa using heq
      rw [← hw]
      refine .inr (h.exec (World.SameMap.finishKill hv).processMap ?_ fun o' ho' hrefers => ?_)
      · intro o' ho'
        have hwfv : v.Wf := finishKill_wf hwf.world hv
        refine objs_of_configs hwfv (World.SameMap.finishKill hv).nextObj (configsFrom_finishKill hv) ?_
        by_cases heq : o' = o
        · simp [World.destroy, heq] at ho'
        · simpa [World.destroy, heq] using ho'
      · obtain rfl : o = o' := by simpa [Frame.refers, Frame.holds] using hrefers
        simp [World.destroy] at ho'
  | removeProcess name =>
      obtain ⟨⟨v, fs⟩, hv, heq⟩ := Option.map_eq_some_iff.mp hexec
      obtain ⟨rfl, _, rfl⟩ := by simpa using heq
      exact removeProcess_noLeak hwf.world hwf'.world h hv
  | addProcess config =>
      obtain ⟨hw, _, rfl⟩ := by simpa [execFrame] using hexec
      rw [← hw]
      exact .inr (addProcess_noLeak hwf.world config (hdrop fun _ => rfl))
  | startProcess name =>
      refine .inr (hplain (fun _ => rfl) ?_)
      simp only [execFrame] at hexec
      split at hexec
      · obtain ⟨hw, _⟩ := by simpa using hexec
        exact hw ▸ .refl _
      · obtain ⟨⟨v, b⟩, hv, heq⟩ := Option.map_eq_some_iff.mp hexec
        obtain ⟨hw, _⟩ := by simpa using heq
        exact hw ▸ .callStart hv
  | syncRemove it newPrograms =>
      refine .inr (hplain (fun _ => rfl) ?_)
      have hw : s'.world = s.world := by
        cases it <;> simp only [execFrame] at hexec <;> grind
      exact hw ▸ .refl _
  | syncAdd newPrograms =>
      refine .inr (hplain (fun _ => rfl) ?_)
      have hw : s'.world = s.world := by
        cases newPrograms <;> simp only [execFrame] at hexec <;> grind [Option.map_eq_some_iff]
      exact hw ▸ .refl _
  | clearMap =>
      have hrest := hdrop fun _ => rfl
      simp only [execFrame] at hexec
      split at hexec
      · obtain ⟨hw, _, rfl⟩ := by simpa using hexec
        exact .inr (hw ▸ hrest)
      · next e es hmap =>
          obtain ⟨hw, hctl⟩ := Prod.mk.inj (Option.some.inj hexec)
          obtain ⟨_, rfl⟩ := Prod.mk.inj hctl
          rw [← hw, List.append_assoc]
          rcases eraseFrames_noLeak hwf.world e.node [] h with hdangles | hleak
          · simp [World.eraseFrames, World.eraseNode, hmap] at hdangles
          · exact .inr hleak
  | _ => exact .inr (hplain (fun _ => rfl) (foreign_sameMap rfl hexec))

/-! ## Exceptions -/

/-- The reference of a wait that an exception ends gets a frame of its own; no other is lost. -/
theorem unwind_refers (what : String) (hnone : ∀ f ∈ stack, f.blocksOn = none)
    (h : ∃ f ∈ stack, f.refers o = true) : ∃ f ∈ unwind what stack, f.refers o = true := by
  induction stack with
  | nil => simp at h
  | cons frame rest ih =>
      obtain ⟨hframe, hrest⟩ := List.forall_mem_cons.mp hnone
      obtain ⟨f, hf, ho⟩ := h
      -- a reference further down
      have hbelow : f ∈ rest → ∃ f ∈ unwind what rest, f.refers o = true :=
        fun hf => ih hrest ⟨f, hf, ho⟩
      have hpush : ∀ g : Frame, (f = frame → g.refers o = true) →
          ∃ f ∈ g :: unwind what rest, f.refers o = true := by
        intro g hg
        rcases List.mem_cons.mp hf with rfl | hf
        · exact ⟨g, List.mem_cons_self, hg rfl⟩
        · obtain ⟨f', hf', ho'⟩ := hbelow hf
          exact ⟨f', List.mem_cons_of_mem _ hf', ho'⟩
      have hin : frame.refers o = false → f ∈ rest := by
        intro hno
        rcases List.mem_cons.mp hf with rfl | hf
        · rw [hno] at ho
          cases ho
        · exact hf
      cases frame with
      | waitStop o' deadline phase next =>
          refine hpush (.release o') fun heq => ?_
          subst heq
          simpa [Frame.refers, Frame.holds] using ho
      | release o' =>
          refine hpush (.release o') fun heq => ?_
          subst heq
          exact ho
      | destructorWait o' => cases hframe
      | answer request => exact ⟨f, List.mem_cons_of_mem _ (hin rfl), ho⟩
      | reloadDone newConfig => exact ⟨f, List.mem_cons_of_mem _ (hin rfl), ho⟩
      | run => exact ⟨f, hin rfl, ho⟩
      | _ => exact hbelow (hin rfl)

/-! ## Runs -/

/-- A dangling iterator has been used, and nothing is executed any more. -/
def Sys.Broken (s : Sys) : Prop := ∃ rest, s.stack = .undefined :: rest

/-- No step leaves an object behind that nothing refers to. -/
theorem noLeak_step {s s' : Sys} {i : Input} (hwf : s.Wf) (hblocks : BlocksOnTop s.world s.stack)
    (h : s.Broken ∨ NoLeak s.world s.stack) (hstep : step s i = some s') :
    s'.Broken ∨ NoLeak s'.world s'.stack := by
  rcases step_cases hstep with ⟨env, frame, rest, frames, rfl, hs, hs', hexec⟩ |
      ⟨ready, rfl, hw, hloop, _, hdisp⟩ | ⟨_, hout, hs', _⟩
  · rcases h with ⟨below, hbroken⟩ | h
    · obtain ⟨rfl, _⟩ := List.cons.inj (hs.symm.trans hbroken)
      cases hexec
    · rcases execFrame_noLeak hwf (hwf.step hstep) hs (hs ▸ h) hexec with rfl | hleak
      · exact .inl ⟨rest, hs'⟩
      · exact .inr (hs' ▸ hleak)
  · rcases h with ⟨below, hbroken⟩ | h
    · rw [hbroken] at hloop
      cases hloop
    · right
      rw [hw]
      intro o ho
      refine (h o ho).mono fun f hf hrefers => ?_
      rcases dispatch_stack hdisp with ⟨pushed, hs', _, _⟩ | ⟨what, hs', _⟩
      · exact ⟨f, hs' ▸ List.mem_append_right _ hf, hrefers⟩
      · rw [hs']
        exact unwind_refers what (hblocks.of_looping hloop) ⟨f, hf, hrefers⟩
  · rcases h with ⟨below, hbroken⟩ | h
    · exact .inl ⟨below, hs'.trans hbroken⟩
    · right
      rw [hs']
      intro o ho
      rw [hout.objs_eq] at ho
      rcases h o ho with hmap | href
      · left
        simpa [World.mapped, hout.processMap_eq] using hmap
      · exact .inr href

theorem addAll_noLeak {w : World} (hwf : w.Wf) {stack : List Frame} (h : NoLeak w stack)
    (progs : List ProgramConfig) : NoLeak (addAll w progs).1 ((addAll w progs).2 ++ stack) := by
  induction progs generalizing w stack with
  | nil => exact h
  | cons prog progs ih =>
      have hrest := ih (hwf.addProcess prog) (addProcess_noLeak hwf prog h)
      intro o ho
      refine (hrest o ho).mono fun f hf hrefers => ⟨f, ?_, hrefers⟩
      simp only [addAll, List.mem_append] at hf ⊢
      tauto

/-- **No process object is leaked.**  In every reachable state in which no dangling iterator has been
used, each object is in the map or referred to by a frame that will drop it. -/
theorem noLeak_reach {guard : Sys → Input → Prop} {s : Sys}
    (h : Machine.Reach step guard Boot s) : s.Broken ∨ NoLeak s.world s.stack := by
  have hall : s.Wf ∧ BlocksOnTop s.world s.stack ∧ (s.Broken ∨ NoLeak s.world s.stack) := by
    refine h.invariant (P := fun s => s.Wf ∧ BlocksOnTop s.world s.stack ∧
      (s.Broken ∨ NoLeak s.world s.stack)) ?_ ?_
    · rintro _ ⟨config, now, rfl⟩
      have hempty : NoLeak (World.empty now) [.startAll none, .run, .endRun, .stopAll, .clearMap] :=
        fun o ho => by cases ho
      exact ⟨Sys.Wf.boot ⟨config, now, rfl⟩, .boot ⟨config, now, rfl⟩,
        .inr (addAll_noLeak (Sys.Wf.empty now) hempty config.programs)⟩
    · rintro s i s' ⟨hwf, hblocks, hleak⟩ _ hstep
      exact ⟨hwf.step hstep, hblocks.step hstep, noLeak_step hwf hblocks hleak hstep⟩
  exact hall.2.2

end References

end Supervisorcpp
