/-
# Well-formed worlds

What holds of the process manager's data in every reachable state, with no assumption on the run:
children have distinct pids and serial numbers, `process_map_` is a map from names to live objects
that carry these names, and no live object is in a state that contradicts its pid.

The other half of the module is about single objects: an object nobody starts keeps its child or
loses it (`Kept`), and an object that has left the map never comes back (`Gone`). Most of the
guarantees use one of the two beside the invariant of the world.
-/
import Supervisorcpp.Lib.Machine
import Supervisorcpp.Manager.Frames
import Supervisorcpp.Process.Signals

namespace Supervisorcpp

namespace Process

/-- State and pid of a process agree: a child while active, none once stopped or exited. -/
structure Coherent (p : Process) : Prop where
  active : Active p.state → 0 < p.pid
  ended : p.state = .stopped ∨ p.state = .exited → p.pid ≤ 0

theorem coherent_create (config : ProgramConfig) (now : Int) : (create config now).Coherent where
  active := by simp [create, Active]
  ended := by simp [create]

/-- A failed start may leave a pid behind; nothing is said of it. -/
theorem coherent_of_failed {p : Process} (h : p.state = .fatal ∨ p.state = .backoff) :
    p.Coherent where
  active := by rcases h with h | h <;> simp [h, Active]
  ended := by rcases h with h | h <;> simp [h]

theorem coherent_of_active {p : Process} (h : Active p.state) (hpos : 0 < p.pid) :
    p.Coherent where
  active := fun _ => hpos
  ended := by rcases h with h | h | h <;> simp [h]

theorem coherent_of_no_child {p : Process} (h : ¬ Active p.state) (hpid : p.pid = -1) :
    p.Coherent where
  active := fun ha => absurd ha h
  ended := by omega

theorem onExit_not_active (p : Process) (now : Int) (status : WaitStatus) :
    ¬ Active (p.onExit now status).state := by
  rcases onExit_state p now status with ⟨_, h⟩ | ⟨_, _, h | h⟩ | ⟨_, _, h⟩ <;> simp [Active, h]

/-- A child that has been reaped leaves its process coherent. -/
theorem coherent_onExit (p : Process) (now : Int) (status : WaitStatus) :
    (p.onExit now status).Coherent :=
  coherent_of_no_child (onExit_not_active p now status) (onExit_pid p now status)

theorem coherent_killed (p : Process) (now : Int) : (p.killed now).Coherent :=
  coherent_of_no_child (by simp [Active]) (killed_pid p now)

end Process

open Process (Coherent Active)

namespace World

/-! ## The invariant -/

/-- What holds in every state, whatever is requested: pids, objects and nodes are told apart,
numbers given out are new, and the map is in order and refers to live objects under their own names.
-/
structure Wf (w : World) : Prop where
  pids : (w.children.map (·.pid)).Nodup
  cids : (w.children.map (·.cid)).Nodup
  cidLt : ∀ c ∈ w.children, c.cid < w.nextCid
  pidPos : ∀ c ∈ w.children, 0 < c.pid
  childObj : ∀ c ∈ w.children, c.obj < w.nextObj
  sorted : w.processMap.Pairwise fun e e' => e.name < e'.name
  nodes : (w.processMap.map (·.node)).Nodup
  entryObjs : (w.processMap.map (·.obj)).Nodup
  nodeLt : ∀ e ∈ w.processMap, e.node < w.nextNode
  live : ∀ e ∈ w.processMap, ∃ p, w.objs e.obj = some p ∧ p.config.name = e.name
  objLt : ∀ o p, w.objs o = some p → o < w.nextObj
  coherent : ∀ o p, w.objs o = some p → p.Coherent

namespace Wf

variable {w w' : World} {o : ObjId} {p q : Process}

/-- Two children with one pid are the same child. -/
theorem child_ext (h : w.Wf) {c c' : Child} (hc : c ∈ w.children) (hc' : c' ∈ w.children)
    (hpid : c.pid = c'.pid) : c = c' :=
  List.inj_on_of_nodup_map h.pids hc hc' hpid

/-- No two entries have one name. -/
theorem names (h : w.Wf) : (w.processMap.map (·.name)).Nodup :=
  List.pairwise_map.mpr (h.sorted.imp fun hlt => ne_of_lt hlt)

/-- An entry is known by its name. -/
theorem entry_ext_name (h : w.Wf) {e e' : Entry} (he : e ∈ w.processMap) (he' : e' ∈ w.processMap)
    (hname : e.name = e'.name) : e = e' :=
  List.inj_on_of_nodup_map h.names he he' hname

/-- An entry is known by its object. -/
theorem entry_ext_obj (h : w.Wf) {e e' : Entry} (he : e ∈ w.processMap) (he' : e' ∈ w.processMap)
    (hobj : e.obj = e'.obj) : e = e' :=
  List.inj_on_of_nodup_map h.entryObjs he he' hobj

/-- An entry is known by its node. -/
theorem entry_ext_node (h : w.Wf) {e e' : Entry} (he : e ∈ w.processMap) (he' : e' ∈ w.processMap)
    (hnode : e.node = e'.node) : e = e' :=
  List.inj_on_of_nodup_map h.nodes he he' hnode

/-- The child with a given pid is the one the kernel finds. -/
theorem childOf_eq (h : w.Wf) {c : Child} (hc : c ∈ w.children) : w.childOf c.pid = some c := by
  cases hf : w.childOf c.pid with
  | none =>
      have := List.find?_eq_none.mp hf c hc
      simp at this
  | some c' =>
      obtain ⟨hc', hpid⟩ := childOf_mem hf
      rw [h.child_ext hc' hc hpid]

/-- The name of a mapped object is the name of its entry. -/
theorem config_name (h : w.Wf) {e : Entry} (he : e ∈ w.processMap) (hp : w.objs e.obj = some p) :
    p.config.name = e.name := by
  obtain ⟨q, hq, hname⟩ := h.live e he
  obtain rfl : p = q := Option.some.inj (hp.symm.trans hq)
  exact hname

/-! ## Small operations keep it -/

theorem note (h : w.Wf) (ev : Event) : (w.note ev).Wf := { h with }

theorem setObj (h : w.Wf) (hp : w.objs o = some p) (hcfg : q.config = p.config)
    (hq : q.Coherent) : (w.setObj o q).Wf where
  pids := h.pids
  cids := h.cids
  cidLt := h.cidLt
  pidPos := h.pidPos
  childObj := h.childObj
  sorted := h.sorted
  nodes := h.nodes
  entryObjs := h.entryObjs
  nodeLt := h.nodeLt
  live := by
    intro e he
    obtain ⟨p', hp', hname⟩ := h.live e he
    by_cases heq : e.obj = o
    · refine ⟨q, by simp [heq], ?_⟩
      rw [heq] at hp'
      obtain rfl : p = p' := Option.some.inj (hp.symm.trans hp')
      rw [hcfg, hname]
    · exact ⟨p', by simpa [heq] using hp', hname⟩
  objLt := by
    intro o' p' hp'
    by_cases heq : o' = o
    · subst heq
      exact h.objLt o' p hp
    · exact h.objLt o' p' (by simpa [heq] using hp')
  coherent := by
    intro o' p' hp'
    by_cases heq : o' = o
    · subst heq
      obtain rfl : q = p' := by simpa using hp'
      exact hq
    · exact h.coherent o' p' (by simpa [heq] using hp')

theorem addChild (h : w.Wf) {pid : ChildPid} {name : String} {cause : Cause}
    (hfresh : ∀ c ∈ w.children, c.pid ≠ pid.val) (ho : o < w.nextObj) :
    (w.addChild ⟨w.nextCid, pid.val, o, name, none⟩ cause).Wf :=
  { h with
    pids := by
      simp only [addChild_children, List.map_cons, List.nodup_cons, List.mem_map, not_exists,
        not_and]
      exact ⟨hfresh, h.pids⟩
    cids := by
      simp only [addChild_children, List.map_cons, List.nodup_cons, List.mem_map, not_exists,
        not_and]
      refine ⟨?_, h.cids⟩
      intro c hc heq
      have := h.cidLt c hc
      omega
    cidLt := by
      simp only [addChild_children, addChild_nextCid, List.forall_mem_cons]
      refine ⟨by omega, ?_⟩
      intro c hc
      have := h.cidLt c hc
      omega
    pidPos := by
      simp only [addChild_children, List.forall_mem_cons]
      exact ⟨pid.property, h.pidPos⟩
    childObj := by
      simp only [addChild_children, addChild_nextObj, List.forall_mem_cons]
      exact ⟨ho, h.childObj⟩ }

theorem eraseChild (h : w.Wf) (c : Child) : { w with children := w.children.erase c }.Wf :=
  have hsub : (w.children.erase c).Sublist w.children := List.erase_sublist
  { h with
    pids := h.pids.sublist (hsub.map _)
    cids := h.cids.sublist (hsub.map _)
    cidLt := fun c' hc' => h.cidLt c' (hsub.subset hc')
    pidPos := fun c' hc' => h.pidPos c' (hsub.subset hc')
    childObj := fun c' hc' => h.childObj c' (hsub.subset hc') }

theorem reap (h : w.Wf) (c : Child) (status : WaitStatus) : (w.reap c status).Wf := by
  have h' := h.eraseChild c
  unfold World.reap
  dsimp only
  split
  · exact h'
  · split
    · exact h'
    · next p hp => exact (h'.setObj hp (by simp) (Process.coherent_onExit p _ status)).note _

theorem reapAll (h : w.Wf) (zs : List (Child × WaitStatus)) :
    (zs.foldl (fun w z => w.reap z.1 z.2) w).Wf := by
  induction zs generalizing w with
  | nil => exact h
  | cons z zs ih => exact ih (h.reap z.1 z.2)

/-- An entry is taken out. -/
theorem eraseNode {node : NodeId} (h : w.Wf) (he : w.eraseNode node = some (w', o)) : w'.Wf := by
  obtain ⟨e, _, _, _, rfl⟩ := eraseNode_cases he
  have hsub : (w.processMap.filter fun e' => e'.node ≠ node).Sublist w.processMap :=
    List.filter_sublist
  exact { h with
    sorted := h.sorted.sublist hsub
    nodes := h.nodes.sublist (hsub.map _)
    entryObjs := h.entryObjs.sublist (hsub.map _)
    nodeLt := fun e' he' => h.nodeLt e' (hsub.subset he')
    live := fun e' he' => h.live e' (hsub.subset he') }

/-- An object nobody refers to is destroyed. -/
theorem destroy (h : w.Wf) (hm : w.mapped o = false) : (w.destroy o).Wf :=
  { h with
    live := by
      intro e he
      obtain ⟨p, hp, hname⟩ := h.live e he
      have hne : e.obj ≠ o := by
        intro heq
        have hin : w.mapped o = true := mapped_iff.mpr ⟨e, he, heq⟩
        rw [hm] at hin
        cases hin
      exact ⟨p, by simpa [World.destroy, hne] using hp, hname⟩
    objLt := by
      intro o' p hp
      by_cases heq : o' = o
      · simp [World.destroy, heq] at hp
      · exact h.objLt o' p (by simpa [World.destroy, heq] using hp)
    coherent := by
      intro o' p hp
      by_cases heq : o' = o
      · simp [World.destroy, heq] at hp
      · exact h.coherent o' p (by simpa [World.destroy, heq] using hp) }

/-- A new object that the map does not refer to yet. -/
theorem alloc (h : w.Wf) (config : ProgramConfig) :
    { w with
      objs := Function.update w.objs w.nextObj (some (Process.create config w.now))
      nextObj := w.nextObj + 1 }.Wf :=
  have hfresh : ∀ o p, w.objs o = some p → o ≠ w.nextObj := by
    intro o p hp
    exact Nat.ne_of_lt (h.objLt o p hp)
  { h with
    childObj := fun c hc => Nat.lt_succ_of_lt (h.childObj c hc)
    live := by
      intro e he
      obtain ⟨p, hp, hname⟩ := h.live e he
      exact ⟨p, by simpa [hfresh _ p hp] using hp, hname⟩
    objLt := by
      intro o p hp
      by_cases heq : o = w.nextObj
      · rw [heq]
        exact Nat.lt_succ_self _
      · exact Nat.lt_succ_of_lt (h.objLt o p (by simpa [heq] using hp))
    coherent := by
      intro o p hp
      by_cases heq : o = w.nextObj
      · subst heq
        obtain rfl : Process.create config w.now = p := by simpa using hp
        exact Process.coherent_create config w.now
      · exact h.coherent o p (by simpa [heq] using hp) }

theorem replaceObj (h : w.Wf) {e : Entry} {q : Process} (hq : w.objs o = some q)
    (hname : q.config.name = e.name) (he : e ∈ w.processMap) (hfree : w.mapped o = false) :
    { w with processMap := w.processMap.map fun e' : Entry =>
        if e'.node = e.node then { e' with obj := o } else e' }.Wf := by
  have hkeep : ∀ e' : Entry, (if e'.node = e.node then { e' with obj := o } else e').name = e'.name ∧
      (if e'.node = e.node then { e' with obj := o } else e').node = e'.node := by
    intro e'
    split <;> simp
  have hnot : ∀ e' ∈ w.processMap, e'.obj ≠ o := by
    intro e' he' heq
    have hin : w.mapped o = true := mapped_iff.mpr ⟨e', he', heq⟩
    rw [hfree] at hin
    cases hin
  exact { h with
    sorted := by
      rw [List.pairwise_map]
      apply h.sorted.imp
      intro a b hlt
      rw [(hkeep a).1, (hkeep b).1]
      exact hlt
    nodes := by
      rw [List.map_map]
      have : (Entry.node ∘ fun e' : Entry => if e'.node = e.node then { e' with obj := o } else e') =
          Entry.node := funext fun e' => (hkeep e').2
      rw [this]
      exact h.nodes
    entryObjs := by
      rw [List.map_map]
      refine List.Nodup.map_on ?_ (List.Nodup.of_map _ h.nodes)
      intro a ha b hb heq
      by_cases hna : a.node = e.node <;> by_cases hnb : b.node = e.node
      · exact h.entry_ext_node ha hb (hna.trans hnb.symm)
      · exact absurd (by simpa [hna, hnb] using heq.symm) (hnot b hb)
      · exact absurd (by simpa [hna, hnb] using heq) (hnot a ha)
      · exact h.entry_ext_obj ha hb (by simpa [hna, hnb] using heq)
    nodeLt := by
      intro e' he'
      obtain ⟨a, ha, rfl⟩ := List.mem_map.mp he'
      rw [(hkeep a).2]
      exact h.nodeLt a ha
    live := by
      intro e' he'
      obtain ⟨a, ha, rfl⟩ := List.mem_map.mp he'
      rw [(hkeep a).1]
      split
      · next hnode =>
          rw [h.entry_ext_node ha he hnode]
          exact ⟨q, hq, hname⟩
      · exact h.live a ha }

end Wf

theorem mem_insertEntry {e e' : Entry} {es : List Entry} :
    e' ∈ insertEntry e es ↔ e' = e ∨ e' ∈ es := by
  induction es with
  | nil => simp [insertEntry]
  | cons a es ih =>
      unfold insertEntry
      split
      · simp
      · simp only [List.mem_cons, ih]
        tauto

theorem insertEntry_perm (e : Entry) (es : List Entry) : (insertEntry e es).Perm (e :: es) := by
  induction es with
  | nil => exact .refl _
  | cons a es ih =>
      unfold insertEntry
      split
      · exact .refl _
      · exact (ih.cons a).trans (.swap e a es)

/-- A new name goes to its place. -/
theorem insertEntry_sorted {e : Entry} {es : List Entry}
    (h : es.Pairwise fun a b => a.name < b.name) (hnew : ∀ a ∈ es, a.name ≠ e.name) :
    (insertEntry e es).Pairwise fun a b => a.name < b.name := by
  induction es with
  | nil => exact List.pairwise_singleton _ e
  | cons a es ih =>
      obtain ⟨ha, hes⟩ := List.pairwise_cons.mp h
      unfold insertEntry
      split
      · next hlt =>
          refine List.pairwise_cons.mpr ⟨?_, h⟩
          intro b hb
          rcases List.mem_cons.mp hb with rfl | hb
          · exact hlt
          · exact lt_trans hlt (ha b hb)
      · next hge =>
          refine List.pairwise_cons.mpr ⟨?_, ih hes fun b hb => hnew b (List.mem_cons_of_mem _ hb)⟩
          intro b hb
          rcases mem_insertEntry.mp hb with rfl | hb
          · exact lt_of_le_of_ne (not_lt.mp hge) (hnew a List.mem_cons_self)
          · exact ha b hb

namespace Wf

variable {w w' : World} {o : ObjId}

theorem insert (h : w.Wf) {q : Process} {name : String} (hq : w.objs o = some q)
    (hname : q.config.name = name) (hnew : w.find name = none) (hfree : w.mapped o = false) :
    { w with
      processMap := insertEntry ⟨name, w.nextNode, o⟩ w.processMap
      nextNode := w.nextNode + 1 }.Wf := by
  have hperm := insertEntry_perm ⟨name, w.nextNode, o⟩ w.processMap
  exact { h with
    sorted := by
      apply insertEntry_sorted h.sorted
      intro a ha
      simpa using List.find?_eq_none.mp hnew a ha
    nodes := by
      rw [(hperm.map _).nodup_iff, List.map_cons, List.nodup_cons]
      refine ⟨?_, h.nodes⟩
      intro hin
      obtain ⟨a, ha, hnode⟩ := List.mem_map.mp hin
      exact absurd hnode (Nat.ne_of_lt (h.nodeLt a ha))
    entryObjs := by
      rw [(hperm.map _).nodup_iff, List.map_cons, List.nodup_cons]
      refine ⟨?_, h.entryObjs⟩
      intro hin
      obtain ⟨a, ha, hobj⟩ := List.mem_map.mp hin
      have hin : w.mapped o = true := mapped_iff.mpr ⟨a, ha, hobj⟩
      rw [hfree] at hin
      cases hin
    nodeLt := by
      intro a ha
      rcases mem_insertEntry.mp ha with rfl | ha
      · exact Nat.lt_succ_self _
      · exact Nat.lt_succ_of_lt (h.nodeLt a ha)
    live := by
      intro a ha
      rcases mem_insertEntry.mp ha with rfl | ha
      · exact ⟨q, hq, hname⟩
      · exact h.live a ha }

/-- An object that does not exist yet is not in the map. -/
theorem mapped_nextObj (h : w.Wf) : w.mapped w.nextObj = false := by
  by_contra hm
  obtain ⟨e, he, hobj⟩ := mapped_iff.mp (by simpa using hm)
  obtain ⟨p, hp, _⟩ := h.live e he
  exact absurd hobj (Nat.ne_of_lt (h.objLt _ p hp))

/-- `add_process` keeps the map in order. -/
theorem addProcess (h : w.Wf) (config : ProgramConfig) : (w.addProcess config).1.Wf := by
  have halloc := h.alloc config
  have hfree := h.mapped_nextObj
  have hobj : Function.update w.objs w.nextObj (some (Process.create config w.now)) w.nextObj =
      some (Process.create config w.now) := Function.update_self ..
  unfold World.addProcess
  dsimp only
  cases hf : w.find config.name with
  | none => exact halloc.insert hobj rfl hf hfree
  | some e =>
      obtain ⟨he, hname⟩ := find_mem hf
      exact halloc.replaceObj hobj hname.symm he hfree

end Wf

end World

theorem World.addProcess_children (w : World) (config : ProgramConfig) :
    (w.addProcess config).1.children = w.children := by
  unfold World.addProcess
  dsimp only
  split <;> rfl

theorem World.addProcess_trace (w : World) (config : ProgramConfig) :
    (w.addProcess config).1.trace = w.trace := by
  unfold World.addProcess
  dsimp only
  split <;> rfl

theorem World.addProcess_now (w : World) (config : ProgramConfig) :
    (w.addProcess config).1.now = w.now := by
  unfold World.addProcess
  dsimp only
  split <;> rfl

theorem World.addProcess_nextObj (w : World) (config : ProgramConfig) :
    (w.addProcess config).1.nextObj = w.nextObj + 1 := by
  unfold World.addProcess
  dsimp only
  split <;> rfl

theorem World.addProcess_objs {w : World} {o : ObjId} {config : ProgramConfig}
    (h : o ≠ w.nextObj) : (w.addProcess config).1.objs o = w.objs o := by
  unfold World.addProcess
  dsimp only
  split <;> simp [h]

theorem World.addProcess_objs_new (w : World) (config : ProgramConfig) :
    (w.addProcess config).1.objs w.nextObj = some (Process.create config w.now) := by
  unfold World.addProcess
  dsimp only
  split <;> simp

/-- An entry that `add_process` leaves in the map was there before or refers to the new object. -/
theorem World.addProcess_mem {w : World} {config : ProgramConfig} {e : Entry}
    (h : e ∈ (w.addProcess config).1.processMap) : e ∈ w.processMap ∨ e.obj = w.nextObj := by
  unfold World.addProcess at h
  dsimp only at h
  split at h
  · obtain ⟨a, ha, rfl⟩ := List.mem_map.mp h
    split
    · exact .inr rfl
    · exact .inl ha
  · rcases World.mem_insertEntry.mp h with rfl | ha
    · exact .inr rfl
    · exact .inl ha

/-! ## Loops over the map -/

/-- A loop over the map that stands behind `after` is past the name `n`. -/
def Behind (after : Option String) (n : String) : Prop :=
  ∃ k, after = some k ∧ n ≤ k

namespace World

variable {w : World} {after : Option String}

/-- At the end of the loop every entry is behind it. -/
theorem behind_of_nextEntry_none (h : w.nextEntry after = none) :
    ∀ e ∈ w.processMap, Behind after e.name := by
  intro e he
  have hno := List.find?_eq_none.mp h e he
  cases after with
  | none => simp at hno
  | some k =>
      have hle : ¬ k < e.name := fun hlt => hno (decide_eq_true hlt)
      exact ⟨k, rfl, not_lt.mp hle⟩

/-- The loop leaves out no entry between the one it stands at and the next. -/
theorem behind_of_nextEntry_some (hwf : w.Wf) {e : Entry} (h : w.nextEntry after = some e) :
    ∀ e' ∈ w.processMap, e'.name ≤ e.name → e' = e ∨ Behind after e'.name := by
  intro e' he' hle
  obtain ⟨_, as, bs, hmap, hskip⟩ := List.find?_eq_some_iff_append.mp h
  have hsorted := hwf.sorted
  rw [hmap] at he' hsorted
  rcases List.mem_append.mp he' with hin | hin
  · right
    have hno := hskip e' hin
    cases after with
    | none => simp at hno
    | some k =>
        refine ⟨k, rfl, not_lt.mp fun hlt => ?_⟩
        simp only [decide_eq_true hlt, Bool.not_true] at hno
        cases hno
  · rcases List.mem_cons.mp hin with rfl | hin
    · exact .inl rfl
    · have hlt : e.name < e'.name :=
        (List.pairwise_cons.mp (List.pairwise_append.mp hsorted).2.1).1 e' hin
      exact absurd hle (not_le.mpr hlt)

end World

/-! ## The reap loop -/

namespace World

variable {w : World} {c : Child} {status : WaitStatus}

/-- Only one child is erased. -/
theorem mem_eraseChild (h : w.Wf) {c' : Child} (hc : c' ∈ w.children.erase c) :
    c' ∈ w.children ∧ c' ≠ c := by
  have hnodup : w.children.Nodup := List.Nodup.of_map _ h.pids
  obtain ⟨hne, hin⟩ := hnodup.mem_erase_iff.mp hc
  exact ⟨hin, hne⟩

theorem exitedChildren_sublist (cs : List Child) :
    List.Sublist ((cs.filterMap fun c => c.status.map fun status => (c, status)).map (·.1)) cs := by
  induction cs with
  | nil => exact .slnil
  | cons c cs ih =>
      cases hs : c.status with
      | none => simpa [hs] using ih.cons c
      | some status => simpa [hs] using ih.cons_cons c

theorem reap_children (w : World) (c : Child) (status : WaitStatus) :
    (w.reap c status).children = w.children.erase c := by
  unfold reap
  dsimp only
  split
  · rfl
  · split <;> rfl

/-- Nobody in the map has the pid of the reaped child, or the first process that has it is told. -/
theorem reap_cases (h : w.Wf) (c : Child) (status : WaitStatus) :
    ((∀ e ∈ w.processMap, w.pidOf e.obj ≠ c.pid) ∧
      w.reap c status = { w with children := w.children.erase c }) ∨
    ∃ e ∈ w.processMap, ∃ p, w.objs e.obj = some p ∧ p.pid = c.pid ∧
      w.reap c status = ({ w with children := w.children.erase c }.setObj e.obj
        (p.onExit w.now status)).note (.exitDelivered e.obj c) := by
  have hpid : ∀ o, { w with children := w.children.erase c }.pidOf o = w.pidOf o := fun _ => rfl
  unfold reap
  simp only [hpid]
  cases hf : w.processMap.find? fun e => decide (w.pidOf e.obj = c.pid) with
  | none =>
      left
      refine ⟨?_, rfl⟩
      intro e he
      simpa using List.find?_eq_none.mp hf e he
  | some e =>
      right
      have he : e ∈ w.processMap := List.mem_of_find?_eq_some hf
      have hown : w.pidOf e.obj = c.pid := by simpa using List.find?_some hf
      obtain ⟨p, hp, _⟩ := h.live e he
      refine ⟨e, he, p, hp, by rw [← hown, pidOf_eq hp], ?_⟩
      simp only [hp]

/-- Reaping is recorded by the exits that are delivered, and by nothing else. -/
theorem reapAll_appends (zs : List (Child × WaitStatus)) (w : World) :
    ∃ evs, (zs.foldl (fun w z => w.reap z.1 z.2) w).trace = evs ++ w.trace ∧
      ∀ ev ∈ evs, ∃ o c, ev = .exitDelivered o c := by
  induction zs generalizing w with
  | nil => exact ⟨[], rfl, List.forall_mem_nil _⟩
  | cons z zs ih =>
      obtain ⟨evs, htrace, hevs⟩ := ih (w.reap z.1 z.2)
      rw [List.foldl_cons, htrace]
      unfold reap
      dsimp only
      split
      · exact ⟨evs, rfl, hevs⟩
      · split
        · exact ⟨evs, rfl, hevs⟩
        · next e _ _ _ _ =>
            refine ⟨evs ++ [.exitDelivered e.obj z.1], by simp, ?_⟩
            intro ev hev
            rcases List.mem_append.mp hev with hev | hev
            · exact hevs ev hev
            · exact ⟨e.obj, z.1, List.mem_singleton.mp hev⟩

/-- **The rule for `handle_sigchld_`.**  A property that survives the reaping of one exited child
survives the whole loop. -/
theorem handleSigchld_induction {P : World → Prop} (hwf : w.Wf) (h0 : P w)
    (hstep : ∀ v c status, v.Wf → P v → c ∈ v.children → c.status = some status →
      P (v.reap c status)) : P w.handleSigchld.1 := by
  suffices h : ∀ (zs : List (Child × WaitStatus)) (v : World), v.Wf → P v →
      (∀ z ∈ zs, z.1 ∈ v.children ∧ z.1.status = some z.2) → (zs.map (·.1)).Nodup →
      P (zs.foldl (fun w z => w.reap z.1 z.2) v) by
    refine h _ w hwf h0 ?_ ?_
    · intro z hz
      obtain ⟨c, hc, hz⟩ := List.mem_filterMap.mp hz
      obtain ⟨status, hs, rfl⟩ := Option.map_eq_some_iff.mp hz
      exact ⟨hc, hs⟩
    · refine List.Nodup.sublist ?_ (List.Nodup.of_map _ hwf.pids)
      exact exitedChildren_sublist w.children
  intro zs
  induction zs with
  | nil => exact fun v _ hP _ _ => hP
  | cons z zs ih =>
      intro v hv hP hmem hnodup
      obtain ⟨hz, hs⟩ := hmem z List.mem_cons_self
      obtain ⟨hnot, hnodup⟩ := List.nodup_cons.mp hnodup
      refine ih _ (hv.reap z.1 z.2) (hstep v z.1 z.2 hv hP hz hs) ?_ hnodup
      intro z' hz'
      obtain ⟨hin, hs'⟩ := hmem z' (List.mem_cons_of_mem _ hz')
      refine ⟨?_, hs'⟩
      have hne : z'.1 ≠ z.1 := by
        intro heq
        exact hnot (List.mem_map.mpr ⟨z', hz', heq⟩)
      rw [reap_children]
      exact (List.mem_erase_of_ne hne).mpr hin

end World

/-! ## Effects keep it -/

section Effects

variable {L : Limits} {env : Env} {w w' : World} {o : ObjId}

theorem callStart_wf {r : Bool} (hwf : w.Wf) (h : w.callStart o env = some (w', r)) : w'.Wf := by
  obtain ⟨p, hp, ⟨_, _, rfl⟩ | ⟨_, _, q, _, hcfg, hst, rfl⟩ |
    ⟨_, _, q, pid, hfresh, hpid, hcfg, hst, rfl⟩⟩ := World.callStart_cases h
  · exact hwf.note _
  · exact (hwf.note _).setObj hp hcfg (Process.coherent_of_failed hst)
  · apply ((hwf.note _).addChild hfresh (hwf.objLt o p hp)).setObj hp hcfg
    exact Process.coherent_of_active (.inl hst) (hpid ▸ pid.property)

theorem callStop_wf {r : Bool} (hwf : w.Wf) (h : w.callStop o env = some (w', r)) : w'.Wf := by
  obtain ⟨p, hp, ⟨_, _, rfl⟩ | ⟨hpos, _, _, q, hpid, hcfg, hst, _, rfl⟩⟩ := World.callStop_cases h
  · exact hwf.note _
  · apply ((hwf.note _).note _).setObj hp hcfg
    exact Process.coherent_of_active (.inr (.inr hst)) (hpid ▸ hpos)

theorem callUpdate_wf (hwf : w.Wf) (h : w.callUpdate o env = some w') : w'.Wf := by
  obtain ⟨p, hp, rfl | ⟨hst, q, hpid, hcfg, hst', rfl⟩ | ⟨_, _, rfl⟩ |
    ⟨_, q, _, hcfg, hst', rfl⟩ | ⟨_, q, pid, hfresh, hpid, hcfg, hst', rfl⟩⟩ :=
      World.callUpdate_cases h
  · exact hwf
  · have hpos : 0 < p.pid := (hwf.coherent o p hp).active (.inl hst)
    exact hwf.setObj hp hcfg (Process.coherent_of_active (.inr (.inl hst')) (hpid ▸ hpos))
  · exact hwf.note _
  · exact hwf.setObj hp hcfg (Process.coherent_of_failed hst')
  · apply (hwf.addChild hfresh (hwf.objLt o p hp)).setObj hp hcfg
    exact Process.coherent_of_active (.inl hst') (hpid ▸ pid.property)

theorem finishKill_wf (hwf : w.Wf) (h : w.finishKill o env = some w') : w'.Wf := by
  obtain ⟨p, hp, ⟨_, rfl⟩ | ⟨c, _, _, rfl⟩⟩ := World.finishKill_cases h
  · exact hwf.setObj hp (Process.killed_config p _) (Process.coherent_killed p _)
  · exact (hwf.eraseChild c).setObj hp (Process.killed_config p _) (Process.coherent_killed p _)

/-- Nothing that a statement does breaks it. -/
theorem Effect.wf (h : Effect L env w w') (hwf : w.Wf) : w'.Wf := by
  induction h with
  | same w => exact hwf
  | remark _ _ => exact hwf.note _
  | start _ _ h => exact callStart_wf hwf h
  | stop _ _ h => exact callStop_wf hwf h
  | update _ _ h => exact callUpdate_wf hwf h
  | kill _ _ _ => exact hwf.note _
  | finishKill _ h => exact finishKill_wf hwf h
  | reap _ => exact hwf.reapAll _
  | add _ => exact hwf.addProcess _
  | leave _ h => exact hwf.eraseNode h
  | destroy hm _ => exact hwf.destroy hm
  | trans _ _ ih ih' => exact ih' (ih hwf)

/-- Nothing that the environment does breaks it. -/
theorem Outside.wf (h : Outside w w') (hwf : w.Wf) : w'.Wf := by
  cases h with
  | childExit cid status _ =>
      exact { hwf with
        pids := by simpa [List.map_map, Function.comp_def] using hwf.pids
        cids := by simpa [List.map_map, Function.comp_def] using hwf.cids
        cidLt := by
          intro c hc
          obtain ⟨a, ha, rfl⟩ := List.mem_map.mp hc
          rw [Child.exit_cid]
          exact hwf.cidLt a ha
        pidPos := by
          intro c hc
          obtain ⟨a, ha, rfl⟩ := List.mem_map.mp hc
          rw [Child.exit_pid]
          exact hwf.pidPos a ha
        childObj := by
          intro c hc
          obtain ⟨a, ha, rfl⟩ := List.mem_map.mp hc
          rw [Child.exit_obj]
          exact hwf.childObj a ha }
  | clock nanos => exact { hwf with }
  | reorder hperm =>
      exact { hwf with
        pids := (hperm.map _).nodup_iff.mpr hwf.pids
        cids := (hperm.map _).nodup_iff.mpr hwf.cids
        cidLt := fun c hc => hwf.cidLt c (hperm.mem_iff.mp hc)
        pidPos := fun c hc => hwf.pidPos c (hperm.mem_iff.mp hc)
        childObj := fun c hc => hwf.childObj c (hperm.mem_iff.mp hc) }

/-! ## Objects that are not started keep their child -/

theorem callStart_kept {r : Bool} {o' : ObjId} (h : w.callStart o' env = some (w', r))
    (hno : ∀ p, w.objs o' = some p → p.state ≠ .running ∧ p.state ≠ .starting → o ≠ o') :
    Kept o w w' := by
  obtain ⟨p, hp, ⟨_, _, rfl⟩ | ⟨_, _, q, hpid, hcfg, _, rfl⟩ |
    ⟨hup, _, q, pid, _, _, hcfg, _, rfl⟩⟩ := World.callStart_cases h
  · exact .note o w _
  · exact (Kept.note o w _).trans (.setObj o hp hcfg (.inl hpid))
  · exact (Kept.note o w _).trans (.fork (hno p hp hup))

theorem callUpdate_kept {o' : ObjId} (h : w.callUpdate o' env = some w')
    (hno : ∀ p, w.objs o' = some p → p.state = .backoff ∧
      (p.backoffDelay env).toInt ≤ p.elapsed w.now → o ≠ o') :
    Kept o w w' := by
  obtain ⟨p, hp, rfl | ⟨_, q, hpid, hcfg, _, rfl⟩ | ⟨_, _, rfl⟩ |
    ⟨_, q, hpid, hcfg, _, rfl⟩ | ⟨hdue, q, pid, _, _, _, _, rfl⟩⟩ := World.callUpdate_cases h
  · exact .refl o _
  · exact .setObj o hp hcfg (.inl hpid)
  · exact .note o w _
  · exact .setObj o hp hcfg (.inl hpid)
  · exact .fork (hno p hp hdue)

theorem finishKill_kept {o' : ObjId} (h : w.finishKill o' env = some w') : Kept o w w' := by
  obtain ⟨p, hp, ⟨_, rfl⟩ | ⟨c, _, _, rfl⟩⟩ := World.finishKill_cases h
  · exact .setObj o hp (Process.killed_config p _) (.inr (by simp))
  · refine (Kept.eraseChild o w c).trans (.setObj o hp (Process.killed_config p _) (.inr ?_))
    simp

theorem reap_kept (o : ObjId) (w : World) (c : Child) (status : WaitStatus) :
    Kept o w (w.reap c status) := by
  have h := Kept.eraseChild o w c
  unfold World.reap
  dsimp only
  split
  · exact h
  · split
    · exact h
    · next p hp =>
        have hset : Kept o { w with children := w.children.erase c } _ :=
          .setObj o hp (Process.onExit_config p w.now status) (.inr (by simp))
        exact (h.trans hset).trans (.note o _ _)

theorem reapAll_kept (o : ObjId) (w : World) (zs : List (Child × WaitStatus)) :
    Kept o w (zs.foldl (fun w z => w.reap z.1 z.2) w) := by
  induction zs generalizing w with
  | nil => exact .refl o w
  | cons z zs ih => exact (reap_kept o w z.1 z.2).trans (ih _)

theorem addProcess_kept (o : ObjId) (w : World) (config : ProgramConfig) :
    Kept o w (w.addProcess config).1 where
  objs := by
    intro q hq hpos
    by_cases heq : o = w.nextObj
    · rw [heq, World.addProcess_objs_new] at hq
      obtain rfl := Option.some.inj hq
      simp [Process.create] at hpos
    · rw [World.addProcess_objs heq] at hq
      exact ⟨q, hq, rfl, rfl⟩
  children := by
    intro c hc ho
    rw [World.addProcess_children] at hc
    exact ⟨c, hc, rfl, rfl, ho⟩
  trace := ⟨[], (World.addProcess_trace w config).symm⟩
  now := by rw [World.addProcess_now]

theorem eraseNode_kept {node : NodeId} {o' : ObjId} (h : w.eraseNode node = some (w', o')) :
    Kept o w w' := by
  obtain ⟨e, _, _, _, rfl⟩ := World.eraseNode_cases h
  exact { Kept.refl o _ with }

theorem destroy_kept (o : ObjId) (w : World) (o' : ObjId) : Kept o w (w.destroy o') :=
  { Kept.refl o w with
    objs := by
      intro q hq _
      by_cases heq : o = o'
      · simp [World.destroy, heq] at hq
      · exact ⟨q, by simpa [World.destroy, heq] using hq, rfl, rfl⟩ }

/-- An object that is gone from the map for good. -/
structure World.Gone (w : World) (o : ObjId) : Prop where
  unmapped : w.mapped o = false
  lt : o < w.nextObj

theorem addProcess_gone (hgone : w.Gone o) (config : ProgramConfig) :
    (w.addProcess config).1.Gone o := by
  have hne : o ≠ w.nextObj := Nat.ne_of_lt hgone.lt
  have hnot : ∀ e ∈ w.processMap, e.obj ≠ o := by
    simpa [World.mapped] using hgone.unmapped
  unfold World.addProcess
  dsimp only
  split
  · refine ⟨?_, Nat.lt_succ_of_lt hgone.lt⟩
    simp only [World.mapped, List.any_map, List.any_eq_false, Function.comp_apply,
      decide_eq_true_eq]
    intro e he
    split
    · exact Ne.symm hne
    · exact hnot e he
  · refine ⟨?_, Nat.lt_succ_of_lt hgone.lt⟩
    simp only [World.mapped, List.any_eq_false, decide_eq_true_eq, World.mem_insertEntry]
    rintro e (rfl | he)
    · exact Ne.symm hne
    · exact hnot e he

theorem World.Gone.of_sameMap (h : w.Gone o) (hsame : w.SameMap w') : w'.Gone o where
  unmapped := hsame.mapped_eq.trans h.unmapped
  lt := hsame.nextObj ▸ h.lt

/-- An object that is gone stays gone. -/
theorem Effect.gone (h : Effect L env w w') (hgone : w.Gone o) : w'.Gone o := by
  induction h with
  | same w => exact hgone
  | remark _ _ => exact hgone.of_sameMap (.note _ _)
  | start _ _ h => exact hgone.of_sameMap (.callStart h)
  | stop _ _ h => exact hgone.of_sameMap (.callStop h)
  | update _ _ h => exact hgone.of_sameMap (.callUpdate h)
  | kill _ _ _ => exact hgone.of_sameMap (.note _ _)
  | finishKill _ h => exact hgone.of_sameMap (.finishKill h)
  | reap _ => exact hgone.of_sameMap (.reapAll _ _)
  | add _ => exact addProcess_gone hgone _
  | @leave w _ _ _ _ h =>
      obtain ⟨e, _, _, _, rfl⟩ := World.eraseNode_cases h
      refine ⟨?_, hgone.lt⟩
      have hnot : ∀ e ∈ w.processMap, e.obj ≠ o := by simpa [World.mapped] using hgone.unmapped
      simp only [World.mapped, List.any_eq_false, decide_eq_true_eq, List.mem_filter]
      exact fun e' he' => hnot e' he'.1
  | destroy _ _ => exact ⟨hgone.unmapped, hgone.lt⟩
  | trans _ _ ih ih' => exact ih' (ih hgone)

/-- Numbers of objects are used up, never given back. -/
theorem Effect.nextObj_le (h : Effect L env w w') : w.nextObj ≤ w'.nextObj := by
  induction h with
  | same w => exact Nat.le_refl _
  | remark _ _ => exact Nat.le_refl _
  | start _ _ h => exact Nat.le_of_eq (World.SameMap.callStart h).nextObj.symm
  | stop _ _ h => exact Nat.le_of_eq (World.SameMap.callStop h).nextObj.symm
  | update _ _ h => exact Nat.le_of_eq (World.SameMap.callUpdate h).nextObj.symm
  | kill _ _ _ => exact Nat.le_refl _
  | finishKill _ h => exact Nat.le_of_eq (World.SameMap.finishKill h).nextObj.symm
  | reap _ => exact Nat.le_of_eq (World.SameMap.reapAll _ _).nextObj.symm
  | add _ =>
      unfold World.addProcess
      dsimp only
      split <;> exact Nat.le_succ _
  | leave _ h =>
      obtain ⟨e, _, _, _, rfl⟩ := World.eraseNode_cases h
      exact Nat.le_refl _
  | destroy _ _ => exact Nat.le_refl _
  | trans _ _ ih ih' => exact Nat.le_trans ih ih'

/-- Statements take no time. -/
theorem Effect.now_eq (h : Effect L env w w') :
    w'.now = w.now := by
  induction h with
  | same w => rfl
  | remark _ _ => rfl
  | start _ _ h => exact (World.SameMap.callStart h).now
  | stop _ _ h => exact (World.SameMap.callStop h).now
  | update _ _ h => exact (World.SameMap.callUpdate h).now
  | kill _ _ _ => rfl
  | finishKill _ h => exact (World.SameMap.finishKill h).now
  | reap _ => exact (World.SameMap.reapAll _ _).now
  | add _ => exact World.addProcess_now _ _
  | leave _ h =>
      obtain ⟨e, _, _, _, rfl⟩ := World.eraseNode_cases h
      rfl
  | destroy _ _ => rfl
  | trans _ _ ih ih' => exact ih'.trans ih

/-- **An object nobody starts keeps its child or loses it.**  `hno` says that `o` is not started:
it is gone from the map, or the limits exclude it. -/
theorem Effect.kept (h : Effect L env w w') (hno : w.Gone o ∨ ∀ v, ¬ L.spawn v o) :
    Kept o w w' := by
  have hstarted : ∀ {v : World} {e : Entry}, e ∈ v.processMap →
      (v.Gone o ∨ ∀ v, ¬ L.spawn v o) → L.spawn v e.obj → o ≠ e.obj := by
    rintro v e he (hgone | hlim) hspawn rfl
    · have hin : v.mapped e.obj = true := World.mapped_iff.mpr ⟨e, he, rfl⟩
      rw [hgone.unmapped] at hin
      cases hin
    · exact hlim v hspawn
  induction h with
  | same w => exact .refl o w
  | remark _ _ => exact .note o _ _
  | start he hspawn h =>
      exact callStart_kept h fun p hp hup => hstarted he hno (hspawn p hp hup)
  | stop _ _ h => exact .callStop o h
  | update he hspawn h =>
      exact callUpdate_kept h fun p hp hdue => hstarted he hno (hspawn p hp hdue)
  | kill _ _ _ => exact .note o _ _
  | finishKill _ h => exact finishKill_kept h
  | reap _ => exact reapAll_kept o _ _
  | add _ => exact addProcess_kept o _ _
  | leave _ h => exact eraseNode_kept h
  | destroy _ _ => exact destroy_kept o _ _
  | trans h h' ih ih' =>
      refine (ih hno).trans (ih' ?_)
      rcases hno with hgone | hlim
      · exact .inl (h.gone hgone)
      · exact .inr hlim

theorem Outside.kept (h : Outside w w') : Kept o w w' := by
  cases h with
  | childExit cid status _ =>
      refine { Kept.refl o _ with children := ?_ }
      intro c hc ho
      obtain ⟨a, ha, rfl⟩ := List.mem_map.mp hc
      exact ⟨a, ha, by simp, by simp, by simpa using ho⟩
  | clock nanos =>
      refine { Kept.refl o w with now := ?_ }
      exact Int.le_add_of_nonneg_right (Int.natCast_nonneg nanos)
  | reorder hperm =>
      refine { Kept.refl o _ with children := ?_ }
      exact fun c hc ho => ⟨c, hperm.mem_iff.mp hc, rfl, rfl, ho⟩

theorem Outside.nextObj_eq (h : Outside w w') : w'.nextObj = w.nextObj := by
  cases h <;> rfl

theorem Outside.trace_eq (h : Outside w w') : w'.trace = w.trace := by
  cases h <;> rfl

theorem Outside.objs_eq (h : Outside w w') : w'.objs = w.objs := by
  cases h <;> rfl

theorem Outside.gone_iff (h : Outside w w') : w'.Gone o ↔ w.Gone o := by
  cases h <;> exact ⟨fun hgone => ⟨hgone.unmapped, hgone.lt⟩, fun hgone => ⟨hgone.unmapped, hgone.lt⟩⟩

end Effects

/-! ## Every reachable state is well formed -/

/-- What a frame says about the objects it refers to. -/
def Frame.Valid (w : World) : Frame → Prop
  | .destructorWait o => w.Gone o
  | .waitStop o _ _ _ => o < w.nextObj
  | _ => True

/-- The world is sound, and every frame on the stack refers to what exists. -/
structure Sys.Wf (s : Sys) : Prop where
  world : s.world.Wf
  frames : ∀ f ∈ s.stack, f.Valid s.world

namespace Sys.Wf

variable {s s' : Sys} {i : Input} {L : Limits} {env : Answers} {frame : Frame} {rest : List Frame}

/-- A statement of a well-formed daemon meets the empty limits. -/
theorem within (h : s.Wf) (hs : s.stack = frame :: rest) : Within {} env.toEnv s.world frame where
  spawn := fun _ _ => trivial
  stop := fun _ => trivial
  forceKill := fun _ _ _ _ => trivial
  wait := fun _ _ => trivial
  reap := fun _ => trivial
  leave := fun _ _ _ _ => trivial
  remark := fun _ _ _ => trivial
  destroy := by
    rintro o rfl
    have hin : Frame.destructorWait o ∈ s.stack := by
      rw [hs]
      exact List.mem_cons_self
    have hgone : s.world.Gone o := h.frames _ hin
    exact hgone.unmapped

/-- The world after a step: within the limits its statement meets, an effect. -/
theorem step_world (hstep : step s i = some s') :
    (∃ env frame rest, i = .exec env ∧ s.stack = frame :: rest ∧
      ∀ L, Within L env.toEnv s.world frame → Effect L env.toEnv s.world s'.world) ∨
    s'.world = s.world ∨ Outside s.world s'.world := by
  rcases step_cases hstep with ⟨env, frame, rest, frames, rfl, hs, _, hexec⟩ | ⟨_, _, hw, _⟩ |
      ⟨_, hout, _⟩
  · exact .inl ⟨env, frame, rest, rfl, hs, fun L hin => execFrame_effect hin hexec⟩
  · exact .inr (.inl hw)
  · exact .inr (.inr hout)

theorem step_nextObj (h : s.Wf) (hstep : step s i = some s') :
    s.world.nextObj ≤ s'.world.nextObj := by
  rcases step_world hstep with ⟨env, frame, rest, rfl, hs, heff⟩ | hw | hout
  · exact (heff {} (h.within hs)).nextObj_le
  · rw [hw]
  · exact Nat.le_of_eq hout.nextObj_eq.symm

theorem step_gone {o : ObjId} (h : s.Wf) (hstep : step s i = some s') (hgone : s.world.Gone o) :
    s'.world.Gone o := by
  rcases step_world hstep with ⟨env, frame, rest, rfl, hs, heff⟩ | hw | hout
  · exact (heff {} (h.within hs)).gone hgone
  · rw [hw]
    exact hgone
  · exact hout.gone_iff.mpr hgone

/-- Every step keeps the daemon sound. -/
theorem step (h : s.Wf) (hstep : step s i = some s') : s'.Wf where
  world := by
    rcases step_world hstep with ⟨env, frame, rest, rfl, hs, heff⟩ | hw | hout
    · exact (heff {} (h.within hs)).wf h.world
    · rw [hw]
      exact h.world
    · exact hout.wf h.world
  frames := by
    refine step_frames (P := fun w f => f.Valid w) hstep h.frames ?_ ?_ ?_ ?_
    · intro f _ hf
      cases f with
      | destructorWait o => exact h.step_gone hstep hf
      | waitStop o deadline phase next => exact Nat.lt_of_lt_of_le hf (h.step_nextObj hstep)
      | _ => trivial
    · intro env frame rest f _ hs hpush
      have hlt : ∀ {o p}, s.world.objs o = some p → o < s'.world.nextObj := fun hp =>
        Nat.lt_of_lt_of_le (h.world.objLt _ _ hp) (h.step_nextObj hstep)
      cases hpush with
      | plain hf => cases f <;> trivial
      | removeWait _ hp _ _ => exact hlt hp
      | stopWait _ hp _ => exact hlt hp
      | waitOn =>
          have hin := h.frames _ (hs ▸ List.mem_cons_self)
          exact Nat.lt_of_lt_of_le hin (h.step_nextObj hstep)
      | destructorWait hp hun =>
          exact h.step_gone hstep ⟨hun, h.world.objLt _ _ hp⟩
      | _ => trivial
    · intro f hf
      cases f <;> trivial
    · rintro what f (hf | ⟨o, deadline, phase, next, rfl, _⟩ | ⟨request, rfl, _⟩ | rfl)
      · exact h.frames f hf
      all_goals trivial

theorem addAll_wf {w : World} (h : w.Wf) (progs : List ProgramConfig) : (addAll w progs).1.Wf := by
  induction progs generalizing w with
  | nil => exact h
  | cons prog progs ih => exact ih (h.addProcess prog)

theorem addAll_frames (w : World) (progs : List ProgramConfig) :
    ∀ f ∈ (addAll w progs).2, ∃ o, f = .release o := by
  induction progs generalizing w with
  | nil => simp [addAll]
  | cons prog progs ih =>
      intro f hf
      simp only [addAll, List.mem_append, Option.mem_toList, Option.map_eq_some_iff] at hf
      rcases hf with ⟨o, _, rfl⟩ | hf
      · exact ⟨o, rfl⟩
      · exact ih _ f hf

theorem empty (now : Int) : (World.empty now).Wf where
  pids := List.nodup_nil
  cids := List.nodup_nil
  cidLt := by simp [World.empty]
  pidPos := by simp [World.empty]
  childObj := by simp [World.empty]
  sorted := List.Pairwise.nil
  nodes := List.nodup_nil
  entryObjs := List.nodup_nil
  nodeLt := by simp [World.empty]
  live := by simp [World.empty]
  objLt := by simp [World.empty]
  coherent := by simp [World.empty]

/-- The frames of a daemon that starts. -/
theorem boot_frames {s : Sys} (h : Boot s) : ∀ f ∈ s.stack, (∃ o, f = .release o) ∨
    f = .startAll none ∨ f = .run ∨ f = .endRun ∨ f = .stopAll ∨ f = .clearMap := by
  obtain ⟨config, now, rfl⟩ := h
  intro f hf
  rcases List.mem_append.mp hf with hf | hf
  · exact .inl (addAll_frames _ _ f hf)
  · right
    simpa using hf

/-- It is sound at its start. -/
theorem boot {s : Sys} (h : Boot s) : s.Wf where
  world := by
    obtain ⟨config, now, rfl⟩ := h
    exact addAll_wf (empty now) _
  frames := by
    intro f hf
    rcases boot_frames h f hf with ⟨o, rfl⟩ | rfl | rfl | rfl | rfl | rfl <;> trivial

/-- **Every reachable state is well formed**, whatever the run is assumed to avoid. -/
theorem reach {guard : Sys → Input → Prop} (h : Machine.Reach Supervisorcpp.step guard Boot s) :
    s.Wf :=
  h.invariant (fun _ => boot) fun _ _ _ hwf _ hstep => hwf.step hstep

end Sys.Wf

theorem addAll_children (w : World) (progs : List ProgramConfig) :
    (addAll w progs).1.children = w.children := by
  induction progs generalizing w with
  | nil => rfl
  | cons prog progs ih => exact (ih _).trans (w.addProcess_children prog)

theorem addAll_trace (w : World) (progs : List ProgramConfig) :
    (addAll w progs).1.trace = w.trace := by
  induction progs generalizing w with
  | nil => rfl
  | cons prog progs ih => exact (ih _).trans (w.addProcess_trace prog)

/-- Nothing has happened at the start. -/
theorem boot_trace {s : Sys} (h : Boot s) : s.world.trace = [] := by
  obtain ⟨config, now, rfl⟩ := h
  exact addAll_trace _ _

/-- There are no children at the start. -/
theorem boot_children {s : Sys} (h : Boot s) : s.world.children = [] := by
  obtain ⟨config, now, rfl⟩ := h
  exact addAll_children _ _

end Supervisorcpp
