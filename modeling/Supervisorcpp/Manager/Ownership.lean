/-
# Who owns a pid

A pid belongs to a `Process` object as long as the child it names has not been reaped; afterwards
the kernel hands it out again. Exits are delivered through `process_map_` only. An object that
`remove_process` has erased while a frame of `stop_process` below still holds it is not told when
its child is reaped: its pid goes stale, and `~Process` signals, and then waits for, whatever child
has that pid by then.

In the runs in which every exit that is reaped can be delivered, a live object with a pid has the
unreaped child of that pid, which it spawned. From this follows that `handle_sigchld_` tells the
right process, once, and that no signal goes astray.

Exits may be coalesced into one signal, may come while nothing is being waited for, and are reaped
in whatever order the kernel hands them out. The second half says of one run of `handle_sigchld_`
that it tells each owner of an exited child once, about the right child, and nobody else.
-/
import Supervisorcpp.Manager.Invariant

namespace Supervisorcpp

/-! ## The condition -/

/-- Whoever holds the pid of an exited child is in the map. -/
def World.exitsDeliverable (w : World) : Bool :=
  (List.range w.nextObj).all fun o =>
    match w.objs o with
    | some p => w.mapped o || w.children.all fun c => c.status.isNone || decide (c.pid ≠ p.pid)
    | none => true

/-- If the statement about to be executed reaps, every exit can be delivered. -/
def reapsDeliver (s : Sys) (i : Input) : Bool :=
  match i, s.stack with
  | .exec _, frame :: _ => !reaps s.world frame || s.world.exitsDeliverable
  | _, _ => true

namespace World

variable {w w' : World} {o : ObjId} {p q : Process} {c : Child}

/-- Who has a pid is alive. -/
theorem objs_of_pidOf (h : 0 < w.pidOf o) : ∃ p, w.objs o = some p ∧ p.pid = w.pidOf o := by
  cases hp : w.objs o with
  | none => simp [pidOf, hp] at h
  | some p => exact ⟨p, rfl, (pidOf_eq hp).symm⟩

/-- `exitsDeliverable` as a statement about pids. -/
def Deliverable (w : World) : Prop :=
  ∀ o, ∀ c ∈ w.children, c.status.isSome = true → w.pidOf o = c.pid → w.mapped o = true

theorem deliverable_of_exitsDeliverable (h : w.exitsDeliverable = true) (hwf : w.Wf) :
    w.Deliverable := by
  intro o c hc hexit hpid
  have hpos := hwf.pidPos c hc
  obtain ⟨p, hp, hpp⟩ := objs_of_pidOf (w := w) (o := o) (by omega)
  have ho := List.all_eq_true.mp h o (List.mem_range.mpr (hwf.objLt o p hp))
  simp only [hp, Bool.or_eq_true] at ho
  rcases ho with ho | ho
  · exact ho
  · have hno := List.all_eq_true.mp ho c hc
    have hne : c.pid ≠ p.pid := by
      simpa [Option.isSome_iff_ne_none.mp hexit] using hno
    omega

/-! ## Ownership -/

/-- A live object with a pid has an unreaped child of that pid, and spawned it. -/
def Owned (w : World) : Prop :=
  ∀ o p, w.objs o = some p → 0 < p.pid → ∃ c ∈ w.children, c.pid = p.pid ∧ c.obj = o

namespace Owned

theorem note (h : w.Owned) (ev : Event) : (w.note ev).Owned := h

theorem setObj (h : w.Owned) (hp : w.objs o = some p) (hpid : q.pid = p.pid ∨ q.pid ≤ 0) :
    (w.setObj o q).Owned := by
  intro o' p' hp' hpos
  by_cases heq : o' = o
  · subst heq
    obtain rfl : q = p' := by simpa using hp'
    rcases hpid with hpid | hle
    · obtain ⟨c, hc, hcpid, hobj⟩ := h o' p hp (by omega)
      exact ⟨c, hc, hcpid.trans hpid.symm, hobj⟩
    · omega
  · exact h o' p' (by simpa [heq] using hp') hpos

theorem fork (h : w.Owned) {cause : Cause} (hobj : c.obj = o) (hpid : q.pid = c.pid) :
    ((w.addChild c cause).setObj o q).Owned := by
  intro o' p' hp' hpos
  by_cases heq : o' = o
  · subst heq
    obtain rfl : q = p' := by simpa using hp'
    exact ⟨c, List.mem_cons_self, hpid.symm, hobj⟩
  · obtain ⟨c', hc', hrest⟩ := h o' p' (by simpa [heq] using hp') hpos
    exact ⟨c', List.mem_cons_of_mem _ hc', hrest⟩

/-- The child of `o` is reaped and `o` has no pid any more. -/
theorem lose (h : w.Owned) (hwf : w.Wf) (hp : w.objs o = some p) (hc : c ∈ w.children)
    (hpid : p.pid = c.pid) (hq : q.pid ≤ 0) :
    ({ w with children := w.children.erase c }.setObj o q).Owned := by
  have hpos := hwf.pidPos c hc
  obtain ⟨c₀, hc₀, hpid₀, hobj₀⟩ := h o p hp (by omega)
  obtain rfl : c₀ = c := hwf.child_ext hc₀ hc (hpid₀.trans hpid)
  intro o' p' hp' hpos'
  by_cases heq : o' = o
  · subst heq
    obtain rfl : q = p' := by simpa using hp'
    omega
  · obtain ⟨c', hc', hpid', hobj'⟩ := h o' p' (by simpa [heq] using hp') hpos'
    have hne : c' ≠ c₀ := by
      rintro rfl
      exact heq (hobj'.symm.trans hobj₀)
    exact ⟨c', (List.mem_erase_of_ne hne).mpr hc', hpid', hobj'⟩

/-- A child whose pid no live object holds may be reaped. -/
theorem eraseChild (h : w.Owned) (hnone : ∀ o p, w.objs o = some p → p.pid ≠ c.pid) :
    { w with children := w.children.erase c }.Owned := by
  intro o p hp hpos
  obtain ⟨c', hc', hpid, hobj⟩ := h o p hp hpos
  have hne : c' ≠ c := by
    rintro rfl
    exact hnone o p hp hpid.symm
  exact ⟨c', (List.mem_erase_of_ne hne).mpr hc', hpid, hobj⟩

/-- The child the kernel finds under the pid of a live object is the one it spawned. -/
theorem childOf (h : w.Owned) (hwf : w.Wf) (hp : w.objs o = some p) (hpos : 0 < p.pid) :
    ∃ c, w.childOf p.pid = some c ∧ c.obj = o := by
  obtain ⟨c, hc, hpid, hobj⟩ := h o p hp hpos
  exact ⟨c, hpid ▸ hwf.childOf_eq hc, hobj⟩

theorem reap (h : w.Owned) (hwf : w.Wf) (hc : c ∈ w.children)
    (hmapped : ∀ o, w.pidOf o = c.pid → w.mapped o = true) (status : WaitStatus) :
    (w.reap c status).Owned := by
  rcases reap_cases hwf c status with ⟨hnone, heq⟩ | ⟨e, _, p, hp, hpid, heq⟩
  · rw [heq]
    apply h.eraseChild
    intro o p hp hpid
    have hpo : w.pidOf o = c.pid := (pidOf_eq hp).trans hpid
    obtain ⟨e, he, rfl⟩ := mapped_iff.mp (hmapped o hpo)
    exact hnone e he hpo
  · rw [heq]
    exact (h.lose hwf hp hc hpid (by simp)).note _

end Owned

/-- A reap leaves every pid alone except that of the reaped child. -/
theorem reap_pidOf (hwf : w.Wf) (c : Child) (status : WaitStatus) (o : ObjId) :
    (w.reap c status).pidOf o = w.pidOf o ∨
      ((w.reap c status).pidOf o = -1 ∧ w.pidOf o = c.pid) := by
  rcases reap_cases hwf c status with ⟨_, heq⟩ | ⟨e, _, p, hp, hpid, heq⟩
  · rw [heq]
    exact .inl rfl
  · rw [heq]
    by_cases ho : o = e.obj
    · right
      subst ho
      exact ⟨by simp [pidOf], by rw [pidOf_eq hp, hpid]⟩
    · left
      simp [pidOf, ho]

/-- One exit less is left to be delivered. -/
theorem Deliverable.reap (h : w.Deliverable) (hwf : w.Wf) (c : Child) (status : WaitStatus) :
    (w.reap c status).Deliverable := by
  intro o c' hc' hexit hpid
  rw [reap_children] at hc'
  have hin := List.mem_of_mem_erase hc'
  have hpos := hwf.pidPos c' hin
  rw [(SameMap.reap w c status).mapped_eq]
  rcases reap_pidOf hwf c status o with heq | ⟨heq, _⟩
  · exact h o c' hin hexit (heq ▸ hpid)
  · omega

/-- Reaping leaves every pid with a child. -/
theorem Owned.handleSigchld (h : w.Owned) (hwf : w.Wf) (hdel : w.Deliverable) :
    w.handleSigchld.1.Owned := by
  have hloop := handleSigchld_induction (P := fun v => v.Owned ∧ v.Deliverable) hwf ⟨h, hdel⟩
    (by
      intro v c status hv ⟨hown, hdel⟩ hc hstatus
      refine ⟨hown.reap hv hc (fun o ho => hdel o c hc ?_ ho) status, hdel.reap hv c status⟩
      rw [hstatus]
      rfl)
  exact hloop.1

/-- Every signal went to an unreaped child that its sender had spawned. -/
def SignalsOwn (w : World) : Prop :=
  ∀ r, .signaled r ∈ w.trace → ∃ c, r.target = some c ∧ c.obj = r.obj

theorem SignalsOwn.cons (h : w.SignalsOwn) {ev : Event} (hev : ∀ r, ev ≠ .signaled r) :
    (w.note ev).SignalsOwn := by
  intro r hr
  rcases List.mem_cons.mp hr with rfl | hr
  · exact absurd rfl (hev r)
  · exact h r hr

/-- An object that has a pid signals its own child. -/
theorem SignalsOwn.signal (h : w.SignalsOwn) (hwf : w.Wf) (hown : w.Owned) (hp : w.objs o = some p)
    (hpos : 0 < p.pid) (sig : Signal) (sender : Sender) (ok : Bool) :
    (w.signal o p.config p.pid sig sender ok).SignalsOwn := by
  intro r hr
  rcases List.mem_cons.mp hr with heq | hr
  · obtain rfl := Event.signaled.inj heq
    exact hown.childOf hwf hp hpos
  · exact h r hr

theorem SignalsOwn.reap (h : w.SignalsOwn) (hwf : w.Wf) (c : Child) (status : WaitStatus) :
    (w.reap c status).SignalsOwn := by
  rcases reap_cases hwf c status with ⟨_, heq⟩ | ⟨e, _, p, _, _, heq⟩
  · rw [heq]
    exact h
  · rw [heq]
    intro r hr
    rcases List.mem_cons.mp hr with hr | hr
    · cases hr
    · exact h r hr

theorem SignalsOwn.of_trace (h : w.SignalsOwn) (htrace : w'.trace = w.trace) : w'.SignalsOwn := by
  intro r hr
  rw [htrace] at hr
  exact h r hr

end World

/-! ## Effects and runs -/

section Runs

variable {env : Env} {w w' : World}

/-- Live objects own their pids, and every signal so far went to its sender's own child. -/
structure World.Ownership (w : World) : Prop where
  owned : w.Owned
  signals : w.SignalsOwn

/-- What statements do keeps ownership, where every exit they reap can be delivered. -/
theorem Effect.ownership {L : Limits} (h : Effect L env w w')
    (hreap : ∀ w, L.reap w → w.Deliverable) (hwf : w.Wf) (hown : w.Ownership) :
    w'.Ownership := by
  induction h with
  | same w => exact hown
  | @remark w ev hev _ =>
      refine ⟨hown.owned.note _, hown.signals.cons ?_⟩
      rintro r rfl
      cases hev
  | start _ _ h =>
      obtain ⟨p, hp, ⟨_, _, rfl⟩ | ⟨_, _, q, hpid, _, _, rfl⟩ |
        ⟨_, _, q, pid, _, hpid, _, _, rfl⟩⟩ := World.callStart_cases h
      · exact ⟨hown.owned.note _, hown.signals.cons (by simp)⟩
      · exact ⟨(hown.owned.note _).setObj hp (.inl hpid), hown.signals.cons (by simp)⟩
      · refine ⟨(hown.owned.note _).fork rfl hpid, ?_⟩
        exact (hown.signals.cons (by simp)).cons (w := World.note _ _) (by simp)
  | @stop _ _ e _ _ _ h =>
      obtain ⟨p, hp, ⟨_, _, rfl⟩ | ⟨hpos, _, _, q, hpid, _, _, _, rfl⟩⟩ := World.callStop_cases h
      · exact ⟨hown.owned.note _, hown.signals.cons (by simp)⟩
      · refine ⟨((hown.owned.note _).note _).setObj hp (.inl hpid), ?_⟩
        have hsig : (World.note _ (.stopCalled e.obj)).SignalsOwn := hown.signals.cons (by simp)
        exact hsig.signal (hwf.note _) (hown.owned.note _) hp hpos _ _ _
  | @update w _ e _ _ h =>
      obtain ⟨p, hp, rfl | ⟨_, q, hpid, _, _, rfl⟩ | ⟨hst, _, rfl⟩ | ⟨_, q, hpid, _, _, rfl⟩ |
        ⟨_, q, pid, _, hpid, _, _, rfl⟩⟩ := World.callUpdate_cases h
      · exact hown
      · exact ⟨hown.owned.setObj hp (.inl hpid), hown.signals⟩
      -- a stopping process has a pid, so the late `SIGKILL` has an owned target
      · have hpos : 0 < p.pid := (hwf.coherent _ p hp).active (.inr (.inr hst))
        exact ⟨hown.owned.note _, hown.signals.signal hwf hown.owned hp hpos _ _ _⟩
      · exact ⟨hown.owned.setObj hp (.inl hpid), hown.signals⟩
      · exact ⟨hown.owned.fork rfl hpid, hown.signals.cons (by simp)⟩
  | kill hp hpos _ =>
      exact ⟨hown.owned.note _, hown.signals.signal hwf hown.owned hp hpos _ _ _⟩
  | finishKill _ h =>
      obtain ⟨p, hp, ⟨_, rfl⟩ | ⟨c, hc, _, rfl⟩⟩ := World.finishKill_cases h
      · exact ⟨hown.owned.setObj hp (.inr (by simp)), hown.signals⟩
      · obtain ⟨hin, hpid⟩ := World.childOf_mem hc
        exact ⟨hown.owned.lose hwf hp hin hpid.symm (by simp), hown.signals⟩
  | @reap w hdel =>
      -- the one effect that can leave a stale pid: it needs the limit
      refine ⟨hown.owned.handleSigchld hwf (hreap w hdel), ?_⟩
      exact World.handleSigchld_induction (P := World.SignalsOwn) hwf hown.signals
        fun v c status hv hsig _ _ => hsig.reap hv c status
  | @add w config _ =>
      refine ⟨?_, hown.signals.of_trace (World.addProcess_trace w config)⟩
      intro o p hp hpos
      rw [World.addProcess_children]
      by_cases heq : o = w.nextObj
      · rw [heq, World.addProcess_objs_new] at hp
        obtain rfl := Option.some.inj hp
        simp [Process.create] at hpos
      · rw [World.addProcess_objs heq] at hp
        exact hown.owned o p hp hpos
  | leave _ h =>
      obtain ⟨e, _, _, _, rfl⟩ := World.eraseNode_cases h
      exact ⟨hown.owned, hown.signals⟩
  | @destroy w o _ _ =>
      refine ⟨?_, hown.signals⟩
      intro o' p hp hpos
      by_cases heq : o' = o
      · simp [World.destroy, heq] at hp
      · exact hown.owned o' p (by simpa [World.destroy, heq] using hp) hpos
  | trans h _ ih ih' => exact ih' (h.wf hwf) (ih hwf hown)

theorem Outside.ownership (h : Outside w w') (hown : w.Ownership) : w'.Ownership := by
  refine ⟨?_, hown.signals.of_trace h.trace_eq⟩
  intro o p hp hpos
  cases h with
  | childExit cid status _ =>
      obtain ⟨c, hc, hpid, hobj⟩ := hown.owned o p hp hpos
      exact ⟨_, List.mem_map_of_mem hc, by simpa using hpid, by simpa using hobj⟩
  | clock nanos => exact hown.owned o p hp hpos
  | reorder hperm =>
      obtain ⟨c, hc, hrest⟩ := hown.owned o p hp hpos
      exact ⟨c, hperm.mem_iff.mpr hc, hrest⟩

end Runs

/-- Every step that keeps to the condition keeps ownership. -/
theorem ownership_step {s s' : Sys} {i : Input} (hwf : s.Wf) (hown : s.world.Ownership)
    (hguard : reapsDeliver s i = true) (h : step s i = some s') : s'.world.Ownership := by
  rcases Sys.Wf.step_world h with ⟨env, frame, rest, rfl, hs, heff⟩ | hw | hout
  · have hin : Within { reap := World.Deliverable } env.toEnv s.world frame :=
      { hwf.within hs with
        reap := by
          intro hreaps
          simp only [reapsDeliver, hs, hreaps, Bool.not_true, Bool.false_or] at hguard
          exact World.deliverable_of_exitsDeliverable hguard hwf.world }
    exact (heff _ hin).ownership (fun _ h => h) hwf.world hown
  · rw [hw]
    exact hown
  · exact hout.ownership hown

theorem addAll_pids {w : World} (h : ∀ o, w.pidOf o ≤ 0) (progs : List ProgramConfig) (o : ObjId) :
    (addAll w progs).1.pidOf o ≤ 0 := by
  induction progs generalizing w with
  | nil => exact h o
  | cons prog progs ih =>
      apply ih
      intro o'
      unfold World.pidOf
      by_cases heq : o' = w.nextObj
      · rw [heq, World.addProcess_objs_new]
        simp [Process.create]
      · rw [World.addProcess_objs heq]
        exact h o'

theorem boot_pidOf {s : Sys} (h : Boot s) (o : ObjId) : s.world.pidOf o ≤ 0 := by
  obtain ⟨config, now, rfl⟩ := h
  exact addAll_pids (by simp [World.pidOf, World.empty]) _ o

/-- At the start there is nothing to own. -/
theorem boot_ownership {s : Sys} (h : Boot s) : s.world.Ownership where
  owned := by
    intro o p hp hpos
    have hle := boot_pidOf h o
    rw [World.pidOf_eq hp] at hle
    omega
  signals := by simp [World.SignalsOwn, boot_trace h]

/-- Ownership holds in every state of a run that keeps to the condition. -/
theorem ownership_reach {s : Sys} {guard : Sys → Input → Prop}
    (hguard : ∀ s i, guard s i → reapsDeliver s i = true)
    (h : Machine.Reach step guard Boot s) : s.Wf ∧ s.world.Ownership :=
  h.invariant (P := fun s => s.Wf ∧ s.world.Ownership)
    (fun _ hs => ⟨Sys.Wf.boot hs, boot_ownership hs⟩)
    (fun s i _ hinv hg hstep =>
      ⟨hinv.1.step hstep, ownership_step hinv.1 hinv.2 (hguard s i hg) hstep⟩)

/-- **No signal goes astray.**  In every run in which exits are reaped only while every process that
holds the pid of an exited child is in the map, each signal sent through a `Process` object went to
an unreaped child that this object had spawned. -/
theorem signals_reach_own_children {s : Sys}
    (h : Machine.Reach step (fun s i => reapsDeliver s i = true) Boot s) : s.world.SignalsOwn :=
  (ownership_reach (fun _ _ hg => hg) h).2.signals

/-! ## Exits are delivered to their owners -/

namespace World

variable {w : World} {o : ObjId} {c : Child}

/-- The positive pids of the processes in the map are distinct, and each is an unreaped child that
this very process spawned. -/
def PidsOwned (w : World) : Prop :=
  (∀ e ∈ w.processMap, ∀ e' ∈ w.processMap, 0 < w.pidOf e.obj →
    w.pidOf e.obj = w.pidOf e'.obj → e = e') ∧
  ∀ e ∈ w.processMap, 0 < w.pidOf e.obj → ∃ c ∈ w.children, c.pid = w.pidOf e.obj ∧ c.obj = e.obj

instance (w : World) : Decidable w.PidsOwned := by
  unfold PidsOwned
  infer_instance

theorem Owned.pidsOwned (h : w.Owned) (hwf : w.Wf) : w.PidsOwned := by
  have hchild : ∀ o, 0 < w.pidOf o → ∃ c ∈ w.children, c.pid = w.pidOf o ∧ c.obj = o := by
    intro o hpos
    obtain ⟨p, hp, hpid⟩ := objs_of_pidOf hpos
    obtain ⟨c, hc, hcpid, hobj⟩ := h o p hp (by omega)
    exact ⟨c, hc, hcpid.trans hpid, hobj⟩
  refine ⟨?_, fun e _ hpos => hchild e.obj hpos⟩
  intro e he e' he' hpos heq
  obtain ⟨c, hc, hpid, hobj⟩ := hchild e.obj hpos
  obtain ⟨c', hc', hpid', hobj'⟩ := hchild e'.obj (heq ▸ hpos)
  obtain rfl : c = c' := hwf.child_ext hc hc' (by omega)
  exact hwf.entry_ext_obj he he' (hobj.symm.trans hobj')

/-- What `handle_sigchld_` does: it delivers, each once, exactly the exits of children whose pid a
process of the map holds, which is the process that spawned the child; that process runs `on_exit`
with the child's own status, the others are left alone, and nobody keeps the pid of a child that had
exited. -/
structure Delivered (w w' : World) : Prop where
  deliveries : ∃ D : List (ObjId × Child), D.Nodup ∧
    w'.trace = (D.map fun d => .exitDelivered d.1 d.2).reverse ++ w.trace ∧
    (∀ o c, (o, c) ∈ D ↔
      c ∈ w.children ∧ c.status.isSome = true ∧ w.mapped o = true ∧ w.pidOf o = c.pid) ∧
    ∀ o c, (o, c) ∈ D → c.obj = o
  told : ∀ e ∈ w.processMap, ∀ p, w.objs e.obj = some p → ∀ c ∈ w.children, ∀ status,
    c.status = some status → p.pid = c.pid → w'.objs e.obj = some (p.onExit w.now status)
  untouched : ∀ o, (∀ c ∈ w.children, c.status.isSome = true → w.pidOf o ≠ c.pid) →
    w'.objs o = w.objs o
  cleared : ∀ e ∈ w'.processMap, ∀ c ∈ w.children, c.status.isSome = true →
    w'.pidOf e.obj ≠ c.pid

/-- The process that is told about an exited child. -/
def delivery (w : World) (z : Child × WaitStatus) : Option (ObjId × Child) :=
  (w.processMap.find? fun e => w.pidOf e.obj = z.1.pid).map fun e => (e.obj, z.1)

/-- A reap tells at most one object. -/
theorem reap_trace (hwf : w.Wf) (z : Child × WaitStatus) : (w.reap z.1 z.2).trace =
    ((w.delivery z).toList.map fun d => .exitDelivered d.1 d.2) ++ w.trace := by
  have hpid : ∀ o, { w with children := w.children.erase z.1 }.pidOf o = w.pidOf o := fun _ => rfl
  unfold reap delivery
  simp only [hpid]
  cases hf : w.processMap.find? fun e => decide (w.pidOf e.obj = z.1.pid) with
  | none => rfl
  | some e =>
      obtain ⟨p, hp, _⟩ := hwf.live e (List.mem_of_find?_eq_some hf)
      simp only [hp]
      rfl

/-- It touches no object of another pid. -/
theorem reap_objs_of_ne (hwf : w.Wf) (status : WaitStatus) (h : w.pidOf o ≠ c.pid) :
    (w.reap c status).objs o = w.objs o := by
  rcases reap_cases hwf c status with ⟨_, heq⟩ | ⟨e, _, p, hp, hpid, heq⟩
  · rw [heq]
  · rw [heq]
    have hne : o ≠ e.obj := by
      rintro rfl
      exact h (by rw [pidOf_eq hp, hpid])
    simp [hne]

/-- Reaping one child does not change who is told about another. -/
theorem delivery_reap (hwf : w.Wf) {z z' : Child × WaitStatus} (hpos : 0 < z'.1.pid)
    (hne : z'.1.pid ≠ z.1.pid) : (w.reap z.1 z.2).delivery z' = w.delivery z' := by
  have hsame : (fun e : Entry => decide ((w.reap z.1 z.2).pidOf e.obj = z'.1.pid)) =
      fun e => decide (w.pidOf e.obj = z'.1.pid) := by
    funext e
    rcases reap_pidOf hwf z.1 z.2 e.obj with heq | ⟨hminus, hold⟩
    · rw [heq]
    · rw [hminus, hold, decide_eq_false (by omega), decide_eq_false (Ne.symm hne)]
  unfold delivery
  rw [(SameMap.reap w z.1 z.2).processMap, hsame]

/-- The loop of `handle_sigchld_`, for any list of reaped children with distinct pids. -/
theorem reapAll_deliveries (hwf : w.Wf) {zs : List (Child × WaitStatus)}
    (hpos : ∀ z ∈ zs, 0 < z.1.pid) (hnodup : (zs.map (·.1.pid)).Nodup) :
    (zs.foldl (fun w z => w.reap z.1 z.2) w).trace =
      ((zs.filterMap w.delivery).map fun d => .exitDelivered d.1 d.2).reverse ++ w.trace := by
  induction zs generalizing w with
  | nil => rfl
  | cons z zs ih =>
      obtain ⟨hnot, hnodup⟩ := List.nodup_cons.mp hnodup
      have hrest : zs.filterMap (w.reap z.1 z.2).delivery = zs.filterMap w.delivery := by
        refine List.filterMap_congr fun z' hz' => delivery_reap hwf ?_ ?_
        · exact hpos z' (List.mem_cons_of_mem _ hz')
        · intro heq
          exact hnot (List.mem_map.mpr ⟨z', hz', heq⟩)
      have htrace := ih (hwf.reap z.1 z.2) (fun z' hz' => hpos z' (List.mem_cons_of_mem _ hz')) hnodup
      rw [List.foldl_cons, htrace, hrest, reap_trace hwf z]
      cases hd : w.delivery z with
      | none => simp [hd]
      | some d => simp [hd]

theorem reapAll_untouched (hwf : w.Wf) {zs : List (Child × WaitStatus)}
    (h : ∀ z ∈ zs, w.pidOf o ≠ z.1.pid) :
    (zs.foldl (fun w z => w.reap z.1 z.2) w).objs o = w.objs o := by
  induction zs generalizing w with
  | nil => rfl
  | cons z zs ih =>
      have hsame := reap_objs_of_ne hwf z.2 (h z List.mem_cons_self)
      have hpid : (w.reap z.1 z.2).pidOf o = w.pidOf o := by
        unfold pidOf
        rw [hsame]
      refine (ih (hwf.reap z.1 z.2) ?_).trans hsame
      intro z' hz'
      rw [hpid]
      exact h z' (List.mem_cons_of_mem _ hz')

theorem reapAll_told (hwf : w.Wf) {zs : List (Child × WaitStatus)} {e : Entry} {p : Process}
    (hpos : ∀ z ∈ zs, 0 < z.1.pid) (hnodup : (zs.map (·.1.pid)).Nodup)
    (hdistinct : ∀ e ∈ w.processMap, ∀ e' ∈ w.processMap, 0 < w.pidOf e.obj →
      w.pidOf e.obj = w.pidOf e'.obj → e = e')
    (he : e ∈ w.processMap) (hp : w.objs e.obj = some p) {z : Child × WaitStatus} (hz : z ∈ zs)
    (hpid : p.pid = z.1.pid) :
    (zs.foldl (fun w z => w.reap z.1 z.2) w).objs e.obj = some (p.onExit w.now z.2) := by
  induction zs generalizing w with
  | nil => cases hz
  | cons z₀ zs ih =>
      obtain ⟨hnot, hnodup⟩ := List.nodup_cons.mp hnodup
      have hpos' : ∀ z ∈ zs, 0 < z.1.pid := fun z' hz' => hpos z' (List.mem_cons_of_mem _ hz')
      rcases List.mem_cons.mp hz with rfl | hz
      -- its own turn: it is told, and the later turns have other pids
      · have hzpos := hpos z List.mem_cons_self
        rcases reap_cases hwf z.1 z.2 with ⟨hnone, _⟩ | ⟨e₀, he₀, p₀, hp₀, hpid₀, heq⟩
        · exact absurd ((pidOf_eq hp).trans hpid) (hnone e he)
        · obtain rfl : e = e₀ := by
            refine hdistinct e he e₀ he₀ ?_ ?_
            · rw [pidOf_eq hp]
              omega
            · rw [pidOf_eq hp, pidOf_eq hp₀]
              omega
          obtain rfl : p = p₀ := Option.some.inj (hp.symm.trans hp₀)
          have hobj : (w.reap z.1 z.2).objs e.obj = some (p.onExit w.now z.2) := by
            rw [heq]
            exact Function.update_self ..
          refine (reapAll_untouched (hwf.reap z.1 z.2) ?_).trans hobj
          intro z' hz'
          have := hpos' z' hz'
          rw [pidOf_eq hobj, Process.onExit_pid]
          omega
      -- the turn of another child
      · have hne : w.pidOf e.obj ≠ z₀.1.pid := by
          intro heq
          rw [pidOf_eq hp, hpid] at heq
          exact hnot (List.mem_map.mpr ⟨z, hz, heq⟩)
        have hsame := reap_objs_of_ne hwf z₀.2 hne
        have hmap := (SameMap.reap w z₀.1 z₀.2).processMap
        have hnow := (SameMap.reap w z₀.1 z₀.2).now
        have htail := ih (hwf.reap z₀.1 z₀.2) hpos' hnodup ?_ (hmap ▸ he) (hsame.trans hp) hz
        · rw [List.foldl_cons, htail, hnow]
        · -- the pids that are left are those there were
          intro a ha b hb hapos hab
          rw [hmap] at ha hb
          rcases reap_pidOf hwf z₀.1 z₀.2 a.obj with hae | ⟨hae, _⟩ <;>
            rcases reap_pidOf hwf z₀.1 z₀.2 b.obj with hbe | ⟨hbe, _⟩
          · exact hdistinct a ha b hb (by omega) (by omega)
          all_goals omega

/-- The children that are reaped are those that have exited. -/
theorem mem_exitedChildren {z : Child × WaitStatus} :
    z ∈ w.exitedChildren ↔ z.1 ∈ w.children ∧ z.1.status = some z.2 := by
  unfold exitedChildren
  rw [List.mem_filterMap]
  constructor
  · rintro ⟨c, hc, hz⟩
    obtain ⟨status, hs, rfl⟩ := Option.map_eq_some_iff.mp hz
    exact ⟨hc, hs⟩
  · rintro ⟨hc, hs⟩
    exact ⟨z.1, hc, by simp [hs]⟩

/-- Children are told of in the order in which they are reaped. -/
theorem deliveries_sublist (w : World) (zs : List (Child × WaitStatus)) :
    List.Sublist ((zs.filterMap w.delivery).map (·.2)) (zs.map (·.1)) := by
  induction zs with
  | nil => exact .slnil
  | cons z zs ih =>
      cases hd : w.delivery z with
      | none => simpa [hd] using ih.cons z.1
      | some d =>
          obtain ⟨e, _, rfl⟩ := Option.map_eq_some_iff.mp hd
          simpa [hd] using ih.cons_cons z.1

/-- Among distinct pids, the process that is told is the one that holds the pid. -/
theorem mem_deliveries (h : w.PidsOwned) (hwf : w.Wf) :
    (o, c) ∈ w.exitedChildren.filterMap w.delivery ↔
      c ∈ w.children ∧ c.status.isSome = true ∧ w.mapped o = true ∧ w.pidOf o = c.pid := by
  rw [List.mem_filterMap]
  constructor
  · rintro ⟨z, hz, hd⟩
    obtain ⟨hc, hs⟩ := mem_exitedChildren.mp hz
    obtain ⟨e, hf, heq⟩ := Option.map_eq_some_iff.mp hd
    obtain ⟨rfl, rfl⟩ := Prod.mk.inj heq
    have he := List.mem_of_find?_eq_some hf
    exact ⟨hc, by simp [hs], mapped_iff.mpr ⟨e, he, rfl⟩, by simpa using List.find?_some hf⟩
  · rintro ⟨hc, hs, hm, hpid⟩
    obtain ⟨e, he, rfl⟩ := mapped_iff.mp hm
    obtain ⟨status, hs⟩ := Option.isSome_iff_exists.mp hs
    refine ⟨(c, status), mem_exitedChildren.mpr ⟨hc, hs⟩, ?_⟩
    unfold delivery
    cases hf : w.processMap.find? fun e => decide (w.pidOf e.obj = c.pid) with
    | none =>
        have := List.find?_eq_none.mp hf e he
        simp [hpid] at this
    | some e' =>
        have he' := List.mem_of_find?_eq_some hf
        have hpid' : w.pidOf e'.obj = c.pid := by simpa using List.find?_some hf
        have hpos := hwf.pidPos c hc
        obtain rfl : e = e' := h.1 e he e' he' (by omega) (by omega)
        rfl

/-- One signal delivers all exits there are. -/
theorem handleSigchld_delivers (h : w.PidsOwned) (hwf : w.Wf) :
    Delivered w w.handleSigchld.1 := by
  have hpos : ∀ z ∈ w.exitedChildren, 0 < z.1.pid := fun z hz =>
    hwf.pidPos _ (mem_exitedChildren.mp hz).1
  have hchildren : (w.exitedChildren.map (·.1)).Nodup :=
    (List.Nodup.of_map _ hwf.pids).sublist (exitedChildren_sublist _)
  have hnodup : (w.exitedChildren.map (·.1.pid)).Nodup := by
    have hsub := (exitedChildren_sublist w.children).map Child.pid
    rw [List.map_map] at hsub
    exact hwf.pids.sublist hsub
  have hnone : ∀ o, (∀ c ∈ w.children, c.status.isSome = true → w.pidOf o ≠ c.pid) →
      w.handleSigchld.1.objs o = w.objs o := by
    intro o ho
    refine reapAll_untouched hwf fun z hz => ?_
    obtain ⟨hc, hs⟩ := mem_exitedChildren.mp hz
    exact ho z.1 hc (by simp [hs])
  have htold : ∀ e ∈ w.processMap, ∀ p, w.objs e.obj = some p → ∀ c ∈ w.children, ∀ status,
      c.status = some status → p.pid = c.pid →
      w.handleSigchld.1.objs e.obj = some (p.onExit w.now status) := by
    intro e he p hp c hc status hs hpid
    have hz : (c, status) ∈ w.exitedChildren := mem_exitedChildren.mpr ⟨hc, hs⟩
    exact reapAll_told hwf hpos hnodup h.1 he hp hz hpid
  -- the deliveries are those of the first-match search, one for each exited child that has an owner
  refine ⟨⟨w.exitedChildren.filterMap w.delivery, ?_, reapAll_deliveries hwf hpos hnodup,
    fun o c => mem_deliveries h hwf, ?_⟩, htold, hnone, ?_⟩
  · exact List.Nodup.of_map Prod.snd (hchildren.sublist (deliveries_sublist w _))
  · intro o c hmem
    obtain ⟨hc, _, hm, hpid⟩ := (mem_deliveries h hwf).mp hmem
    obtain ⟨e, he, rfl⟩ := mapped_iff.mp hm
    obtain ⟨c', hc', hpid', hobj⟩ := h.2 e he (hpid ▸ hwf.pidPos c hc)
    rw [← hobj, hwf.child_ext hc hc' (by omega)]
  · intro e he c hc hs heq
    have hmap : w.handleSigchld.1.processMap = w.processMap := (SameMap.reapAll w _).processMap
    rw [hmap] at he
    have hcpos := hwf.pidPos c hc
    obtain ⟨p, hp, _⟩ := hwf.live e he
    by_cases hex : ∃ c' ∈ w.children, c'.status.isSome = true ∧ w.pidOf e.obj = c'.pid
    · obtain ⟨c', hc', hs', hpid⟩ := hex
      obtain ⟨status, hs'⟩ := Option.isSome_iff_exists.mp hs'
      have hobj := htold e he p hp c' hc' status hs' (by rw [← pidOf_eq hp, hpid])
      rw [pidOf_eq hobj, Process.onExit_pid] at heq
      omega
    · have hsame := hnone e.obj fun c' hc' hs' hpid => hex ⟨c', hc', hs', hpid⟩
      refine hex ⟨c, hc, hs, ?_⟩
      rw [← heq]
      unfold pidOf
      rw [hsame]

end World

/-- **Exits reach their owners.**  In every run in which exits are reaped only while every process
that holds the pid of an exited child is in the map, the pids of the map are distinct and owned, and
a call of `handle_sigchld_` delivers every exit to the process of the map that holds the child's pid.
A child whose process has meanwhile forked another has no such process: it is reaped and nobody is
told. -/
theorem exits_reach_their_owners {s : Sys}
    (h : Machine.Reach step (fun s i => reapsDeliver s i = true) Boot s) :
    s.world.PidsOwned ∧ World.Delivered s.world s.world.handleSigchld.1 := by
  obtain ⟨hwf, hown⟩ := ownership_reach (fun _ _ hg => hg) h
  have hpids := hown.owned.pidsOwned hwf.world
  exact ⟨hpids, World.handleSigchld_delivers hpids hwf.world⟩

/-! ## Runs -/

/-- Two children exit before one `SIGCHLD` is handled. -/
theorem exits_reach_their_owners_coalesced : ∃ s,
    Machine.Reach step (fun s i => reapsDeliver s i = true) Boot s ∧
      s.world.exitedChildren.length = 2 ∧ s.world.PidsOwned ∧
      World.Delivered s.world s.world.handleSigchld.1 := by
  obtain ⟨s, hreach, htwo⟩ := Machine.Reach.exists_of_guardedRun
    (p := fun s : Sys => decide (s.world.exitedChildren.length = 2)) (fun _ _ h => h)
    (.init (boot_bootSimple ["web", "zed"]))
    (show (Machine.guardedRun step reapsDeliver (bootSimple ["web", "zed"])
      [.forking ⟨100, by decide⟩, .forking ⟨101, by decide⟩, .next, .childExit 0 (.exited 0),
        .childExit 1 (.signaled 9), .dispatch .sigchld]).any _ = true by decide)
  have hboth := exits_reach_their_owners hreach
  exact ⟨s, hreach, of_decide_eq_true htwo, hboth.1, hboth.2⟩

/-- A stop request signals the child of the program. -/
theorem signals_reach_own_children_on_stop : ∃ s,
    Machine.Reach step (fun s i => reapsDeliver s i = true) Boot s ∧
      (∃ r, .signaled r ∈ s.world.trace ∧ r.pid = 100) ∧ s.world.SignalsOwn := by
  obtain ⟨s, hreach, hsig⟩ := Machine.Reach.exists_of_guardedRun
    (p := fun s : Sys => s.world.trace.any fun ev => match ev with
      | .signaled r => decide (r.pid = 100)
      | _ => false) (fun _ _ h => h)
    (.init (boot_bootSimple ["web"]))
    (show (Machine.guardedRun step reapsDeliver (bootSimple ["web"])
      [.forking ⟨100, by decide⟩, .next, .request (.stopProcess ["web"]),
        .next]).any _ = true by decide)
  refine ⟨s, hreach, ?_, signals_reach_own_children hreach⟩
  obtain ⟨ev, hev, hpid⟩ := List.any_eq_true.mp hsig
  cases ev with
  | signaled r => exact ⟨r, hev, of_decide_eq_true hpid⟩
  | _ => cases hpid

/-- A run in which `stopProcess("web")` waits while a reload replaces the programs `web` and `zed` by
`new`. Both children ignore `SIGTERM`, so the reload erases the two objects; the one of `web` is
kept alive by the outer wait and is not told when its child is reaped. The child of `new` gets the
pid, and the outer wait ends with the destructor of `web`. -/
def staleRun : List Input :=
  [.forking ⟨100, by decide⟩, .forking ⟨101, by decide⟩, .next,
    .request (.stopProcess ["web"]), .next, .next, .request .reloadConfig,
    .exec { parsed := .ok ⟨"/etc/supervisord.conf", [ProgramConfig.simple "new"]⟩ },
    .next, .next, .next, .seconds 11, .next, .next, .next, .next, .next, .next,
    .childExit 0 (.signaled 15), .childExit 1 (.signaled 15), .next, .next,
    .next, .next, .next, .next, .next, .forking ⟨100, by decide⟩,
    .next, .next, .next, .next, .next, .next]

/-- The destructor of `web` sends `SIGKILL` to the child of `new`. -/
theorem stale_pid_is_signaled : ∃ s,
    Machine.Reach step Machine.anyStep Boot s ∧ ¬ s.world.SignalsOwn := by
  obtain ⟨s, hreach, hsig⟩ := Machine.Reach.exists_of_run
    (p := fun s : Sys => s.world.trace.any fun ev => match ev with
      | .signaled r => decide (r.target.map (·.obj) ≠ some r.obj)
      | _ => false)
    (.init (boot_bootSimple ["web", "zed"]))
    (show (Machine.run step (bootSimple ["web", "zed"]) staleRun).any _ = true by decide)
  refine ⟨s, hreach, ?_⟩
  intro hown
  obtain ⟨ev, hev, hne⟩ := List.any_eq_true.mp hsig
  cases ev with
  | signaled r =>
      obtain ⟨c, hc, hobj⟩ := hown r hev
      simp [hc, hobj] at hne
  | _ => cases hne

/-- The destructor's `waitpid` then reaps that child, and `new` holds the pid of a child that is
gone. -/
theorem stale_pid_is_reaped : ∃ s,
    Machine.Reach step Machine.anyStep Boot s ∧ ¬ s.world.PidsOwned := by
  obtain ⟨s, hreach, hstale⟩ := Machine.Reach.exists_of_run
    (p := fun s : Sys => decide (¬ s.world.PidsOwned))
    (.init (boot_bootSimple ["web", "zed"]))
    (show (Machine.run step (bootSimple ["web", "zed"])
      (staleRun ++ [.childExit 2 (.signaled 9), .next])).any _ = true by decide)
  exact ⟨s, hreach, of_decide_eq_true hstale⟩

end Supervisorcpp
