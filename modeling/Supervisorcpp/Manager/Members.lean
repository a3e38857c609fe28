/-
# What the member functions keep

The manager changes a `Process` object only by calling its member functions, and the clock never goes
back. A property of one object and the time that the member functions keep therefore holds of every
object in every reachable state of the daemon.

The property may mention the time, as that a start lies in the past does; it then has to last as
time goes on. The start times and the retry counters of the objects are bounded in this way.
-/
import Supervisorcpp.Manager.Invariant

namespace Supervisorcpp

/-- A property of an object at a time that its constructor establishes and its member functions keep,
and that lasts. -/
structure Lasting (P : Process → Int → Prop) : Prop where
  create : ∀ config now, P (Process.create config now) now
  start : ∀ {p now} env, P p now → P (p.start now env).process now
  stop : ∀ {p now} env, P p now → P (p.stop now env).process now
  update : ∀ {p now} env, P p now → P (p.update now env).process now
  killed : ∀ {p now}, P p now → P (p.killed now) now
  onExit : ∀ {p now} status, P p now → P (p.onExit now status) now
  later : ∀ {p now now'}, P p now → now ≤ now' → P p now'

/-- It holds of every object now. -/
def World.Every (P : Process → Int → Prop) (w : World) : Prop :=
  ∀ o p, w.objs o = some p → P p w.now

namespace World

variable {P : Process → Int → Prop} {w w' : World} {o : ObjId} {p q : Process} {env : Env}

theorem applyCalls_eq {config : ProgramConfig} {cause : Cause} {sender : Sender} {ok : Bool}
    {calls : List Call} (h : w.applyCalls o config cause sender ok calls = some w') :
    w'.objs = w.objs ∧ w'.now = w.now := by
  induction calls generalizing w with
  | nil =>
      obtain rfl := Option.some.inj h
      exact ⟨rfl, rfl⟩
  | cons call calls ih =>
      cases call with
      | fork pid =>
          rw [applyCalls] at h
          split at h
          · cases h
          · exact ih (w := w.addChild ⟨w.nextCid, pid.val, o, config.name, none⟩ cause) h
      | kill pid sig => exact ih (w := w.signal o config pid sig sender ok) h
      | waitpid pid => exact ih h

namespace Every

theorem setObj (h : w.Every P) (hq : P q w.now) : (w.setObj o q).Every P := by
  intro o' p' hp'
  by_cases ho : o' = o
  · subst ho
    rw [setObj_objs, Function.update_self] at hp'
    obtain rfl := Option.some.inj hp'
    exact hq
  · rw [setObj_objs, Function.update_of_ne ho] at hp'
    exact h o' p' hp'

/-- A world with the same objects at the same time. -/
theorem of_objs (h : w.Every P) (hobjs : w'.objs = w.objs) (hnow : w'.now = w.now) :
    w'.Every P := by
  intro o p hp
  rw [hobjs] at hp
  rw [hnow]
  exact h o p hp

/-- The system calls of a member function, and then what it leaves. -/
theorem applyCalls (h : w.Every P) {config : ProgramConfig} {cause : Cause} {sender : Sender}
    {ok : Bool} {calls : List Call}
    (hcalls : w.applyCalls o config cause sender ok calls = some w') (hq : P q w.now) :
    (w'.setObj o q).Every P := by
  obtain ⟨hobjs, hnow⟩ := applyCalls_eq hcalls
  exact (h.of_objs hobjs hnow).setObj (hnow ▸ hq)

theorem reap (hP : Lasting P) (h : w.Every P) (c : Child) (status : WaitStatus) :
    (w.reap c status).Every P := by
  unfold World.reap
  dsimp only
  split
  · exact h.of_objs rfl rfl
  · next e he =>
      split
      · exact h.of_objs rfl rfl
      · next p hp =>
          have hsame : World.Every P { w with children := w.children.erase c } := h.of_objs rfl rfl
          exact (hsame.setObj (hP.onExit status (h _ p hp))).of_objs rfl rfl

theorem reapAll (hP : Lasting P) (h : w.Every P) (zs : List (Child × WaitStatus)) :
    (zs.foldl (fun w z => w.reap z.1 z.2) w).Every P := by
  induction zs generalizing w with
  | nil => exact h
  | cons z zs ih => exact ih (h.reap hP z.1 z.2)

theorem addProcess (hP : Lasting P) (h : w.Every P) (config : ProgramConfig) :
    (w.addProcess config).1.Every P := by
  intro o p hp
  rw [addProcess_now]
  by_cases ho : o = w.nextObj
  · subst ho
    rw [addProcess_objs_new] at hp
    obtain rfl := Option.some.inj hp
    exact hP.create config w.now
  · rw [addProcess_objs ho] at hp
    exact h o p hp

theorem finishKill (hP : Lasting P) (h : w.Every P) (hk : w.finishKill o env = some w') :
    w'.Every P := by
  obtain ⟨p, hp, ⟨_, rfl⟩ | ⟨c, _, _, rfl⟩⟩ := finishKill_cases hk
  · exact h.setObj (hP.killed (h o p hp))
  · have hsame : World.Every P { w with children := w.children.erase c } := h.of_objs rfl rfl
    exact hsame.setObj (hP.killed (h o p hp))

theorem destroy (h : w.Every P) (o : ObjId) : (w.destroy o).Every P := by
  intro o' p hp
  by_cases ho : o' = o
  · subst ho
    simp [World.destroy] at hp
  · have hsame : (w.destroy o).objs o' = w.objs o' := by simp [World.destroy, ho]
    exact h o' p (hsame ▸ hp)

theorem eraseNode {node : NodeId} (h : w.Every P) (he : w.eraseNode node = some (w', o)) :
    w'.Every P := by
  obtain ⟨e, _, heq⟩ := Option.map_eq_some_iff.mp he
  obtain ⟨rfl, _⟩ := Prod.mk.inj heq
  exact h.of_objs rfl rfl

end Every

end World

section Reach

variable {P : Process → Int → Prop} {L : Limits} {env : Env} {w w' : World}

/-- One statement. -/
theorem Effect.every (hP : Lasting P) (h : Effect L env w w') (hw : w.Every P) : w'.Every P := by
  induction h with
  | same w => exact hw
  | remark _ _ => exact hw.of_objs rfl rfl
  | @start _ _ e _ _ _ h =>
      obtain ⟨p, hp, h⟩ := Option.bind_eq_some_iff.mp h
      obtain ⟨v, hv, heq⟩ := Option.map_eq_some_iff.mp h
      obtain ⟨rfl, _⟩ := Prod.mk.inj heq
      have hnoted := hw.of_objs (World.note_objs (.startCalled e.obj p.config.name)) rfl
      exact hnoted.applyCalls hv (hP.start _ (hw _ p hp))
  | @stop _ _ e _ _ _ h =>
      obtain ⟨p, hp, h⟩ := Option.bind_eq_some_iff.mp h
      obtain ⟨v, hv, heq⟩ := Option.map_eq_some_iff.mp h
      obtain ⟨rfl, _⟩ := Prod.mk.inj heq
      have hnoted := hw.of_objs (World.note_objs (.stopCalled e.obj)) rfl
      exact hnoted.applyCalls hv (hP.stop _ (hw _ p hp))
  | update _ _ h =>
      obtain ⟨p, hp, h⟩ := Option.bind_eq_some_iff.mp h
      obtain ⟨v, hv, rfl⟩ := Option.map_eq_some_iff.mp h
      exact hw.applyCalls hv (hP.update _ (hw _ p hp))
  | kill _ _ _ => exact hw.of_objs rfl rfl
  | finishKill _ h => exact hw.finishKill hP h
  | reap _ => exact hw.reapAll hP _
  | add _ => exact hw.addProcess hP _
  | leave _ h => exact hw.eraseNode h
  | destroy _ _ => exact hw.destroy _
  | trans _ _ ih ih' => exact ih' (ih hw)

/-- What happens outside the daemon: only time passes for an object. -/
theorem Outside.every (hP : Lasting P) (h : Outside w w') (hw : w.Every P) : w'.Every P := by
  cases h with
  | childExit cid status _ => exact hw.of_objs rfl rfl
  | clock nanos => exact fun o p hp => hP.later (hw o p hp) (Int.le_add_of_nonneg_right (by omega))
  | reorder _ => exact hw.of_objs rfl rfl

theorem addAll_every (hP : Lasting P) (hw : w.Every P) (progs : List ProgramConfig) :
    (addAll w progs).1.Every P := by
  induction progs generalizing w with
  | nil => exact hw
  | cons prog progs ih => exact ih (hw.addProcess hP prog)

/-- **Every object in every reachable state.** -/
theorem Lasting.reach (hP : Lasting P) {guard : Sys → Input → Prop} {s : Sys}
    (h : Machine.Reach step guard Boot s) : s.world.Every P := by
  have hboth : s.Wf ∧ s.world.Every P := by
    refine h.invariant (P := fun s => s.Wf ∧ s.world.Every P) ?_ ?_
    · rintro _ ⟨config, now, rfl⟩
      have hempty : (World.empty now).Every P := fun o p (hp : none = some p) => nomatch hp
      exact ⟨Sys.Wf.boot ⟨config, now, rfl⟩, addAll_every hP hempty _⟩
    · rintro s i s' ⟨hwf, hw⟩ _ hstep
      refine ⟨hwf.step hstep, ?_⟩
      rcases Sys.Wf.step_world hstep with ⟨env, frame, rest, rfl, hs, heff⟩ | hworld | hout
      · exact (heff {} (hwf.within hs)).every hP hw
      · rw [hworld]
        exact hw
      · exact hout.every hP hw
  exact hboth.2

end Reach

end Supervisorcpp
