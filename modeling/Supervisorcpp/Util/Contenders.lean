/-
# Contenders for a pid file that is held

While a guard is live and its file is where the path leads, no other daemon gets past `flock`. But
`open` comes before `flock` and truncates: a contender that is refused has already emptied the file.

The contents of the inode are followed through the calls of all daemons. An open that succeeds
leaves them empty, whoever holds the lock, and this is the only way in which contenders change them.
-/
import Supervisorcpp.Util.PidFile

namespace Supervisorcpp

namespace PidFile

variable {s s' : State} {d e : Daemon} {i : Inode}

/-- A granted lock is its daemon's own. -/
def Owned (s : State) : Prop := ∀ d i, (s.phase d).locks = some i → s.lock i = some d

/-- Only the daemon that moves changes its phase, and a lock that was granted stays. -/
theorem owned_goto {ph : Phase} (hself : ∀ i, ph.locks = some i → s.lock i = some d)
    (hother : ∀ e i, e ≠ d → (s.phase e).locks = some i → s.lock i = some e) :
    Owned (s.goto d ph) := by
  intro e i hi
  have hi' : (Function.update s.phase d ph e).locks = some i := hi
  by_cases he : e = d
  · subst he
    rw [Function.update_self] at hi'
    exact hself i hi'
  · rw [Function.update_of_ne he] at hi'
    exact hother e i he hi'

/-- **One call** of any daemon, removals included, keeps every lock with its owner. -/
theorem owned_step {input : Daemon × Call} (h : Owned s) (hstep : step s input = some s') :
    Owned s' := by
  obtain ⟨d, call⟩ := input
  have hclose : ∀ i ph, ph.locks = none → Owned (s.close d i ph) := by
    intro i ph hph
    refine owned_goto (fun j hj => by rw [hph] at hj; cases hj) fun e j he hj => ?_
    have howner := h e j hj
    show (if s.lock i = some d then Function.update s.lock i none else s.lock) j = some e
    split
    · next hmine =>
        have hne : j ≠ i := by
          rintro rfl
          exact he (Option.some.inj (howner.symm.trans hmine))
        rw [Function.update_of_ne hne]
        exact howner
    · exact howner
  unfold step at hstep
  dsimp only at hstep
  split at hstep
  · next ok _ =>
      obtain rfl := Option.some.inj hstep
      cases ok with
      | false => exact h
      | true =>
          simp only [State.open, if_true]
          split <;> exact owned_goto (fun j hj => by cases hj) fun e j _ hj => h e j hj
  · next i ok _ =>
      obtain rfl := Option.some.inj hstep
      unfold State.flock
      split
      · next hfree =>
          have hlock : s.lock i = none := by simp_all
          refine owned_goto ?_ ?_
          · intro j hj
            cases hj
            exact Function.update_self ..
          -- a lock that was free has no other owner
          · intro e j he hj
            have howner := h e j hj
            have hne : j ≠ i := by
              rintro rfl
              rw [hlock] at howner
              cases howner
            show Function.update s.lock i (some d) j = some e
            rw [Function.update_of_ne hne]
            exact howner
      · exact owned_goto (fun j hj => by cases hj) fun e j _ hj => h e j hj
  · next i ok hd =>
      obtain rfl := Option.some.inj hstep
      unfold State.write
      split
      · refine owned_goto (fun j hj => h d j ?_) fun e j _ hj => h e j hj
        rw [hd]
        exact hj
      · exact owned_goto (fun j hj => by cases hj) fun e j _ hj => h e j hj
  · exact Option.some.inj hstep ▸ hclose _ _ rfl
  · exact Option.some.inj hstep ▸ hclose _ _ rfl
  · exact Option.some.inj hstep ▸ owned_goto (fun j hj => by cases hj) fun e j _ hj => h e j hj
  · cases hstep

/-- In every state that can be reached, a granted lock is its daemon's own. -/
theorem reach_owned {guard : State → Daemon × Call → Prop}
    (h : Machine.Reach step guard Initial s) : Owned s := by
  refine h.invariant (P := Owned) ?_ fun _ _ _ hs _ hstep => owned_step hs hstep
  intro s hs d i hi
  rw [hs.idle d] at hi
  cases hi

/-! ## What contenders leave alone -/

/-- The guard of `d` is live on the file the path leads to, and every other daemon is before its
`flock` on that file or out. -/
structure Guarded (d : Daemon) (i : Inode) (s : State) : Prop where
  live : s.phase d = .holding i
  path : s.path = some i
  lock : s.lock i = some d
  refused : ∀ e, e ≠ d → (s.phase e).locks = none ∧ ∀ j, (s.phase e).guarding = some j → j = i

/-- A live guard is guarded if every guard is on the file the path leads to. -/
theorem guarded_of_onPath (howned : Owned s) (hd : s.phase d = .holding i)
    (hpath : ∀ e j, (s.phase e).guarding = some j → s.path = some j) : Guarded d i s := by
  have hi : s.path = some i := hpath d i (by rw [hd]; rfl)
  have hlock : s.lock i = some d := howned d i (by rw [hd]; rfl)
  refine ⟨hd, hi, hlock, fun e he => ?_⟩
  have hfile : ∀ j, (s.phase e).guarding = some j → j = i := fun j hj =>
    Option.some.inj ((hpath e j hj).symm.trans hi)
  refine ⟨?_, hfile⟩
  -- a second lock would be on the same file
  cases hlocks : (s.phase e).locks with
  | none => rfl
  | some j =>
      have hguarding : (s.phase e).guarding = some j := by
        cases hph : s.phase e <;> simp_all [Phase.locks, Phase.guarding]
      have howner := howned e j hlocks
      rw [hfile j hguarding, hlock] at howner
      exact absurd (Option.some.inj howner).symm he

/-- A contender that moves to a phase without a lock. -/
theorem guarded_goto {t : State} {ph : Phase} (h : Guarded d i s) (he : e ≠ d)
    (hphase : t.phase = s.phase) (hpath : t.path = s.path) (hlock : t.lock i = s.lock i)
    (hlocks : ph.locks = none) (hguarding : ∀ j, ph.guarding = some j → j = i) :
    Guarded d i (t.goto e ph) := by
  refine ⟨?_, hpath.trans h.path, hlock.trans h.lock, fun f hf => ?_⟩
  · show Function.update t.phase e ph d = _
    rw [Function.update_of_ne he.symm, hphase]
    exact h.live
  · show (Function.update t.phase e ph f).locks = none ∧
      ∀ j, (Function.update t.phase e ph f).guarding = some j → j = i
    by_cases hfe : f = e
    · rw [hfe, Function.update_self]
      exact ⟨hlocks, hguarding⟩
    · rw [Function.update_of_ne hfe, hphase]
      exact h.refused f hf

/-- **One call of a contender** that is not a removal: the guard stays alone, and its file is emptied
by an `open` and otherwise left alone. -/
theorem guarded_step {call : Call} (h : Guarded d i s) (he : e ≠ d)
    (hremove : ∀ ok, call ≠ .remove ok) (hstep : step s (e, call) = some s') :
    Guarded d i s' ∧
      s'.contents i = if call = .open true then [] else s.contents i := by
  obtain ⟨hlocks, hguarding⟩ := h.refused e he
  unfold step at hstep
  dsimp only at hstep
  split at hstep
  · next ok _ =>
      obtain rfl := Option.some.inj hstep
      cases ok with
      | false => exact ⟨h, rfl⟩
      | true =>
          simp only [State.open, h.path, if_true]
          refine ⟨guarded_goto h he rfl h.path.symm rfl rfl ?_, Function.update_self ..⟩
          exact fun j hj => (Option.some.inj hj).symm
  · next j ok hph =>
      obtain rfl := Option.some.inj hstep
      have hj : j = i := hguarding j (by rw [hph]; rfl)
      subst hj
      -- the lock is the live guard's, so this contender fails
      have hflock : s.flock e j ok = s.goto e (.failing j) := by
        simp [State.flock, h.lock]
      rw [hflock]
      exact ⟨guarded_goto h he rfl rfl rfl rfl fun k hk => (by cases hk), rfl⟩
  · next j ok hph =>
      rw [hph] at hlocks
      cases hlocks
  · next j hph =>
      obtain rfl := Option.some.inj hstep
      refine ⟨guarded_goto h he rfl rfl ?_ rfl fun k hk => (by cases hk), rfl⟩
      show (if s.lock j = some e then Function.update s.lock j none else s.lock) i = s.lock i
      split
      · next hmine =>
          have hne : i ≠ j := by
            rintro rfl
            exact he (Option.some.inj (hmine.symm.trans h.lock))
          exact Function.update_of_ne hne _ _
      · rfl
  · next j hph =>
      rw [hph] at hlocks
      cases hlocks
  · next ok _ => exact absurd rfl (hremove ok)
  · cases hstep

/-- Some contender gets as far as a successful `open`. -/
def anyOpen (inputs : List (Daemon × Call)) : Bool := inputs.any fun x => x.2 = .open true

/-- A daemon that holds the path keeps it in every run of others; an open empties the file. -/
theorem guarded_run {inputs : List (Daemon × Call)} (h : Guarded d i s)
    (hothers : ∀ x ∈ inputs, x.1 ≠ d ∧ ∀ ok, x.2 ≠ .remove ok)
    (hrun : Machine.run step s inputs = some s') :
    Guarded d i s' ∧ s'.contents i = if anyOpen inputs then [] else s.contents i := by
  induction inputs generalizing s with
  | nil =>
      obtain rfl : s = s' := by simpa [Machine.run] using hrun
      exact ⟨h, rfl⟩
  | cons x inputs ih =>
      obtain ⟨t, ht, hrest⟩ := Option.bind_eq_some_iff.mp hrun
      obtain ⟨he, hremove⟩ := hothers x List.mem_cons_self
      obtain ⟨hguarded, hcontents⟩ := guarded_step h he hremove ht
      obtain ⟨hlast, hcontents'⟩ :=
        ih hguarded (fun x hx => hothers x (List.mem_cons_of_mem _ hx)) hrest
      refine ⟨hlast, ?_⟩
      have hcons : anyOpen (x :: inputs) = (decide (x.2 = .open true) || anyOpen inputs) := rfl
      rw [hcontents', hcontents, hcons]
      by_cases hopen : x.2 = .open true <;> cases anyOpen inputs <;> simp [hopen]

/-- **A refused contender.**  In every reachable state in which a guard is live and the path leads to
the file of every guard that is live or under construction, whatever other daemons do to construct
theirs, none of them ever holds one and the path keeps leading to the live guard's file; but the file
keeps its contents exactly if none of them gets as far as a successful `open`. -/
theorem contenders_refused (h : Machine.Reach step Machine.anyStep Initial s)
    (hd : s.phase d = .holding i)
    (hpath : ∀ e j, (s.phase e).guarding = some j → s.path = some j)
    (inputs : List (Daemon × Call)) (hothers : ∀ x ∈ inputs, x.1 ≠ d ∧ ∀ ok, x.2 ≠ .remove ok)
    (hrun : Machine.run step s inputs = some s') :
    (∀ e, e ≠ d → (s'.phase e).holds = false) ∧ s'.phase d = .holding i ∧ s'.path = some i ∧
      (s'.contents i = s.contents i ↔
        ((∀ x ∈ inputs, x.2 ≠ .open true) ∨ s.contents i = [])) := by
  obtain ⟨hguarded, hcontents⟩ :=
    guarded_run (guarded_of_onPath (reach_owned h) hd hpath) hothers hrun
  refine ⟨fun e he => ?_, hguarded.live, hguarded.path, ?_⟩
  · have hlocks := (hguarded.refused e he).1
    cases hph : s'.phase e <;> simp_all [Phase.locks, Phase.holds]
  · have hnone : anyOpen inputs = false ↔ ∀ x ∈ inputs, x.2 ≠ .open true := by simp [anyOpen]
    rw [hcontents, ← hnone]
    cases hopen : anyOpen inputs with
    | false => simp
    | true =>
        simp only [if_true, Bool.true_eq_false, false_or]
        exact eq_comm

/-- Daemon 1 holds the guard, daemon 2 has tried and failed to open the file. -/
theorem contenders_refused_before_open : ∃ s s',
    Machine.Reach step Machine.anyStep Initial s ∧ s.phase 1 = .holding 0 ∧
      Machine.run step s [(2, .open false)] = some s' ∧ s'.contents 0 = s.contents 0 ∧
      s'.contents 0 = pidStr 1 := by
  have h0 : Machine.Reach step cleanRemoval Initial {} :=
    .init ⟨fun _ => rfl, fun _ => rfl, by simp⟩
  have h1 := h0.step (i := (1, .open true)) (cleanRemoval_of_ne (by decide)) rfl
  have h2 := h1.step (i := (1, .flock true)) (cleanRemoval_of_ne (by decide)) rfl
  have h3 := h2.step (i := (1, .write true)) (cleanRemoval_of_ne (by decide)) rfl
  have hsound := h3.invariant (P := AllSound) (fun s hs => allSound_initial hs)
    (fun s input s' hs hclean hstep => allSound_step hs hclean hstep)
  have hany : Machine.Reach step Machine.anyStep Initial _ := h3.mono fun _ _ _ => trivial
  have hrefused := contenders_refused hany (d := 1) (i := 0) rfl
    (fun e j hj => (hsound e).onPath j hj) [(2, .open false)] (by simp) rfl
  exact ⟨_, _, hany, rfl, rfl, hrefused.2.2.2.mpr (Or.inl (by simp)), by decide⟩

/-- A contender that is refused leaves the file empty. -/
theorem refused_contender_empties_file : ∃ s s',
    Machine.Reach step Machine.anyStep Initial s ∧ s.phase 1 = .holding 0 ∧ s.path = some 0 ∧
      s.contents 0 = pidStr 1 ∧
      Machine.run step s [(2, .open true), (2, .flock true), (2, .close)] = some s' ∧
      s'.phase 2 = .idle ∧ s'.path = some 0 ∧ s'.contents 0 ≠ s.contents 0 := by
  have h0 : Machine.Reach step Machine.anyStep Initial {} :=
    .init ⟨fun _ => rfl, fun _ => rfl, by simp⟩
  have h1 := h0.step (i := (1, .open true)) trivial rfl
  have h2 := h1.step (i := (1, .flock true)) trivial rfl
  have h3 := h2.step (i := (1, .write true)) trivial rfl
  exact ⟨_, _, h3, rfl, rfl, by decide, rfl, rfl, rfl, by decide⟩

end PidFile

end Supervisorcpp
