/-
# The pid file guard

`PidFileGuard` of every daemon that uses one pid file path, over a file system in which a name leads
to an inode and a lock belongs to an inode. Each system call of the constructor and the destructor
is one step, so any number of daemons interleave freely; what a call returns beyond what the locks
decide (no space, no permission) is part of the input.

An inode number is never used twice here: a number the kernel would recycle has no descriptor, no
lock and no name left. `validate_pidfile_path` is not modelled, the path is one that passed it.
-/
import Mathlib.Logic.Function.Basic
import Supervisorcpp.Lib.Bytes
import Supervisorcpp.Lib.Machine

namespace Supervisorcpp

namespace PidFile

/-- The number of a file; never used twice. -/
abbrev Inode := Nat

/-- A daemon, named by its process id. -/
abbrev Daemon := Nat

/-! ## The state of one guard and of the file system -/

/-- Where a daemon is in the life of its guard; `i` is the inode `fd_` is open on. -/
inductive Phase where
  /-- No guard: not constructed yet, or construction threw, or the destructor returned. -/
  | idle
  | opened (i : Inode)
  | locked (i : Inode)
  /-- The constructor returned. -/
  | holding (i : Inode)
  /-- The constructor is about to close `fd_` and throw. -/
  | failing (i : Inode)
  /-- The destructor closed `fd_` and is about to remove the path. -/
  | closed
  deriving DecidableEq, Repr

/-- The inode of a guard that is constructed or on the way to it. -/
def Phase.guarding : Phase → Option Inode
  | .opened i | .locked i | .holding i => some i
  | .idle | .failing _ | .closed => none

/-- The inode whose lock the descriptor was granted, in a guard that keeps it. -/
def Phase.locks : Phase → Option Inode
  | .locked i | .holding i => some i
  | .idle | .opened _ | .failing _ | .closed => none

/-- The guard is successfully constructed and not yet destroyed. -/
def Phase.holds : Phase → Bool
  | .holding _ => true
  | _ => false

/-- The file system as the guards see it, with the phase of every daemon. -/
structure State where
  path : Option Inode := none
  nextInode : Inode := 0
  /-- The daemon whose descriptor holds the lock of an inode. -/
  lock : Inode → Option Daemon := fun _ => none
  contents : Inode → Bytes := fun _ => []
  phase : Daemon → Phase := fun _ => .idle

/-- No daemon has a guard and no inode is locked; the path may lead to a file a crash left. -/
structure Initial (s : State) : Prop where
  idle : ∀ d, s.phase d = .idle
  unlocked : ∀ i, s.lock i = none
  pathLt : ∀ i, s.path = some i → i < s.nextInode

/-! ## The system calls -/

/-- The calls of `PidFileGuard`, `ok := false` where the kernel refuses for a reason of its own. -/
inductive Call where
  | open (ok : Bool)
  | flock (ok : Bool)
  | write (ok : Bool)
  | close
  | remove (ok : Bool)
  deriving DecidableEq, Repr

/-- The daemon goes on to this point of its program. -/
def State.goto (s : State) (d : Daemon) (ph : Phase) : State :=
  { s with phase := Function.update s.phase d ph }

/-- `std::to_string(::getpid()) + '\n'`. -/
def pidStr (d : Daemon) : Bytes := Bytes.ascii (toString d ++ "\n")

/-- `::open(path_, O_WRONLY | O_CREAT | O_TRUNC | O_CLOEXEC)`. -/
def State.open (s : State) (d : Daemon) : State :=
  match s.path with
  | some i => { s with contents := Function.update s.contents i [] }.goto d (.opened i)
  | none =>
    { s with
      path := some s.nextInode
      nextInode := s.nextInode + 1
      contents := Function.update s.contents s.nextInode [] }.goto d (.opened s.nextInode)

/-- `::flock(fd_, LOCK_EX | LOCK_NB)`. -/
def State.flock (s : State) (d : Daemon) (i : Inode) (ok : Bool) : State :=
  if ok && (s.lock i).isNone then
    { s with lock := Function.update s.lock i (some d) }.goto d (.locked i)
  else s.goto d (.failing i)

/-- `::write(fd_, pid_str)`, at offset 0 of a descriptor that has written nothing before. -/
def State.write (s : State) (d : Daemon) (i : Inode) (ok : Bool) : State :=
  if ok then
    { s with
      contents := Function.update s.contents i
        (pidStr d ++ (s.contents i).drop (pidStr d).length) }.goto d (.holding i)
  else s.goto d (.failing i)

/-- `::close(fd_)`, which gives up the lock the descriptor holds. -/
def State.close (s : State) (d : Daemon) (i : Inode) (next : Phase) : State :=
  { s with lock := if s.lock i = some d then Function.update s.lock i none else s.lock }.goto d next

/-- `std::filesystem::remove(path_, ec)`: whatever file the path leads to now. -/
def State.remove (s : State) (d : Daemon) (ok : Bool) : State :=
  { s with path := if ok then none else s.path }.goto d .idle

/-- The next call of daemon `d`; `none` when it is not at that call. -/
def step (s : State) (input : Daemon × Call) : Option State :=
  let d := input.1
  match s.phase d, input.2 with
  | .idle, .open ok => some (if ok then s.open d else s)
  | .opened i, .flock ok => some (s.flock d i ok)
  | .locked i, .write ok => some (s.write d i ok)
  | .failing i, .close => some (s.close d i .idle)
  | .holding i, .close => some (s.close d i .closed)
  | .closed, .remove ok => some (s.remove d ok)
  | _, _ => none

/-- At most one daemon holds a guard. -/
def SingleInstance (s : State) : Prop :=
  ∀ d e, (s.phase d).holds = true → (s.phase e).holds = true → d = e

/-- A removal is clean when no guard, constructed or under construction, is on the file it removes.
The destructor closes first and removes second, so nothing in it makes its removal clean. -/
def cleanRemoval (s : State) (input : Daemon × Call) : Prop :=
  input.2 = .remove true → ∀ e i, s.path = some i → (s.phase e).guarding ≠ some i

/-! ## What clean removals preserve -/

/-- What keeps the guard of one daemon exclusive: its inode is the one the path leads to, and the
lock it was granted is still its own. -/
structure Sound (s : State) (d : Daemon) (ph : Phase) : Prop where
  onPath : ∀ i, ph.guarding = some i → s.path = some i
  owner : ∀ i, ph.locks = some i → s.lock i = some d

/-- Every daemon's guard is sound. -/
def AllSound (s : State) : Prop := ∀ d, Sound s d (s.phase d)

section Steps

variable {s s' t : State} {d : Daemon} {i : Inode} {ph : Phase}

/-- A phase with neither a guard nor a lock asks for nothing. -/
theorem Sound.of_none (hg : ph.guarding = none) (hl : ph.locks = none) : Sound t d ph := by
  constructor
  · intro i hi
    rw [hg] at hi
    cases hi
  · intro i hi
    rw [hl] at hi
    cases hi

/-- The daemon that moved and the daemons that did not. -/
theorem allSound_goto (hself : Sound t d ph) (hother : ∀ e, e ≠ d → Sound t e (t.phase e)) :
    AllSound (t.goto d ph) := by
  intro e
  show Sound _ e (Function.update t.phase d ph e)
  by_cases he : e = d
  · subst he
    rw [Function.update_self]
    exact ⟨hself.onPath, hself.owner⟩
  · rw [Function.update_of_ne he]
    exact ⟨(hother e he).onPath, (hother e he).owner⟩

/-- A daemon opens the path. -/
theorem allSound_open (h : AllSound s) : AllSound (s.open d) := by
  unfold State.open
  cases hp : s.path with
  | some i =>
      apply allSound_goto
      · exact ⟨fun j hj => hj, by intro j hj; cases hj⟩
      · intro e _
        refine ⟨?_, (h e).owner⟩
        intro j hj
        show some i = some j
        rw [← hp]
        exact (h e).onPath j hj
  | none =>
      apply allSound_goto
      · exact ⟨fun j hj => hj, by intro j hj; cases hj⟩
      · -- without a file at the path no other guard is constructed or under construction
        intro e _
        refine ⟨?_, (h e).owner⟩
        intro j hj
        have hpath := (h e).onPath j hj
        rw [hp] at hpath
        cases hpath

/-- A daemon tries to lock. -/
theorem allSound_flock (h : AllSound s) (hd : s.phase d = .opened i) (ok : Bool) :
    AllSound (s.flock d i ok) := by
  have hpath : s.path = some i := (h d).onPath i (by rw [hd]; rfl)
  unfold State.flock
  split
  · next hfree =>
      have hlock : s.lock i = none := by
        rw [Bool.and_eq_true] at hfree
        exact Option.isNone_iff_eq_none.mp hfree.2
      apply allSound_goto
      · constructor
        · intro j hj
          cases hj
          exact hpath
        · intro j hj
          cases hj
          exact Function.update_self ..
      · intro e _
        refine ⟨(h e).onPath, ?_⟩
        intro j hj
        have howner := (h e).owner j hj
        -- the lock was free, so whoever owns one owns another inode's
        have hne : j ≠ i := by
          rintro rfl
          rw [hlock] at howner
          cases howner
        show Function.update s.lock i (some d) j = some e
        rw [Function.update_of_ne hne]
        exact howner
  · exact allSound_goto (.of_none rfl rfl) fun e _ => h e

/-- A daemon writes its pid. -/
theorem allSound_write (h : AllSound s) (hd : s.phase d = .locked i) (ok : Bool) :
    AllSound (s.write d i ok) := by
  unfold State.write
  split
  · apply allSound_goto
    · have hself := h d
      rw [hd] at hself
      exact ⟨hself.onPath, hself.owner⟩
    · intro e _
      exact ⟨(h e).onPath, (h e).owner⟩
  · exact allSound_goto (.of_none rfl rfl) fun e _ => h e

theorem allSound_close (h : AllSound s) (hg : ph.guarding = none) (hl : ph.locks = none) :
    AllSound (s.close d i ph) := by
  apply allSound_goto (.of_none hg hl)
  intro e he
  refine ⟨(h e).onPath, ?_⟩
  intro j hj
  have howner := (h e).owner j hj
  show (if s.lock i = some d then Function.update s.lock i none else s.lock) j = some e
  split
  · next hmine =>
      have hne : j ≠ i := by
        rintro rfl
        rw [hmine] at howner
        exact he (Option.some.inj howner).symm
      rw [Function.update_of_ne hne]
      exact howner
  · exact howner

/-- A clean removal leaves no guard behind: every guard is on the path's inode. -/
theorem allSound_remove (h : AllSound s) (ok : Bool) (hclean : cleanRemoval s (d, .remove ok)) :
    AllSound (s.remove d ok) := by
  apply allSound_goto (.of_none rfl rfl)
  intro e _
  refine ⟨?_, (h e).owner⟩
  intro j hj
  have hpath := (h e).onPath j hj
  cases ok with
  | true => exact absurd hj (hclean rfl e j hpath)
  | false => exact hpath

/-- Every call keeps the state sound whose removals are clean. -/
theorem allSound_step {input : Daemon × Call} (h : AllSound s) (hclean : cleanRemoval s input)
    (hstep : step s input = some s') : AllSound s' := by
  obtain ⟨d, call⟩ := input
  unfold step at hstep
  dsimp only at hstep
  split at hstep
  · next ok _ =>
      obtain rfl := Option.some.inj hstep
      cases ok with
      | true => exact allSound_open h
      | false => exact h
  · next ok hd => exact Option.some.inj hstep ▸ allSound_flock h hd ok
  · next ok hd => exact Option.some.inj hstep ▸ allSound_write h hd ok
  · exact Option.some.inj hstep ▸ allSound_close h rfl rfl
  · exact Option.some.inj hstep ▸ allSound_close h rfl rfl
  · exact Option.some.inj hstep ▸ allSound_remove h _ hclean
  · cases hstep

/-- Nobody has started. -/
theorem allSound_initial (h : Initial s) : AllSound s := by
  intro d
  rw [h.idle d]
  exact .of_none rfl rfl

/-- Sound guards that are held share the path's inode and so its lock. -/
theorem AllSound.singleInstance (h : AllSound s) : SingleInstance s := by
  intro d e hd he
  cases hpd : s.phase d with
  | holding i =>
      cases hpe : s.phase e with
      | holding j =>
          have hdi := h d
          have hej := h e
          rw [hpd] at hdi
          rw [hpe] at hej
          have hij : some i = some j := (hdi.onPath i rfl).symm.trans (hej.onPath j rfl)
          obtain rfl := Option.some.inj hij
          exact Option.some.inj ((hdi.owner i rfl).symm.trans (hej.owner i rfl))
      | _ => simp [hpe, Phase.holds] at he
  | _ => simp [hpd, Phase.holds] at hd

end Steps

/-! ## Runs -/

/-- **One instance at a time.**  In every interleaving in which each removal is clean, at most one
daemon holds a constructed guard. -/
theorem single_instance {s : State} (h : Machine.Reach step cleanRemoval Initial s) :
    SingleInstance s := by
  have hinv := h.invariant (P := AllSound) (fun s hs => allSound_initial hs)
    (fun s input s' hs hclean hstep => allSound_step hs hclean hstep)
  exact hinv.singleInstance

/-- A call other than a removal is clean. -/
theorem cleanRemoval_of_ne {s : State} {d : Daemon} {c : Call} (h : c ≠ .remove true) :
    cleanRemoval s (d, c) :=
  fun hc => absurd hc h

/-- A daemon constructs and destroys its guard, then the next daemon constructs one. -/
theorem single_instance_restart : ∃ s,
    Machine.Reach step cleanRemoval Initial s ∧ s.phase 2 = .holding 1 ∧ SingleInstance s := by
  have h0 : Machine.Reach step cleanRemoval Initial {} :=
    .init ⟨fun _ => rfl, fun _ => rfl, by simp⟩
  have h1 := h0.step (i := (1, .open true)) (cleanRemoval_of_ne (by decide)) rfl
  have h2 := h1.step (i := (1, .flock true)) (cleanRemoval_of_ne (by decide)) rfl
  have h3 := h2.step (i := (1, .write true)) (cleanRemoval_of_ne (by decide)) rfl
  have h4 := h3.step (i := (1, .close)) (cleanRemoval_of_ne (by decide)) rfl
  have h5 := h4.step (i := (1, .remove true)) (by
    intro _ e i _
    by_cases he : e = 1
    · subst he
      exact nofun
    · simp [State.close, State.write, State.flock, State.open, State.goto, he,
        Phase.guarding]) rfl
  have h6 := h5.step (i := (2, .open true)) (cleanRemoval_of_ne (by decide)) rfl
  have h7 := h6.step (i := (2, .flock true)) (cleanRemoval_of_ne (by decide)) rfl
  have h8 := h7.step (i := (2, .write true)) (cleanRemoval_of_ne (by decide)) rfl
  exact ⟨_, h8, rfl, single_instance h8⟩

/-- Two daemons hold a guard at once: the first closes, the second takes over the file, the first
removes it, the third creates another. -/
theorem removal_after_close_admits_two : ∃ s,
    Machine.Reach step Machine.anyStep Initial s ∧ ¬ SingleInstance s := by
  obtain ⟨s, hreach, htwo⟩ := Machine.Reach.exists_of_run
    (p := fun s : State => (s.phase 2).holds && (s.phase 3).holds)
    (Machine.Reach.init (s := {}) (show Initial {} from ⟨fun _ => rfl, fun _ => rfl, by simp⟩))
    (show (Machine.run step {}
      [(1, .open true), (1, .flock true), (1, .write true), (1, .close),
        (2, .open true), (2, .flock true), (2, .write true), (1, .remove true),
        (3, .open true), (3, .flock true), (3, .write true)]).any _ = true by decide)
  rw [Bool.and_eq_true] at htwo
  refine ⟨s, hreach, ?_⟩
  intro hsingle
  exact absurd (hsingle 2 3 htwo.1 htwo.2) (by decide)

end PidFile

end Supervisorcpp
