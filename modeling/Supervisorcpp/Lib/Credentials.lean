/-
# Credentials

The user and group ids of a process and the system calls that change them, with the rules of the
kernel: effective user 0 may set any id, everybody else may only move ids among the real, effective
and saved ones it has. A process whose three user ids agree on a user other than 0 is bound to its
credentials: no sequence of calls changes them, and neither does `execve` of a file without set-ID bits.
-/
import Supervisorcpp.Lib.Machine
import Mathlib.Logic.Function.Basic

namespace Credentials

/-- The three ids of one kind, of users or of groups, that a process has. -/
structure Ids where
  real : Nat
  effective : Nat
  saved : Nat
  deriving DecidableEq, Repr

namespace Ids

/-- All three ids. -/
def all (n : Nat) : Ids := ⟨n, n, n⟩

/-- One of the three. -/
def Has (ids : Ids) (n : Nat) : Prop := n = ids.real ∨ n = ids.effective ∨ n = ids.saved

instance (ids : Ids) (n : Nat) : Decidable (ids.Has n) :=
  inferInstanceAs (Decidable (_ ∨ _ ∨ _))

/-- `setuid` and `setgid`: with privilege all three ids change, without it the effective one may
become the real or the saved one. -/
def set (privileged : Bool) (ids : Ids) (n : Nat) : Option Ids :=
  if privileged then some (all n)
  else if n = ids.real ∨ n = ids.saved then some { ids with effective := n }
  else none

/-- `setresuid` and `setresgid`; `none` keeps an id. -/
def setAll (privileged : Bool) (ids : Ids) (real effective saved : Option Nat) : Option Ids :=
  if privileged ∨ (∀ n ∈ real, ids.Has n) ∧ (∀ n ∈ effective, ids.Has n) ∧ ∀ n ∈ saved, ids.Has n then
    some ⟨real.getD ids.real, effective.getD ids.effective, saved.getD ids.saved⟩
  else none

/-- `setreuid` and `setregid`: the saved id follows the effective one when the real id is set or the
effective id becomes another than the real one. -/
def setPair (privileged : Bool) (ids : Ids) (real effective : Option Nat) : Option Ids :=
  if privileged ∨ (∀ n ∈ real, n = ids.real ∨ n = ids.effective) ∧ ∀ n ∈ effective, ids.Has n then
    let next := effective.getD ids.effective
    some ⟨real.getD ids.real, next,
      if real.isSome ∨ (effective.isSome ∧ next ≠ ids.real) then next else ids.saved⟩
  else none

/-- `execve` of a file that belongs to `owner` and has the set-ID bit, or has none: the saved id is the
effective one of the program. -/
def exec (ids : Ids) (owner : Option Nat) : Ids :=
  ⟨ids.real, owner.getD ids.effective, owner.getD ids.effective⟩

variable {ids' : Ids} {n n' : Nat} {real effective saved : Option Nat}

/-- Asking for nothing keeps the id; what may be asked for is the same id. -/
theorem getD_all (h : ∀ m ∈ real, (all n).Has m) : real.getD n = n := by
  cases real with
  | none => rfl
  | some m =>
      have hm := h m rfl
      simpa [Has, all] using hm

/-- Without privilege, none of three equal ids can be changed. -/
theorem set_all (h : set false (all n) n' = some ids') : ids' = all n := by
  simp only [set, Bool.false_eq_true, if_false] at h
  split at h
  · next hn =>
      have hn' : n' = n := by simpa [all] using hn
      rw [← Option.some.inj h, hn']
      rfl
  · cases h

/-- Nor can all three at once. -/
theorem setAll_all (h : setAll false (all n) real effective saved = some ids') : ids' = all n := by
  simp only [setAll, Bool.false_eq_true, false_or] at h
  split at h
  · next hown =>
      obtain ⟨hreal, heffective, hsaved⟩ := hown
      rw [← Option.some.inj h]
      simp only [all, getD_all hreal, getD_all heffective, getD_all hsaved]
  · cases h

/-- Nor can the real and the effective one together. -/
theorem setPair_all (h : setPair false (all n) real effective = some ids') : ids' = all n := by
  simp only [setPair, Bool.false_eq_true, false_or] at h
  split at h
  · next hown =>
      obtain ⟨hreal, heffective⟩ := hown
      have hreal' : ∀ m ∈ real, (all n).Has m := fun m hm => (hreal m hm).elim .inl (.inr ∘ .inl)
      rw [← Option.some.inj h]
      simp only [all, getD_all hreal', getD_all heffective, ite_self]
  · cases h

end Ids

/-- What the kernel decides by. -/
structure Creds where
  uid : Ids
  gid : Ids
  groups : List Nat
  deriving DecidableEq, Repr

/-- The calls by which a process changes its credentials without `execve`. -/
inductive Call where
  | setuid (n : Nat)
  | setresuid (real effective saved : Option Nat)
  | setreuid (real effective : Option Nat)
  | setgid (n : Nat)
  | setresgid (real effective saved : Option Nat)
  | setregid (real effective : Option Nat)
  | setgroups (groups : List Nat)
  deriving DecidableEq, Repr

namespace Creds

/-- The capabilities to set ids go with effective user 0. -/
def privileged (c : Creds) : Bool := c.uid.effective = 0

/-- One call; `none` is `EPERM`. -/
def call (c : Creds) : Call → Option Creds
  | .setuid n => (c.uid.set c.privileged n).map fun uid => { c with uid := uid }
  | .setresuid r e s => (c.uid.setAll c.privileged r e s).map fun uid => { c with uid := uid }
  | .setreuid r e => (c.uid.setPair c.privileged r e).map fun uid => { c with uid := uid }
  | .setgid n => (c.gid.set c.privileged n).map fun gid => { c with gid := gid }
  | .setresgid r e s => (c.gid.setAll c.privileged r e s).map fun gid => { c with gid := gid }
  | .setregid r e => (c.gid.setPair c.privileged r e).map fun gid => { c with gid := gid }
  | .setgroups groups => if c.privileged then some { c with groups := groups } else none

/-- `execve` of a file that gives its program this user and this group, where it gives any. -/
def exec (c : Creds) (user group : Option Nat) : Creds :=
  { c with uid := c.uid.exec user, gid := c.gid.exec group }

/-- All user ids are the same and not 0, all group ids are the same. -/
structure Bound (c : Creds) (user group : Nat) : Prop where
  uid : c.uid = Ids.all user
  gid : c.gid = Ids.all group
  user_ne : user ≠ 0

variable {c c' : Creds} {user group : Nat}

/-- Who is bound has no privilege. -/
theorem Bound.unprivileged (h : c.Bound user group) : c.privileged = false := by
  simp [privileged, h.uid, Ids.all, h.user_ne]

/-- No call changes the credentials of a process that is bound to a user and a group. -/
theorem Bound.call (h : c.Bound user group) {k : Call} (hc : c.call k = some c') : c' = c := by
  have hno := h.unprivileged
  obtain ⟨ids, gids, groups⟩ := c
  obtain ⟨rfl, rfl, _⟩ := h
  cases k with
  | setuid n =>
      simp only [Creds.call, hno] at hc
      obtain ⟨ids', hids, rfl⟩ := Option.map_eq_some_iff.mp hc
      rw [Ids.set_all hids]
  | setresuid r e s =>
      simp only [Creds.call, hno] at hc
      obtain ⟨ids', hids, rfl⟩ := Option.map_eq_some_iff.mp hc
      rw [Ids.setAll_all hids]
  | setreuid r e =>
      simp only [Creds.call, hno] at hc
      obtain ⟨ids', hids, rfl⟩ := Option.map_eq_some_iff.mp hc
      rw [Ids.setPair_all hids]
  | setgid n =>
      simp only [Creds.call, hno] at hc
      obtain ⟨ids', hids, rfl⟩ := Option.map_eq_some_iff.mp hc
      rw [Ids.set_all hids]
  | setresgid r e s =>
      simp only [Creds.call, hno] at hc
      obtain ⟨ids', hids, rfl⟩ := Option.map_eq_some_iff.mp hc
      rw [Ids.setAll_all hids]
  | setregid r e =>
      simp only [Creds.call, hno] at hc
      obtain ⟨ids', hids, rfl⟩ := Option.map_eq_some_iff.mp hc
      rw [Ids.setPair_all hids]
  | setgroups groups => simp [Creds.call, hno] at hc

/-- **Bound for good.**  No run of calls changes bound credentials. -/
theorem Bound.run (h : c.Bound user group) {ks : List Call}
    (hrun : Machine.run Creds.call c ks = some c') : c' = c := by
  induction ks with
  | nil => exact (Option.some.inj hrun).symm
  | cons k ks ih =>
      obtain ⟨d, hd, hrest⟩ := Option.bind_eq_some_iff.mp hrun
      rw [h.call hd] at hrest
      exact ih hrest

end Creds

end Credentials
