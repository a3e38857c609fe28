/-
# Descriptor tables

A process names its open files by descriptors. A table maps a descriptor to what it refers to and
to its close-on-exec flag; `dup2` onto another descriptor clears that flag, `dup2` onto itself does
nothing, and `execve` drops what is marked.

A table is accounted for when each descriptor of a tracked kind is held by exactly one owner, or is
loose: opened and not yet handed over. A function that opens, hands over and closes descriptors
leaks none if it begins and ends with nothing loose.
-/
import Mathlib.Data.Set.Insert
import Mathlib.Logic.Function.Basic

namespace Descriptors

variable {α : Type*}

/-- A descriptor in use: what it is open on, and whether `exec` closes it. -/
structure Slot (α : Type*) where
  file : α
  cloexec : Bool
  deriving DecidableEq, Repr

/-- The descriptors of a process. Those that are not in use are `none`. -/
abbrev Table (α : Type*) := Nat → Option (Slot α)

namespace Table

/-- A descriptor that is not in use is given out for `slot`. -/
def install (t : Table α) (fd : Nat) (slot : Slot α) : Table α := Function.update t fd (some slot)

/-- `close(fd)`; closing what is not open is an error that changes nothing. -/
def close (t : Table α) (fd : Nat) : Table α := Function.update t fd none

/-- `dup2(old, new)`. -/
def dup2 (t : Table α) (old new : Nat) : Table α :=
  match t old with
  | none => t
  | some slot => if old = new then t else Function.update t new (some ⟨slot.file, false⟩)

/-- `close(lo)`, `close(lo + 1)`, … for `n` descriptors. -/
def closeRun (t : Table α) (lo : Nat) : Nat → Table α
  | 0 => t
  | n + 1 => (t.close lo).closeRun (lo + 1) n

/-- `execve`. -/
def exec (t : Table α) : Table α := fun fd => (t fd).filter fun slot => !slot.cloexec

variable {t : Table α} {fd fd' old new lo n : Nat} {slot : Slot α}

@[simp] theorem install_self : t.install fd slot fd = some slot := Function.update_self ..

@[simp] theorem install_of_ne (h : fd' ≠ fd) : t.install fd slot fd' = t fd' :=
  Function.update_of_ne h ..

theorem install_apply (t : Table α) (fd fd' : Nat) (slot : Slot α) :
    t.install fd slot fd' = if fd' = fd then some slot else t fd' := by
  by_cases h : fd' = fd
  · rw [h, install_self, if_pos rfl]
  · rw [install_of_ne h, if_neg h]

@[simp] theorem close_self : t.close fd fd = none := Function.update_self ..

@[simp] theorem close_of_ne (h : fd' ≠ fd) : t.close fd fd' = t fd' := Function.update_of_ne h ..

theorem close_apply (t : Table α) (fd fd' : Nat) :
    t.close fd fd' = if fd' = fd then none else t fd' := by
  by_cases h : fd' = fd
  · rw [h, close_self, if_pos rfl]
  · rw [close_of_ne h, if_neg h]

/-- The copy is not close-on-exec, whatever the original is. -/
theorem dup2_self (h : t old = some slot) (hne : old ≠ new) :
    t.dup2 old new new = some ⟨slot.file, false⟩ := by
  simp only [dup2, h, if_neg hne]
  exact Function.update_self ..

@[simp] theorem dup2_of_ne (h : fd ≠ new) : t.dup2 old new fd = t fd := by
  unfold dup2
  cases t old with
  | none => rfl
  | some slot =>
      dsimp only
      split
      · rfl
      · exact Function.update_of_ne h ..

theorem dup2_apply (t : Table α) (old new fd : Nat) : t.dup2 old new fd =
    if fd = new ∧ old ≠ new then (t old).elim (t fd) fun slot => some ⟨slot.file, false⟩ else t fd := by
  by_cases h : fd = new ∧ old ≠ new
  · obtain ⟨rfl, hne⟩ := h
    rw [if_pos ⟨rfl, hne⟩]
    cases hold : t old with
    | none => simp only [dup2, hold, Option.elim]
    | some slot => exact dup2_self hold hne
  · rw [if_neg h]
    by_cases hfd : fd = new
    · have hself : old = new := by
        by_contra hne
        exact h ⟨hfd, hne⟩
      unfold dup2
      cases t old with
      | none => rfl
      | some slot => simp only [hself, if_true]
    · exact dup2_of_ne hfd

/-- Closing a run of descriptors leaves those outside it alone. -/
theorem closeRun_apply (t : Table α) (lo n fd : Nat) :
    t.closeRun lo n fd = if lo ≤ fd ∧ fd < lo + n then none else t fd := by
  induction n generalizing t lo with
  | zero =>
      have hnot : ¬ (lo ≤ fd ∧ fd < lo + 0) := by omega
      rw [if_neg hnot]
      rfl
  | succ n ih =>
      rw [closeRun, ih, close_apply]
      by_cases h : fd = lo
      · have hin : lo ≤ fd ∧ fd < lo + (n + 1) := by omega
        rw [if_pos h, if_pos hin, ite_self]
      · rw [if_neg h]
        congr 1
        exact propext (by omega)

/-- What the program keeps is what is not close-on-exec. -/
theorem exec_eq_some : t.exec fd = some slot ↔ t fd = some slot ∧ slot.cloexec = false := by
  unfold exec
  rw [Option.filter_eq_some_iff]
  simp

end Table

/-! ## Accounting -/

/-- Of `t`, the slots with `tracked` are held by one owner each or loose, and the held ones have
`kept`. -/
structure Accounted {κ : Type*} (tracked kept : Slot α → Prop) (t : Table α) (held : κ → Option Nat)
    (loose : Set Nat) : Prop where
  owned : ∀ x fd, held x = some fd → (∃ slot, t fd = some slot ∧ kept slot) ∧ fd ∉ loose
  distinct : ∀ x y fd, held x = some fd → held y = some fd → x = y
  pending : ∀ fd ∈ loose, ∃ slot, t fd = some slot ∧ tracked slot
  only : ∀ fd slot, t fd = some slot → tracked slot → fd ∈ loose ∨ ∃ x, held x = some fd

namespace Accounted

variable {κ : Type*} {tracked kept : Slot α → Prop} {t : Table α}
  {held : κ → Option Nat} {loose : Set Nat} {fd fd' : Nat} {slot : Slot α} {x : κ}

/-- What is open stays as it is when another descriptor is given out. -/
theorem install_keeps (hfree : t fd = none) {slot' : Slot α} (h : t fd' = some slot') :
    t.install fd slot fd' = some slot' := by
  have hne : fd' ≠ fd := by
    rintro rfl
    rw [hfree] at h
    cases h
  rw [Table.install_of_ne hne, h]

/-- A tracked descriptor is opened. -/
theorem openLoose (h : Accounted tracked kept t held loose) (hfree : t fd = none)
    (hslot : tracked slot) : Accounted tracked kept (t.install fd slot) held (insert fd loose) := by
  refine ⟨fun x fd' hx => ?_, h.distinct, fun fd' hfd' => ?_, fun fd' slot' hopen htracked => ?_⟩
  · obtain ⟨⟨slot', hopen, hkept⟩, hnot⟩ := h.owned x fd' hx
    refine ⟨⟨slot', install_keeps hfree hopen, hkept⟩, fun hin => ?_⟩
    rcases hin with rfl | hin
    · rw [hfree] at hopen
      cases hopen
    · exact hnot hin
  · rcases hfd' with rfl | hfd'
    · exact ⟨slot, Table.install_self, hslot⟩
    · obtain ⟨slot', hopen, htracked⟩ := h.pending fd' hfd'
      exact ⟨slot', install_keeps hfree hopen, htracked⟩
  · by_cases heq : fd' = fd
    · exact .inl (.inl heq)
    · rw [Table.install_of_ne heq] at hopen
      exact (h.only fd' slot' hopen htracked).imp .inr id

/-- A descriptor that is not tracked is opened. -/
theorem openOther (h : Accounted tracked kept t held loose) (hfree : t fd = none)
    (hslot : ¬ tracked slot) : Accounted tracked kept (t.install fd slot) held loose := by
  refine ⟨fun x fd' hx => ?_, h.distinct, fun fd' hfd' => ?_, fun fd' slot' hopen htracked => ?_⟩
  · obtain ⟨⟨slot', hopen, hkept⟩, hnot⟩ := h.owned x fd' hx
    exact ⟨⟨slot', install_keeps hfree hopen, hkept⟩, hnot⟩
  · obtain ⟨slot', hopen, htracked⟩ := h.pending fd' hfd'
    exact ⟨slot', install_keeps hfree hopen, htracked⟩
  · by_cases heq : fd' = fd
    · subst heq
      rw [Table.install_self] at hopen
      exact absurd (Option.some.inj hopen ▸ htracked) hslot
    · rw [Table.install_of_ne heq] at hopen
      exact h.only fd' slot' hopen htracked

/-- A descriptor without an owner is closed. -/
theorem closeUnowned (h : Accounted tracked kept t held loose) (hno : ∀ x, held x ≠ some fd) :
    Accounted tracked kept (t.close fd) held (loose \ {fd}) := by
  refine ⟨fun x fd' hx => ?_, h.distinct, fun fd' hfd' => ?_, fun fd' slot' hopen htracked => ?_⟩
  · obtain ⟨⟨slot', hopen, hkept⟩, hnot⟩ := h.owned x fd' hx
    have hne : fd' ≠ fd := fun heq => hno x (heq ▸ hx)
    exact ⟨⟨slot', by rw [Table.close_of_ne hne, hopen], hkept⟩, fun hin => hnot hin.1⟩
  · obtain ⟨slot', hopen, htracked⟩ := h.pending fd' hfd'.1
    exact ⟨slot', by rw [Table.close_of_ne hfd'.2, hopen], htracked⟩
  · by_cases heq : fd' = fd
    · rw [heq, Table.close_self] at hopen
      cases hopen
    · rw [Table.close_of_ne heq] at hopen
      exact (h.only fd' slot' hopen htracked).imp (fun hin => ⟨hin, heq⟩) id

/-- What is loose has no owner. -/
theorem unowned_of_loose (h : Accounted tracked kept t held loose) (hfd : fd ∈ loose) (x : κ) :
    held x ≠ some fd := fun hx => (h.owned x fd hx).2 hfd

/-- What is not tracked has no owner. -/
theorem unowned_of_not_tracked (h : Accounted tracked kept t held loose)
    (hkept : ∀ slot, kept slot → tracked slot) (hopen : t fd = some slot) (hslot : ¬ tracked slot)
    (x : κ) : held x ≠ some fd := by
  intro hx
  obtain ⟨⟨slot', hopen', hk⟩, -⟩ := h.owned x fd hx
  rw [hopen] at hopen'
  exact hslot (Option.some.inj hopen' ▸ hkept slot' hk)

/-- What was not in use has no owner. -/
theorem unowned_of_free (h : Accounted tracked kept t held loose) (hfree : t fd = none) (x : κ) :
    held x ≠ some fd := by
  intro hx
  obtain ⟨⟨slot', hopen, -⟩, -⟩ := h.owned x fd hx
  rw [hfree] at hopen
  cases hopen

/-- With nothing loose, every tracked descriptor has exactly one owner. -/
theorem unique_owner (h : Accounted tracked kept t held ∅) (hopen : t fd = some slot)
    (hslot : tracked slot) : kept slot ∧ ∃! x, held x = some fd := by
  obtain hno | ⟨x, hx⟩ := h.only fd slot hopen hslot
  · exact absurd hno (Set.notMem_empty fd)
  · obtain ⟨⟨slot', hopen', hk⟩, -⟩ := h.owned x fd hx
    rw [hopen] at hopen'
    exact ⟨Option.some.inj hopen' ▸ hk, x, hx, fun y hy => h.distinct y x fd hy hx⟩

variable [DecidableEq κ]

/-- A loose descriptor is handed to an owner who holds none. -/
theorem handOver (h : Accounted tracked kept t held loose) (hnone : held x = none)
    (hfd : fd ∈ loose) (hopen : t fd = some slot) (hkept : kept slot) :
    Accounted tracked kept t (Function.update held x (some fd)) (loose \ {fd}) := by
  have hold : ∀ {y fd'}, Function.update held x (some fd) y = some fd' →
      y = x ∧ fd' = fd ∨ y ≠ x ∧ held y = some fd' := by
    intro y fd' hy
    by_cases heq : y = x
    · subst heq
      rw [Function.update_self] at hy
      exact .inl ⟨rfl, (Option.some.inj hy).symm⟩
    · rw [Function.update_of_ne heq] at hy
      exact .inr ⟨heq, hy⟩
  refine ⟨fun y fd' hy => ?_, fun y z fd' hy hz => ?_, fun fd' hfd' => ?_,
    fun fd' slot' hopen' htracked => ?_⟩
  · obtain ⟨-, rfl⟩ | ⟨-, hy⟩ := hold hy
    · exact ⟨⟨slot, hopen, hkept⟩, fun hin => hin.2 rfl⟩
    · exact ⟨(h.owned y fd' hy).1, fun hin => (h.owned y fd' hy).2 hin.1⟩
  · obtain ⟨hyx, hfd'⟩ | ⟨-, hy'⟩ := hold hy
    · obtain ⟨hzx, -⟩ | ⟨-, hz'⟩ := hold hz
      · rw [hyx, hzx]
      · exact absurd (hfd' ▸ hfd) (h.owned z fd' hz').2
    · obtain ⟨-, hfd'⟩ | ⟨-, hz'⟩ := hold hz
      · exact absurd (hfd' ▸ hfd) (h.owned y fd' hy').2
      · exact h.distinct y z fd' hy' hz'
  · exact h.pending fd' hfd'.1
  · by_cases heq : fd' = fd
    · exact .inr ⟨x, by rw [Function.update_self, heq]⟩
    · obtain hin | ⟨y, hy⟩ := h.only fd' slot' hopen' htracked
      · exact .inl ⟨hin, heq⟩
      · have hne : y ≠ x := by
          rintro rfl
          rw [hnone] at hy
          cases hy
        exact .inr ⟨y, by rw [Function.update_of_ne hne, hy]⟩

/-- An owner closes what it holds. -/
theorem closeHeld (h : Accounted tracked kept t held loose) (hx : held x = some fd) :
    Accounted tracked kept (t.close fd) (Function.update held x none) loose := by
  have hold : ∀ {y fd'}, Function.update held x none y = some fd' →
      held y = some fd' ∧ fd' ≠ fd := by
    intro y fd' hy
    by_cases heq : y = x
    · subst heq
      rw [Function.update_self] at hy
      cases hy
    · rw [Function.update_of_ne heq] at hy
      refine ⟨hy, ?_⟩
      rintro rfl
      exact heq (h.distinct y x fd' hy hx)
  refine ⟨fun y fd' hy => ?_, fun y z fd' hy hz => ?_, fun fd' hfd' => ?_,
    fun fd' slot' hopen htracked => ?_⟩
  · obtain ⟨hy, hne⟩ := hold hy
    obtain ⟨⟨slot', hopen, hk⟩, hnot⟩ := h.owned y fd' hy
    exact ⟨⟨slot', by rw [Table.close_of_ne hne, hopen], hk⟩, hnot⟩
  · exact h.distinct y z fd' (hold hy).1 (hold hz).1
  · obtain ⟨slot', hopen, htracked⟩ := h.pending fd' hfd'
    have hne : fd' ≠ fd := fun heq => (h.owned x fd hx).2 (heq ▸ hfd')
    exact ⟨slot', by rw [Table.close_of_ne hne, hopen], htracked⟩
  · by_cases heq : fd' = fd
    · rw [heq, Table.close_self] at hopen
      cases hopen
    · rw [Table.close_of_ne heq] at hopen
      refine (h.only fd' slot' hopen htracked).imp id ?_
      rintro ⟨y, hy⟩
      have hne : y ≠ x := by
        rintro rfl
        rw [hx] at hy
        exact heq (Option.some.inj hy).symm
      exact ⟨y, by rw [Function.update_of_ne hne, hy]⟩

end Accounted

end Descriptors
