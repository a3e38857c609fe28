/-
# Numbered slots read as one sequence

A family of optional sequences `f 0, f 1, …`, read from slot `n` down to slot `0` as one sequence
(`chain f n`): the shape of a rotated file and its backups, newest last. Moving a slot up into an
empty neighbour does not change what is read, clearing the top slot drops a front part of it, and
appending to slot `0` appends to the whole. An empty slot and an absent one read the same.
-/
import Mathlib.Data.List.Basic

namespace Slots

variable {α : Type*} {f g : Nat → Option (List α)} {n i : Nat}

/-- Slots `n, n - 1, …, 0` one after the other. -/
def chain (f : Nat → Option (List α)) : Nat → List α
  | 0 => (f 0).getD []
  | n + 1 => (f (n + 1)).getD [] ++ chain f n

/-- Slot `i` emptied. -/
def clear (f : Nat → Option (List α)) (i : Nat) : Nat → Option (List α) :=
  fun j => if j = i then none else f j

/-- The content of slot `i` moved to slot `i + 1`. -/
def shift (f : Nat → Option (List α)) (i : Nat) : Nat → Option (List α) :=
  fun j => if j = i + 1 then f i else if j = i then none else f j

/-- Slots `lo, …, hi - 1` moved up by one: the top one is overwritten and slot `lo` is empty. -/
def lift (f : Nat → Option (List α)) (lo hi : Nat) : Nat → Option (List α) :=
  fun j => if j = lo then none else if lo < j ∧ j ≤ hi then f (j - 1) else f j

/-- `xs` put at the end of slot `i`, which exists afterwards. -/
def append (f : Nat → Option (List α)) (i : Nat) (xs : List α) : Nat → Option (List α) :=
  fun j => if j = i then some ((f i).getD [] ++ xs) else f j

theorem clear_self (f : Nat → Option (List α)) (i : Nat) : clear f i i = none := by simp [clear]

theorem clear_of_none (h : f i = none) : clear f i = f := by
  funext j
  unfold clear
  grind

theorem shift_of_none (h : f i = none) (habove : f (i + 1) = none) : shift f i = f := by
  funext j
  unfold shift
  grind

theorem shift_self (f : Nat → Option (List α)) (i : Nat) : shift f i i = none := by simp [shift]

@[simp] theorem append_self (f : Nat → Option (List α)) (i : Nat) (xs : List α) :
    append f i xs i = some ((f i).getD [] ++ xs) := by
  simp [append]

theorem append_nil_of_isSome (h : (f i).isSome = true) : append f i [] = f := by
  obtain ⟨bytes, hbytes⟩ := Option.isSome_iff_exists.mp h
  funext j
  by_cases hj : j = i
  · simp [append, hj, hbytes]
  · simp [append, hj]

/-- Two pieces are appended one after the other. -/
theorem append_append (f : Nat → Option (List α)) (i : Nat) (xs ys : List α) :
    append (append f i xs) i ys = append f i (xs ++ ys) := by
  funext j
  unfold append
  grind

/-- The other slots stay as they are. -/
theorem append_of_ne (f : Nat → Option (List α)) (xs : List α) {j : Nat} (h : j ≠ i) :
    append f i xs j = f j := by
  simp [append, h]

@[simp] theorem lift_self (f : Nat → Option (List α)) (lo hi : Nat) : lift f lo hi lo = none := by
  simp [lift]

/-- A lifted slot is found one above. -/
theorem lift_succ (f : Nat → Option (List α)) {lo hi : Nat} (h : lo ≤ i) (hi' : i + 1 ≤ hi) :
    lift f lo hi (i + 1) = f i := by
  have hne : i + 1 ≠ lo := by omega
  have hin : lo < i + 1 ∧ i + 1 ≤ hi := by omega
  simp [lift, hne, hin]

/-- What is above the range stays. -/
theorem lift_above (f : Nat → Option (List α)) {lo hi : Nat} (h : hi < i) (hlo : lo < i) :
    lift f lo hi i = f i := by
  have hne : i ≠ lo := by omega
  have hout : ¬(lo < i ∧ i ≤ hi) := by omega
  simp [lift, hne, hout]

/-- Moving the top slot first and the ones below it after it is moving them all. -/
theorem lift_shift (f : Nat → Option (List α)) {lo hi : Nat} (h : lo ≤ hi + 1) :
    lift (shift f (hi + 1)) lo (hi + 1) = lift f lo (hi + 2) := by
  funext j
  unfold lift shift
  grind

/-- Moving the slot below an emptied one fills the gap. -/
theorem shift_lift (f : Nat → Option (List α)) {lo hi : Nat} (h : lo + 1 ≤ hi) :
    shift (lift f (lo + 1) hi) lo = lift f lo hi := by
  funext j
  unfold lift shift
  grind

/-- The top slot of a move is overwritten, so it may be emptied before. -/
theorem lift_clear (f : Nat → Option (List α)) {lo hi : Nat} (h : lo ≤ hi) :
    lift (clear f hi) lo hi = lift f lo hi := by
  funext j
  unfold lift clear
  grind

/-- Moving the lowest slot alone. -/
theorem lift_one (f : Nat → Option (List α)) (lo : Nat) : lift f lo (lo + 1) = shift f lo := by
  funext j
  unfold lift shift
  grind

/-- Moving no slot up only empties the lowest. -/
theorem lift_of_none {lo : Nat} (h : f lo = none) : lift f lo lo = f := by
  funext j
  unfold lift
  grind

/-- Only what the slots hold counts. -/
theorem chain_congr (h : ∀ j, j ≤ n → (f j).getD [] = (g j).getD []) : chain f n = chain g n := by
  induction n with
  | zero => exact h 0 (Nat.le_refl 0)
  | succ n ih =>
      show (f (n + 1)).getD [] ++ chain f n = (g (n + 1)).getD [] ++ chain g n
      rw [h (n + 1) (Nat.le_refl _), ih fun j hj => h j (by omega)]

/-- Emptying the top slot drops exactly what it held. -/
theorem chain_clear_top (f : Nat → Option (List α)) (n : Nat) :
    (f n).getD [] ++ chain (clear f n) n = chain f n := by
  cases n with
  | zero => simp [chain, clear]
  | succ n =>
      have hrest : chain (clear f (n + 1)) n = chain f n :=
        chain_congr fun j hj => by
          have hne : j ≠ n + 1 := by omega
          simp [clear, hne]
      show (f (n + 1)).getD [] ++ ((clear f (n + 1) (n + 1)).getD [] ++ chain (clear f (n + 1)) n) =
        (f (n + 1)).getD [] ++ chain f n
      rw [clear_self, hrest]
      rfl

/-- Moving a slot into an empty one above it. -/
theorem chain_shift (hi : i + 1 ≤ n) (hfree : f (i + 1) = none) :
    chain (shift f i) n = chain f n := by
  induction n with
  | zero => omega
  | succ n ih =>
      show (shift f i (n + 1)).getD [] ++ chain (shift f i) n = (f (n + 1)).getD [] ++ chain f n
      by_cases hn : n = i
      -- the moved slot is now the top one, and what is below it no longer has it
      · subst hn
        have hbelow : chain (shift f n) n = chain (clear f n) n :=
          chain_congr fun j hj => by
            have hne : j ≠ n + 1 := by omega
            simp [shift, clear, hne]
        rw [hbelow, hfree, ← chain_clear_top f n]
        simp [shift]
      · have hne : n + 1 ≠ i := by omega
        have hne' : n + 1 ≠ i + 1 := by omega
        rw [ih (by omega)]
        simp [shift, hne, hn]

/-- Appending to the bottom slot appends to the whole. -/
theorem chain_append_zero (f : Nat → Option (List α)) (n : Nat) (xs : List α) :
    chain (append f 0 xs) n = chain f n ++ xs := by
  induction n with
  | zero => simp [chain]
  | succ n ih =>
      show (append f 0 xs (n + 1)).getD [] ++ chain (append f 0 xs) n = _
      rw [ih, append_of_ne f xs (Nat.succ_ne_zero n), ← List.append_assoc]
      rfl

end Slots
