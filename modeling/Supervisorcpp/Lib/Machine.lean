/-
# Partial machines and their guarded runs

A machine is a partial step function: `step s i` is the state after input `i`, or `none` when `i`
is not enabled in `s`. Every source of nondeterminism (the environment's answers, the order of
events) is part of the input, so a run is a list of inputs and a property "of every run" is a
property of every reachable state.

`Reach step guard init` is reachability by steps that all meet `guard`, a predicate on the state
BEFORE the step and on the input. With `guard` trivially true it is plain reachability; with a real
guard it is the set of runs a conditional guarantee speaks about.
-/
import Mathlib.Data.Option.Basic
import Mathlib.Order.Basic

namespace Machine

variable {σ ι : Type*}

/-- Run a list of inputs; `none` as soon as one of them is not enabled. -/
def run (step : σ → ι → Option σ) : σ → List ι → Option σ
  | s, [] => some s
  | s, i :: is => (step s i).bind fun s' => run step s' is

/-- Run a list of inputs, each of which must also meet `guard` in the state it is taken in. -/
def guardedRun (step : σ → ι → Option σ) (guard : σ → ι → Bool) : σ → List ι → Option σ
  | s, [] => some s
  | s, i :: is =>
    if guard s i then (step s i).bind fun s' => guardedRun step guard s' is else none

/-- States reachable from `init` by enabled steps that all meet `guard`. -/
inductive Reach (step : σ → ι → Option σ) (guard : σ → ι → Prop) (init : σ → Prop) : σ → Prop
  | init {s : σ} : init s → Reach step guard init s
  | step {s s' : σ} {i : ι} : Reach step guard init s → guard s i → step s i = some s' →
      Reach step guard init s'

/-- The machine with a log beside its state: `emit` says what a step, taken in a state, adds to it. -/
def logged {ε : Type*} (step : σ → ι → Option σ) (emit : σ → ι → List ε) (s : σ × List ε) (i : ι) :
    Option (σ × List ε) :=
  (step s.1 i).map fun t => (t, s.2 ++ emit s.1 i)

/-- The guard that admits every step. -/
def anyStep : σ → ι → Prop := fun _ _ => True

variable {step : σ → ι → Option σ} {guard : σ → ι → Prop} {init : σ → Prop}

/-- **The invariant rule.**  What holds initially and survives every guarded step holds in every
state a guarded run reaches. -/
theorem Reach.invariant {P : σ → Prop} (h0 : ∀ s, init s → P s)
    (hstep : ∀ s i s', P s → guard s i → step s i = some s' → P s')
    {s : σ} (h : Reach step guard init s) : P s := by
  induction h with
  | init hs => exact h0 _ hs
  | step _ hg hs ih => exact hstep _ _ _ ih hg hs

/-- Weakening the guard only adds runs. -/
theorem Reach.mono {guard' : σ → ι → Prop} (hg : ∀ s i, guard s i → guard' s i) {s : σ}
    (h : Reach step guard init s) : Reach step guard' init s := by
  induction h with
  | init hs => exact .init hs
  | step _ hgs hs ih => exact .step ih (hg _ _ hgs) hs

/-- A list of inputs that runs to the end reaches its last state. -/
theorem Reach.of_run {s s' : σ} {is : List ι} (h : Reach step anyStep init s)
    (hrun : run step s is = some s') : Reach step anyStep init s' := by
  induction is generalizing s with
  | nil =>
      obtain rfl : s = s' := by simpa [run] using hrun
      exact h
  | cons i is ih =>
      obtain ⟨t, ht, hrest⟩ := Option.bind_eq_some_iff.mp hrun
      exact ih (.step h trivial ht) hrest

/-- A guarded list of inputs reaches its last state by a guarded run. -/
theorem Reach.of_guardedRun {g : σ → ι → Bool} (hg : ∀ s i, g s i = true → guard s i)
    {s s' : σ} {is : List ι} (h : Reach step guard init s)
    (hrun : guardedRun step g s is = some s') : Reach step guard init s' := by
  induction is generalizing s with
  | nil =>
      obtain rfl : s = s' := by simpa [guardedRun] using hrun
      exact h
  | cons i is ih =>
      unfold guardedRun at hrun
      split at hrun
      · rename_i hgi
        obtain ⟨t, ht, hrest⟩ := Option.bind_eq_some_iff.mp hrun
        exact ih (.step h (hg _ _ hgi) ht) hrest
      · cases hrun

/-- A list of inputs that ends in a state passing the test `p` exhibits a reachable such state. -/
theorem Reach.exists_of_run {p : σ → Bool} {s : σ} {is : List ι} (h : Reach step anyStep init s)
    (hrun : (run step s is).any p = true) : ∃ s', Reach step anyStep init s' ∧ p s' = true := by
  cases hr : run step s is with
  | none => simp [hr] at hrun
  | some s' => exact ⟨s', h.of_run hr, by simpa [hr] using hrun⟩

/-- The guarded form of `Reach.exists_of_run`. -/
theorem Reach.exists_of_guardedRun {g : σ → ι → Bool} (hg : ∀ s i, g s i = true → guard s i)
    {p : σ → Bool} {s : σ} {is : List ι} (h : Reach step guard init s)
    (hrun : (guardedRun step g s is).any p = true) :
    ∃ s', Reach step guard init s' ∧ p s' = true := by
  cases hr : guardedRun step g s is with
  | none => simp [hr] at hrun
  | some s' => exact ⟨s', h.of_guardedRun hg hr, by simpa [hr] using hrun⟩

/-- What one step of a logged machine does. -/
theorem logged_eq_some {ε : Type*} {emit : σ → ι → List ε} {s t : σ × List ε} {i : ι}
    (h : logged step emit s i = some t) :
    step s.1 i = some t.1 ∧ t.2 = s.2 ++ emit s.1 i := by
  obtain ⟨t', ht, rfl⟩ := Option.map_eq_some_iff.mp h
  exact ⟨ht, rfl⟩

end Machine
