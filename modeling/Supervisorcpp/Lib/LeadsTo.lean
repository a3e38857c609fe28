/-
# What must happen in an infinite run

A run that goes on for ever takes a step at every time. `P` leads to `Q` when each of its states that
meets `P` is, or is followed by, one that meets `Q`. What a thread does is never assumed, only that
it goes on while it can (`Fair`): a step that stays possible until it is taken is taken, and a measure
that does not go down for ever has an end.
-/
import Supervisorcpp.Lib.Machine

namespace Machine

variable {σ ι : Type*} {step : σ → ι → Option σ}

/-- A run that never ends: the state at each time and the input taken in it. -/
structure Endless (step : σ → ι → Option σ) where
  state : ℕ → σ
  input : ℕ → ι
  next : ∀ n, step (state n) (input n) = some (state (n + 1))

namespace Endless

variable (r : Endless step)

/-- After every state that meets `P`, or in it, `Q` holds. -/
def LeadsTo (P Q : σ → Prop) : Prop :=
  ∀ n, P (r.state n) → ∃ m, n ≤ m ∧ Q (r.state m)

/-- `P` lasts unless a step ends in `Q`. -/
def Unless (P Q : σ → Prop) : Prop :=
  ∀ n, P (r.state n) → P (r.state (n + 1)) ∨ Q (r.state (n + 1))

/-- Inputs of this kind are taken again and again, unless at some time there is none to take. -/
def Fair (kind : ι → Prop) : Prop :=
  ∀ n, (∀ m, n ≤ m → ∃ i, kind i ∧ (step (r.state m) i).isSome) → ∃ m, n ≤ m ∧ kind (r.input m)

variable {r} {P P' Q Q' R : σ → Prop}

/-! ## Rules of leads-to -/

namespace LeadsTo

/-- What holds already is led to. -/
theorem of_imp (h : ∀ s, P s → Q s) : r.LeadsTo P Q :=
  fun n hn => ⟨n, Nat.le_refl n, h _ hn⟩

/-- One thing leads to another, and that to a third. -/
theorem trans (h : r.LeadsTo P Q) (h' : r.LeadsTo Q R) : r.LeadsTo P R := by
  intro n hP
  obtain ⟨mid, hmid, hQ⟩ := h n hP
  obtain ⟨last, hlast, hR⟩ := h' mid hQ
  exact ⟨last, Nat.le_trans hmid hlast, hR⟩

/-- From more one gets to less. -/
theorem mono (h : r.LeadsTo P Q) (hP : ∀ s, P' s → P s) (hQ : ∀ s, Q s → Q' s) :
    r.LeadsTo P' Q' :=
  fun n hn => (h n (hP _ hn)).imp fun _ hm => ⟨hm.1, hQ _ hm.2⟩

/-- The cases are taken one by one. -/
theorem cases (h : r.LeadsTo P fun s => Q s ∨ R s) (hQ : r.LeadsTo Q P') (hR : r.LeadsTo R P') :
    r.LeadsTo P P' := by
  intro n hn
  obtain ⟨m, hnm, hm⟩ := h n hn
  obtain ⟨k, hmk, hk⟩ : ∃ k, m ≤ k ∧ P' (r.state k) := hm.elim (hQ m) (hR m)
  exact ⟨k, Nat.le_trans hnm hmk, hk⟩

end LeadsTo

/-! ## Lasting until -/

/-- What lasts unless `Q` is still there later, or `Q` has come up in between. -/
theorem Unless.lasts (h : r.Unless P Q) {n m : ℕ} (hnm : n ≤ m) (hn : P (r.state n)) :
    P (r.state m) ∨ ∃ k, n ≤ k ∧ k ≤ m ∧ Q (r.state k) := by
  induction hnm with
  | refl => exact .inl hn
  | step hnm ih =>
      rcases ih with hm | ⟨k, hnk, hkm, hk⟩
      · rcases h _ hm with hm' | hm'
        · exact .inl hm'
        · exact .inr ⟨_, Nat.le_succ_of_le hnm, Nat.le_refl _, hm'⟩
      · exact .inr ⟨k, hnk, Nat.le_succ_of_le hkm, hk⟩

/-- **Progress while something lasts.**  If `P` leads to `Q`, and `R` lasts unless `R'` comes up, then
`Q` is met while `R` still lasts, or `R'` has come up. -/
theorem LeadsTo.during (h : r.LeadsTo P Q) {R' : σ → Prop} (hR : r.Unless R R') :
    r.LeadsTo (fun s => P s ∧ R s) fun s => (Q s ∧ R s) ∨ R' s := by
  rintro n ⟨hP, hn⟩
  obtain ⟨m, hnm, hm⟩ := h n hP
  rcases hR.lasts hnm hn with hlast | ⟨k, hnk, _, hk⟩
  · exact ⟨m, hnm, .inl ⟨hm, hlast⟩⟩
  · exact ⟨k, hnk, .inr hk⟩

/-- **The fairness rule.**  Where a fair input is possible as long as `P` lasts and ends it in `Q`,
`P` leads to `Q`. -/
theorem Unless.leadsTo {kind : ι → Prop} (hfair : r.Fair kind) (h : r.Unless P Q)
    (hcan : ∀ n, P (r.state n) → ∃ i, kind i ∧ (step (r.state n) i).isSome)
    (htakes : ∀ n, P (r.state n) → kind (r.input n) → Q (r.state (n + 1))) :
    r.LeadsTo P Q := by
  intro n hn
  by_contra hnever
  have hno : ∀ m, n ≤ m → ¬ Q (r.state m) := fun m hnm hm => hnever ⟨m, hnm, hm⟩
  have hlast : ∀ m, n ≤ m → P (r.state m) := by
    intro m hnm
    rcases h.lasts hnm hn with hm | ⟨k, hnk, _, hk⟩
    · exact hm
    · exact absurd hk (hno k hnk)
  obtain ⟨m, hnm, htaken⟩ := hfair n fun m hnm => hcan m (hlast m hnm)
  exact hno (m + 1) (Nat.le_succ_of_le hnm) (htakes m (hlast m hnm) htaken)

/-! ## States of the run -/

/-- What every step keeps holds at every time. -/
theorem invariant (h0 : P (r.state 0)) (hstep : ∀ s i s', P s → step s i = some s' → P s') (n : ℕ) :
    P (r.state n) := by
  induction n with
  | zero => exact h0
  | succ n ih => exact hstep _ _ _ ih (r.next n)

/-- The states of a run that starts in a reachable one are reachable. -/
theorem reach {init : σ → Prop} (h : Reach step anyStep init (r.state 0)) (n : ℕ) :
    Reach step anyStep init (r.state n) :=
  r.invariant h (fun _ _ _ hs hstep => .step hs trivial hstep) n

/-! ## Runs that exist -/

/-- The run with one more step before it. -/
def cons (s : σ) (i : ι) (r : Endless step) (h : step s i = some (r.state 0)) : Endless step where
  state
    | 0 => s
    | n + 1 => r.state n
  input
    | 0 => i
    | n + 1 => r.input n
  next
    | 0 => h
    | n + 1 => r.next n

/-- A guarded list of inputs that ends where an endless run begins is continued by that run. -/
theorem exists_of_guardedRun {g : σ → ι → Bool} (r : Endless step) {s : σ} {is : List ι}
    (h : guardedRun step g s is = some (r.state 0)) : ∃ r' : Endless step, r'.state 0 = s ∧
      (∀ n, n < is.length → g (r'.state n) (r'.input n) = true) ∧
      ∀ n, r'.state (is.length + n) = r.state n ∧ r'.input (is.length + n) = r.input n := by
  induction is generalizing s with
  | nil =>
      obtain rfl : s = r.state 0 := by simpa [guardedRun] using h
      exact ⟨r, rfl, fun n hn => absurd hn (Nat.not_lt_zero n), fun n => by simp⟩
  | cons i is ih =>
      rw [guardedRun] at h
      split at h
      · next hg =>
          obtain ⟨t, ht, hrest⟩ := Option.bind_eq_some_iff.mp h
          obtain ⟨r', rfl, hguard, hsame⟩ := ih hrest
          refine ⟨cons s i r' ht, rfl, ?_, ?_⟩
          · intro n hn
            cases n with
            | zero => exact hg
            | succ n => exact hguard n (Nat.lt_of_succ_lt_succ hn)
          · intro n
            rw [List.length_cons, Nat.succ_add]
            exact hsame n
      · cases h

end Endless

end Machine
