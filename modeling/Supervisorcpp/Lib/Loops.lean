/-
# Loops with jumps

`do body while (cond)` as C++ defines it. A pass through the body reaches its end, or leaves it by
`continue`, by `break` or by an exception; `continue` goes where the end of the body goes, to the
condition.
-/
import Mathlib.Tactic.TypeStar

namespace Loops

variable {σ ε : Type*}

/-- How a pass through the body ends. -/
inductive Pass (ε : Type*) where
  | falls
  | continues
  | breaks
  | throws (e : ε)
  deriving DecidableEq, Repr

/-- What is left of a pass when the condition is looked at. -/
def Pass.toCondition : Pass ε → Bool
  | .falls | .continues => true
  | .breaks | .throws _ => false

/-- The loop, from a state to the state it leaves and the exception that leaves it. -/
inductive DoWhile (body : σ → σ × Pass ε) (cond : σ → Bool) : σ → σ × Option ε → Prop
  | throws {s s' : σ} {e : ε} : body s = (s', .throws e) → DoWhile body cond s (s', some e)
  | breaks {s s' : σ} : body s = (s', .breaks) → DoWhile body cond s (s', none)
  | ends {s s' : σ} {p : Pass ε} : body s = (s', p) → p.toCondition = true → cond s' = false →
      DoWhile body cond s (s', none)
  | again {s s' : σ} {p : Pass ε} {r : σ × Option ε} : body s = (s', p) → p.toCondition = true →
      cond s' = true → DoWhile body cond s' r → DoWhile body cond s r

/-- One pass, and out. -/
def once (body : σ → σ × Pass ε) (s : σ) : σ × Option ε :=
  match body s with
  | (s', .throws e) => (s', some e)
  | (s', _) => (s', none)

variable {body : σ → σ × Pass ε} {s : σ} {r : σ × Option ε}

/-- **A loop on `false`** makes one pass, whatever jump the pass ends with. -/
theorem doWhile_false_iff : DoWhile body (fun _ => false) s r ↔ r = once body s := by
  constructor
  · intro h
    cases h with
    | throws hbody => rw [once, hbody]
    | breaks hbody => rw [once, hbody]
    | @ends _ s' p hbody hcond =>
        rw [once, hbody]
        cases p with
        | throws => cases hcond
        | _ => rfl
    | again _ _ hcond => cases hcond
  · rintro rfl
    unfold once
    cases hbody : body s with
    | mk s' p =>
        cases p with
        | falls => exact .ends hbody rfl rfl
        | continues => exact .ends hbody rfl rfl
        | breaks => exact .breaks hbody
        | throws e => exact .throws hbody

end Loops
