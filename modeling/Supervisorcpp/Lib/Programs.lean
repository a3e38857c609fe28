/-
# Programs that keep a state and may throw

How such a program ends, from what it is put together with: a rule for each construct, and a state and
an exception in every postcondition that an exception can lead to.

Two programs are alike when from every state they leave the same state, and throw the same exception or
return related results. A program over a service can so be compared with the same program over another
way to that service: it is enough to compare the calls of the service, since everything a program is
put together with keeps programs alike.
-/
import Mathlib.Logic.Basic

namespace Programs

universe u

variable {ε σ α β γ δ : Type u} {R : α → β → Prop} {S : γ → δ → Prop}

/-- A program: it may throw, and leaves a state in any case. -/
abbrev Program (ε σ α : Type u) : Type u := ExceptT ε (StateM σ) α

/-- The same exception, or related results. -/
inductive Same (R : α → β → Prop) : Except ε α → Except ε β → Prop
  | ok {a : α} {b : β} : R a b → Same R (.ok a) (.ok b)
  | error (e : ε) : Same R (.error e) (.error e)

/-- The result of a program and the state it leaves. -/
def run (x : Program ε σ α) (s : σ) : Except ε α × σ := StateT.run (ExceptT.run x) s

/-- From every state the two do the same. -/
def Alike (R : α → β → Prop) (x : Program ε σ α) (y : Program ε σ β) : Prop :=
  ∀ s, Same R (run x s).1 (run y s).1 ∧ (run x s).2 = (run y s).2

/-! ## What a program is put together with -/

section Run

variable (x : Program ε σ α) (f : α → Program ε σ γ) (handle : ε → Program ε σ α) (s : σ)

theorem run_pure (a : α) : run (pure a : Program ε σ α) s = (.ok a, s) := rfl

/-- A sequence ends where its first part throws, and goes on from its state where it does not. -/
theorem run_bind : run (x >>= f) s =
    match run x s with
    | (.ok a, s') => run (f a) s'
    | (.error e, s') => (.error e, s') := by
  unfold run
  rcases hx : StateT.run (ExceptT.run x) s with ⟨r, s'⟩
  rw [ExceptT.run_bind, StateT.run_bind, hx]
  cases r with
  | ok a => rfl
  | error e => rfl

variable {x s}

theorem run_bind_ok {a : α} {s' : σ} (h : run x s = (.ok a, s')) :
    run (x >>= f) s = run (f a) s' := by
  rw [run_bind, h]

theorem run_bind_error {e : ε} {s' : σ} (h : run x s = (.error e, s')) :
    run (x >>= f) s = (.error e, s') := by
  rw [run_bind, h]

variable (x s)

/-- A handler runs in the state in which the exception was thrown. -/
theorem run_tryCatch : run (tryCatch x handle) s =
    match run x s with
    | (.ok a, s') => (.ok a, s')
    | (.error e, s') => run (handle e) s' := by
  unfold run
  rcases hx : StateT.run (ExceptT.run x) s with ⟨r, s'⟩
  show StateT.run (ExceptT.run x >>= fun r => match r with
    | .ok a => pure (.ok a)
    | .error e => ExceptT.run (handle e)) s = _
  rw [StateT.run_bind, hx]
  cases r with
  | ok a => rfl
  | error e => rfl

end Run

/-! ## How a program ends -/

/-- From `s` the program returns with `ok`, or throws with `thrown`. -/
def Ends (s : σ) (x : Program ε σ α) (ok : α → σ → Prop) (thrown : ε → σ → Prop) : Prop :=
  match run x s with
  | (.ok a, s') => ok a s'
  | (.error e, s') => thrown e s'

section Ends

variable {s : σ} {x : Program ε σ α} {f : α → Program ε σ γ} {handle : ε → Program ε σ α}
  {ok ok' : α → σ → Prop} {thrown thrown' : ε → σ → Prop}

/-- A program that only returns. -/
theorem Ends.pure {a : α} (h : ok a s) : Ends s (pure a : Program ε σ α) ok thrown := h

/-- A program that only throws. -/
theorem Ends.throw {e : ε} (h : thrown e s) : Ends s (throw e : Program ε σ α) ok thrown := h

/-- The first program ends where the second can go on. -/
theorem Ends.bind {next : γ → σ → Prop} (h : Ends s x ok thrown)
    (hf : ∀ a s', ok a s' → Ends s' (f a) next thrown) : Ends s (x >>= f) next thrown := by
  unfold Ends at h ⊢
  rw [run_bind]
  rcases hx : run x s with ⟨r, s'⟩
  rw [hx] at h
  cases r with
  | ok a => exact hf a s' h
  | error e => exact h

/-- What the program throws is caught. -/
theorem Ends.tryCatch (h : Ends s x ok thrown')
    (hcatch : ∀ e s', thrown' e s' → Ends s' (handle e) ok thrown) :
    Ends s (tryCatch x handle) ok thrown := by
  unfold Ends at h ⊢
  rw [run_tryCatch]
  rcases hx : run x s with ⟨r, s'⟩
  rw [hx] at h
  cases r with
  | ok a => exact h
  | error e => exact hcatch e s' h

/-- What is weaker holds at the end, too. -/
theorem Ends.mono (h : Ends s x ok thrown) (hok : ∀ a s', ok a s' → ok' a s')
    (hthrown : ∀ e s', thrown e s' → thrown' e s') : Ends s x ok' thrown' := by
  unfold Ends at h ⊢
  rcases hx : run x s with ⟨r, s'⟩
  rw [hx] at h
  cases r with
  | ok a => exact hok a s' h
  | error e => exact hthrown e s' h

/-- A loop over a list, by its invariant. -/
theorem Ends.forM {β : Type u} {xs : List β} {f : β → Program ε σ PUnit} {inv : σ → Prop}
    (hf : ∀ b s, inv s → Ends s (f b) (fun _ s' => inv s') thrown) (h : inv s) :
    Ends s (xs.forM f) (fun _ s' => inv s') thrown := by
  induction xs generalizing s with
  | nil => exact h
  | cons b xs ih => exact (hf b s h).bind fun _ s' hs' => ih hs'

end Ends

/-! ## Programs that are alike -/

/-- A program is like itself. -/
theorem Alike.refl (x : Program ε σ α) : Alike (· = ·) x x := by
  intro s
  refine ⟨?_, rfl⟩
  cases (run x s).1 with
  | ok a => exact .ok rfl
  | error e => exact .error e

theorem Alike.pure {a : α} {b : β} (h : R a b) :
    Alike R (pure a : Program ε σ α) (pure b : Program ε σ β) :=
  fun _ => ⟨.ok h, rfl⟩

theorem Alike.throw (e : ε) : Alike R (throw e : Program ε σ α) (throw e : Program ε σ β) :=
  fun _ => ⟨.error e, rfl⟩

/-- Sequences of programs that are alike are alike. -/
theorem Alike.bind {x : Program ε σ α} {y : Program ε σ β} {f : α → Program ε σ γ}
    {g : β → Program ε σ δ} (h : Alike R x y) (hfg : ∀ a b, R a b → Alike S (f a) (g b)) :
    Alike S (x >>= f) (y >>= g) := by
  intro s
  obtain ⟨hsame, hstate⟩ := h s
  rcases hx : run x s with ⟨r, s'⟩
  rcases hy : run y s with ⟨r', s''⟩
  rw [hx, hy] at hsame hstate
  obtain rfl : s' = s'' := hstate
  cases hsame with
  | ok hab =>
      rw [run_bind, run_bind, hx, hy]
      exact hfg _ _ hab s'
  | error e =>
      rw [run_bind, run_bind, hx, hy]
      exact ⟨.error e, rfl⟩

/-- Programs that go on from the same result. -/
theorem Alike.seq {x y : Program ε σ α} {f : α → Program ε σ γ} {g : α → Program ε σ δ}
    (h : Alike (· = ·) x y) (hfg : ∀ a, Alike S (f a) (g a)) : Alike S (x >>= f) (y >>= g) := by
  refine h.bind ?_
  rintro a b rfl
  exact hfg a

/-- A `catch` sees the same exception on both sides. -/
theorem Alike.tryCatch {x : Program ε σ α} {y : Program ε σ β} {handle : ε → Program ε σ α}
    {handle' : ε → Program ε σ β} (h : Alike R x y) (hcatch : ∀ e, Alike R (handle e) (handle' e)) :
    Alike R (tryCatch x handle) (tryCatch y handle') := by
  intro s
  obtain ⟨hsame, hstate⟩ := h s
  rcases hx : run x s with ⟨r, s'⟩
  rcases hy : run y s with ⟨r', s''⟩
  rw [hx, hy] at hsame hstate
  obtain rfl : s' = s'' := hstate
  cases hsame with
  | ok hab =>
      rw [run_tryCatch, run_tryCatch, hx, hy]
      exact ⟨.ok hab, rfl⟩
  | error e =>
      rw [run_tryCatch, run_tryCatch, hx, hy]
      exact hcatch e s'

/-- Alike with equal results, two programs are one. -/
theorem Alike.eq {x y : Program ε σ α} (h : Alike (· = ·) x y) : x = y := by
  funext s
  obtain ⟨hsame, hstate⟩ := h s
  rcases hx : run x s with ⟨r, s'⟩
  rcases hy : run y s with ⟨r', s''⟩
  rw [hx, hy] at hsame hstate
  have hresult : r = r' := by
    cases hsame with
    | ok hab => rw [hab]
    | error e => rfl
  show run x s = run y s
  rw [hx, hy, hresult]
  exact congrArg _ hstate

end Programs
