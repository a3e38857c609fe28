/-
# Computations that may throw

What a computation in `Except` that returned has done, step by step: rules to take apart `bind`,
`map` and loops over lists. `Throws` bounds what a computation can throw, and `Agree` relates two
computations that return together.
-/
import Mathlib.Data.List.Basic
import Mathlib.Data.List.Forall2

namespace Results

variable {α β ε ε' : Type*}

@[simp] theorem bind_eq_ok {x : Except ε α} {f : α → Except ε β} {b : β} :
    x.bind f = .ok b ↔ ∃ a, x = .ok a ∧ f a = .ok b := by
  cases x with
  | error e => simp [Except.bind]
  | ok a => simp [Except.bind]

@[simp] theorem map_eq_ok {x : Except ε α} {f : α → β} {b : β} :
    x.map f = .ok b ↔ ∃ a, x = .ok a ∧ f a = b := by
  cases x with
  | error e => simp [Except.map]
  | ok a => simp [Except.map]

@[simp] theorem mapError_eq_ok {x : Except ε α} {f : ε → ε'} {a : α} :
    x.mapError f = .ok a ↔ x = .ok a := by
  cases x with
  | error e => simp [Except.mapError]
  | ok a => simp [Except.mapError]

theorem isOk_iff {x : Except ε α} : x.isOk = true ↔ ∃ a, x = .ok a := by
  cases x with
  | error e => simp [Except.isOk, Except.toBool]
  | ok a => simp [Except.isOk, Except.toBool]

theorem toOption_eq_some {x : Except ε α} {a : α} : x.toOption = some a ↔ x = .ok a := by
  cases x with
  | error e => simp [Except.toOption]
  | ok a => simp [Except.toOption]

/-- What a loop that returned has collected comes from the elements of the list. -/
theorem exists_of_mapM {f : α → Except ε β} {xs : List α} {ys : List β}
    (h : xs.mapM f = .ok ys) : ∀ y ∈ ys, ∃ x ∈ xs, f x = .ok y := by
  induction xs generalizing ys with
  | nil =>
      obtain rfl : [] = ys := Except.ok.inj h
      simp
  | cons x xs ih =>
      rw [List.mapM_cons] at h
      obtain ⟨y, hy, h⟩ := bind_eq_ok.mp h
      obtain ⟨ys', hys, h⟩ := bind_eq_ok.mp h
      obtain rfl : y :: ys' = ys := Except.ok.inj h
      intro z hz
      rcases List.mem_cons.mp hz with rfl | hz
      · exact ⟨x, List.mem_cons_self, hy⟩
      · obtain ⟨x', hx', hz'⟩ := ih hys z hz
        exact ⟨x', List.mem_cons_of_mem _ hx', hz'⟩

/-! ## What is returned -/

/-- Whatever the computation returns is in `P`. -/
def Returns (P : α → Prop) (x : Except ε α) : Prop := ∀ a, x = .ok a → P a

section Returns

variable {P : β → Prop}

/-- A result that has the property. -/
theorem returns_ok {b : β} (h : P b) : Returns P (.ok b : Except ε β) := by
  rintro _ ⟨⟩
  exact h

/-- Where nothing is returned there is nothing to show. -/
theorem returns_error (e : ε) : Returns P (.error e : Except ε β) := by
  intro b h
  cases h

/-- What is returned is what the last part returns. -/
theorem returns_bind {x : Except ε α} {f : α → Except ε β} (hf : ∀ a, Returns P (f a)) :
    Returns P (x.bind f) := by
  intro b h
  obtain ⟨a, _, hb⟩ := bind_eq_ok.mp h
  exact hf a b hb

theorem Returns.map {Q : α → Prop} {x : Except ε α} {f : α → β} (hx : Returns Q x)
    (hf : ∀ a, Q a → P (f a)) : Returns P (x.map f) := by
  intro b h
  obtain ⟨a, ha, rfl⟩ := map_eq_ok.mp h
  exact hf a (hx a ha)

theorem Returns.mapError {x : Except ε β} (hx : Returns P x) (f : ε → ε') :
    Returns P (x.mapError f) := fun b h => hx b (mapError_eq_ok.mp h)

end Returns

/-! ## What is thrown -/

/-- Whatever the computation throws is in `P`. -/
def Throws (P : ε → Prop) (x : Except ε α) : Prop := ∀ e, x = .error e → P e

section Throws

variable {P : ε → Prop}

/-- Where nothing is thrown there is nothing to show. -/
theorem throws_ok (a : α) : Throws P (.ok a : Except ε α) := by
  intro e h
  cases h

/-- An exception that has the property. -/
theorem throws_error {e : ε} (h : P e) : Throws P (.error e : Except ε α) := by
  rintro _ ⟨⟩
  exact h

/-- What a sequence throws is thrown by one of its parts. -/
theorem Throws.bind {x : Except ε α} {f : α → Except ε β} (hx : Throws P x)
    (hf : ∀ a, x = .ok a → Throws P (f a)) : Throws P (x.bind f) := by
  cases x with
  | error e => exact throws_error (hx e rfl)
  | ok a => exact hf a rfl

theorem Throws.map {x : Except ε α} (hx : Throws P x) (f : α → β) : Throws P (x.map f) := by
  cases x with
  | error e => exact throws_error (hx e rfl)
  | ok a => exact throws_ok (f a)

theorem Throws.mapError {Q : ε' → Prop} {x : Except ε α} {f : ε → ε'} (hx : Throws P x)
    (hf : ∀ e, P e → Q (f e)) : Throws Q (x.mapError f) := by
  cases x with
  | error e => exact throws_error (hf e (hx e rfl))
  | ok a => exact throws_ok a

/-- What a loop throws is thrown by one of its turns. -/
theorem Throws.foldlM {γ : Type*} {f : β → γ → Except ε β} (hf : ∀ b c, Throws P (f b c))
    (xs : List γ) (b : β) : Throws P (xs.foldlM f b) := by
  induction xs generalizing b with
  | nil => exact throws_ok b
  | cons x xs ih =>
      rw [List.foldlM_cons]
      exact (hf b x).bind fun c _ => ih c

end Throws

/-! ## Computations side by side -/

/-- Both throw, or both return, and then what they return is related. -/
inductive Agree (R : α → β → Prop) : Except ε α → Except ε' β → Prop
  | error (e : ε) (e' : ε') : Agree R (.error e) (.error e')
  | ok {a : α} {b : β} : R a b → Agree R (.ok a) (.ok b)

section Agree

variable {α' β' : Type*} {R : α → α' → Prop} {S : β → β' → Prop}

/-- A computation agrees with itself. -/
theorem Agree.refl (x : Except ε α) : Agree (· = ·) x x := by
  cases x with
  | error e => exact .error e e
  | ok a => exact .ok rfl

/-- Sequences agree whose parts do. -/
theorem Agree.bind {x : Except ε α} {x' : Except ε' α'} {f : α → Except ε β}
    {f' : α' → Except ε' β'} (hx : Agree R x x') (hf : ∀ a a', R a a' → Agree S (f a) (f' a')) :
    Agree S (x.bind f) (x'.bind f') := by
  cases hx with
  | error e e' => exact .error e e'
  | ok h => exact hf _ _ h

theorem Agree.map {x : Except ε α} {x' : Except ε' α'} {f : α → β} {f' : α' → β'}
    (hx : Agree R x x') (hf : ∀ a a', R a a' → S (f a) (f' a')) :
    Agree S (x.map f) (x'.map f') := by
  cases hx with
  | error e e' => exact .error e e'
  | ok h => exact .ok (hf _ _ h)

theorem Agree.mapError {ε₁ ε₁' : Type*} {x : Except ε α} {x' : Except ε' α'} (hx : Agree R x x')
    (f : ε → ε₁) (f' : ε' → ε₁') : Agree R (x.mapError f) (x'.mapError f') := by
  cases hx with
  | error e e' => exact .error _ _
  | ok h => exact .ok h

/-- Two loops over related lists that go through related states. -/
theorem Agree.foldlM {γ γ' : Type*} {T : γ → γ' → Prop} {f : α → γ → Except ε α}
    {f' : α' → γ' → Except ε' α'}
    (hf : ∀ a a' c c', R a a' → T c c' → Agree R (f a c) (f' a' c')) {xs : List γ} {xs' : List γ'}
    (hxs : List.Forall₂ T xs xs') {a : α} {a' : α'} (ha : R a a') :
    Agree R (xs.foldlM f a) (xs'.foldlM f' a') := by
  induction hxs generalizing a a' with
  | nil => exact .ok ha
  | cons hc _ ih =>
      rw [List.foldlM_cons, List.foldlM_cons]
      exact (hf _ _ _ _ ha hc).bind fun b b' hb => ih hb

/-- What is related more closely is related. -/
theorem Agree.mono {R' : α → α' → Prop} {x : Except ε α} {x' : Except ε' α'} (h : Agree R x x')
    (himp : ∀ a a', R a a' → R' a a') : Agree R' x x' := by
  cases h with
  | error e e' => exact .error e e'
  | ok h => exact .ok (himp _ _ h)

end Agree

end Results
