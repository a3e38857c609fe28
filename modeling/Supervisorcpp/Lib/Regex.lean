/-
# Regular expressions of single characters

The ECMAScript expressions without groups, classes, alternatives and assertions, as `std::regex`
reads them: `.` is any character but a line terminator, a backslash makes a syntax character stand
for itself, every character that is no syntax character stands for itself, and `*` repeats what is
before it. Every other use of a syntax character is outside this fragment, and so is an expression
that `std::regex` rejects: `parse` has no answer for them.
-/
import Mathlib.Computability.Language
import Supervisorcpp.Lib.Bytes

namespace Regex

/-! ## Expressions -/

/-- The characters that mean something other than themselves: `^ $ \ . * + ? ( ) [ ] |` and the
braces. -/
def syntaxCharacters : Bytes := Bytes.ascii "^$\\.*+?()[]|" ++ [123, 125]

/-- What matches one character. -/
inductive Atom where
  | lit (c : UInt8)
  | any
  deriving DecidableEq, Repr

/-- An atom, or the star behind one. -/
inductive Token where
  | atom (a : Atom)
  | star
  deriving DecidableEq, Repr

/-- An atom, or any number of repetitions of it. -/
structure Term where
  atom : Atom
  starred : Bool
  deriving DecidableEq, Repr

/-- An expression cut into atoms and stars. A syntax character stands for itself only behind a
backslash; those that the fragment does not have make the expression none of it. -/
def tokens : Bytes → Option (List Token)
  | [] => some []
  | 92 :: c :: cs =>
    if syntaxCharacters.contains c then (tokens cs).map (.atom (.lit c) :: ·) else none
  | c :: cs =>
    if c = 46 then (tokens cs).map (.atom .any :: ·)
    else if c = 42 then (tokens cs).map (.star :: ·)
    else if syntaxCharacters.contains c then none
    else (tokens cs).map (.atom (.lit c) :: ·)

/-- A star belongs to the atom before it; there is nothing else to repeat. -/
def terms : List Token → Option (List Term)
  | [] => some []
  | .star :: _ => none
  | .atom a :: .star :: ts => (terms ts).map (⟨a, true⟩ :: ·)
  | .atom a :: ts => (terms ts).map (⟨a, false⟩ :: ·)

/-- An expression of the fragment, as the terms it is a sequence of. -/
def parse (expr : Bytes) : Option (List Term) := (tokens expr).bind terms

/-! ## Matching -/

/-- What the dot does not match. -/
def isLineTerminator (c : UInt8) : Bool := c = 10 || c = 13

/-- An atom accepts this byte. -/
def Atom.accepts : Atom → UInt8 → Bool
  | .lit c, b => b = c
  | .any, b => !isLineTerminator b

/-- Any number of characters the atom accepts, and then what `rest` accepts. -/
def starMatch (a : Atom) (rest : Bytes → Bool) : Bytes → Bool
  | [] => rest []
  | b :: bs => rest (b :: bs) || (a.accepts b && starMatch a rest bs)

/-- The whole text matches the terms. -/
def matchTerms : List Term → Bytes → Bool
  | [], s => s.isEmpty
  | t :: ts, s =>
    if t.starred then starMatch t.atom (matchTerms ts) s
    else
      match s with
      | [] => false
      | b :: bs => t.atom.accepts b && matchTerms ts bs

/-- `std::regex_match(s, std::regex{expr})`, for expressions of the fragment. -/
def regexMatch (s expr : Bytes) : Bool :=
  match parse expr with
  | some ts => matchTerms ts s
  | none => false

/-! ## The language of an expression -/

variable {a : Atom} {s : Bytes}

/-- The texts an atom matches: one byte each. -/
def Atom.lang (a : Atom) : Language UInt8 := fun s => ∃ b, a.accepts b = true ∧ s = [b]

/-- The texts a term matches: those of its atom, any number of times behind a star. -/
def Term.lang (t : Term) : Language UInt8 := if t.starred then KStar.kstar t.atom.lang else t.atom.lang

/-- The texts of a sequence of terms, one after the other. -/
def lang (ts : List Term) : Language UInt8 := (ts.map Term.lang).prod

/-- Repetitions of an atom are the texts all of whose characters it accepts. -/
theorem mem_kstar_atom : s ∈ KStar.kstar a.lang ↔ ∀ b ∈ s, a.accepts b = true := by
  constructor
  · rintro ⟨pieces, rfl, hpieces⟩ b hb
    obtain ⟨piece, hpiece, hmem⟩ := List.mem_flatten.mp hb
    obtain ⟨c, hc, rfl⟩ := hpieces piece hpiece
    rw [List.mem_singleton.mp hmem]
    exact hc
  · intro hs
    refine ⟨s.map fun b => [b], by simp [← List.flatMap_def], ?_⟩
    intro piece hpiece
    obtain ⟨b, hb, rfl⟩ := List.mem_map.mp hpiece
    exact ⟨b, hs b hb, rfl⟩

/-- The search of `starMatch` finds a place to stop if there is one. -/
theorem starMatch_iff {rest : Bytes → Bool} :
    starMatch a rest s = true ↔
      ∃ u v, s = u ++ v ∧ (∀ b ∈ u, a.accepts b = true) ∧ rest v = true := by
  induction s with
  | nil => simp [starMatch]
  | cons b bs ih =>
      rw [starMatch, Bool.or_eq_true, Bool.and_eq_true, ih]
      constructor
      · rintro (hhere | ⟨hb, u, v, rfl, hu, hv⟩)
        · exact ⟨[], b :: bs, rfl, by simp, hhere⟩
        · exact ⟨b :: u, v, rfl, List.forall_mem_cons.mpr ⟨hb, hu⟩, hv⟩
      · rintro ⟨u, v, heq, hu, hv⟩
        cases u with
        | nil =>
            left
            rw [heq]
            exact hv
        | cons c u =>
            obtain ⟨rfl, rfl⟩ := List.cons.inj heq
            obtain ⟨hb, hu⟩ := List.forall_mem_cons.mp hu
            exact .inr ⟨hb, u, v, rfl, hu, hv⟩

/-- A starred atom first: any number of bytes it accepts, and the rest. -/
theorem mem_lang_starred {ts : List Term} :
    s ∈ lang (⟨a, true⟩ :: ts) ↔
      ∃ u v, s = u ++ v ∧ (∀ b ∈ u, a.accepts b = true) ∧ v ∈ lang ts := by
  have hcons : lang (⟨a, true⟩ :: ts) = KStar.kstar a.lang * lang ts := rfl
  rw [hcons, Language.mem_mul]
  constructor
  · rintro ⟨u, hu, v, hv, rfl⟩
    exact ⟨u, v, rfl, mem_kstar_atom.mp hu, hv⟩
  · rintro ⟨u, v, rfl, hu, hv⟩
    exact ⟨u, mem_kstar_atom.mpr hu, v, hv, rfl⟩

/-- An atom first: one byte it accepts, and the rest. -/
theorem mem_lang_single {ts : List Term} :
    s ∈ lang (⟨a, false⟩ :: ts) ↔ ∃ b bs, s = b :: bs ∧ a.accepts b = true ∧ bs ∈ lang ts := by
  have hcons : lang (⟨a, false⟩ :: ts) = a.lang * lang ts := rfl
  rw [hcons, Language.mem_mul]
  constructor
  · rintro ⟨u, ⟨b, hb, rfl⟩, v, hv, rfl⟩
    exact ⟨b, v, rfl, hb, hv⟩
  · rintro ⟨b, bs, rfl, hb, hbs⟩
    exact ⟨[b], ⟨b, hb, rfl⟩, bs, hbs, rfl⟩

/-- **The matcher decides the language.** -/
theorem matchTerms_iff {ts : List Term} : matchTerms ts s = true ↔ s ∈ lang ts := by
  induction ts generalizing s with
  | nil => simp [matchTerms, lang, Language.mem_one]
  | cons t ts ih =>
      obtain ⟨a, starred⟩ := t
      cases starred with
      | true =>
          simp only [matchTerms, if_true, starMatch_iff, ih]
          exact mem_lang_starred.symm
      | false =>
          rw [mem_lang_single]
          cases s with
          | nil => simp [matchTerms]
          | cons b bs =>
              simp only [matchTerms, Bool.false_eq_true, if_false, Bool.and_eq_true, ih]
              constructor
              · exact fun h => ⟨b, bs, rfl, h⟩
              · rintro ⟨c, cs, heq, h⟩
                obtain ⟨rfl, rfl⟩ := List.cons.inj heq
                exact h

end Regex
