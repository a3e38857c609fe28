/-
# Patterns of included files

`glob_to_regex` and `expand_glob_`: the pattern of an `[include]` section is written as a regular
expression, and the names it matches are the ones the pattern matches as a glob.

The meaning of a glob is defined on its own, by recursion on the pattern, and the expressions are
those of `Lib.Regex`. That nothing in a pattern is taken for part of an expression is what the
escaping is for.
-/
import Supervisorcpp.Config.Parser

namespace Supervisorcpp

open Bytes (ascii)

/-! ## Globs -/

/-- A name matches a pattern: `*` (42) stands for any characters, `?` (63) for one, every other
character for itself. -/
inductive GlobMatches : Bytes → Bytes → Prop
  | nil : GlobMatches [] []
  | star {pattern name : Bytes} (any : Bytes) :
      GlobMatches pattern name → GlobMatches (42 :: pattern) (any ++ name)
  | question {pattern name : Bytes} (b : UInt8) :
      GlobMatches pattern name → GlobMatches (63 :: pattern) (b :: name)
  | char {c : UInt8} {pattern name : Bytes} (hstar : c ≠ 42) (hquestion : c ≠ 63) :
      GlobMatches pattern name → GlobMatches (c :: pattern) (c :: name)

/-! ## The expression of a pattern -/

/-- What a character of a pattern is in the regular expression. -/
def globTerm (c : UInt8) : Regex.Term :=
  if c = 42 then ⟨.any, true⟩ else if c = 63 then ⟨.any, false⟩ else ⟨.lit c, false⟩

/-- Every character but the star stands for one byte. -/
theorem globTerm_single {c : UInt8} (hstar : c ≠ 42) :
    globTerm c = ⟨(globTerm c).atom, false⟩ := by
  unfold globTerm
  rw [if_neg hstar]
  split
  · rfl
  · rfl

/-- The characters that `glob_to_regex` escapes. -/
def escapedCharacters : Bytes := [46, 94, 36, 43, 40, 41, 91, 93, 123, 125, 92, 124]

/-- What is special in an expression is escaped and stands for itself. -/
theorem replacement_escaped {c : UInt8} (h : c ∈ escapedCharacters) :
    replacement globNeedles c = [92, c] ∧ Regex.syntaxCharacters.contains c = true ∧
      globTerm c = ⟨.lit c, false⟩ := by
  simp only [escapedCharacters, List.mem_cons, List.not_mem_nil, or_false] at h
  rcases h with rfl | rfl | rfl | rfl | rfl | rfl | rfl | rfl | rfl | rfl | rfl | rfl <;> decide

/-- Every other character but the two wildcards means itself in a regular expression too. -/
theorem replacement_plain {c : UInt8} (h : c ∉ escapedCharacters) (hstar : c ≠ 42)
    (hquestion : c ≠ 63) :
    replacement globNeedles c = [c] ∧ Regex.syntaxCharacters.contains c = false ∧
      globTerm c = ⟨.lit c, false⟩ := by
  simp only [escapedCharacters, List.mem_cons, List.not_mem_nil, or_false, not_or] at h
  refine ⟨?_, ?_, by simp [globTerm, hstar, hquestion]⟩
  · have hlookup : globNeedles.lookup c = none := by
      rw [List.lookup_eq_none_iff]
      simp [globNeedles, h, hstar, hquestion]
    simp [replacement, hlookup]
  · have hspecial : Regex.syntaxCharacters =
        [94, 36, 92, 46, 42, 43, 63, 40, 41, 91, 93, 124, 123, 125] := by decide
    simp [hspecial, h, hstar, hquestion]

/-- The tokens of one character of a pattern. -/
def globTokens (c : UInt8) : List Regex.Token :=
  if c = 42 then [.atom .any, .star] else [.atom (globTerm c).atom]

/-- **One character.**  What it is replaced by is read as its own tokens, whatever follows. -/
theorem tokens_replacement (c : UInt8) (rest : Bytes) :
    Regex.tokens (replacement globNeedles c ++ rest) =
      (Regex.tokens rest).map (globTokens c ++ ·) := by
  by_cases hstar : c = 42
  · subst hstar
    show Regex.tokens (46 :: 42 :: rest) = _
    cases h : Regex.tokens rest <;> simp [Regex.tokens, globTokens, h]
  by_cases hquestion : c = 63
  · subst hquestion
    show Regex.tokens (46 :: rest) = _
    simp [Regex.tokens, globTokens, globTerm]
  by_cases hescaped : c ∈ escapedCharacters
  · obtain ⟨htext, hspecial, hterm⟩ := replacement_escaped hescaped
    rw [htext, globTokens, if_neg hstar, hterm]
    show Regex.tokens (92 :: c :: rest) = _
    rw [Regex.tokens, if_pos hspecial]
    rfl
  · obtain ⟨htext, hspecial, hterm⟩ := replacement_plain hescaped hstar hquestion
    have hbackslash : c ≠ 92 := by
      rintro rfl
      exact hescaped (by decide)
    have hdot : c ≠ 46 := by
      rintro rfl
      exact hescaped (by decide)
    rw [htext, globTokens, if_neg hstar, hterm]
    show Regex.tokens (c :: rest) = _
    rw [Regex.tokens, if_neg hdot, if_neg hstar, hspecial]
    · rfl
    · exact fun _ _ heq => absurd heq hbackslash

/-- The expression made of a glob is one of the fragment, character by character. -/
theorem tokens_globToRegex (pattern : Bytes) :
    Regex.tokens (globToRegex pattern) = some (pattern.flatMap globTokens) := by
  rw [globToRegex, escapeStr_eq]
  induction pattern with
  | nil => rfl
  | cons c pattern ih =>
      rw [List.flatMap_cons, tokens_replacement, ih]
      rfl

/-- The tokens of a pattern do not start with a star, so no star is taken for the one before. -/
theorem terms_atom (a : Regex.Atom) (pattern : Bytes) :
    Regex.terms (.atom a :: pattern.flatMap globTokens) =
      (Regex.terms (pattern.flatMap globTokens)).map (⟨a, false⟩ :: ·) := by
  cases pattern with
  | nil => rfl
  | cons c pattern =>
      rw [List.flatMap_cons, globTokens]
      split
      · rfl
      · rfl

/-- **The expression of a pattern** is one that `std::regex` accepts, with one term for each of its
characters. -/
theorem parse_globToRegex (pattern : Bytes) :
    Regex.parse (globToRegex pattern) = some (pattern.map globTerm) := by
  rw [Regex.parse, tokens_globToRegex]
  show Regex.terms (pattern.flatMap globTokens) = _
  induction pattern with
  | nil => rfl
  | cons c pattern ih =>
      rw [List.flatMap_cons, List.map_cons]
      by_cases hstar : c = 42
      · subst hstar
        show (Regex.terms (pattern.flatMap globTokens)).map (⟨.any, true⟩ :: ·) = _
        rw [ih]
        rfl
      · have hsingle : globTokens c = [.atom (globTerm c).atom] := if_neg hstar
        rw [hsingle, List.singleton_append, terms_atom, ih, globTerm_single hstar]
        rfl

/-! ## Matching -/

/-- The empty glob matches the empty name. -/
theorem globMatches_nil {name : Bytes} : GlobMatches [] name ↔ name = [] := by
  constructor
  · rintro ⟨⟩
    rfl
  · rintro rfl
    exact .nil

/-- A star takes any number of bytes. -/
theorem globMatches_star {pattern name : Bytes} :
    GlobMatches (42 :: pattern) name ↔ ∃ u v, name = u ++ v ∧ GlobMatches pattern v := by
  constructor
  · intro h
    cases h with
    | star u h => exact ⟨u, _, rfl, h⟩
    | char hstar => exact absurd rfl hstar
  · rintro ⟨u, v, rfl, h⟩
    exact .star u h

/-- Every other character takes one. -/
theorem globMatches_single {c : UInt8} {pattern name : Bytes} (hstar : c ≠ 42) :
    GlobMatches (c :: pattern) name ↔
      ∃ b bs, name = b :: bs ∧ (c = 63 ∨ b = c) ∧ GlobMatches pattern bs := by
  constructor
  · intro h
    cases h with
    | star => exact absurd rfl hstar
    | question b h => exact ⟨b, _, rfl, .inl rfl, h⟩
    | char _ _ h => exact ⟨c, _, rfl, .inr rfl, h⟩
  · rintro ⟨b, bs, rfl, hb, h⟩
    by_cases hquestion : c = 63
    · subst hquestion
      exact .question b h
    · obtain rfl := hb.resolve_left hquestion
      exact .char hstar hquestion h

/-- A name without line terminators. -/
def Inline (name : Bytes) : Prop := ∀ b ∈ name, Regex.isLineTerminator b = false

instance : DecidablePred Inline := fun name =>
  List.decidableBAll (fun b => Regex.isLineTerminator b = false) name

/-- On such a name a term accepts what its character of the pattern stands for. -/
theorem globTerm_accepts {b c : UInt8} (hb : Regex.isLineTerminator b = false) :
    (globTerm c).atom.accepts b = true ↔ c = 42 ∨ c = 63 ∨ b = c := by
  by_cases hstar : c = 42
  · simp [globTerm, hstar, Regex.Atom.accepts, hb]
  by_cases hquestion : c = 63
  · simp [globTerm, hquestion, Regex.Atom.accepts, hb]
  · simp [globTerm, hstar, hquestion, Regex.Atom.accepts]

/-- The language of a pattern's terms are the names that match it. -/
theorem lang_glob (pattern : Bytes) {name : Bytes} (hname : Inline name) :
    name ∈ Regex.lang (pattern.map globTerm) ↔ GlobMatches pattern name := by
  induction pattern generalizing name with
  | nil =>
      rw [globMatches_nil]
      exact Language.mem_one name
  | cons c pattern ih =>
      rw [List.map_cons]
      by_cases hstar : c = 42
      · have hterm : globTerm c = ⟨(globTerm c).atom, true⟩ := by rw [hstar]; rfl
        rw [hterm, Regex.mem_lang_starred, hstar, globMatches_star]
        constructor
        · rintro ⟨u, v, rfl, -, hv⟩
          exact ⟨u, v, rfl, (ih fun b hb => hname b (List.mem_append_right u hb)).mp hv⟩
        · rintro ⟨u, v, rfl, hv⟩
          refine ⟨u, v, rfl, fun b hb => ?_, ?_⟩
          · exact (globTerm_accepts (hname b (List.mem_append_left v hb))).mpr (.inl rfl)
          · exact (ih fun b hb => hname b (List.mem_append_right u hb)).mpr hv
      · rw [globTerm_single hstar, Regex.mem_lang_single, globMatches_single hstar]
        constructor
        · rintro ⟨b, bs, rfl, hb, hbs⟩
          obtain ⟨hhere, hlater⟩ := List.forall_mem_cons.mp hname
          exact ⟨b, bs, rfl, ((globTerm_accepts hhere).mp hb).resolve_left hstar,
            (ih hlater).mp hbs⟩
        · rintro ⟨b, bs, rfl, hb, hbs⟩
          obtain ⟨hhere, hlater⟩ := List.forall_mem_cons.mp hname
          exact ⟨b, bs, rfl, (globTerm_accepts hhere).mpr (.inr hb), (ih hlater).mpr hbs⟩

/-- Matching the expression is matching the glob, term by term. -/
theorem regexMatch_globToRegex (pattern name : Bytes) :
    Regex.regexMatch name (globToRegex pattern) =
      Regex.matchTerms (pattern.map globTerm) name := by
  rw [Regex.regexMatch, parse_globToRegex]

/-- **Globs are translated rightly.**  A file name without line terminators matches the regular
expression `glob_to_regex` makes of a pattern exactly if it matches the pattern. -/
theorem glob_to_regex_correct (pattern name : Bytes) (hname : Inline name) :
    Regex.regexMatch name (globToRegex pattern) = true ↔ GlobMatches pattern name := by
  rw [regexMatch_globToRegex, Regex.matchTerms_iff]
  exact lang_glob pattern hname

/-- `a+*.?` matches `a+b.c`, whose plus sign and dot are no operators. -/
theorem glob_to_regex_correct_sample :
    Inline (ascii "a+b.c") ∧ GlobMatches (ascii "a+*.?") (ascii "a+b.c") ∧
      ¬GlobMatches (ascii "a+*.?") (ascii "aab.c") := by
  have hname : Inline (ascii "a+b.c") := by decide
  have hother : Inline (ascii "aab.c") := by decide
  refine ⟨hname, (glob_to_regex_correct _ _ hname).mp (by decide), ?_⟩
  rw [← glob_to_regex_correct _ _ hother]
  decide

/-! ## The files of a directory -/

section Entries

variable {fs : Files} {dir : FsPath} {names found : List FileName}

/-- What `expand_glob_` takes of the names in a directory. -/
theorem mem_matchingEntries {fileRegex : Bytes}
    (hok : matchingEntries fs dir fileRegex names = .ok found) (n : FileName) :
    n ∈ found ↔ n ∈ names ∧ fs.isRegularFile (dir.append (.ofName n)) = .ok true ∧
      Regex.regexMatch n.1 fileRegex = true := by
  induction names generalizing found with
  | nil =>
      obtain rfl := Except.ok.inj hok
      simp
  | cons m names ih =>
      rw [matchingEntries] at hok
      obtain ⟨regular, hregular, hok⟩ := Results.bind_eq_ok.mp hok
      obtain ⟨rest, hrest, rfl⟩ := Results.map_eq_ok.mp hok
      have htakes : (regular && Regex.regexMatch m.1 fileRegex) = true ↔
          fs.isRegularFile (dir.append (.ofName m)) = .ok true ∧
            Regex.regexMatch m.1 fileRegex = true := by
        rw [hregular, Bool.and_eq_true, Except.ok.injEq]
      by_cases hm : (regular && Regex.regexMatch m.1 fileRegex) = true
      · rw [if_pos hm, List.mem_cons, List.mem_cons, ih hrest, or_and_right]
        refine or_congr_left ?_
        constructor
        · rintro rfl
          exact ⟨rfl, htakes.mp hm⟩
        · exact And.left
      · rw [if_neg hm, List.mem_cons, ih hrest, or_and_right]
        refine (or_iff_right ?_).symm
        rintro ⟨rfl, h⟩
        exact hm (htakes.mpr h)

end Entries

end Supervisorcpp
