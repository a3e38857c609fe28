/-
# Which sizes are read exactly

`parse_size` strips a suffix, trims, checks the digits and converts them with a check, but multiplies
without one: a number that fits whose product does not is accepted and wraps. Every other text is
treated as the grammar says.

The grammar is a relation between a text, its number and its multiplier, at most one for a text.
What is read is then the product, reduced by 2^64 where it does not fit.
-/
import Supervisorcpp.Config.Options

namespace Supervisorcpp

open Bytes (ascii isSpace isDigit decimal)

/-! ## The grammar -/

/-- A suffix in any letter case, and what it stands for. -/
def SizeSuffix (suffix : Bytes) (multiplier : Nat) : Prop :=
  (suffix = [] ∧ multiplier = 1) ∨
    (suffix.map toLower = ascii "kb" ∧ multiplier = 1024) ∨
    (suffix.map toLower = ascii "mb" ∧ multiplier = 1024 * 1024) ∨
    (suffix.map toLower = ascii "gb" ∧ multiplier = 1024 * 1024 * 1024)

/-- Digits of value `n`, with white space around them. -/
structure NumberText (text : Bytes) (n : Nat) (before digits after : Bytes) : Prop where
  split : text = before ++ digits ++ after
  spacesBefore : ∀ b ∈ before, isSpace b = true
  spacesAfter : ∀ b ∈ after, isSpace b = true
  nonempty : digits ≠ []
  allDigits : ∀ b ∈ digits, isDigit b = true
  value : decimal digits = n

/-- A number and a suffix. -/
def SizeText (s : Bytes) (n multiplier : Nat) : Prop :=
  ∃ number suffix before digits after, s = number ++ suffix ∧
    NumberText number n before digits after ∧ SizeSuffix suffix multiplier

/-- What `parse_size` should do with a text: its exact value, or a rejection. -/
def ExactSize (s : Bytes) : Prop :=
  (∀ v, parseSize s = .ok v ↔
      ∃ n multiplier, SizeText s n multiplier ∧ n * multiplier < 2 ^ 64 ∧ v = n * multiplier) ∧
    ((¬∃ n multiplier, SizeText s n multiplier ∧ n * multiplier < 2 ^ 64) →
      ∃ what, parseSize s = .error (.invalidArgument what))

/-! ## Trimming -/

section Trim

variable {s number suffix before digits after : Bytes} {n multiplier : Nat}

theorem isSpace_of_isDigit {b : UInt8} (h : isDigit b = true) : isSpace b = false := by
  simp only [isDigit, isSpace, decide_eq_true_eq, decide_eq_false_iff_not,
    UInt8.le_iff_toNat_le, ← UInt8.toNat_inj, UInt8.reduceToNat] at h ⊢
  omega

/-- Trimming takes white space off both ends. -/
theorem trim_split (s : Bytes) : ∃ before after, s = before ++ trim s ++ after ∧
    (∀ b ∈ before, isSpace b = true) ∧ ∀ b ∈ after, isSpace b = true := by
  obtain ⟨t, ht⟩ : ∃ t, s.dropWhile isSpace = t := ⟨_, rfl⟩
  refine ⟨s.takeWhile isSpace, (t.reverse.takeWhile isSpace).reverse, ?_, ?_, ?_⟩
  · have hback : t =
        (t.reverse.dropWhile isSpace).reverse ++ (t.reverse.takeWhile isSpace).reverse := by
      rw [← List.reverse_append, List.takeWhile_append_dropWhile, List.reverse_reverse]
    unfold trim
    rw [ht, List.append_assoc, ← hback, ← ht, List.takeWhile_append_dropWhile]
  · exact fun b hb => (List.mem_takeWhile_imp hb)
  · exact fun b hb => (List.mem_takeWhile_imp (List.mem_reverse.mp hb))

/-- Only the blanks in front of the digits are dropped. -/
theorem dropWhile_isSpace_append (hbefore : ∀ b ∈ before, isSpace b = true) (hne : digits ≠ [])
    (hdigits : ∀ b ∈ digits, isDigit b = true) (after : Bytes) :
    (before ++ (digits ++ after)).dropWhile isSpace = digits ++ after := by
  rw [List.dropWhile_append_of_pos hbefore]
  cases digits with
  | nil => exact absurd rfl hne
  | cons b digits =>
      have hb := isSpace_of_isDigit (hdigits b List.mem_cons_self)
      exact List.dropWhile_cons_of_neg (by simp [hb])

/-- Digits between white space are what trimming leaves. -/
theorem NumberText.trim_eq (h : NumberText number n before digits after) :
    trim number = digits := by
  have hfront := dropWhile_isSpace_append h.spacesBefore h.nonempty h.allDigits after
  have hback : (after.reverse ++ (digits.reverse ++ [])).dropWhile isSpace = digits.reverse ++ [] :=
    dropWhile_isSpace_append (fun b hb => h.spacesAfter b (List.mem_reverse.mp hb))
      (by simpa using h.nonempty) (fun b hb => h.allDigits b (List.mem_reverse.mp hb)) []
  rw [List.append_nil] at hback
  unfold trim
  rw [h.split, List.append_assoc, hfront, List.reverse_append, hback, List.reverse_reverse]

/-- A text that is digits between blanks. -/
theorem numberText_trim (hne : trim number ≠ []) (hdigits : (trim number).all isDigit = true) :
    ∃ before after, NumberText number (decimal (trim number)) before (trim number) after := by
  obtain ⟨before, after, hsplit, hbefore, hafter⟩ := trim_split number
  exact ⟨before, after, hsplit, hbefore, hafter, hne, List.all_eq_true.mp hdigits, rfl⟩

/-! ## Suffixes -/

/-- The last byte of a number is a digit or white space, so it ends no suffix. -/
theorem NumberText.last (h : NumberText number n before digits after) :
    ∃ b, number.getLast? = some b ∧ (isDigit b = true ∨ isSpace b = true) := by
  have hne := h.nonempty
  rw [h.split]
  cases hafter : after.getLast? with
  | some b =>
      refine ⟨b, ?_, Or.inr (h.spacesAfter b (List.mem_of_getLast? hafter))⟩
      rw [List.getLast?_append, hafter]
      rfl
  | none =>
      refine ⟨digits.getLast hne, ?_, Or.inl (h.allDigits _ (List.getLast_mem hne))⟩
      rw [List.getLast?_eq_none_iff.mp hafter, List.append_nil, List.getLast?_append,
        List.getLast?_eq_some_getLast hne]
      rfl

theorem toLower_ne_b {b : UInt8} (h : isDigit b = true ∨ isSpace b = true) : toLower b ≠ 98 := by
  simp only [isDigit, isSpace, decide_eq_true_eq, UInt8.le_iff_toNat_le, ← UInt8.toNat_inj,
    UInt8.reduceToNat] at h
  unfold toLower
  split
  · next hupper =>
      simp only [UInt8.le_iff_toNat_le, UInt8.reduceToNat] at hupper
      omega
  · rintro rfl
    simp only [UInt8.reduceToNat] at h
    omega

/-- The three suffixes of `parse_size` end in a `b`. -/
theorem splitSize_number (h : NumberText number n before digits after) :
    splitSize number = (number, 1) := by
  obtain ⟨b, hlast, hb⟩ := h.last
  have hno : ∀ c, (number.drop (number.length - 2)).map toLower ≠ [c, 98] := by
    intro c hsuffix
    have hend : (number.map toLower).getLast? = some 98 := by
      have hsplit := congrArg (List.map toLower) (List.take_append_drop (number.length - 2) number)
      rw [List.map_append, hsuffix] at hsplit
      rw [← hsplit, List.getLast?_append]
      rfl
    rw [List.getLast?_map, hlast, Option.map_some] at hend
    exact toLower_ne_b hb (Option.some.inj hend)
  unfold splitSize
  dsimp only
  split
  · rfl
  · have hk : (number.drop (number.length - 2)).map toLower ≠ ascii "kb" := hno 107
    have hm : (number.drop (number.length - 2)).map toLower ≠ ascii "mb" := hno 109
    have hg : (number.drop (number.length - 2)).map toLower ≠ ascii "gb" := hno 103
    rw [if_neg hk, if_neg hm, if_neg hg]

/-- A suffix is split off and gives its multiplier. -/
theorem splitSize_suffix (number : Bytes) (h : SizeSuffix suffix multiplier) (hne : suffix ≠ []) :
    splitSize (number ++ suffix) = (number, multiplier) := by
  have htwo : suffix.length = 2 := by
    rcases h with ⟨hnil, -⟩ | ⟨h, -⟩ | ⟨h, -⟩ | ⟨h, -⟩
    · exact absurd hnil hne
    all_goals
      have hlen := congrArg List.length h
      rwa [List.length_map] at hlen
  have hcut : (number ++ suffix).length - 2 = number.length := by
    rw [List.length_append, htwo]
    rfl
  have hlong : ¬(number ++ suffix).length < 2 := by
    rw [List.length_append]
    omega
  simp only [splitSize, if_neg hlong, hcut, List.drop_left, List.take_left]
  rcases h with ⟨hnil, -⟩ | ⟨hs, rfl⟩ | ⟨hs, rfl⟩ | ⟨hs, rfl⟩
  · exact absurd hnil hne
  · rw [if_pos hs]
  · rw [hs, if_neg (by decide), if_pos rfl]
  · rw [hs, if_neg (by decide), if_neg (by decide), if_pos rfl]

/-- `parse_size` splits off a suffix, perhaps an empty one. -/
theorem splitSize_cases (s : Bytes) :
    ∃ suffix, s = (splitSize s).1 ++ suffix ∧ SizeSuffix suffix (splitSize s).2 := by
  unfold splitSize
  dsimp only
  have hcut := (List.take_append_drop (s.length - 2) s).symm
  split
  · exact ⟨[], (List.append_nil s).symm, Or.inl ⟨rfl, rfl⟩⟩
  · split
    · next hk => exact ⟨_, hcut, Or.inr (Or.inl ⟨hk, rfl⟩)⟩
    · split
      · next hm => exact ⟨_, hcut, Or.inr (Or.inr (Or.inl ⟨hm, rfl⟩))⟩
      · split
        · next hg => exact ⟨_, hcut, Or.inr (Or.inr (Or.inr ⟨hg, rfl⟩))⟩
        · exact ⟨[], (List.append_nil s).symm, Or.inl ⟨rfl, rfl⟩⟩

/-- **The grammar of sizes** is what `parse_size` checks. -/
theorem sizeText_iff : SizeText s n multiplier ↔
    (trim (splitSize s).1 ≠ [] ∧ (trim (splitSize s).1).all isDigit = true) ∧
      decimal (trim (splitSize s).1) = n ∧ (splitSize s).2 = multiplier := by
  constructor
  · rintro ⟨number, suffix, before, digits, after, rfl, hnumber, hsuffix⟩
    have hsplit : splitSize (number ++ suffix) = (number, multiplier) := by
      by_cases hnil : suffix = []
      · have hone : multiplier = 1 := by
          rcases hsuffix with ⟨-, h⟩ | ⟨h, -⟩ | ⟨h, -⟩ | ⟨h, -⟩
          · exact h
          all_goals
            rw [hnil] at h
            cases h
        rw [hnil, List.append_nil, hone]
        exact splitSize_number hnumber
      · exact splitSize_suffix number hsuffix hnil
    rw [hsplit]
    dsimp only
    rw [hnumber.trim_eq]
    exact ⟨⟨hnumber.nonempty, List.all_eq_true.mpr hnumber.allDigits⟩, hnumber.value, rfl⟩
  · rintro ⟨⟨hne, hdigits⟩, rfl, rfl⟩
    obtain ⟨suffix, hs, hsuffix⟩ := splitSize_cases s
    obtain ⟨before, after, hnumber⟩ := numberText_trim hne hdigits
    exact ⟨_, suffix, before, _, after, hs, hnumber, hsuffix⟩

/-! ## The conversion -/

/-- Digits alone are converted if they fit. -/
theorem stoull_of_digits (hne : digits ≠ []) (hdigits : ∀ b ∈ digits, isDigit b = true) :
    Bytes.stoull digits =
      if 2 ^ 64 ≤ decimal digits then .error .outOfRange else .ok (decimal digits) := by
  obtain ⟨hspace, hsign⟩ := Bytes.digits_unsigned [] hne hdigits
  rw [List.append_nil] at hspace hsign
  have htake : digits.takeWhile isDigit = digits := by
    have hwhile : (digits ++ []).takeWhile isDigit = digits :=
      (Bytes.takeWhile_digits hdigits (by simp)).1
    rwa [List.append_nil] at hwhile
  have hempty : digits.isEmpty = false := by simpa using hne
  simp only [Bytes.stoull, Bytes.leadingDigits, Bytes.negative, hspace, hsign, htake, hempty,
    Bool.false_eq_true, if_false]

/-- **What `parse_size` does** with a text of the grammar: it checks the number and wraps the
product. -/
theorem parseSize_of_sizeText (h : SizeText s n multiplier) :
    (n < 2 ^ 64 → parseSize s = .ok (n * multiplier % 2 ^ 64)) ∧
      (2 ^ 64 ≤ n → ∃ what, parseSize s = .error (.invalidArgument what)) := by
  obtain ⟨⟨hne, hdigits⟩, rfl, rfl⟩ := sizeText_iff.mp h
  have hs : s ≠ [] := by
    rintro rfl
    exact hne rfl
  have hgood : ¬(trim (splitSize s).1 = [] ∨ (trim (splitSize s).1).all isDigit = false) := by
    simp [hne, hdigits]
  have hconvert := stoull_of_digits hne (List.all_eq_true.mp hdigits)
  constructor
  · intro hfits
    rw [if_neg (by omega)] at hconvert
    simp only [parseSize, if_neg hs, if_neg hgood, hconvert]
  · intro hlarge
    rw [if_pos hlarge] at hconvert
    simp only [parseSize, if_neg hs, if_neg hgood, hconvert]
    exact ⟨_, rfl⟩

/-- Whatever is not the text of a size is refused. -/
theorem parseSize_of_not_sizeText (hs : s ≠ []) (h : ¬∃ n multiplier, SizeText s n multiplier) :
    ∃ what, parseSize s = .error (.invalidArgument what) := by
  have hbad : trim (splitSize s).1 = [] ∨ (trim (splitSize s).1).all isDigit = false := by
    by_contra hgood
    rw [not_or, Bool.not_eq_false] at hgood
    exact h ⟨_, _, sizeText_iff.mpr ⟨hgood, rfl, rfl⟩⟩
  simp only [parseSize, if_neg hs, if_pos hbad]
  exact ⟨_, rfl⟩

/-- A text of the grammar has one number and one multiplier. -/
theorem sizeText_unique {n' multiplier' : Nat} (h : SizeText s n multiplier)
    (h' : SizeText s n' multiplier') : n = n' ∧ multiplier = multiplier' := by
  obtain ⟨-, hn, hm⟩ := sizeText_iff.mp h
  obtain ⟨-, hn', hm'⟩ := sizeText_iff.mp h'
  exact ⟨hn.symm.trans hn', hm.symm.trans hm'⟩

/-- **Size parsing is exact** on every non-empty text but those whose number fits `size_t` and whose
product does not. -/
theorem size_exact_iff (s : Bytes) (hs : s ≠ []) :
    ExactSize s ↔
      ¬∃ n multiplier, SizeText s n multiplier ∧ n < 2 ^ 64 ∧ 2 ^ 64 ≤ n * multiplier := by
  by_cases hgrammar : ∃ n multiplier, SizeText s n multiplier
  · obtain ⟨n, multiplier, htext⟩ := hgrammar
    obtain ⟨hfits, hlarge⟩ := parseSize_of_sizeText htext
    have hpos : 1 ≤ multiplier := by
      obtain ⟨_, _, _, _, _, _, _, hsuffix⟩ := htext
      rcases hsuffix with ⟨-, rfl⟩ | ⟨-, rfl⟩ | ⟨-, rfl⟩ | ⟨-, rfl⟩ <;> decide
    have hgrows : n ≤ n * multiplier := Nat.le_mul_of_pos_right n hpos
    constructor
    -- the product that does not fit is accepted, and the grammar has no value for it
    · rintro ⟨hvalue, -⟩ ⟨n', multiplier', htext', hn, hproduct⟩
      obtain ⟨rfl, rfl⟩ := sizeText_unique htext htext'
      obtain ⟨n'', multiplier'', htext'', hlt, -⟩ := (hvalue _).mp (hfits hn)
      obtain ⟨rfl, rfl⟩ := sizeText_unique htext htext''
      omega
    · intro hno
      by_cases hproduct : n * multiplier < 2 ^ 64
      · have hparse := hfits (by omega)
        rw [Nat.mod_eq_of_lt hproduct] at hparse
        refine ⟨fun v => ⟨fun hv => ?_, ?_⟩,
          fun hnone => absurd ⟨n, multiplier, htext, hproduct⟩ hnone⟩
        · exact ⟨n, multiplier, htext, hproduct, (Except.ok.inj (hparse.symm.trans hv)).symm⟩
        · rintro ⟨n', multiplier', htext', -, rfl⟩
          obtain ⟨rfl, rfl⟩ := sizeText_unique htext htext'
          exact hparse
      · have hn : 2 ^ 64 ≤ n := by
          by_contra hlt
          exact hno ⟨n, multiplier, htext, by omega, by omega⟩
        obtain ⟨what, herror⟩ := hlarge hn
        refine ⟨fun v => ⟨fun hv => ?_, ?_⟩, fun _ => ⟨what, herror⟩⟩
        · rw [herror] at hv
          cases hv
        · rintro ⟨n', multiplier', htext', hlt, -⟩
          obtain ⟨rfl, rfl⟩ := sizeText_unique htext htext'
          exact absurd hlt hproduct
  · obtain ⟨what, herror⟩ := parseSize_of_not_sizeText hs hgrammar
    refine iff_of_true ⟨fun v => ⟨fun hv => ?_, ?_⟩, fun _ => ⟨what, herror⟩⟩ ?_
    · rw [herror] at hv
      cases hv
    · rintro ⟨n, multiplier, htext, -, -⟩
      exact absurd ⟨n, multiplier, htext⟩ hgrammar
    · rintro ⟨n, multiplier, htext, -, -⟩
      exact hgrammar ⟨n, multiplier, htext⟩

end Trim

theorem size_exact_ten_megabytes : ExactSize (ascii "10MB") := by
  refine (size_exact_iff (ascii "10MB") (by decide)).mpr ?_
  rintro ⟨n, multiplier, htext, -, hproduct⟩
  obtain ⟨-, rfl, rfl⟩ := sizeText_iff.mp htext
  exact absurd hproduct (by decide)

/-- 2^54 KB is accepted as a size of 0 bytes. -/
theorem size_wraps_to_zero :
    parseSize (ascii "18014398509481984KB") = .ok 0 ∧ ¬ExactSize (ascii "18014398509481984KB") := by
  have hzero : parseSize (ascii "18014398509481984KB") = .ok 0 := by decide
  refine ⟨hzero, fun hexact => ?_⟩
  obtain ⟨n, multiplier, htext, hproduct, -⟩ := (hexact.1 0).mp hzero
  obtain ⟨-, rfl, rfl⟩ := sizeText_iff.mp htext
  exact absurd hproduct (by decide)

end Supervisorcpp
