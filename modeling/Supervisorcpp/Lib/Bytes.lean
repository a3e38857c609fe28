/-
# Byte strings as C++ reads them

`std::string` as a list of bytes, with the searches and number readers of the C++ library in the
classic locale: `find`, `strtoull` behind `std::stoull`, and `operator>>` for `int`.
-/
import Mathlib.Algebra.Ring.Int.Defs
import Mathlib.Algebra.Ring.Nat
import Mathlib.Data.List.Basic

/-- The characters of a `std::string`. -/
abbrev Bytes := List UInt8

namespace Bytes

/-- A literal of ASCII characters. -/
def ascii (s : String) : Bytes := s.toList.map fun c => c.toNat.toUInt8

/-! ## Searching -/

/-- The first position of `pat` in `s`. -/
def find (pat : Bytes) : Bytes → Option Nat
  | [] => if pat.isEmpty then some 0 else none
  | b :: bs => if pat.isPrefixOf (b :: bs) then some 0 else (find pat bs).map (· + 1)

/-- The upper case letter, in the `C` locale. -/
def toUpper (b : UInt8) : UInt8 := if 97 ≤ b ∧ b ≤ 122 then b - 32 else b

/-- The first position of `pat` in `s`, whatever the case of the letters. -/
def ifind (pat s : Bytes) : Option Nat := find (pat.map toUpper) (s.map toUpper)

section Find

variable {pat s t : Bytes}

attribute [local simp] find

/-- Where the pattern does not start, the search goes on behind the first byte. -/
theorem find_cons_of_no_match {b : UInt8} (h : ¬ pat <+: b :: s) :
    find pat (b :: s) = (find pat s).map (· + 1) := by
  have hno : ¬ pat.isPrefixOf (b :: s) = true := by rwa [List.isPrefixOf_iff_prefix]
  simp only [find, hno, if_false, Bool.false_eq_true]

theorem find_cons_of_match {b : UInt8} (h : pat <+: b :: s) : find pat (b :: s) = some 0 := by
  have hyes : pat.isPrefixOf (b :: s) = true := List.isPrefixOf_iff_prefix.mpr h
  simp only [find, hyes, if_true]

/-- What is found at the beginning is a prefix. -/
theorem find_eq_zero_iff : find pat s = some 0 ↔ pat <+: s := by
  cases s with
  | nil => cases pat <;> simp [find]
  | cons b s =>
      by_cases h : pat <+: b :: s
      · exact iff_of_true (find_cons_of_match h) h
      · refine iff_of_false ?_ h
        rw [find_cons_of_no_match h]
        simp

/-- What is found is the leftmost occurrence. -/
theorem find_leftmost {i : Nat} (h : find pat s = some i) :
    pat <+: s.drop i ∧ ∀ j < i, ¬ pat <+: s.drop j := by
  induction s generalizing i with
  | nil =>
      cases pat with
      | nil =>
          obtain rfl : 0 = i := by simpa [find] using h
          simp
      | cons => simp [find] at h
  | cons b s ih =>
      by_cases hs : pat <+: b :: s
      · rw [find_cons_of_match hs] at h
        obtain rfl := Option.some.inj h
        exact ⟨hs, fun j hj => absurd hj (Nat.not_lt_zero j)⟩
      · rw [find_cons_of_no_match hs] at h
        obtain ⟨k, hk, rfl⟩ := Option.map_eq_some_iff.mp h
        obtain ⟨hhere, hleft⟩ := ih hk
        refine ⟨hhere, fun j hj => ?_⟩
        cases j with
        | zero => exact hs
        | succ j => exact hleft j (Nat.lt_of_succ_lt_succ hj)

/-- What is not found occurs nowhere. -/
theorem find_none (h : find pat s = none) (i : Nat) : ¬ pat <+: s.drop i := by
  induction s generalizing i with
  | nil =>
      cases pat with
      | nil => simp [find] at h
      | cons => simp
  | cons b s ih =>
      have hs : ¬ pat <+: b :: s := by
        intro hs
        rw [find_cons_of_match hs] at h
        cases h
      rw [find_cons_of_no_match hs] at h
      cases i with
      | zero => exact hs
      | succ i => exact ih (Option.map_eq_none_iff.mp h) i

/-- In a prefix of `s` the pattern is found where it is found in `s`, if it fits. -/
theorem find_take (hpat : pat ≠ []) (s : Bytes) (n : Nat) :
    find pat (s.take n) = (find pat s).filter fun i => i + pat.length ≤ n := by
  have hpos : 0 < pat.length := List.length_pos_iff.mpr hpat
  induction s generalizing n with
  | nil => simp [find, hpat]
  | cons b s ih =>
      cases n with
      | zero =>
          have hshort : ∀ i, ¬ i + pat.length ≤ 0 := by omega
          simp [find, hpat, hshort]
      | succ n =>
          rw [List.take_succ_cons]
          by_cases hs : pat <+: b :: s
          · rw [find_cons_of_match hs]
            by_cases hfits : pat.length ≤ n + 1
            · have htake : pat <+: b :: s.take n := by
                rw [← List.take_succ_cons, List.prefix_take_iff]
                exact ⟨hs, hfits⟩
              rw [find_cons_of_match htake]
              simp [Option.filter, hfits]
            · have htake : ¬ pat <+: b :: s.take n := by
                rw [← List.take_succ_cons, List.prefix_take_iff]
                exact fun h => hfits h.2
              have hlater : ∀ i, ¬ i + pat.length ≤ n := by omega
              rw [find_cons_of_no_match htake, ih]
              cases find pat s <;> simp [Option.filter, hfits, hlater]
          · have htake : ¬ pat <+: b :: s.take n := by
              rw [← List.take_succ_cons, List.prefix_take_iff]
              exact fun h => hs h.1
            rw [find_cons_of_no_match htake, find_cons_of_no_match hs, ih]
            cases find pat s with
            | none => rfl
            | some i =>
                have hshift : i + 1 + pat.length ≤ n + 1 ↔ i + pat.length ≤ n := by omega
                by_cases hfits : i + pat.length ≤ n <;> simp [Option.filter, hshift, hfits]

/-- A pattern that is found fits. -/
theorem find_length {i : Nat} (hpat : pat ≠ []) (h : find pat s = some i) :
    i + pat.length ≤ s.length := by
  have htake := find_take hpat s s.length
  rw [List.take_length, h] at htake
  exact of_decide_eq_true (Option.filter_eq_some_iff.mp htake.symm).2

/-- What is found is found in every longer text, at the same place. -/
theorem find_append_of_some {i : Nat} (hpat : pat ≠ []) (h : find pat s = some i) :
    find pat (s ++ t) = some i := by
  have htake := find_take hpat (s ++ t) s.length
  rw [List.take_left, h] at htake
  exact (Option.filter_eq_some_iff.mp htake.symm).1

/-- Nothing is found in `s`, and what follows starts with a byte that is not in the pattern. -/
theorem find_append_of_none (hs : find pat s = none) (ht : ∀ b ∈ t.head?, b ∉ pat) :
    find pat (s ++ t) = (find pat t).map (· + s.length) := by
  induction s with
  | nil => simp
  | cons b s ih =>
      have hno : ¬ pat <+: b :: s := by
        intro hpre
        rw [find_cons_of_match hpre] at hs
        cases hs
      have hrest : find pat s = none := by
        rw [find_cons_of_no_match hno] at hs
        exact Option.map_eq_none_iff.mp hs
      have hacross : ¬ pat <+: b :: (s ++ t) := by
        rintro ⟨u, hu⟩
        rw [← List.cons_append] at hu
        -- the pattern ends inside `s`, or reaches the first byte of `t`
        rcases List.append_eq_append_iff.mp hu with ⟨v, hv, _⟩ | ⟨v, hv, htv⟩
        · exact hno ⟨v, hv.symm⟩
        · cases v with
          | nil => exact hno ⟨[], by simp [hv]⟩
          | cons c v =>
              rw [htv] at ht
              exact ht c rfl (by simp [hv])
      rw [List.cons_append, find_cons_of_no_match hacross, ih hrest]
      cases find pat t with
      | none => rfl
      | some i =>
          simp only [Option.map_some, List.length_cons]
          congr 1

/-- Bytes that are not in the pattern are passed over. -/
theorem find_skip (hpat : pat ≠ []) (h : ∀ b ∈ s, b ∉ pat) :
    find pat (s ++ t) = (find pat t).map (· + s.length) := by
  induction s with
  | nil => simp
  | cons b s ih =>
      have hno : ¬ pat <+: b :: (s ++ t) := by
        intro hpre
        cases pat with
        | nil => exact hpat rfl
        | cons c pat =>
            obtain ⟨rfl, _⟩ := List.cons_prefix_cons.mp hpre
            exact h c List.mem_cons_self List.mem_cons_self
      rw [List.cons_append, find_cons_of_no_match hno,
        ih fun b hb => h b (List.mem_cons_of_mem _ hb)]
      cases find pat t with
      | none => rfl
      | some i =>
          simp only [Option.map_some, List.length_cons]
          congr 1

end Find

/-! ## Numbers -/

/-- `isspace`. -/
def isSpace (b : UInt8) : Bool := b = 32 ∨ (9 ≤ b ∧ b ≤ 13)

/-- `isdigit`. -/
def isDigit (b : UInt8) : Bool := 48 ≤ b ∧ b ≤ 57

/-- The value of a string of decimal digits. -/
def decimal (digits : Bytes) : Nat := digits.foldl (fun n d => 10 * n + (d.toNat - 48)) 0

/-- A sign, if there is one, and what follows it. -/
def splitSign : Bytes → Bool × Bytes
  | 45 :: s => (true, s)
  | 43 :: s => (false, s)
  | s => (false, s)

/-- The digits a number reader takes from the front of `s`, after white space and a sign. -/
def leadingDigits (s : Bytes) : Bytes := (splitSign (s.dropWhile isSpace)).2.takeWhile isDigit

/-- Whether white space is followed by a minus sign. -/
def negative (s : Bytes) : Bool := (splitSign (s.dropWhile isSpace)).1

/-- The exceptions of the number readers. -/
inductive NumberError where
  | invalidArgument
  | outOfRange
  deriving DecidableEq, Repr

/-- `std::stoull(s)`: a minus sign negates modulo 2^64, what follows the digits is ignored. -/
def stoull (s : Bytes) : Except NumberError Nat :=
  let digits := leadingDigits s
  if digits.isEmpty then .error .invalidArgument
  else if 2 ^ 64 ≤ decimal digits then .error .outOfRange
  else .ok (if negative s then (2 ^ 64 - decimal digits) % 2 ^ 64 else decimal digits)

/-- `s` starts with a number below 2^64. -/
def StartsWithNumber (s : Bytes) : Prop := leadingDigits s ≠ [] ∧ decimal (leadingDigits s) < 2 ^ 64

/-- A number is read exactly from the texts that start with one. -/
theorem stoull_ok_iff (s : Bytes) : (∃ n, stoull s = .ok n) ↔ StartsWithNumber s := by
  unfold stoull StartsWithNumber
  dsimp only
  split
  · next hempty => simp [List.isEmpty_iff.mp hempty]
  · next hdigits =>
      rw [List.isEmpty_iff] at hdigits
      split
      · next hlarge =>
          have hnot : ¬ decimal (leadingDigits s) < 2 ^ 64 := by omega
          simp only [reduceCtorEq, exists_false, false_iff, not_and]
          exact fun _ => hnot
      · next hsmall =>
          have hlt : decimal (leadingDigits s) < 2 ^ 64 := by omega
          exact ⟨fun _ => ⟨hdigits, hlt⟩, fun _ => ⟨_, rfl⟩⟩

/-- `operator>>` for `int` on a string, which must be used up but for white space at the end. -/
def readInt (s : Bytes) : Option Int :=
  let digits := leadingDigits s
  let rest := (splitSign (s.dropWhile isSpace)).2.dropWhile isDigit
  let n : Int := if negative s then -decimal digits else decimal digits
  if digits.isEmpty || !rest.all isSpace then none
  else if -2 ^ 31 ≤ n ∧ n < 2 ^ 31 then some n else none

/-! ## Printed numbers

What a stream prints of an unsigned or signed number is read back as that number. -/

section Printed

variable {ds rest : Bytes}

theorem byte_toNat_of_isDigit {c : Char} (h : c.isDigit = true) :
    c.toNat.toUInt8.toNat = c.toNat ∧ 48 ≤ c.toNat ∧ c.toNat ≤ 57 := by
  simp only [Char.isDigit, Bool.and_eq_true, decide_eq_true_eq] at h
  have hlow : 48 ≤ c.toNat := h.1
  have hhigh : c.toNat ≤ 57 := h.2
  refine ⟨?_, hlow, hhigh⟩
  rw [UInt8.toNat_ofNat']
  omega

/-- The text of a number is the text of its decimal digits. -/
theorem ascii_toString (n : Nat) :
    ascii (toString n) = (Nat.toDigits 10 n).map fun c => c.toNat.toUInt8 := by
  rw [ascii, Nat.toString_eq_repr, Nat.toList_repr]

theorem ascii_toString_ne_nil (n : Nat) : ascii (toString n) ≠ [] := by
  rw [ascii_toString]
  simp [Nat.toDigits_ne_nil]

theorem isDigit_of_mem_toString {n : Nat} {b : UInt8} (h : b ∈ ascii (toString n)) :
    isDigit b = true := by
  rw [ascii_toString] at h
  obtain ⟨c, hc, rfl⟩ := List.mem_map.mp h
  have hdigit := Nat.isDigit_of_mem_toDigits (by omega) (by omega) hc
  obtain ⟨hnat, hlow, hhigh⟩ := byte_toNat_of_isDigit hdigit
  simp only [isDigit, decide_eq_true_eq, UInt8.le_iff_toNat_le, hnat]
  exact ⟨hlow, hhigh⟩

/-- Reading the text of a number gives the number. -/
theorem decimal_toString (n : Nat) : decimal (ascii (toString n)) = n := by
  have hfold : ∀ (cs : List Char) (k : Nat), (∀ c ∈ cs, c.isDigit = true) →
      (cs.map fun c => c.toNat.toUInt8).foldl (fun n d => 10 * n + (d.toNat - 48)) k =
        Nat.ofDigitChars 10 cs k := by
    intro cs
    induction cs with
    | nil => exact fun k _ => Nat.ofDigitChars_nil.symm
    | cons c cs ih =>
        intro k hcs
        obtain ⟨hc, hcs⟩ := List.forall_mem_cons.mp hcs
        rw [List.map_cons, List.foldl_cons, ih _ hcs, Nat.ofDigitChars_cons,
          (byte_toNat_of_isDigit hc).1]
        rfl
  rw [decimal, ascii_toString, hfold, Nat.ofDigitChars_ten_toDigits]
  exact fun c hc => Nat.isDigit_of_mem_toDigits (by omega) (by omega) hc

/-- A digit is neither white space nor a sign. -/
theorem digits_unsigned (rest : Bytes) (hne : ds ≠ []) (hds : ∀ b ∈ ds, isDigit b = true) :
    (ds ++ rest).dropWhile isSpace = ds ++ rest ∧ splitSign (ds ++ rest) = (false, ds ++ rest) := by
  cases ds with
  | nil => exact absurd rfl hne
  | cons b ds =>
      have hb := hds b List.mem_cons_self
      simp only [isDigit, decide_eq_true_eq, UInt8.le_iff_toNat_le, UInt8.reduceToNat] at hb
      have hspace : isSpace b = false := by
        simp only [isSpace, decide_eq_false_iff_not, UInt8.le_iff_toNat_le, ← UInt8.toNat_inj,
          UInt8.reduceToNat]
        omega
      refine ⟨List.dropWhile_cons_of_neg (by simp [hspace]), ?_⟩
      simp only [List.cons_append]
      unfold splitSign
      split
      · next heq =>
          obtain ⟨rfl, _⟩ := List.cons.inj heq
          exact absurd hb.1 (by decide)
      · next heq =>
          obtain ⟨rfl, _⟩ := List.cons.inj heq
          exact absurd hb.1 (by decide)
      · rfl

/-- The digits a text starts with, and what is behind them. -/
theorem takeWhile_digits (hds : ∀ b ∈ ds, isDigit b = true)
    (hrest : ∀ b ∈ rest.head?, isDigit b = false) :
    (ds ++ rest).takeWhile isDigit = ds ∧ (ds ++ rest).dropWhile isDigit = rest := by
  rw [List.takeWhile_append_of_pos hds, List.dropWhile_append_of_pos hds]
  cases rest with
  | nil => simp
  | cons b rest =>
      have hb := hrest b rfl
      simp [hb]

/-- Digits that something else follows are read as their value. -/
theorem stoull_digits {n : Nat} (rest : Bytes) (hn : n < 2 ^ 64)
    (hrest : ∀ b ∈ rest.head?, isDigit b = false) :
    stoull (ascii (toString n) ++ rest) = .ok n := by
  have hne := ascii_toString_ne_nil n
  have hds : ∀ b ∈ ascii (toString n), isDigit b = true := fun _ => isDigit_of_mem_toString
  obtain ⟨hspace, hsign⟩ := digits_unsigned rest hne hds
  have hdigits : leadingDigits (ascii (toString n) ++ rest) = ascii (toString n) := by
    rw [leadingDigits, hspace, hsign]
    exact (takeWhile_digits hds hrest).1
  have hpos : negative (ascii (toString n) ++ rest) = false := by
    rw [negative, hspace, hsign]
  have hempty : (ascii (toString n)).isEmpty = false := by simpa using hne
  have hfits : ¬ 2 ^ 64 ≤ n := by omega
  simp only [stoull, hdigits, hpos, decimal_toString, hempty, if_neg hfits, Bool.false_eq_true,
    if_false]

/-- A blank in front is skipped. -/
theorem stoull_blank (s : Bytes) : stoull (32 :: s) = stoull s := rfl

/-- The text of a negative number is a minus sign and the text of its absolute value. -/
theorem ascii_toString_negSucc (m : Nat) :
    ascii (toString (Int.negSucc m)) = 45 :: ascii (toString (m + 1)) := by
  have happ : toString (Int.negSucc m) = "-" ++ toString (m + 1) := rfl
  rw [happ, ascii, String.toList_append, List.map_append]
  rfl

/-- A printed `int` has digits and at most a minus sign. -/
theorem mem_toString_int {i : Int} {b : UInt8} (h : b ∈ ascii (toString i)) :
    isDigit b = true ∨ b = 45 := by
  cases i with
  | ofNat n => exact .inl (isDigit_of_mem_toString h)
  | negSucc m =>
      rw [ascii_toString_negSucc] at h
      rcases List.mem_cons.mp h with rfl | h
      · exact .inr rfl
      · exact .inl (isDigit_of_mem_toString h)

/-- White space, a sign and a printed number: the number, with the sign, if an `int` has it. -/
theorem readInt_of_split {s : Bytes} {minus : Bool} {n : Nat}
    (hsplit : splitSign (s.dropWhile isSpace) = (minus, ascii (toString n)))
    (hlow : -2 ^ 31 ≤ (if minus then -(n : Int) else n))
    (hhigh : (if minus then -(n : Int) else n) < 2 ^ 31) :
    readInt s = some (if minus then -(n : Int) else n) := by
  have hds : ∀ b ∈ ascii (toString n), isDigit b = true := fun _ => isDigit_of_mem_toString
  have hend : ∀ b ∈ ([] : Bytes).head?, isDigit b = false := by simp
  have hwhile := takeWhile_digits hds hend
  rw [List.append_nil] at hwhile
  have hempty : (ascii (toString n)).isEmpty = false := by simpa using ascii_toString_ne_nil n
  simp only [readInt, leadingDigits, negative, hsplit, hwhile.1, hwhile.2, decimal_toString, hempty,
    List.all_nil, Bool.not_true, Bool.or_self, Bool.false_eq_true, if_false]
  exact if_pos ⟨hlow, hhigh⟩

/-- A printed `int` is read back. -/
theorem readInt_toString {i : Int} (hlow : -2 ^ 31 ≤ i) (hhigh : i < 2 ^ 31) :
    readInt (ascii (toString i)) = some i := by
  cases i with
  | ofNat n =>
      have hds : ∀ b ∈ ascii (toString n), isDigit b = true := fun _ => isDigit_of_mem_toString
      obtain ⟨hspace, hsign⟩ := digits_unsigned [] (ascii_toString_ne_nil n) hds
      rw [List.append_nil] at hspace hsign
      have hsplit : splitSign ((ascii (toString n)).dropWhile isSpace) =
          (false, ascii (toString n)) := by
        rw [hspace, hsign]
      exact readInt_of_split hsplit hlow hhigh
  | negSucc m =>
      have hsplit : splitSign ((45 :: ascii (toString (m + 1))).dropWhile isSpace) =
          (true, ascii (toString (m + 1))) := rfl
      rw [ascii_toString_negSucc]
      exact readInt_of_split hsplit hlow hhigh

end Printed

end Bytes
