/-
# A text cut at the occurrences of a pattern

A text is searched from its front: the first piece is what is before the leftmost occurrence of the
pattern, and the search goes on behind that occurrence. The pieces are determined by the text, and
put together again with the pattern between them they are the text.
-/
import Mathlib.Data.List.Basic
import Mathlib.Data.Nat.Find

namespace Occurrences

variable {α : Type*} {pat s piece piece' rest rest' : List α}

/-- The pattern is in the text, from position `i` on. -/
def OccursAt (pat s : List α) (i : Nat) : Prop := pat <+: s.drop i

/-- The leftmost occurrence is between `piece` and `rest`. -/
structure Cuts (pat s piece rest : List α) : Prop where
  eq : s = piece ++ (pat ++ rest)
  leftmost : ∀ i < piece.length, ¬OccursAt pat s i

/-- The text is cut at its leftmost occurrences of the pattern, none of which overlap. -/
inductive Pieces (pat : List α) : List α → List (List α) → Prop
  | last {s : List α} : (∀ i, ¬OccursAt pat s i) → Pieces pat s [s]
  | cut {s piece rest : List α} {pieces : List (List α)} :
      Cuts pat s piece rest → Pieces pat rest pieces → Pieces pat s (piece :: pieces)

/-! ## One occurrence -/

/-- The pattern occurs where the text is cut. -/
theorem Cuts.occurs (h : Cuts pat s piece rest) : OccursAt pat s piece.length := by
  refine ⟨rest, ?_⟩
  rw [h.eq, List.drop_left]

/-- There is one leftmost cut. -/
theorem Cuts.unique (h : Cuts pat s piece rest) (h' : Cuts pat s piece' rest') :
    piece = piece' ∧ rest = rest' := by
  have hlen : piece.length = piece'.length := by
    apply Nat.le_antisymm
    · exact Nat.le_of_not_lt fun hlt => h.leftmost _ hlt h'.occurs
    · exact Nat.le_of_not_lt fun hlt => h'.leftmost _ hlt h.occurs
  have htext : piece ++ (pat ++ rest) = piece' ++ (pat ++ rest') := h.eq.symm.trans h'.eq
  obtain ⟨rfl, hbehind⟩ := List.append_inj htext hlen
  exact ⟨rfl, List.append_cancel_left hbehind⟩

/-- The leftmost occurrence cuts the text. -/
theorem cuts_of_occurs {i : Nat} (h : OccursAt pat s i) (hleft : ∀ j < i, ¬OccursAt pat s j) :
    Cuts pat s (s.take i) (s.drop (i + pat.length)) := by
  rcases h with ⟨behind, hbehind⟩
  have hrest : s.drop (i + pat.length) = behind := by
    rw [← List.drop_drop, ← hbehind, List.drop_left]
  refine ⟨?_, fun j hj => hleft j ?_⟩
  · rw [hrest, hbehind, List.take_append_drop]
  · rw [List.length_take] at hj
    omega

theorem Cuts.length (h : Cuts pat s piece rest) :
    s.length = piece.length + (pat.length + rest.length) := by
  rw [h.eq, List.length_append, List.length_append]

/-! ## All occurrences -/

/-- A text has one sequence of pieces. -/
theorem Pieces.unique {ps qs : List (List α)} (h : Pieces pat s ps) (h' : Pieces pat s qs) :
    ps = qs := by
  induction h generalizing qs with
  | last hnone =>
      cases h' with
      | last => rfl
      | cut hcut => exact absurd hcut.occurs (hnone _)
  | cut hcut _ ih =>
      cases h' with
      | last hnone => exact absurd hcut.occurs (hnone _)
      | cut hcut' hrest' =>
          obtain ⟨rfl, rfl⟩ := hcut.unique hcut'
          rw [ih hrest']

/-- There is at least one piece. -/
theorem Pieces.ne_nil {ps : List (List α)} (h : Pieces pat s ps) : ps ≠ [] := by
  cases h with
  | last => exact List.cons_ne_nil _ _
  | cut => exact List.cons_ne_nil _ _

/-- Putting the pieces together with a text between them. -/
theorem Pieces.intercalate_cons {ps : List (List α)} (h : Pieces pat s ps) (sep piece : List α) :
    sep.intercalate (piece :: ps) = piece ++ (sep ++ sep.intercalate ps) := by
  cases ps with
  | nil => exact absurd rfl h.ne_nil
  | cons p ps => rw [List.intercalate_cons_cons, List.append_assoc]

/-- **Nothing but the pattern is cut out.** -/
theorem Pieces.intercalate {ps : List (List α)} (h : Pieces pat s ps) : pat.intercalate ps = s := by
  induction h with
  | last => exact List.intercalate_singleton
  | cut hcut hrest ih => rw [hrest.intercalate_cons, ih, hcut.eq]

/-- There are at most as many occurrences as characters. -/
theorem Pieces.length_le {ps : List (List α)} (hpat : pat ≠ []) (h : Pieces pat s ps) :
    ps.length ≤ s.length + 1 := by
  have hpos : 0 < pat.length := List.length_pos_iff.mpr hpat
  induction h with
  | last => exact Nat.succ_le_succ (Nat.zero_le _)
  | cut hcut _ ih =>
      have hlen := hcut.length
      rw [List.length_cons]
      omega

/-- **Every text can be cut.** -/
theorem exists_pieces (hpat : pat ≠ []) (s : List α) : ∃ ps, Pieces pat s ps := by
  classical
  by_cases hsome : ∃ i, OccursAt pat s i
  · have hcut := cuts_of_occurs (Nat.find_spec hsome) fun j hj => Nat.find_min hsome hj
    have hlen := hcut.length
    have hpos : 0 < pat.length := List.length_pos_iff.mpr hpat
    obtain ⟨ps, hps⟩ := exists_pieces hpat (s.drop (Nat.find hsome + pat.length))
    exact ⟨_, .cut hcut hps⟩
  · exact ⟨[s], .last fun i hi => hsome ⟨i, hi⟩⟩
termination_by s.length
decreasing_by omega

end Occurrences
