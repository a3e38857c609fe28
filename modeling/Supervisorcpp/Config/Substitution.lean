/-
# Variable substitution

`ProgramConfig::substitute_variables`: the loop searches the text it is editing, from behind the
name it has put in last. So what it searches is always the end of the input, and what it makes is
the input with its occurrences of the variable replaced in one pass.

That no replacement is searched again is therefore a property of the loop's variables, and the
result is unique by the uniqueness of leftmost cuts in `Lib.Occurrences`.
-/
import Supervisorcpp.Lib.Machine
import Supervisorcpp.Lib.Occurrences
import Supervisorcpp.Config.Options

namespace Supervisorcpp

open Bytes (ascii)

open Occurrences (Cuts Pieces)

/-- The one variable `substitute_variables` replaces. -/
def programName : Bytes := ascii "%(program_name)s"

/-! ## The loop -/

/-- The variables of the loop. -/
structure Substitution where
  result : Bytes
  pos : Nat
  deriving DecidableEq, Repr

/-- One turn: `find` and `replace`, and on behind the name. The loop ends where nothing is found. -/
def substituteTurn (name : Bytes) (s : Substitution) (_ : Unit) : Option Substitution :=
  (Bytes.find programName (s.result.drop s.pos)).map fun i =>
    { result := s.result.take (s.pos + i) ++ name ++ s.result.drop (s.pos + i + 16)
      pos := s.pos + i + name.length }

theorem substituteLoop_succ (name : Bytes) (n : Nat) (s : Substitution) :
    substituteLoop name (n + 1) s.result s.pos =
      match substituteTurn name s () with
      | none => s.result
      | some s' => substituteLoop name n s'.result s'.pos := by
  rw [substituteLoop, substituteTurn, programName]
  cases Bytes.find (ascii "%(program_name)s") (s.result.drop s.pos) with
  | none => rfl
  | some i => rfl

/-- The state in which `done` is behind the loop and `rest` before it. -/
def scanned (done rest : Bytes) : Substitution := ⟨done ++ rest, done.length⟩

variable {name done rest piece behind : Bytes}

/-- What `find` finds cuts the text. -/
theorem cuts_of_find {i : Nat} (h : Bytes.find programName rest = some i) :
    Cuts programName rest (rest.take i) (rest.drop (i + programName.length)) := by
  obtain ⟨hoccurs, hleft⟩ := Bytes.find_leftmost h
  exact Occurrences.cuts_of_occurs hoccurs hleft

/-- Without an occurrence the loop ends. -/
theorem substituteTurn_none (h : ∀ i, ¬Occurrences.OccursAt programName rest i) :
    substituteTurn name (scanned done rest) () = none := by
  have hnone : Bytes.find programName rest = none := by
    cases hfind : Bytes.find programName rest with
    | none => rfl
    | some i => exact absurd (Bytes.find_leftmost hfind).1 (h i)
  simp [substituteTurn, scanned, hnone]

/-- **One turn** takes the leftmost occurrence out of what is before the loop; the name it puts in is
behind the loop. -/
theorem substituteTurn_cut (h : Cuts programName rest piece behind) :
    substituteTurn name (scanned done rest) () = some (scanned (done ++ piece ++ name) behind) := by
  have hfind : Bytes.find programName rest = some piece.length := by
    cases hfind : Bytes.find programName rest with
    | none => exact absurd h.occurs (Bytes.find_none hfind _)
    | some i =>
        have hpiece : rest.take i = piece := ((cuts_of_find hfind).unique h).1
        have hfits := Bytes.find_length (by decide : programName ≠ []) hfind
        rw [← hpiece, List.length_take, Nat.min_eq_left (by omega)]
  have hbefore : (done ++ rest).take (done.length + piece.length) = done ++ piece := by
    rw [h.eq, ← List.append_assoc, ← List.length_append, List.take_left]
  have hafter : (done ++ rest).drop (done.length + piece.length + 16) = behind := by
    have hlen : done.length + piece.length + 16 = (done ++ piece ++ programName).length := by
      simp only [List.length_append]
      rfl
    have htext : done ++ rest = (done ++ piece ++ programName) ++ behind := by
      rw [h.eq]
      simp only [List.append_assoc]
    rw [hlen, htext, List.drop_left]
  simp only [substituteTurn, scanned, List.drop_left, hfind, Option.map_some, hbefore, hafter,
    List.length_append, List.append_assoc]
  congr 2
  omega

/-! ## Every run of the loop -/

/-- The loop goes through the pieces, and stops behind the last. -/
theorem run_pieces (name : Bytes) {pieces : List Bytes} (h : Pieces programName rest pieces)
    (done : Bytes) :
    ∃ last, Machine.run (substituteTurn name) (scanned done rest)
        (List.replicate (pieces.length - 1) ()) = some last ∧
      substituteTurn name last () = none ∧
      last.result = done ++ name.intercalate pieces := by
  induction h generalizing done with
  | last hnone =>
      refine ⟨_, rfl, substituteTurn_none hnone, ?_⟩
      rw [List.intercalate_singleton]
      rfl
  | @cut rest piece behind pieces hcut hbehind ih =>
      obtain ⟨last, hrun, hend, hresult⟩ := ih (done ++ piece ++ name)
      have hturns : (piece :: pieces).length - 1 = pieces.length - 1 + 1 := by
        have hpos := List.length_pos_iff.mpr hbehind.ne_nil
        rw [List.length_cons]
        omega
      refine ⟨last, ?_, hend, ?_⟩
      · rw [hturns, List.replicate_succ, Machine.run, substituteTurn_cut hcut]
        exact hrun
      · rw [hresult, hbehind.intercalate_cons]
        simp only [List.append_assoc]

/-- The bound on the turns in `substitute_variables` is never met. -/
theorem substituteLoop_run {n : Nat} {s last : Substitution}
    (hrun : Machine.run (substituteTurn name) s (List.replicate n ()) = some last)
    (hend : substituteTurn name last () = none) {fuel : Nat} (hfuel : n < fuel) :
    substituteLoop name fuel s.result s.pos = last.result := by
  induction n generalizing s fuel with
  | zero =>
      obtain rfl := Option.some.inj hrun
      obtain ⟨k, rfl⟩ := Nat.exists_eq_add_of_lt hfuel
      rw [substituteLoop_succ, hend]
  | succ n ih =>
      obtain ⟨k, rfl⟩ : ∃ k, fuel = k + 1 := ⟨fuel - 1, by omega⟩
      rw [List.replicate_succ] at hrun
      obtain ⟨s', hturn, hlater⟩ := Option.bind_eq_some_iff.mp hrun
      rw [substituteLoop_succ, hturn]
      exact ih hlater (by omega)

/-- What the loop still searches is the end of the input. -/
def SearchesInput (input : Bytes) (s : Substitution) : Prop :=
  ∃ done rest, s = scanned done rest ∧ rest <:+ input

/-- What is searched next is still a piece of the input, never of a replacement. -/
theorem searchesInput_turn {input : Bytes} {s s' : Substitution} (h : SearchesInput input s)
    (hturn : substituteTurn name s () = some s') : SearchesInput input s' := by
  obtain ⟨done, rest, rfl, hrest⟩ := h
  cases hfind : Bytes.find programName rest with
  | none =>
      rw [substituteTurn_none (Bytes.find_none hfind)] at hturn
      cases hturn
  | some i =>
      rw [substituteTurn_cut (cuts_of_find hfind)] at hturn
      refine ⟨_, _, (Option.some.inj hturn).symm, ?_⟩
      exact (List.drop_suffix _ rest).trans hrest

/-- **One pass.**  For every program name and input the loop ends, after at most as many turns as
the input has characters. What it returns is the input cut at its leftmost occurrences of the
variable, none of which overlap, and put together with the name. Whatever the name is, only the
input's own text is searched. -/
theorem substitution_one_pass (name input : Bytes) :
    (∃ pieces, (∀ ps, Pieces programName input ps ↔ ps = pieces) ∧
      substituteVariables name input = name.intercalate pieces) ∧
    (∃ turns last, turns ≤ input.length ∧
      Machine.run (substituteTurn name) ⟨input, 0⟩ (List.replicate turns ()) = some last ∧
      substituteTurn name last () = none ∧ last.result = substituteVariables name input) ∧
    (∀ s, Machine.Reach (substituteTurn name) Machine.anyStep (· = ⟨input, 0⟩) s →
      s.pos ≤ s.result.length ∧ s.result.drop s.pos <:+ input) := by
  have hpat : programName ≠ [] := by decide
  obtain ⟨pieces, hpieces⟩ := Occurrences.exists_pieces hpat input
  obtain ⟨last, hrun, hend, hresult⟩ := run_pieces name hpieces []
  have hturns : pieces.length - 1 ≤ input.length := by
    have hle := hpieces.length_le hpat
    omega
  have hvalue : substituteVariables name input = last.result :=
    substituteLoop_run hrun hend (Nat.lt_succ_of_le hturns)
  refine ⟨⟨pieces, fun ps => ?_, ?_⟩, ⟨_, last, hturns, hrun, hend, hvalue.symm⟩, ?_⟩
  · constructor
    · exact fun hps => hps.unique hpieces
    · rintro rfl
      exact hpieces
  · rw [hvalue, hresult, List.nil_append]
  · intro s hs
    have hsearch : SearchesInput input s := by
      refine hs.invariant ?_ fun s _ s' h _ hturn => searchesInput_turn h hturn
      rintro s rfl
      exact ⟨[], input, rfl, List.suffix_refl input⟩
    obtain ⟨done, rest, rfl, hrest⟩ := hsearch
    show done.length ≤ (done ++ rest).length ∧ (done ++ rest).drop done.length <:+ input
    rw [List.drop_left, List.length_append]
    exact ⟨Nat.le_add_right _ _, hrest⟩

/-- A name that contains the variable is put in as it is. -/
example : substituteVariables (ascii "x%(program_name)s") (ascii "a%(program_name)s.log") =
    ascii "ax%(program_name)s.log" := by decide

/-- With an empty name the two halves of the variable join, and stay. -/
example : substituteVariables [] (ascii "%(program_%(program_name)sname)s") =
    ascii "%(program_name)s" := by decide

end Supervisorcpp
