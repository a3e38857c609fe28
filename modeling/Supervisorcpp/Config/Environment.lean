/-
# The environment option reads back what is written in quotes

A value in double or single quotes, with the quote and the backslash escaped, is read back whatever
bytes it has, and the commas between entries are found behind any number of spaces. So a list of
entries with distinct keys is read as the map it is.
-/
import Supervisorcpp.Config.Options

namespace Supervisorcpp

open Bytes (isSpace)

/-! ## What is written -/

/-- The quotes a value may stand in. -/
def IsQuote (quote : UInt8) : Prop := quote = 34 ∨ quote = 39

/-- The value with the quote and the backslash behind a backslash. -/
def escaped (quote : UInt8) (value : Bytes) : Bytes :=
  value.flatMap fun c => if c = quote ∨ c = 92 then [92, c] else [c]

/-- `KEY="value"`, or the same with single quotes. -/
def entryText (quote : UInt8) (entry : Bytes × Bytes) : Bytes :=
  entry.1 ++ 61 :: quote :: (escaped quote entry.2 ++ [quote])

/-- The spaces before or behind a comma. -/
def spaces (n : Nat) : Bytes := List.replicate n 32

/-- Entries joined by commas with any number of spaces before and after them. -/
inductive Joined : List (Bytes × Bytes) → Bytes → Prop
  | one {quote : UInt8} (hquote : IsQuote quote) (entry : Bytes × Bytes) :
      Joined [entry] (entryText quote entry)
  | cons {quote : UInt8} (hquote : IsQuote quote) (entry : Bytes × Bytes)
      {entries : List (Bytes × Bytes)} {text : Bytes} (before after : Nat) :
      Joined entries text →
      Joined (entry :: entries)
        (entryText quote entry ++ (spaces before ++ 44 :: (spaces after ++ text)))

/-- A key of one or more letters, digits and underscores. -/
def IsKey (key : Bytes) : Prop := key ≠ [] ∧ ∀ b ∈ key, isKeyChar b = true

/-! ## One value -/

section Reading

variable {quote : UInt8} {key value rest : Bytes}

theorem quotedBody_cons {c : UInt8} {cs : Bytes} (hc : c ≠ quote) (hescape : c ≠ 92) (hcs : cs ≠ []) :
    quotedBody quote (c :: cs) = (c :: (quotedBody quote cs).1, (quotedBody quote cs).2) := by
  cases cs with
  | nil => exact absurd rfl hcs
  | cons d ds =>
      conv => lhs; unfold quotedBody
      split
      · next h => cases h
      · next h => cases h
      · next h =>
          obtain ⟨rfl, _⟩ := List.cons.inj h
          exact absurd rfl hescape
      · next h =>
          obtain ⟨rfl, rfl⟩ := List.cons.inj h
          rw [if_neg hc]

/-- The quote ends the value. -/
theorem quotedBody_quote (hquote : IsQuote quote) (rest : Bytes) :
    quotedBody quote (quote :: rest) = ([], quote :: rest) := by
  cases rest with
  | nil => simp [quotedBody]
  | cons d ds => rcases hquote with rfl | rfl <;> simp [quotedBody]

/-- **A quoted value is read back**, up to its closing quote. -/
theorem quotedBody_escaped (hquote : IsQuote quote) (value rest : Bytes) :
    quotedBody quote (escaped quote value ++ quote :: rest) = (value, quote :: rest) := by
  induction value with
  | nil => exact quotedBody_quote hquote rest
  | cons c value ih =>
      by_cases hc : c = quote ∨ c = 92
      · have htext : escaped quote (c :: value) ++ quote :: rest =
            92 :: c :: (escaped quote value ++ quote :: rest) := by
          simp [escaped, hc]
        rw [htext, quotedBody, ih]
      · have htext : escaped quote (c :: value) ++ quote :: rest =
            c :: (escaped quote value ++ quote :: rest) := by
          simp [escaped, hc]
        rw [not_or] at hc
        rw [htext, quotedBody_cons hc.1 hc.2 (by simp), ih]

/-- An escaped value is read back, and what follows its quote is left. -/
theorem quoted_escaped (hquote : IsQuote quote) (value rest : Bytes) :
    quoted quote (quote :: (escaped quote value ++ quote :: rest)) = (value, some rest) := by
  simp [quoted, quotedBody_escaped hquote]

/-- The value rule takes the quoted form. -/
theorem envValue_quoted (hquote : IsQuote quote) (value rest : Bytes) :
    envValue (quote :: (escaped quote value ++ quote :: rest)) = (value, rest) := by
  rcases hquote with rfl | rfl
  · simp [envValue, quoted_escaped (Or.inl rfl)]
  -- the double quoted rule fails at its first character and has read nothing
  · have hdouble : quoted 34 (39 :: (escaped 39 value ++ 39 :: rest)) = ([], none) := by
      simp [quoted]
    simp [envValue, hdouble, quoted_escaped (Or.inr rfl)]

/-! ## One entry -/

theorem isSpace_of_isKeyChar {b : UInt8} (h : isKeyChar b = true) : isSpace b = false := by
  simp only [isKeyChar, isSpace, decide_eq_true_eq, decide_eq_false_iff_not,
    UInt8.le_iff_toNat_le, ← UInt8.toNat_inj, UInt8.reduceToNat] at h ⊢
  omega

theorem dropWhile_spaces (n : Nat) {b : UInt8} {rest : Bytes} (hb : isSpace b = false) :
    (spaces n ++ b :: rest).dropWhile isSpace = b :: rest := by
  have hspaces : ∀ c ∈ spaces n, isSpace c = true := by
    intro c hc
    rw [List.eq_of_mem_replicate hc]
    rfl
  rw [List.dropWhile_append_of_pos hspaces]
  exact List.dropWhile_cons_of_neg (by simp [hb])

/-- A written entry is read back, with blanks before it. -/
theorem envPair_entry (hquote : IsQuote quote) (hkey : IsKey key) (n : Nat) (value rest : Bytes) :
    envPair (spaces n ++ (entryText quote (key, value) ++ rest)) = some ((key, value), rest) := by
  obtain ⟨hne, hchars⟩ := hkey
  set tail := quote :: (escaped quote value ++ quote :: rest) with htail
  have htext : entryText quote (key, value) ++ rest = key ++ 61 :: tail := by
    simp [entryText, htail]
  have hdrop : (spaces n ++ (key ++ 61 :: tail)).dropWhile isSpace = key ++ 61 :: tail := by
    cases key with
    | nil => exact absurd rfl hne
    | cons b key => exact dropWhile_spaces n (isSpace_of_isKeyChar (hchars b List.mem_cons_self))
  have htake : (key ++ 61 :: tail).takeWhile isKeyChar = key := by
    rw [List.takeWhile_append_of_pos hchars]
    simp [isKeyChar]
  have hrest : ((key ++ 61 :: tail).dropWhile isKeyChar).dropWhile isSpace = 61 :: tail := by
    rw [List.dropWhile_append_of_pos hchars]
    simp [isKeyChar, isSpace]
  have hquoteSpace : tail.dropWhile isSpace = tail := by
    rw [htail]
    rcases hquote with rfl | rfl <;> exact List.dropWhile_cons_of_neg (by decide)
  rw [htext]
  simp only [envPair, hdrop, htake, hne, if_false, hrest, hquoteSpace]
  rw [htail, envValue_quoted hquote]

end Reading

/-! ## All entries -/

/-- A list of entries is read from its first entry on; what follows it are the other entries, each of
them with at least its comma. -/
theorem Joined.reads {entries : List (Bytes × Bytes)} {text : Bytes} (h : Joined entries text)
    (hkeys : ∀ entry ∈ entries, IsKey entry.1) :
    ∃ entry more rest, entries = entry :: more ∧
      (more.length ≤ rest.length ∧ rest.length ≤ text.length) ∧
      (∀ n, envPair (spaces n ++ text) = some (entry, rest)) ∧
      ∀ n, more.length ≤ n → envPairs n rest = (more, []) := by
  induction h with
  | one hquote entry =>
      refine ⟨entry, [], [], rfl, ⟨Nat.le_refl _, Nat.zero_le _⟩, fun n => ?_, fun n _ => ?_⟩
      · simpa using envPair_entry hquote (hkeys entry List.mem_cons_self) n entry.2 []
      · cases n <;> rfl
  | @cons quote hquote entry entries text before after _ ih =>
      obtain ⟨hentry, hentries⟩ := List.forall_mem_cons.mp hkeys
      obtain ⟨next, more, rest, rfl, ⟨hlen, htext⟩, hnext, hmore⟩ := ih hentries
      obtain ⟨others, hothers⟩ : ∃ others, spaces before ++ 44 :: (spaces after ++ text) = others :=
        ⟨_, rfl⟩
      rw [hothers]
      have hotherLen : text.length + 1 ≤ others.length := by
        rw [← hothers]
        simp only [List.length_append, List.length_cons]
        omega
      refine ⟨entry, next :: more, others, rfl, ⟨?_, ?_⟩,
        fun n => envPair_entry hquote hentry n entry.2 others, fun n hn => ?_⟩
      · rw [List.length_cons]
        omega
      · rw [List.length_append]
        omega
      · obtain ⟨n, rfl⟩ : ∃ m, n = m + 1 := ⟨n - 1, by simp at hn; omega⟩
        have hcomma : others.dropWhile isSpace = 44 :: (spaces after ++ text) := by
          rw [← hothers]
          exact dropWhile_spaces before (by decide)
        simp only [envPairs, hcomma, hnext after, hmore n (by simpa using hn)]

/-- Keys in order, as `std::map` keeps them. -/
def KeySorted (map : List (Bytes × Bytes)) : Prop := map.Pairwise fun a b => a.1 < b.1

/-- A new key adds its entry and changes no other. -/
theorem insertPair_perm {pair : Bytes × Bytes} {map : List (Bytes × Bytes)}
    (hnew : pair.1 ∉ map.map Prod.fst) : (insertPair pair map).Perm (pair :: map) := by
  induction map with
  | nil => exact List.Perm.refl _
  | cons entry map ih =>
      rw [List.map_cons, List.mem_cons, not_or] at hnew
      unfold insertPair
      split
      · exact List.Perm.refl _
      · rw [if_neg hnew.1]
        exact ((ih hnew.2).cons entry).trans (List.Perm.swap pair entry map)

theorem mem_insertPair {pair entry : Bytes × Bytes} {map : List (Bytes × Bytes)}
    (h : entry ∈ insertPair pair map) : entry = pair ∨ entry ∈ map := by
  induction map with
  | nil => exact Or.inl (List.mem_singleton.mp h)
  | cons first map ih =>
      unfold insertPair at h
      split at h
      · exact List.mem_cons.mp h
      · split at h
        · exact Or.inr h
        · rcases List.mem_cons.mp h with rfl | h
          · exact Or.inr List.mem_cons_self
          · exact (ih h).imp_right (List.mem_cons_of_mem _)

/-- The map stays in the order of its keys. -/
theorem insertPair_sorted {pair : Bytes × Bytes} {map : List (Bytes × Bytes)}
    (h : KeySorted map) : KeySorted (insertPair pair map) := by
  induction map with
  | nil => exact List.pairwise_singleton _ _
  | cons entry map ih =>
      obtain ⟨hentry, hmap⟩ := List.pairwise_cons.mp h
      unfold insertPair
      split
      · next hlt =>
          refine List.pairwise_cons.mpr ⟨fun e he => ?_, h⟩
          rcases List.mem_cons.mp he with rfl | he
          · exact hlt
          · exact List.lt_trans hlt (hentry e he)
      · next hnot =>
          split
          · exact h
          · next hne =>
              have hgt : entry.1 < pair.1 := by
                rcases Std.Trichotomous.rel_or_eq_or_rel_swap
                  (r := fun a b : Bytes => a < b) (a := pair.1) (b := entry.1) with hlt | heq | hgt
                · exact absurd hlt hnot
                · exact absurd heq hne
                · exact hgt
              refine List.pairwise_cons.mpr ⟨fun e he => ?_, ih hmap⟩
              rcases mem_insertPair he with rfl | he
              · exact hgt
              · exact hentry e he

/-- Entries with distinct keys are all in the map, in the order of their keys. -/
theorem foldl_insertPair {entries map : List (Bytes × Bytes)} (hmap : KeySorted map)
    (hdistinct : ((map ++ entries).map Prod.fst).Nodup) :
    (entries.foldl (fun map pair => insertPair pair map) map).Perm (map ++ entries) ∧
      KeySorted (entries.foldl (fun map pair => insertPair pair map) map) := by
  induction entries generalizing map with
  | nil => exact ⟨by simp, hmap⟩
  | cons pair entries ih =>
      have hmiddle : (map ++ pair :: entries).Perm (pair :: map ++ entries) := List.perm_middle
      have hnew : pair.1 ∉ map.map Prod.fst := by
        have hnodup := (hmiddle.map Prod.fst).nodup_iff.mp hdistinct
        rw [List.cons_append, List.map_cons, List.map_append] at hnodup
        exact fun hmem => (List.nodup_cons.mp hnodup).1 (List.mem_append_left _ hmem)
      have hinsert := insertPair_perm hnew
      have hall : (insertPair pair map ++ entries).Perm (map ++ pair :: entries) :=
        (hinsert.append_right entries).trans hmiddle.symm
      obtain ⟨hperm, hsorted⟩ := ih (insertPair_sorted hmap)
        ((hall.map Prod.fst).nodup_iff.mpr hdistinct)
      exact ⟨hperm.trans hall, hsorted⟩

/-- **The environment round trip.**  Whatever the values (commas, quotes, backslashes, blanks and
equals signs among them), entries with distinct keys that are written in quotes and joined by commas
are accepted and, sanitized, are the map that was written. -/
theorem environment_round_trip (entries : List (Bytes × Bytes)) (text : Bytes)
    (htext : Joined entries text) (hkeys : ∀ entry ∈ entries, IsKey entry.1)
    (hdistinct : (entries.map Prod.fst).Nodup) (hvalues : ∀ entry ∈ entries, 0 ∉ entry.2) :
    ∃ env, parseEnvironment text = .ok env ∧ (sanitizeEnvironment env).Perm entries ∧
      KeySorted (sanitizeEnvironment env) := by
  obtain ⟨entry, more, rest, hentries, ⟨hlen, -⟩, hfirst, hmore⟩ := htext.reads hkeys
  have hpair : envPair text = some (entry, rest) := hfirst 0
  have hparse : parseEnvironment text =
      .ok (entries.foldl (fun map pair => insertPair pair map) []) := by
    simp [parseEnvironment, hpair, hmore rest.length hlen, hentries]
  have hempty : KeySorted [] := List.Pairwise.nil
  obtain ⟨hperm, hsorted⟩ := foldl_insertPair hempty hdistinct
  rw [List.nil_append] at hperm
  refine ⟨_, hparse, ?_⟩
  -- sanitizing drops nothing
  have hkept : sanitizeEnvironment (entries.foldl (fun map pair => insertPair pair map) []) =
      entries.foldl (fun map pair => insertPair pair map) [] := by
    apply List.filter_eq_self.mpr
    intro entry hentry
    have hmem := hperm.mem_iff.mp hentry
    obtain ⟨hne, hchars⟩ := hkeys entry hmem
    have hnul := hvalues entry hmem
    simp [hne, hnul, List.all_eq_true.mpr hchars]
  rw [hkept]
  exact ⟨hperm, hsorted⟩

/-- `B="a,\"" , A='=\''`: a comma and a double quote in double quotes, a single quote in single
ones, the keys not in order. -/
theorem environment_round_trip_two : ∃ env,
    parseEnvironment [66, 61, 34, 97, 44, 92, 34, 34, 32, 44, 32, 65, 61, 39, 61, 92, 39, 39] =
      .ok env ∧ (sanitizeEnvironment env).Perm [([66], [97, 44, 34]), ([65], [61, 39])] ∧
      KeySorted (sanitizeEnvironment env) := by
  refine environment_round_trip _ _
    (.cons (Or.inl rfl) ([66], [97, 44, 34]) 1 1 (.one (Or.inr rfl) ([65], [61, 39]))) ?_ ?_ ?_
  · simp [IsKey, isKeyChar]
  · decide
  · decide

end Supervisorcpp
