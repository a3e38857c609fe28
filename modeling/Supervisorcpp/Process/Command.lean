/-
# Two readings of a command

A command is read twice. `validate_command_path` cuts it at the first space and checks the file of
that name; the child splits it with `parse_command_`, which knows double quotes and backslashes, and
executes the first argument. The two agree exactly where the first word has neither.

The scanner of `parse_command_` decides from the bytes it has collected whether there is an
argument, so a quoted empty argument is not one.

The lemmas about the scanner say what one character can do to it and what a word of plain characters
does. A command that is written by quoting its arguments is read back argument by argument, except
for empty ones.
-/
import Supervisorcpp.Util.Secure

namespace Supervisorcpp

open Bytes (ascii)

/-- What the loop of `parse_command_` carries from one character to the next. -/
structure Scan where
  args : List Bytes := []
  current : Bytes := []
  inQuotes : Bool := false
  escapeNext : Bool := false
  deriving DecidableEq

namespace Scan

/-- One character of the command. -/
def step (st : Scan) (c : UInt8) : Scan :=
  if st.escapeNext then { st with current := st.current ++ [c], escapeNext := false }
  else if c = 92 then { st with escapeNext := true }
  else if c = 34 then { st with inQuotes := !st.inQuotes }
  else if c = 32 ∧ st.inQuotes = false then
    if st.current ≠ [] then { st with args := st.args ++ [st.current], current := [] } else st
  else { st with current := st.current ++ [c] }

/-- The loop over the characters. -/
def run (st : Scan) (cs : Bytes) : Scan := cs.foldl step st

/-- The arguments at the end of the command. -/
def finish (st : Scan) : List Bytes := if st.current ≠ [] then st.args ++ [st.current] else st.args

end Scan

/-- `Process::parse_command_`, on the bytes of `config_.command`. -/
def parseCommand (command : Bytes) : List Bytes := (Scan.run {} command).finish

namespace Scan

variable {st : Scan} {c : UInt8} {cs : Bytes}

@[simp] theorem run_nil (st : Scan) : st.run [] = st := rfl

@[simp] theorem run_cons (st : Scan) (c : UInt8) (cs : Bytes) :
    st.run (c :: cs) = (st.step c).run cs := rfl

/-- A command is scanned piece by piece. -/
theorem run_append (st : Scan) (cs ds : Bytes) : st.run (cs ++ ds) = (st.run cs).run ds :=
  List.foldl_append

/-! ## What a character can do -/

/-- A character ends an argument, is added to it, or is only noted. -/
theorem step_cases (st : Scan) (c : UInt8) :
    (c = 32 ∧ st.escapeNext = false ∧ st.inQuotes = false ∧ st.current ≠ [] ∧
      st.step c = { st with args := st.args ++ [st.current], current := [] }) ∨
    ((st.step c).args = st.args ∧ (st.step c).current = st.current ++ [c]) ∨
    ((st.step c).args = st.args ∧ (st.step c).current = st.current ∧
      (c = 32 → st.current = [])) := by
  unfold step
  split
  · exact .inr (.inl ⟨rfl, rfl⟩)
  · next hesc =>
      split
      · next hc => exact .inr (.inr ⟨rfl, rfl, fun h => by simp [hc] at h⟩)
      · split
        · next hc => exact .inr (.inr ⟨rfl, rfl, fun h => by simp [hc] at h⟩)
        · split
          · next hspace =>
              split
              · next hcur =>
                  exact .inl ⟨hspace.1, by simpa using hesc, hspace.2, hcur, rfl⟩
              · next hcur => exact .inr (.inr ⟨rfl, rfl, fun _ => by simpa using hcur⟩)
          · exact .inr (.inl ⟨rfl, rfl⟩)

/-- Arguments are never taken back. -/
theorem args_run (st : Scan) (cs : Bytes) : st.args <+: (st.run cs).args := by
  induction cs generalizing st with
  | nil => exact List.prefix_refl _
  | cons c cs ih =>
      have hstep : st.args <+: (st.step c).args := by
        rcases step_cases st c with ⟨_, _, _, _, h⟩ | ⟨h, _⟩ | ⟨h, _⟩
        · rw [h]
          exact List.prefix_append _ _
        · rw [h]
        · rw [h]
      exact hstep.trans (ih _)

/-- Words that are complete stay. -/
theorem args_prefix_finish (st : Scan) (cs : Bytes) : st.args <+: (st.run cs).finish := by
  refine (args_run st cs).trans ?_
  unfold finish
  split
  · exact List.prefix_append _ _
  · exact List.prefix_refl _

/-- The first argument begins with what is collected of it. -/
theorem head_finish (hargs : st.args = []) (hcur : st.current ≠ []) (cs : Bytes) :
    ∃ more, (st.run cs).finish.head? = some (st.current ++ more) := by
  induction cs generalizing st with
  | nil => exact ⟨[], by simp [finish, hargs, hcur]⟩
  | cons c cs ih =>
      rw [run_cons]
      rcases step_cases st c with ⟨_, _, _, _, h⟩ | ⟨ha, hc⟩ | ⟨ha, hc, _⟩
      · obtain ⟨rest, hrest⟩ := args_prefix_finish (st.step c) cs
        refine ⟨[], ?_⟩
        rw [← hrest, h, hargs]
        simp
      · obtain ⟨more, hmore⟩ := @ih (st.step c) (by rw [ha, hargs]) (by simp [hc])
        refine ⟨c :: more, ?_⟩
        rw [hmore, hc]
        simp
      · obtain ⟨more, hmore⟩ := @ih (st.step c) (by rw [ha, hargs]) (by rwa [hc])
        refine ⟨more, ?_⟩
        rw [hmore, hc]

/-- Characters other than the space add at most themselves. -/
theorem run_word (st : Scan) (h : 32 ∉ cs) :
    (st.run cs).args = st.args ∧ st.current <+: (st.run cs).current ∧
      (st.run cs).current.length ≤ st.current.length + cs.length := by
  induction cs generalizing st with
  | nil => exact ⟨rfl, List.prefix_refl _, le_rfl⟩
  | cons c cs ih =>
      rw [List.mem_cons, not_or] at h
      obtain ⟨hargs, hpre, hlen⟩ := ih (st.step c) h.2
      rw [run_cons, List.length_cons]
      rcases step_cases st c with ⟨hc, _⟩ | ⟨ha, hc⟩ | ⟨ha, hc, _⟩
      · exact absurd hc.symm h.1
      · rw [hc] at hpre hlen
        refine ⟨hargs.trans ha, (List.prefix_append _ _).trans hpre, ?_⟩
        rw [List.length_append, List.length_singleton] at hlen
        omega
      · rw [hc] at hpre hlen
        exact ⟨hargs.trans ha, hpre, by omega⟩

/-- Neither a space nor a character with a meaning of its own. -/
def Plain (c : UInt8) : Prop := c ≠ 32 ∧ c ≠ 34 ∧ c ≠ 92

/-- Plain characters go to the current word. -/
theorem run_plain (hesc : st.escapeNext = false) (h : ∀ c ∈ cs, Plain c) :
    st.run cs = { st with current := st.current ++ cs } := by
  induction cs generalizing st with
  | nil => simp
  | cons c cs ih =>
      obtain ⟨hspace, hquote, hback⟩ := h c List.mem_cons_self
      have hstep : st.step c = { st with current := st.current ++ [c] } := by
        simp [step, hesc, hback, hquote, hspace]
      rw [run_cons, hstep, ih (by exact hesc) fun d hd => h d (List.mem_cons_of_mem _ hd)]
      simp

end Scan

/-! ## The program that is executed -/

section FirstWord

variable {command : Bytes}

/-- A command is its first word, and a space follows it unless it is all there is. -/
theorem cmdPath_split (command : Bytes) :
    ∃ rest, command = cmdPath command ++ rest ∧ (rest = [] ∨ ∃ tail, rest = 32 :: tail) := by
  refine ⟨command.dropWhile (· != 32), (List.takeWhile_append_dropWhile).symm, ?_⟩
  cases hrest : command.dropWhile (· != 32) with
  | nil => exact .inl rfl
  | cons c tail =>
      have hc := List.head?_dropWhile_not (· != 32) command
      simp only [hrest, List.head?_cons] at hc
      exact .inr ⟨tail, by simpa using hc⟩

theorem space_not_mem_cmdPath (command : Bytes) : 32 ∉ cmdPath command := by
  intro h
  simpa using List.mem_takeWhile_imp h

/-- A first word of plain characters is the first argument. -/
theorem head_parseCommand_of_plain (hne : cmdPath command ≠ [])
    (hplain : ∀ c ∈ cmdPath command, Scan.Plain c) :
    (parseCommand command).head? = some (cmdPath command) := by
  obtain ⟨rest, hsplit, hrest⟩ := cmdPath_split command
  have hword : Scan.run {} (cmdPath command) = { current := cmdPath command } :=
    Scan.run_plain rfl hplain
  rw [parseCommand, hsplit]
  rw [Scan.run_append, ← hsplit, hword]
  rcases hrest with rfl | ⟨tail, rfl⟩
  · simp [Scan.finish, hne]
  · have hstep : Scan.step { current := cmdPath command } 32 = { args := [cmdPath command] } := by
      simp [Scan.step, hne]
    rw [Scan.run_cons, hstep]
    obtain ⟨more, hmore⟩ := Scan.args_prefix_finish { args := [cmdPath command] } tail
    rw [← hmore]
    rfl

/-- The first quote or backslash of a word. -/
theorem exists_first_special {w : Bytes} (h : 34 ∈ w ∨ 92 ∈ w) :
    ∃ u c v, w = u ++ c :: v ∧ (∀ b ∈ u, b ≠ 34 ∧ b ≠ 92) ∧ (c = 34 ∨ c = 92) := by
  induction w with
  | nil => simp at h
  | cons b w ih =>
      by_cases hb : b = 34 ∨ b = 92
      · exact ⟨[], b, w, rfl, by simp, hb⟩
      · rw [not_or] at hb
        have hw : 34 ∈ w ∨ 92 ∈ w := by
          simpa [Ne.symm hb.1, Ne.symm hb.2] using h
        obtain ⟨u, c, v, rfl, hu, hc⟩ := ih hw
        exact ⟨b :: u, c, v, rfl, List.forall_mem_cons.mpr ⟨hb, hu⟩, hc⟩

/-- A first word with a quote or a backslash loses at least that character. -/
theorem run_special {w : Bytes} (hhead : w.head? = some 47) (hspace : 32 ∉ w)
    (hspecial : 34 ∈ w ∨ 92 ∈ w) :
    (Scan.run {} w).args = [] ∧ (Scan.run {} w).current ≠ [] ∧
      (Scan.run {} w).current.length < w.length := by
  obtain ⟨u, c, v, rfl, hu, hc⟩ := exists_first_special hspecial
  have hune : u ≠ [] := by
    rintro rfl
    rcases hc with rfl | rfl <;> simp at hhead
  rw [List.mem_append, List.mem_cons, not_or, not_or] at hspace
  have hplain : ∀ b ∈ u, Scan.Plain b := by
    intro b hb
    exact ⟨fun heq => hspace.1 (heq ▸ hb), hu b hb⟩
  have hstep : (Scan.step { current := u } c).args = [] ∧
      (Scan.step { current := u } c).current = u := by
    rcases hc with rfl | rfl <;> exact ⟨rfl, rfl⟩
  obtain ⟨hargs, hpre, hlen⟩ := Scan.run_word (Scan.step { current := u } c) hspace.2.2
  rw [Scan.run_append, Scan.run_plain rfl hplain, Scan.run_cons]
  simp only [List.nil_append]
  rw [hstep.2] at hpre hlen
  refine ⟨hargs.trans hstep.1, fun hnil => hune (List.prefix_nil.mp (hnil ▸ hpre)), ?_⟩
  rw [List.length_append, List.length_cons]
  omega

/-- So the first argument is not the first word: it is shorter, or it goes on over the space. -/
theorem head_parseCommand_of_special (hhead : (cmdPath command).head? = some 47)
    (hspecial : 34 ∈ cmdPath command ∨ 92 ∈ cmdPath command) :
    (parseCommand command).head? ≠ some (cmdPath command) := by
  have hspace := space_not_mem_cmdPath command
  obtain ⟨hargs, hcur, hlen⟩ := run_special hhead hspace hspecial
  obtain ⟨rest, hsplit, hrest⟩ := cmdPath_split command
  have hparse : parseCommand command = ((Scan.run {} (cmdPath command)).run rest).finish := by
    rw [parseCommand, ← Scan.run_append, ← hsplit]
  rw [hparse]
  generalize Scan.run {} (cmdPath command) = st at hargs hcur hlen
  have hshort : st.current ≠ cmdPath command := fun heq => by simp [heq] at hlen
  rcases hrest with rfl | ⟨tail, rfl⟩
  · simpa [Scan.finish, hargs, hcur] using hshort
  · rw [Scan.run_cons]
    rcases Scan.step_cases st 32 with ⟨_, _, _, _, h⟩ | ⟨ha, hc⟩ | ⟨_, _, h⟩
    · obtain ⟨more, hmore⟩ := Scan.args_prefix_finish (st.step 32) tail
      rw [← hmore, h, hargs]
      simpa using hshort
    · obtain ⟨more, hmore⟩ := @Scan.head_finish (st.step 32) (ha.trans hargs) (by simp [hc]) tail
      rw [hmore, hc]
      intro heq
      exact hspace (by simp [← Option.some.inj heq])
    · exact absurd (h rfl) hcur

/-- What is validated is what is executed exactly when the first word of the command has neither a
quote nor a backslash. -/
theorem validated_command_executed_iff (fs : Files) (command : Bytes)
    (h : validateCommandPath fs command = .ok ()) :
    (parseCommand command ≠ [] ∧ (parseCommand command).head? = some (cmdPath command)) ↔
      34 ∉ cmdPath command ∧ 92 ∉ cmdPath command := by
  have hhead : (cmdPath command).head? = some 47 := by
    by_contra hne
    simp [validateCommandPath, hne] at h
  constructor
  · rintro ⟨-, hexec⟩
    by_contra hspecial
    rw [not_and_or, not_not, not_not] at hspecial
    exact head_parseCommand_of_special hhead hspecial hexec
  · rintro ⟨hquote, hback⟩
    have hne : cmdPath command ≠ [] := fun hnil => by simp [hnil] at hhead
    have hplain : ∀ c ∈ cmdPath command, Scan.Plain c := by
      intro c hc
      refine ⟨?_, ?_, ?_⟩
      · exact fun heq => space_not_mem_cmdPath command (heq ▸ hc)
      · exact fun heq => hquote (heq ▸ hc)
      · exact fun heq => hback (heq ▸ hc)
    have hexec := head_parseCommand_of_plain hne hplain
    exact ⟨fun hnil => by simp [hnil] at hexec, hexec⟩

end FirstWord

/-- An executable `/a"b` and another one `/ab`. -/
def quotedName : Files where
  nodes := [([.ofAscii "a\"b"], .regular ⟨0, 0o755, []⟩),
    ([.ofAscii "ab"], .regular ⟨0, 0o755, []⟩)]
  cwd := []
  distinct := by decide +kernel
  tree := by decide +kernel
  cwdDirectory := by decide +kernel

theorem ab_executed : validateCommandPath quotedName (ascii "/ab \"x y\"") = .ok () ∧
    ((parseCommand (ascii "/ab \"x y\"") ≠ [] ∧
        (parseCommand (ascii "/ab \"x y\"")).head? = some (cmdPath (ascii "/ab \"x y\""))) ↔
      34 ∉ cmdPath (ascii "/ab \"x y\"") ∧ 92 ∉ cmdPath (ascii "/ab \"x y\"")) := by
  have hvalid : validateCommandPath quotedName (ascii "/ab \"x y\"") = .ok () := by decide +kernel
  exact ⟨hvalid, validated_command_executed_iff quotedName _ hvalid⟩

/-- For the command `/a"b` the file of that name is checked, and `/ab` is executed. -/
theorem quoted_name_executes_another : ¬ ∀ (fs : Files) (command : Bytes),
    validateCommandPath fs command = .ok () →
      parseCommand command ≠ [] ∧ (parseCommand command).head? = some (cmdPath command) := by
  intro h
  have hexec := (h quotedName (ascii "/a\"b") (by decide +kernel)).2
  revert hexec
  decide +kernel

/-! ## Quoted arguments -/

/-- An argument between double quotes, its quotes and backslashes escaped. -/
def quoteArg (arg : Bytes) : Bytes :=
  34 :: arg.flatMap (fun c => if c = 34 ∨ c = 92 then [92, c] else [c]) ++ [34]

/-- A command that is the quoted arguments with one or more spaces between them. -/
inductive Written : List Bytes → Bytes → Prop
  | nil : Written [] []
  | last (arg : Bytes) : Written [arg] (quoteArg arg)
  | cons (arg : Bytes) (n : Nat) {next : Bytes} {args : List Bytes} {command : Bytes} :
      Written (next :: args) command →
        Written (arg :: next :: args) (quoteArg arg ++ List.replicate (n + 1) 32 ++ command)

namespace Scan

variable {st : Scan}

/-- Between quotes an escaped argument is collected as it was. -/
theorem run_escaped (hesc : st.escapeNext = false) (hq : st.inQuotes = true) (arg : Bytes) :
    st.run (arg.flatMap fun c => if c = 34 ∨ c = 92 then [92, c] else [c]) =
      { st with current := st.current ++ arg } := by
  induction arg generalizing st with
  | nil => simp
  | cons c arg ih =>
      have hchar : st.run (if c = 34 ∨ c = 92 then [92, c] else [c]) =
          { st with current := st.current ++ [c] } := by
        split
        · cases st
          simp_all [step]
        · next hc =>
            rw [not_or] at hc
            simp [step, hesc, hq, hc.1, hc.2]
      rw [List.flatMap_cons, run_append, hchar, ih (by exact hesc) (by exact hq)]
      simp

/-- A quoted argument goes to the current word as it was. -/
theorem run_quoteArg (hesc : st.escapeNext = false) (hq : st.inQuotes = false) (arg : Bytes) :
    st.run (quoteArg arg) = { st with current := st.current ++ arg } := by
  have hopen : st.step 34 = { st with inQuotes := true } := by simp [step, hesc, hq]
  rw [quoteArg, List.cons_append, run_cons, hopen, run_append, run_escaped (by exact hesc) rfl]
  cases st
  simp_all [step]

/-- Spaces outside quotes end the argument, if there is one. -/
theorem run_spaces (hesc : st.escapeNext = false) (hq : st.inQuotes = false) (n : Nat) :
    st.run (List.replicate (n + 1) 32) = { st with args := st.finish, current := [] } := by
  have hstep : st.step 32 = { st with args := st.finish, current := [] } := by
    by_cases hcur : st.current = []
    · cases st
      simp_all [step, finish]
    · simp [step, finish, hesc, hq, hcur]
  rw [List.replicate_succ, run_cons, hstep]
  have hrest : ∀ k, ({ st with args := st.finish, current := [] } : Scan).run
      (List.replicate k 32) = { st with args := st.finish, current := [] } := by
    intro k
    induction k with
    | zero => rfl
    | succ k ih =>
        rw [List.replicate_succ, run_cons]
        simpa [step, hesc, hq] using ih
  exact hrest n

/-- A command of quoted arguments adds the arguments that are not empty. -/
theorem run_written {args : List Bytes} {command : Bytes} (h : Written args command)
    (hesc : st.escapeNext = false) (hq : st.inQuotes = false) (hcur : st.current = []) :
    (st.run command).finish = st.args ++ args.filter (· ≠ []) := by
  induction h generalizing st with
  | nil => simp [finish, hcur]
  | last arg =>
      rw [run_quoteArg hesc hq]
      by_cases harg : arg = [] <;> simp [finish, hcur, harg]
  | cons arg n _ ih =>
      rw [run_append, run_append, run_quoteArg hesc hq, run_spaces (by exact hesc) (by exact hq)]
      rw [ih (by exact hesc) (by exact hq) rfl]
      by_cases harg : arg = [] <;> simp [finish, hcur, harg]

end Scan

/-- `parse_command_` returns the arguments of a quoted command exactly when none is empty. -/
theorem parseCommand_written_iff (args : List Bytes) (command : Bytes) (h : Written args command) :
    parseCommand command = args ↔ [] ∉ args := by
  have hparse : parseCommand command = args.filter (· ≠ []) := Scan.run_written h rfl rfl rfl
  rw [hparse, List.filter_eq_self]
  constructor
  · intro hall hmem
    simpa using hall [] hmem
  · intro hnot arg harg
    have hne : arg ≠ [] := fun hnil => hnot (hnil ▸ harg)
    simpa using hne

/-- The arguments `a b` and `"\`, with two spaces between them, are read back. -/
theorem quoted_pair_read_back :
    Written [ascii "a b", ascii "\"\\"] (ascii "\"a b\"  \"\\\"\\\\\"") ∧
    (parseCommand (ascii "\"a b\"  \"\\\"\\\\\"") = [ascii "a b", ascii "\"\\"] ↔
      [] ∉ [ascii "a b", ascii "\"\\"]) := by
  have hwritten : Written [ascii "a b", ascii "\"\\"] (ascii "\"a b\"  \"\\\"\\\\\"") :=
    .cons (ascii "a b") 1 (.last (ascii "\"\\"))
  exact ⟨hwritten, parseCommand_written_iff _ _ hwritten⟩

/-- The argument of `""` is lost. -/
theorem empty_argument_lost : ¬ ∀ (args : List Bytes) (command : Bytes), Written args command →
    parseCommand command = args := by
  intro h
  have hparse := h [[]] _ (.last [])
  revert hparse
  decide +kernel

end Supervisorcpp
