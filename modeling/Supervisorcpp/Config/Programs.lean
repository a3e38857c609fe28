/-
# The programs of an accepted configuration

What `parse_file` has checked of every program it returns, and what these checks are worth once the
program is started: the child has a first argument, which is an absolute path, and every variable of
`environment` reaches the program under its name and with its value.

Each reader of an option is shown to return only what has a property, and a program has the
properties of all its options. The second half starts such a program with `runChild` and finds them
again.
-/
import Supervisorcpp.Config.Accepted
import Supervisorcpp.Config.Environment
import Supervisorcpp.Process.Child

namespace Supervisorcpp

open Bytes (ascii)

/-! ## Text and bytes -/

@[simp] theorem ascii_latin (s : Bytes) : ascii (latin s) = s := by
  have hchar : ∀ b : UInt8, (Char.ofNat b.toNat).toNat.toUInt8 = b := by
    intro b
    have hlt := b.toNat_lt
    have hvalid : b.toNat.isValidChar := .inl (by omega)
    rw [Char.ofNat, dif_pos hvalid]
    exact UInt8.ofNat_toNat
  rw [ascii, latin, String.toList_ofList, List.map_map]
  calc _ = s.map id := List.map_congr_left fun b _ => hchar b
    _ = s := List.map_id s

/-! ## What is checked -/

/-- An entry of `environment` that `setenv` takes as it is. -/
structure Settable (entry : Bytes × Bytes) : Prop where
  name : entry.1 ≠ [] ∧ ∀ b ∈ entry.1, isKeyChar b = true
  value : 0 ∉ entry.2

/-- A log file of a program. -/
structure LogAccepted (h : Host) (log : Log) : Prop where
  file : ∀ file, log.file = some file → ∃ dirs path canonical, h.logDirs = .ok dirs ∧
    validateLogPath h.fs dirs path = .ok canonical ∧ file = latin canonical.text
  maxbytes : log.fileMaxbytes < 2 ^ 64

/-- What holds of every program. -/
structure ProgramAccepted (h : Host) (prog : ProgramConfig) : Prop where
  command : ∃ command, prog.command = latin command ∧ validateCommandPath h.fs command = .ok ()
  environment : ∃ env, KeySorted env ∧ (∀ entry ∈ env, Settable entry) ∧
    prog.environment = env.map fun entry => (latin entry.1, latin entry.2)
  stdoutLog : LogAccepted h prog.stdoutLog
  stderrLog : LogAccepted h prog.stderrLog
  stopsignal : ∃ name ∈ validSignals, prog.stopsignal = latin name
  umask : ∀ mask ∈ prog.umask, mask < 2 ^ 32

section Checks

variable {h : Host} {section_ : Ptree}

/-- An option has its default or what was read, so what holds of both holds of it. -/
theorem ptGet_returns {α : Type} {P : α → Prop} {name : String} {value : α}
    {read : Bytes → Except Exception α} (hvalue : P value) (hread : ∀ s, Results.Returns P (read s)) :
    Results.Returns P (ptGet section_ name value read) := by
  unfold ptGet
  split
  · exact Results.returns_ok hvalue
  · exact hread _

theorem foldl_insertPair_sorted (pairs : List (Bytes × Bytes)) {map : List (Bytes × Bytes)}
    (hmap : KeySorted map) : KeySorted (pairs.foldl (fun map pair => insertPair pair map) map) := by
  induction pairs generalizing map with
  | nil => exact hmap
  | cons pair pairs ih => exact ih (insertPair_sorted hmap)

/-- The variables are in the order of their names. -/
theorem parseEnvironment_sorted (s : Bytes) : Results.Returns KeySorted (parseEnvironment s) := by
  unfold parseEnvironment
  split
  · exact Results.returns_error _
  · dsimp only
    split
    · exact Results.returns_ok (foldl_insertPair_sorted _ List.Pairwise.nil)
    · exact Results.returns_error _

/-- What is left by `sanitize_environment` can be set. -/
theorem settable_of_mem {env : List (Bytes × Bytes)} {entry : Bytes × Bytes}
    (h : entry ∈ sanitizeEnvironment env) : Settable entry := by
  obtain ⟨-, hkeep⟩ := List.mem_filter.mp h
  simp only [Bool.and_eq_true, Bool.not_eq_true', List.all_eq_true] at hkeep
  obtain ⟨⟨hne, hkeys⟩, hnul⟩ := hkeep
  refine ⟨⟨fun hnil => ?_, hkeys⟩, fun hmem => ?_⟩
  · rw [hnil] at hne
    cases hne
  · rw [List.contains_iff_mem.mpr hmem] at hnul
    cases hnul

theorem sanitized_returns (s : Bytes) :
    Results.Returns (fun env => KeySorted env ∧ ∀ entry ∈ env, Settable entry)
      ((parseEnvironment s).map sanitizeEnvironment) :=
  (parseEnvironment_sorted s).map fun _ hsorted =>
    ⟨List.Pairwise.filter _ hsorted, fun _ => settable_of_mem⟩

/-- A size fits in a `size_t`. -/
theorem parseSize_lt (s : Bytes) : Results.Returns (· < 2 ^ 64) (parseSize s) := by
  unfold parseSize
  split
  · exact Results.returns_ok (by decide)
  · dsimp only
    split
    · exact Results.returns_error _
    · split
      · exact Results.returns_ok (Nat.mod_lt _ (by decide))
      · exact Results.returns_error _
      · exact Results.returns_error _

/-- `parse_config` changes exceptions only. -/
theorem parseConfig_returns {α : Type} {P : α → Prop} {parser : Bytes → Except Exception α}
    (h : ∀ s, Results.Returns P (parser s)) (context s : Bytes) :
    Results.Returns P (parseConfig parser context s) := (h s).mapError _

/-- A stop signal is one of the list. -/
theorem validateSignal_returns (s : Bytes) :
    Results.Returns (· ∈ validSignals) ((validateSignal s).map fun _ => s) := by
  unfold validateSignal
  split
  · next hlisted => exact Results.returns_ok (List.contains_iff_mem.mp hlisted)
  · exact Results.returns_error _

/-- A mask fits in a `mode_t`. -/
theorem readUmask_lt (s : Bytes) : Results.Returns (· < 2 ^ 32) (readUmask s) := by
  intro mask hok
  obtain ⟨n, -, rfl⟩ := Results.map_eq_ok.mp hok
  exact Nat.mod_lt _ (by decide)

/-- The check of a log file leaves the canonical path of a file it allows. -/
theorem checkLogFile_returns {context : Bytes} {file : Option Bytes} :
    Results.Returns (fun checked => ∀ file ∈ checked, ∃ dirs path canonical, h.logDirs = .ok dirs ∧
      validateLogPath h.fs dirs path = .ok canonical ∧ file = canonical.text)
      (checkLogFile h context file) := by
  cases file with
  | none => exact Results.returns_ok (by simp)
  | some file =>
      intro checked hok
      rw [checkLogFile, rethrowSecurity, Results.mapError_eq_ok] at hok
      obtain ⟨canonical, hpath, rfl⟩ := Results.map_eq_ok.mp hok
      obtain ⟨dirs, hdirs, hpath⟩ := Results.bind_eq_ok.mp hpath
      rintro _ ⟨⟩
      exact ⟨dirs, _, canonical, hdirs, hpath, rfl⟩

/-- The log of a program, from what was read for its file and its size. -/
theorem logAccepted {file : Option Bytes} {maxbytes : Nat} {backups : Int32}
    (hfile : ∀ f ∈ file, ∃ dirs path canonical, h.logDirs = .ok dirs ∧
      validateLogPath h.fs dirs path = .ok canonical ∧ f = canonical.text)
    (hmaxbytes : maxbytes < 2 ^ 64) : LogAccepted h ⟨file.map latin, maxbytes, backups⟩ where
  file := by
    intro text htext
    obtain ⟨f, hf, rfl⟩ := Option.map_eq_some_iff.mp htext
    obtain ⟨dirs, path, canonical, hdirs, hpath, rfl⟩ := hfile f hf
    exact ⟨dirs, path, canonical, hdirs, hpath, rfl⟩
  maxbytes := hmaxbytes

/-- **One program.** -/
theorem parseProgram_accepted {key : Bytes} {value : Ptree} :
    Results.Returns (ProgramAccepted h) (parseProgram h key value) := by
  intro prog hparse
  unfold parseProgram at hparse
  obtain ⟨command, -, hparse⟩ := Results.bind_eq_ok.mp hparse
  dsimp only at hparse
  split at hparse
  · cases hparse
  · obtain ⟨environment, henvironment, hparse⟩ := Results.bind_eq_ok.mp hparse
    obtain ⟨autorestart, -, hparse⟩ := Results.bind_eq_ok.mp hparse
    obtain ⟨directory, -, hparse⟩ := Results.bind_eq_ok.mp hparse
    obtain ⟨redirectStderr, -, hparse⟩ := Results.bind_eq_ok.mp hparse
    obtain ⟨startretries, -, hparse⟩ := Results.bind_eq_ok.mp hparse
    obtain ⟨startsecs, -, hparse⟩ := Results.bind_eq_ok.mp hparse
    obtain ⟨stderrFile, -, hparse⟩ := Results.bind_eq_ok.mp hparse
    obtain ⟨stderrMaxbytes, hstderr, hparse⟩ := Results.bind_eq_ok.mp hparse
    obtain ⟨stderrBackups, -, hparse⟩ := Results.bind_eq_ok.mp hparse
    obtain ⟨stdoutFile, -, hparse⟩ := Results.bind_eq_ok.mp hparse
    obtain ⟨stdoutMaxbytes, hstdout, hparse⟩ := Results.bind_eq_ok.mp hparse
    obtain ⟨stdoutBackups, -, hparse⟩ := Results.bind_eq_ok.mp hparse
    obtain ⟨stopsignal, hsignal, hparse⟩ := Results.bind_eq_ok.mp hparse
    obtain ⟨stopwaitsecs, -, hparse⟩ := Results.bind_eq_ok.mp hparse
    obtain ⟨umask, humask, hparse⟩ := Results.bind_eq_ok.mp hparse
    obtain ⟨user, -, hparse⟩ := Results.bind_eq_ok.mp hparse
    obtain ⟨⟨⟩, hcommand, hparse⟩ := Results.bind_eq_ok.mp hparse
    obtain ⟨stdoutFile', hstdoutFile, hparse⟩ := Results.bind_eq_ok.mp hparse
    obtain ⟨stderrFile', hstderrFile, hparse⟩ := Results.bind_eq_ok.mp hparse
    obtain rfl := Except.ok.inj hparse
    have hsize : ∀ {name context n}, ptGet value name (50 * 1024 * 1024)
        (parseConfig parseSize context) = .ok n → n < 2 ^ 64 := by
      intro name context n hget
      exact ptGet_returns (P := (· < 2 ^ 64)) (by decide)
        (fun s => parseConfig_returns parseSize_lt context s) n hget
    obtain ⟨hsorted, hsettable⟩ := ptGet_returns (P := fun env => KeySorted env ∧ _)
      ⟨List.Pairwise.nil, by simp⟩ sanitized_returns environment henvironment
    refine ⟨⟨_, rfl, Results.mapError_eq_ok.mp hcommand⟩, ⟨environment, hsorted, hsettable, rfl⟩,
      logAccepted (checkLogFile_returns _ hstdoutFile) (hsize hstdout),
      logAccepted (checkLogFile_returns _ hstderrFile) (hsize hstderr), ⟨stopsignal, ?_, rfl⟩, ?_⟩
    · exact ptGet_returns (P := (· ∈ validSignals)) (by decide)
        (fun s => parseConfig_returns validateSignal_returns _ s) stopsignal hsignal
    · exact ptGet_returns (P := fun umask : Option Nat => ∀ mask ∈ umask, mask < 2 ^ 32) (by simp)
        (fun s => (readUmask_lt s).map fun _ hlt _ hmem => Option.some.inj hmem ▸ hlt) umask humask

end Checks

/-! ## Every program of a configuration -/

section Programs

variable {h : Host} {configFile : FsPath} {c : ParsedConfiguration} {prog : ProgramConfig}

/-- Every program of a configuration that was returned is accepted. -/
theorem accepted_of_mem (hok : parseFile h configFile = .ok c) (hprog : prog ∈ c.programs) :
    ProgramAccepted h prog := by
  obtain ⟨section_, -, hparse⟩ :=
    Results.exists_of_mapM (described_of_parseFile hok).programs prog hprog
  exact parseProgram_accepted prog hparse

/-- **Every program has been checked, and comes from a section of a file that has.** -/
theorem accepted_programs (hok : parseFile h configFile = .ok c) : ∀ prog ∈ c.programs,
    ProgramAccepted h prog ∧ ∃ v ∈ entered h configFile,
      validateConfigFileSecurity h.fs h.uid v.1 = .ok () ∧ ∃ section_,
        (ascii "program:" ++ ascii prog.name, section_) ∈ (treeAt h v).children ∧
          parseProgram h (ascii "program:" ++ ascii prog.name) section_ = .ok prog := by
  intro prog hprog
  have hc := described_of_parseFile hok
  obtain ⟨⟨key, section_⟩, hsection, hparse⟩ := Results.exists_of_mapM hc.programs prog hprog
  obtain ⟨v, hv, hsection⟩ := List.mem_flatMap.mp hsection
  obtain ⟨hchild, hkey⟩ := List.mem_filter.mp hsection
  have hentered : v ∈ entered h configFile := Traversal.mem_postorder.mp hv
  obtain ⟨⟨⟩, hsecure⟩ := Results.isOk_iff.mp (hc.admissible v hentered).trusted
  have hname : ascii "program:" ++ ascii prog.name = key := by
    obtain ⟨rest, hrest⟩ := List.isPrefixOf_iff_prefix.mp hkey
    have hdrop : key.drop 8 = rest := by
      rw [← show _ = key from hrest]
      rfl
    rw [parseProgram_name key section_ prog hparse, ascii_latin, hdrop]
    exact hrest
  rw [hname]
  exact ⟨parseProgram_accepted prog hparse, v, hentered, hsecure, section_, hchild, hparse⟩

/-- A host on which every file has one program with a variable. -/
def variableHost : Host where
  fs := twiceHost.fs
  uid := 0
  logDirs := .ok []
  readIni _ := .ok (.node [] [(ascii "program:web", .node []
    [(ascii "command", .node (ascii "/bin/web -v") []),
      (ascii "environment", .node (ascii "MODE=\"a b\"") []),
      (ascii "stopsignal", .node (ascii "USR1") [])])])

/-- A program with a variable and a stop signal of its own, to run the theorems on. -/
def variableProgram : ProgramConfig where
  name := "web"
  command := "/bin/web -v"
  environment := [("MODE", "a b")]
  stopsignal := "USR1"

theorem variableHost_parses : ∃ c, parseFile variableHost (.ofText (ascii "/etc/s.ini")) = .ok c ∧
    variableProgram ∈ c.programs := by
  have hprograms : (parseFile variableHost (.ofText (ascii "/etc/s.ini"))).toOption.map
      (fun c => c.programs) = some [variableProgram] := by
    decide +kernel
  obtain ⟨c, hok, hprog⟩ := Option.map_eq_some_iff.mp hprograms
  exact ⟨c, Results.toOption_eq_some.mp hok, by rw [hprog]; exact List.mem_cons_self⟩

theorem accepted_programs_variable :
    ∃ c, parseFile variableHost (.ofText (ascii "/etc/s.ini")) = .ok c ∧
      variableProgram ∈ c.programs ∧ ProgramAccepted variableHost variableProgram := by
  obtain ⟨c, hok, hprog⟩ := variableHost_parses
  exact ⟨c, hok, hprog, (accepted_programs hok _ hprog).1⟩

/-! ## The program that is run -/

/-- A text without NUL bytes is seen whole. -/
theorem cStr_of_nulFree {s : Bytes} (h : 0 ∉ s) : cStr s = s := by
  rw [cStr, List.takeWhile_eq_self_iff]
  intro b hb
  simp only [bne_iff_ne]
  rintro rfl
  exact h hb

/-- A command with an absolute path has a first argument, which begins with that slash. -/
theorem ProgramAccepted.firstArgument (hprog : ProgramAccepted h prog) :
    ∃ path args, parseCommand (ascii prog.command) = (47 :: path) :: args := by
  obtain ⟨command, hcommand, hvalid⟩ := hprog.command
  obtain ⟨rest, rfl⟩ : ∃ rest, command = 47 :: rest := by
    unfold validateCommandPath at hvalid
    dsimp only at hvalid
    split at hvalid
    · cases hvalid
    · next hslash =>
        rw [not_not] at hslash
        cases command with
        | nil => cases hslash
        | cons b rest =>
            unfold cmdPath at hslash
            rw [List.takeWhile_cons] at hslash
            split at hslash
            · exact ⟨rest, by rw [Option.some.inj hslash]⟩
            · cases hslash
  obtain ⟨more, hmore⟩ := Scan.head_finish (show (Scan.step {} 47).args = [] from rfl) (by decide) rest
  have hfirst : (parseCommand (ascii prog.command)).head? = some (47 :: more) := by
    rw [hcommand, ascii_latin]
    exact hmore
  obtain ⟨args, hargs⟩ := List.head?_eq_some_iff.mp hfirst
  exact ⟨more, args, hargs⟩

/-- The variables of a program, as `setenv` gets them. -/
theorem ProgramAccepted.configuredVars_eq (hprog : ProgramAccepted h prog) :
    ∃ env, KeySorted env ∧ (∀ entry ∈ env, Settable entry) ∧ configuredVars prog = env ∧
      prog.environment = env.map fun entry => (latin entry.1, latin entry.2) := by
  obtain ⟨env, hsorted, hsettable, henv⟩ := hprog.environment
  refine ⟨env, hsorted, hsettable, ?_, henv⟩
  rw [configuredVars, henv, List.map_map]
  calc _ = env.map id := by
        refine List.map_congr_left fun entry hentry => ?_
        have hkey : 0 ∉ entry.1 := fun hmem => by
          have hno := (hsettable entry hentry).name.2 0 hmem
          exact absurd hno (by decide)
        simp [cStr_of_nulFree hkey, cStr_of_nulFree (hsettable entry hentry).value]
    _ = env := List.map_id env

/-- A name that can be set has no equals sign in it. -/
theorem Settable.assignable {entry : Bytes × Bytes} (h : Settable entry) :
    Environ.Assignable (61 : UInt8) entry.1 :=
  ⟨h.name.1, fun hmem => absurd (h.name.2 61 hmem) (by decide)⟩

/-- Keys in strict order are distinct. -/
theorem KeySorted.nodup_keys {env : List (Bytes × Bytes)} (h : KeySorted env) :
    (env.map Prod.fst).Nodup := by
  refine List.pairwise_map.mpr (h.imp fun hlt heq => ?_)
  rw [heq] at hlt
  exact List.lt_irrefl _ hlt

/-- Where the command has a word, `execvp` is called with one. -/
theorem runChild_ne_nullArgument {k : Kernel} {config : ProgramConfig}
    {stdoutPipe stderrPipe : Option PipeFds} {t : Task}
    (hargs : parseCommand (ascii config.command) ≠ []) :
    runChild k config stdoutPipe stderrPipe t ≠ .nullArgument := by
  unfold runChild setupChildProcess
  dsimp only
  split
  · simp
  · split
    · simp
    · unfold execvp
      split
      · next hnil => exact absurd hnil hargs
      · split
        · simp
        · simp

/-- **What is configured is what runs.**  The child of an accepted program never calls `execvp`
without a first argument; the program it becomes is given by an absolute path, so that no `PATH` is
searched, and finds every configured variable in its environment with its configured value. -/
theorem accepted_program_runs (hok : parseFile h configFile = .ok c) (hprog : prog ∈ c.programs)
    (k : Kernel) (stdoutPipe stderrPipe : Option PipeFds) (t : Task) :
    runChild k prog stdoutPipe stderrPipe t ≠ .nullArgument ∧
      ∀ argv t', runChild k prog stdoutPipe stderrPipe t = .program argv t' →
        (∃ path args, argv = (47 :: path) :: args) ∧
        ∀ entry ∈ prog.environment,
          Environ.getenv t'.environ (ascii entry.1) = some (ascii entry.2) := by
  have haccepted := accepted_of_mem hok hprog
  obtain ⟨path, args, hargs⟩ := haccepted.firstArgument
  refine ⟨runChild_ne_nullArgument (by rw [hargs]; simp), fun argv t' hrun => ?_⟩
  obtain ⟨directory, creds, file, -, hargv, rfl⟩ := runChild_eq_program hrun
  obtain ⟨env, hsorted, hsettable, hvars, henv⟩ := haccepted.configuredVars_eq
  refine ⟨⟨cStr path, args.map cStr, ?_⟩, fun entry hentry => ?_⟩
  · rw [hargv, hargs, List.map_cons]
    rfl
  · rw [henv] at hentry
    obtain ⟨pair, hpair, rfl⟩ := List.mem_map.mp hentry
    show Environ.getenv (setupEnvironment prog t.environ) _ = _
    rw [getenv_setupEnvironment, hvars, ascii_latin, ascii_latin,
      Environ.assigned_of_mem (hsettable pair hpair).assignable hsorted.nodup_keys hpair]
    rfl

theorem accepted_program_runs_variable : ∃ argv t',
    runChild plainKernel variableProgram none none rootTask = .program argv t' ∧
      Environ.getenv t'.environ (ascii "MODE") = some (ascii "a b") := by
  obtain ⟨c, hok, hprog⟩ := variableHost_parses
  have hruns := (accepted_program_runs hok hprog plainKernel none none rootTask).2
  refine ⟨_, _, rfl, ?_⟩
  exact (hruns _ _ rfl).2 ("MODE", "a b") (by decide)

end Programs

end Supervisorcpp
