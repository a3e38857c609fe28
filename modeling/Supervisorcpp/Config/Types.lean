/-
# Configuration records

`config_types.h`: the per-program configuration and what the daemon keeps of a parsed file. C++
`int` is `Int32`, so that the arithmetic the code does on it wraps where the machine's does. The
sections the process manager never reads (`unix_http_server`, `supervisord`) are not here.

A `std::filesystem::path` is kept as the text it was made from, one character for each byte. Two
configurations are compared by `ProgramConfig.Same`, which compares paths as the library does.
-/
import Mathlib.Data.Int.Basic
import Supervisorcpp.Lib.Path

namespace Supervisorcpp

/-- `ProgramConfig::Log`. -/
structure Log where
  file : Option String := none
  fileMaxbytes : Nat := 50 * 1024 * 1024
  fileBackups : Int32 := 10
  deriving DecidableEq, Repr

/-- `ProgramConfig`. -/
structure ProgramConfig where
  name : String
  command : String
  environment : List (String × String) := []
  directory : Option String := none
  autorestart : Bool := true
  user : String := "root"
  stdoutLog : Log := {}
  stderrLog : Log := {}
  redirectStderr : Bool := false
  /-- seconds the process must stay up -/
  startsecs : Int32 := 1
  /-- number of startup attempts -/
  startretries : Int32 := 3
  /-- stop signal to `SIGKILL` timeout -/
  stopwaitsecs : Int32 := 10
  stopsignal : String := "TERM"
  umask : Option Nat := none
  deriving DecidableEq, Repr

/-! ## `operator==`

Defaulted in the source, so it compares the members one by one. `std::filesystem::path` compares the
root directory and then the file names: `/srv/www` and `/srv//www` are equal. -/

/-- The path an optional text names. -/
def pathOf (text : Option String) : Option FsPath := text.map fun s => .ofText (Bytes.ascii s)

/-- `operator==` of `Log`. -/
def Log.Same (l m : Log) : Prop :=
  pathOf l.file = pathOf m.file ∧ l.fileMaxbytes = m.fileMaxbytes ∧ l.fileBackups = m.fileBackups

instance (l m : Log) : Decidable (l.Same m) :=
  inferInstanceAs (Decidable (_ = _ ∧ _ = _ ∧ _ = _))

namespace ProgramConfig

/-- `operator==`. -/
def Same (p q : ProgramConfig) : Prop :=
  (p.name = q.name ∧ p.command = q.command ∧ p.environment = q.environment ∧
    pathOf p.directory = pathOf q.directory ∧ p.autorestart = q.autorestart ∧ p.user = q.user) ∧
  (p.stdoutLog.Same q.stdoutLog ∧ p.stderrLog.Same q.stderrLog ∧
    p.redirectStderr = q.redirectStderr) ∧
  p.startsecs = q.startsecs ∧ p.startretries = q.startretries ∧ p.stopwaitsecs = q.stopwaitsecs ∧
    p.stopsignal = q.stopsignal ∧ p.umask = q.umask

instance (p q : ProgramConfig) : Decidable (p.Same q) :=
  inferInstanceAs (Decidable ((_ = _ ∧ _ = _ ∧ _ = _ ∧ _ = _ ∧ _ = _ ∧ _ = _) ∧
    (p.stdoutLog.Same q.stdoutLog ∧ p.stderrLog.Same q.stderrLog ∧ _ = _) ∧
    _ = _ ∧ _ = _ ∧ _ = _ ∧ _ = _ ∧ _ = _))

variable {p q r : ProgramConfig}

/-- A configuration compares equal to itself. -/
theorem Same.refl (p : ProgramConfig) : p.Same p := by
  simp [Same, Log.Same]

/-- The comparison is symmetric. -/
theorem Same.symm (h : p.Same q) : q.Same p := by
  simp only [Same, Log.Same] at h ⊢
  grind

/-- The comparison is transitive. -/
theorem Same.trans (h : p.Same q) (h' : q.Same r) : p.Same r := by
  simp only [Same, Log.Same] at h h' ⊢
  grind

/-- Repeated slashes do not count, a trailing one does. -/
example : let web : ProgramConfig := { name := "web", command := "web", directory := some "/srv/www" }
    web.Same { web with directory := some "/srv//www" } ∧
      ¬ web.Same { web with directory := some "/srv/www/" } := by
  decide

end ProgramConfig

/-- `Configuration`: the path a reload reads again, and the programs. -/
structure Configuration where
  configFile : String
  programs : List ProgramConfig
  deriving DecidableEq, Repr

end Supervisorcpp
