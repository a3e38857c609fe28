/-
# Security checks

`secure.cpp`: the checks that configuration files, log and pid file paths, commands and signal names
go through. A check returns or throws; every exception the configuration code tells apart is a
constructor of `Exception`.

The directories a log or pid file may be in are computed once, at the first call, and may be older
than the file system a later call looks at. The result of `getuid()` is a parameter.
-/
import Supervisorcpp.Lib.FileSystem

namespace Supervisorcpp

open Bytes (ascii)

/-- The exceptions of the configuration code, with their texts. -/
inductive Exception where
  | configParseError (what : Bytes)
  | securityError (what : Bytes)
  /-- `boost::property_tree::file_parser_error` -/
  | fileParserError (line : Nat) (message : Bytes)
  | invalidArgument (what : Bytes)
  | outOfRange (what : Bytes)
  | filesystemError (errno : Errno)
  deriving DecidableEq

/-- A regular file: owner, permission bits and contents. -/
structure FileData where
  uid : Nat
  mode : Nat
  contents : Bytes
  deriving DecidableEq

/-- The file system, with what the checks look at in a regular file. -/
abbrev Files := FileSystem FileData

/-! ## Paths -/

/-- The place `validate_canonicalize_path` takes a path to name: where it leads, or a name in the
directory it is in when it leads nowhere. -/
def canonicalLocation (fs : Files) (path : FsPath) : Except Exception FsPath :=
  match fs.canonical path with
  | .ok canonical => .ok canonical
  | .error _ =>
    let parent := if path.parentPath.isEmpty then fs.currentPath else path.parentPath
    match fs.canonical parent with
    | .ok canonical => .ok (canonical.append (.ofName path.filename))
    | .error _ => .error (.securityError (ascii "Cannot resolve path: " ++ path.text))

/-- `validate_canonicalize_path`. -/
def validateCanonicalizePath (fs : Files) (path allowed : FsPath) : Except Exception FsPath :=
  (canonicalLocation fs path).bind fun canonical =>
    if Bytes.find allowed.text canonical.text = some 0 then .ok canonical
    else .error (.securityError (ascii "Path escapes allowed directory: " ++ path.text ++
      ascii " (resolved to: " ++ canonical.text ++ ascii ", allowed prefix: " ++ allowed.text ++
      ascii ")"))

/-- The directories of a list, with commas between them. -/
def allowedStr : List FsPath → Bytes
  | [] => []
  | [dir] => dir.text
  | dir :: dirs => dir.text ++ ascii ", " ++ allowedStr dirs

/-- `validate_path_in_allowed_dirs`. -/
def validatePathInAllowedDirs (fs : Files) (path : FsPath) (allowedDirs : List FsPath)
    (description : Bytes) : Except Exception FsPath :=
  match allowedDirs.findSome? fun dir => (validateCanonicalizePath fs path dir).toOption with
  | some canonical => .ok canonical
  | none => .error (.securityError (description ++ ascii " must be under " ++
      allowedStr allowedDirs ++ ascii " - got: " ++ path.text))

/-- `temp_directory_path`, given the variable of the environment that names it, if one does. -/
def tempDirectoryPath (fs : Files) (tmpdir : Option FsPath) : Except Exception FsPath :=
  let p := tmpdir.getD (.ofText (ascii "/tmp"))
  match fs.isDirectory p with
  | .ok true => .ok p
  | .ok false => .error (.filesystemError .notdir)
  | .error e => .error (.filesystemError e)

/-- `std::filesystem::weakly_canonical`, which throws where the path cannot be followed. -/
def weaklyCanonical (fs : Files) (p : FsPath) : Except Exception FsPath :=
  (fs.weaklyCanonical p).mapError .filesystemError

/-- The directories of `names` and the directory for temporary files. -/
def allowedDirs (fs : Files) (tmpdir : Option FsPath) (names : List String) :
    Except Exception (List FsPath) :=
  (names.mapM fun name => weaklyCanonical fs (.ofText (ascii name))).bind fun dirs =>
    ((tempDirectoryPath fs tmpdir).bind (weaklyCanonical fs)).map fun tmp => dirs ++ [tmp]

/-- The directories `validate_log_path` allows. -/
def logDirs (fs : Files) (tmpdir : Option FsPath) : Except Exception (List FsPath) :=
  allowedDirs fs tmpdir ["/var/log", "/tmp"]

/-- `validate_log_path`. -/
def validateLogPath (fs : Files) (allowed : List FsPath) (logPath : FsPath) : Except Exception FsPath :=
  validatePathInAllowedDirs fs logPath allowed (ascii "Log file")

/-- The directories `validate_pidfile_path` allows. -/
def pidfileDirs (fs : Files) (tmpdir : Option FsPath) : Except Exception (List FsPath) :=
  allowedDirs fs tmpdir ["/run", "/var/run", "/tmp"]

/-- `validate_pidfile_path`. -/
def validatePidfilePath (fs : Files) (allowed : List FsPath) (pidfilePath : FsPath) :
    Except Exception FsPath :=
  if pidfilePath.absolute then validatePathInAllowedDirs fs pidfilePath allowed (ascii "Pidfile")
  else .error (.securityError (ascii "Pidfile path must be absolute: " ++ pidfilePath.text))

/-! ## Configuration files -/

/-- `validate_config_file_security`. -/
def validateConfigFileSecurity (fs : Files) (uid : Nat) (configFile : FsPath) :
    Except Exception Unit :=
  match fs.exists_ configFile with
  | .error e => .error (.filesystemError e)
  | .ok false =>
    .error (.securityError (ascii "Config file does not exist: " ++ configFile.text))
  | .ok true =>
    match fs.lstat configFile with
    | .error _ => .error (.securityError (ascii "Cannot stat config file: " ++ configFile.text))
    | .ok (.regular file) =>
      if file.uid ≠ uid then
        .error (.securityError
          (ascii "Config file must be owned by root (UID 0): " ++ configFile.text))
      else if file.mode &&& 0o002 ≠ 0 then
        .error (.securityError
          (ascii "Config file must not be world-writable: " ++ configFile.text))
      else .ok ()
    | .ok _ =>
      .error (.securityError (ascii "Config file must be a regular file: " ++ configFile.text))

/-! ## Commands, signals and variables -/

/-- What a C function sees of a string: the bytes before the first NUL. -/
def cStr (s : Bytes) : Bytes := s.takeWhile (· != 0)

/-- The first token of a command, as `validate_command_path` cuts it. -/
def cmdPath (command : Bytes) : Bytes := command.takeWhile (· != 32)

/-- `validate_command_path`. -/
def validateCommandPath (fs : Files) (command : Bytes) : Except Exception Unit :=
  let cmdPath := cmdPath command
  if cmdPath.head? ≠ some 47 then
    .error (.securityError (ascii "Command must be an absolute path: " ++ command))
  else
    match fs.stat (.ofText (cStr cmdPath)) with
    | .error _ => .error (.securityError (ascii "Command not found: " ++ cmdPath))
    | .ok (.regular file) =>
      if file.mode &&& 0o111 = 0 then
        .error (.securityError (ascii "Command is not executable: " ++ cmdPath))
      else .ok ()
    | .ok _ => .error (.securityError (ascii "Command must be a regular file: " ++ cmdPath))

/-- The names `validate_signal` lists. -/
def validSignals : List Bytes :=
  ["TERM", "HUP", "INT", "QUIT", "KILL", "USR1", "USR2", "ABRT", "ALRM", "CONT", "STOP"].map ascii

/-- `validate_signal`. -/
def validateSignal (signalName : Bytes) : Except Exception Unit :=
  if validSignals.contains signalName then .ok ()
  else .error (.invalidArgument (ascii "Invalid signal name: " ++ signalName))

/-- `std::isalnum` in the classic locale, or an underscore. -/
def isKeyChar (c : UInt8) : Bool :=
  decide (48 ≤ c ∧ c ≤ 57 ∨ 65 ≤ c ∧ c ≤ 90 ∨ 97 ≤ c ∧ c ≤ 122 ∨ c = 95)

/-- `sanitize_environment`, on the entries of the map in key order. -/
def sanitizeEnvironment (env : List (Bytes × Bytes)) : List (Bytes × Bytes) :=
  env.filter fun entry => !entry.1.isEmpty && entry.1.all isKeyChar && !entry.2.contains 0

end Supervisorcpp
