/-
# The configuration parser

`config_parser.cpp`: `parse_file` reads the main file and, before the programs of a file, the files
its `[include]` section names. `read_ini` is a parameter: the tree of a text, or the line and the
message of the `file_parser_error` it throws.

The four functions of the recursion take the number of nested calls that are left. `fuel` running
out is an outcome of its own, which the depth limit of the code keeps from happening.

Names of functions and texts of exceptions are those of the source. A file that cannot be opened is
one that its owner may not read, since everything else has been checked before; `Invalid stream` is
what is thrown then.
-/
import Mathlib.Data.List.Sort
import Supervisorcpp.Config.Options

namespace Supervisorcpp

open Bytes (ascii isSpace)

/-! ## Data -/

/-- `UnixHttpServerConfig`. -/
structure UnixHttpServerConfig where
  socketFile : Bytes := ascii "/run/supervisord.sock"
  deriving DecidableEq

/-- `SupervisordConfig`. -/
structure SupervisordConfig where
  logfile : Bytes := ascii "/var/log/supervisord.log"
  logfileMaxbytes : Nat := 50 * 1024 * 1024
  logfileBackups : Int32 := 10
  loglevel : LogLevel := .info
  user : Bytes := ascii "root"
  childlogdir : Bytes := ascii "/var/log/supervisor"
  pidfile : Bytes := []
  umask : Nat := 0o022
  deriving DecidableEq

/-- The `Configuration` the parser fills; `included` is its loop check, and `parsed` records the
streams that were parsed, with their depth. -/
structure ParsedConfiguration extends Configuration where
  unixHttpServer : UnixHttpServerConfig := {}
  supervisord : SupervisordConfig := {}
  included : List Bytes := []
  parsed : List (Bytes × Nat) := []
  deriving DecidableEq

/-- What the parser finds: files, the user it runs as, the directories for log files (or what their
computation threw), and `read_ini`. -/
structure Host where
  fs : Files
  uid : Nat
  logDirs : Except Exception (List FsPath)
  readIni : Bytes → Except (Nat × Bytes) Ptree

/-- How a parse stops without a result. -/
inductive Stop where
  | thrown (e : Exception)
  | outOfFuel
  deriving DecidableEq

/-- A step of the parser: a result, or what ends the whole parse. -/
abbrev Parse (α : Type) := Except Stop α

/-- A computation that may throw, as a step of the parser. -/
def lift {α : Type} (x : Except Exception α) : Parse α := x.mapError .thrown

/-- `throw ConfigParseError(what)`. -/
def throwParseError {α : Type} (what : Bytes) : Parse α :=
  .error (.thrown (.configParseError what))

/-- `strerror` of the errors that following a path can end in. -/
def errnoText : Errno → Bytes
  | .noent => ascii "No such file or directory"
  | .notdir => ascii "Not a directory"
  | .loop => ascii "Too many levels of symbolic links"

/-- `what()`; that of a `filesystem_error` is the text of its error code. -/
def Exception.what : Exception → Bytes
  | .configParseError what => what
  | .securityError what => what
  | .fileParserError _ message => message
  | .invalidArgument what => what
  | .outOfRange what => what
  | .filesystemError errno => errnoText errno

/-- The `catch (const SecurityError&)` around a check. -/
def rethrowSecurity {α : Type} (context : Bytes) (x : Except Exception α) : Except Exception α :=
  x.mapError fun e =>
    match e with
    | .securityError what => .configParseError (context ++ what)
    | e => e

/-! ## Included files -/

/-- The loop over a directory in `expand_glob_`. -/
def matchingEntries (fs : Files) (dir : FsPath) (fileRegex : Bytes) :
    List FileName → Except Errno (List FileName)
  | [] => .ok []
  | name :: names =>
    (fs.isRegularFile (dir.append (.ofName name))).bind fun regular =>
      (matchingEntries fs dir fileRegex names).map fun rest =>
        if regular && Regex.regexMatch name.1 fileRegex then name :: rest else rest

/-- The directory `expand_glob_` searches, and the file name pattern. -/
def searchPath (baseDir : FsPath) (pattern : Bytes) : FsPath :=
  if pattern.head? = some 47 then .ofText pattern else baseDir.append (.ofText pattern)

/-- The files of a directory whose names match, in order. -/
def filesIn (fs : Files) (dir : FsPath) (fileRegex : Bytes) : Except Errno (List FsPath) :=
  (fs.exists_ dir).bind fun found =>
    if found then
      (fs.isDirectory dir).bind fun isDir =>
        if isDir then
          (fs.resolve dir).bind fun place =>
            (matchingEntries fs dir fileRegex (fs.entries place)).map fun names =>
              (names.insertionSort fun m n => m.1 ≤ n.1).map fun name => dir.append (.ofName name)
        else .ok []
    else .ok []

/-- `expand_glob_`. -/
def expandGlob (fs : Files) (baseDir : FsPath) (pattern : Bytes) :
    Except Exception (List FsPath) :=
  let path := searchPath baseDir pattern
  (filesIn fs path.parentPath (globToRegex path.filename.1)).mapError .filesystemError

/-- The words of a text, as `operator>>` reads them. -/
def words (s : Bytes) : List Bytes := (s.splitOnP isSpace).filter (· ≠ [])

/-- The patterns of an `[include]` section. -/
def includePatterns (section_ : Ptree) : List Bytes :=
  section_.children.flatMap fun child =>
    if child.1 = ascii "files" then words child.2.data else []

/-- `parse_includes_`, over `parse_single_file_`. -/
def parseIncludes (h : Host)
    (parseSingleFile : FsPath → Nat → ParsedConfiguration → Parse ParsedConfiguration)
    (baseDir : FsPath) (patterns : List Bytes) (depth : Nat) (config : ParsedConfiguration) :
    Parse ParsedConfiguration :=
  patterns.foldlM (fun config pattern =>
    (lift (expandGlob h.fs baseDir pattern)).bind fun files =>
      files.foldlM (fun config file => parseSingleFile file depth config) config) config

/-! ## Sections -/

/-- The `[unix_http_server]` section. -/
def parseUnixHttpServer (tree : Ptree) (c : UnixHttpServerConfig) : UnixHttpServerConfig :=
  match tree.getChildOptional [ascii "unix_http_server"] with
  | none => c
  | some section_ =>
    match section_.getString [ascii "file"] with
    | none => c
    | some file => { c with socketFile := file }

/-- The `[supervisord]` section. -/
def parseSupervisord (tree : Ptree) (c : SupervisordConfig) :
    Except Exception SupervisordConfig :=
  match tree.getChildOptional [ascii "supervisord"] with
  | none => .ok c
  | some section_ => do
    let childlogdir ← ptGet section_ "childlogdir" c.childlogdir readText
    let logfile ← ptGet section_ "logfile" c.logfile readText
    let logfileMaxbytes ← ptGet section_ "logfile_maxbytes" c.logfileMaxbytes
      (parseConfig parseSize (ascii "[supervisord] logfile_maxbytes"))
    let logfileBackups ← ptGet section_ "logfile_backups" c.logfileBackups
      (readInt "logfile_backups")
    let loglevel ← ptGet section_ "loglevel" c.loglevel
      (parseConfig parseLogLevel (ascii "[supervisord] loglevel"))
    let pidfile ← ptGet section_ "pidfile" c.pidfile readText
    let umask ← ptGet section_ "umask" c.umask readUmask
    let user ← ptGet section_ "user" c.user readText
    return { childlogdir, logfile, logfileMaxbytes, logfileBackups, loglevel, pidfile, umask, user }

/-- The check of a log file of a program, where it has one. -/
def checkLogFile (h : Host) (context : Bytes) : Option Bytes → Except Exception (Option Bytes)
  | none => .ok none
  | some file =>
    rethrowSecurity context ((h.logDirs.bind fun dirs =>
      validateLogPath h.fs dirs (.ofText file)).map fun path => some path.text)

/-- A `[program:x]` section. -/
def parseProgram (h : Host) (key : Bytes) (value : Ptree) : Except Exception ProgramConfig := do
  let name := key.drop 8
  let context := ascii "Program [" ++ key ++ ascii "]"
  let command ← ptGet value "command" [] readText
  if command = [] then
    throw (.configParseError (context ++ ascii " missing required 'command'"))
  let environment ← ptGet value "environment" [] fun s =>
    (parseEnvironment s).map sanitizeEnvironment
  let autorestart ← ptGet value "autorestart" true (readBool "autorestart")
  let directory ← ptGet value "directory" none fun s => .ok (some s)
  let redirectStderr ← ptGet value "redirect_stderr" false (readBool "redirect_stderr")
  let startretries ← ptGet value "startretries" 3 (readInt "startretries")
  let startsecs ← ptGet value "startsecs" 1 (readInt "startsecs")
  let stderrFile ← ptGet value "stderr_logfile" none fun s => .ok (some (substituteVariables name s))
  let stderrMaxbytes ← ptGet value "stderr_logfile_maxbytes" (50 * 1024 * 1024)
    (parseConfig parseSize (context ++ ascii " stderr_logfile_maxbytes"))
  let stderrBackups ← ptGet value "stderr_logfile_backups" 10 (readInt "stderr_logfile_backups")
  let stdoutFile ← ptGet value "stdout_logfile" none fun s => .ok (some (substituteVariables name s))
  let stdoutMaxbytes ← ptGet value "stdout_logfile_maxbytes" (50 * 1024 * 1024)
    (parseConfig parseSize (context ++ ascii " stdout_logfile_maxbytes"))
  let stdoutBackups ← ptGet value "stdout_logfile_backups" 10 (readInt "stdout_logfile_backups")
  let stopsignal ← ptGet value "stopsignal" (ascii "TERM")
    (parseConfig (fun s => (validateSignal s).map fun _ => s) (context ++ ascii " stopsignal"))
  let stopwaitsecs ← ptGet value "stopwaitsecs" 10 (readInt "stopwaitsecs")
  let umask ← ptGet value "umask" none fun s => (readUmask s).map some
  let user ← ptGet value "user" (ascii "root") readText
  let command := substituteVariables name command
  rethrowSecurity (context ++ ascii ": ") (validateCommandPath h.fs command)
  let stdoutFile ← checkLogFile h (context ++ ascii " stdout_logfile: ") stdoutFile
  let stderrFile ← checkLogFile h (context ++ ascii " stderr_logfile: ") stderrFile
  return {
    name := latin name
    command := latin command
    environment := environment.map fun entry => (latin entry.1, latin entry.2)
    directory := directory.map latin
    autorestart := autorestart
    user := latin user
    stdoutLog := ⟨stdoutFile.map latin, stdoutMaxbytes, stdoutBackups⟩
    stderrLog := ⟨stderrFile.map latin, stderrMaxbytes, stderrBackups⟩
    redirectStderr := redirectStderr
    startsecs := startsecs
    startretries := startretries
    stopwaitsecs := stopwaitsecs
    stopsignal := latin stopsignal
    umask := umask }

/-- A section of a program: `key.starts_with("program:")`. -/
def isProgramKey (key : Bytes) : Bool := (ascii "program:").isPrefixOf key

/-- One turn of the loop over the sections of a file. -/
def addProgram (h : Host) (config : ParsedConfiguration) (child : Bytes × Ptree) :
    Except Exception ParsedConfiguration :=
  if isProgramKey child.1 then
    (parseProgram h child.1 child.2).map fun prog =>
      { config with programs := config.programs ++ [prog] }
  else .ok config

/-! ## Files -/

/-- `MAX_DEPTH`. -/
def maxDepth : Nat := 10

/-- `read_ini` through the comment filter. -/
def readTree (h : Host) (contents : Bytes) : Except Exception Ptree :=
  (h.readIni (commentStripped contents)).mapError fun e => .fileParserError e.1 e.2

/-- The `[include]` section. -/
def parseIncludeSection (h : Host)
    (parseSingleFile : FsPath → Nat → ParsedConfiguration → Parse ParsedConfiguration)
    (tree : Ptree) (baseDir : FsPath) (depth : Nat) (config : ParsedConfiguration) :
    Parse ParsedConfiguration :=
  match tree.getChildOptional [ascii "include"] with
  | none => .ok config
  | some section_ =>
    -- without a base directory the patterns are not looked at
    if includePatterns section_ ≠ [] ∧ !baseDir.isEmpty then
      parseIncludes h parseSingleFile baseDir (includePatterns section_) (depth + 1) config
    else .ok config

/-- `parse_stream_`; `none` is a stream that could not be opened. -/
def parseStream (h : Host)
    (parseSingleFile : FsPath → Nat → ParsedConfiguration → Parse ParsedConfiguration)
    (stream : Option Bytes) (baseDir : FsPath) (depth : Nat) (config : ParsedConfiguration) :
    Parse ParsedConfiguration :=
  match stream with
  | none => throwParseError (ascii "Invalid stream")
  | some contents =>
    if maxDepth ≤ depth then throwParseError (ascii "Include depth limit of 10 hit")
    else
      (lift (readTree h contents)).bind fun tree =>
        let config := { config with
          unixHttpServer := parseUnixHttpServer tree config.unixHttpServer }
        (lift (parseSupervisord tree config.supervisord)).bind fun supervisord =>
          (parseIncludeSection h parseSingleFile tree baseDir depth
            { config with supervisord := supervisord }).bind fun config =>
              lift (tree.children.foldlM (addProgram h) config)

/-- The kernel lets this user read the file. Root may read every file; another user's own files have
passed the check of the owner, so the bits of the group and of others are not looked at. -/
def FileData.readableBy (uid : Nat) (data : FileData) : Bool :=
  decide (uid = 0) || decide (data.uid = uid) && decide (data.mode &&& 0o400 ≠ 0)

/-- A file one may only write to passes the check and cannot be opened. -/
example : FileData.readableBy 1000 ⟨1000, 0o200, []⟩ = false ∧
    FileData.readableBy 0 ⟨0, 0o200, []⟩ = true := by
  decide

/-- `std::ifstream`. -/
def openFile (h : Host) (file : FsPath) : Option Bytes :=
  match h.fs.stat file with
  | .ok (.regular data) => if data.readableBy h.uid then some data.contents else none
  | _ => none

/-- The `catch` blocks of `parse_single_file_`. -/
def fileError (file : FsPath) : Stop → Stop
  | .outOfFuel => .outOfFuel
  | .thrown (.configParseError what) => .thrown (.configParseError what)
  | .thrown (.fileParserError line message) =>
    let at_ := if 0 < line then ascii "(" ++ ascii (toString line) ++ ascii ")" else []
    .thrown (.configParseError (file.text ++ at_ ++ ascii ": " ++ message))
  | .thrown e => .thrown (.configParseError (file.text ++ ascii ": " ++ e.what))

/-- `parse_single_file_`. -/
def parseSingleFile (h : Host) :
    Nat → FsPath → Nat → ParsedConfiguration → Parse ParsedConfiguration
  | 0, _, _, _ => .error .outOfFuel
  | fuel + 1, file, depth, config =>
    (lift (weaklyCanonical h.fs file)).bind fun canonical =>
      if canonical.text ∈ config.included then
        throwParseError (ascii "Configuration file " ++ file.text ++
          ascii " has already been included!")
      else
        (lift (rethrowSecurity (ascii "Security validation failed: ")
          (validateConfigFileSecurity h.fs h.uid file))).bind fun _ =>
            (parseStream h (parseSingleFile h fuel) (openFile h file) file.parentPath depth
              { config with
                included := canonical.text :: config.included
                parsed := (canonical.text, depth) :: config.parsed }).mapError (fileError file)

/-- `validate_config_`. -/
def validateConfig (config : ParsedConfiguration) : Except Exception Unit :=
  if config.unixHttpServer.socketFile = [] then
    .error (.configParseError (ascii "Missing [unix_http_server] section or 'file' parameter"))
  else if config.supervisord.logfile = [] then
    .error (.configParseError (ascii "Missing [supervisord] section or 'logfile' parameter"))
  else
    match config.programs.find? fun prog => prog.command = "" with
    | some prog => .error (.configParseError
        (ascii "Program '" ++ ascii prog.name ++ ascii "' missing required 'command'"))
    | none => .ok ()

/-- `parse_file`, with so many nested calls of `parse_single_file_`. -/
def parseFileWith (h : Host) (fuel : Nat) (configFile : FsPath) : Parse ParsedConfiguration :=
  match h.fs.exists_ configFile with
  | .error e => .error (.thrown (.filesystemError e))
  | .ok false =>
    throwParseError (ascii "Configuration file not found: " ++ configFile.text)
  | .ok true =>
    (lift (weaklyCanonical h.fs configFile)).bind fun canonical =>
      (parseSingleFile h fuel configFile 0
        { configFile := latin canonical.text, programs := [] }).bind fun config =>
          (lift (validateConfig config)).map fun _ => config

/-- `parse_file`: the main file and ten levels of included files. -/
def parseFile (h : Host) (configFile : FsPath) : Parse ParsedConfiguration :=
  parseFileWith h (maxDepth + 1) configFile

end Supervisorcpp
