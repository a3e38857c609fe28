/-
# Values of options

How the text of an option becomes a value: `ptree_ext.h`, the readers of `config_types.h` and
`log_levels.cpp`, `parse_environment_` and `ini_reader.h`. A reader returns or throws.

Of Boost.Spirit the grammar of `parse_environment_` uses ordered choice, greedy repetition, a skip of
white space before each literal and each rule, and a string attribute that keeps what an alternative
that failed has put into it.
-/
import Supervisorcpp.Config.Types
import Supervisorcpp.Lib.Regex
import Supervisorcpp.Rpc.Connection
import Supervisorcpp.Util.Secure

namespace Supervisorcpp

open Bytes (ascii isSpace isDigit decimal splitSign)

/-- A `std::string` as text, one character for a byte. -/
def latin (s : Bytes) : String := String.ofList (s.map fun b => Char.ofNat b.toNat)

/-- `boost::algorithm::to_lower` on one byte, in the `C` locale. -/
def toLower (b : UInt8) : UInt8 := if 65 ≤ b ∧ b ≤ 90 then b + 32 else b

/-- `boost::trim`. -/
def trim (s : Bytes) : Bytes := ((s.dropWhile isSpace).reverse.dropWhile isSpace).reverse

/-! ## `pt_get` -/

/-- `pt_get`: the value an option has so far, unless the section gives another one. -/
def ptGet {α : Type} (section_ : Ptree) (name : String) (value : α)
    (read : Bytes → Except Exception α) : Except Exception α :=
  match section_.getString [ascii name] with
  | none => .ok value
  | some s => read s

/-- What the `parse_int` functions throw on a text that is not a number in range. -/
def invalidValue (name : String) (s : Bytes) : Exception :=
  .invalidArgument (ascii "Invalid value for '" ++ ascii name ++ ascii "': " ++ s)

/-- The `bool` of `pt_get`. -/
def readBool (name : String) (s : Bytes) : Except Exception Bool :=
  let val := s.map toLower
  if val = ascii "true" ∨ val = ascii "yes" ∨ val = ascii "1" then .ok true
  else if val = ascii "false" ∨ val = ascii "no" ∨ val = ascii "0" then .ok false
  else .error (invalidValue name s)

/-- `std::from_chars` for `int`, when it uses up the text. -/
def fromChars (s : Bytes) : Option Int32 :=
  let negative := decide (s.head? = some 45)
  let digits := if negative then s.tail else s
  let n : Int := if negative then -decimal digits else decimal digits
  if digits.isEmpty || !digits.all isDigit then none
  else if -2 ^ 31 ≤ n ∧ n < 2 ^ 31 then some (.ofInt n) else none

/-- The `int` of `pt_get`. -/
def readInt (name : String) (s : Bytes) : Except Exception Int32 :=
  (fromChars s).elim (.error (invalidValue name s)) .ok

/-- The strings and paths of `pt_get`. -/
def readText (s : Bytes) : Except Exception Bytes := .ok s

/-- `parse_config`. -/
def parseConfig {α : Type} (parser : Bytes → Except Exception α) (context : Bytes) (s : Bytes) :
    Except Exception α :=
  (parser s).mapError fun e =>
    match e with
    | .invalidArgument what => .configParseError (context ++ ascii ": " ++ what)
    | e => e

/-! ## Numbers and levels -/

/-- The number part of a size, and the multiplier its suffix stands for. -/
def splitSize (s : Bytes) : Bytes × Nat :=
  let suffix := (s.drop (s.length - 2)).map toLower
  if s.length < 2 then (s, 1)
  else if suffix = ascii "kb" then (s.take (s.length - 2), 1024)
  else if suffix = ascii "mb" then (s.take (s.length - 2), 1024 * 1024)
  else if suffix = ascii "gb" then (s.take (s.length - 2), 1024 * 1024 * 1024)
  else (s, 1)

/-- `parse_size`; the product is a `size_t`. -/
def parseSize (sizeStr : Bytes) : Except Exception Nat :=
  if sizeStr = [] then .ok 0
  else
    let num := trim (splitSize sizeStr).1
    if num = [] ∨ num.all isDigit = false then
      .error (.invalidArgument (ascii "Invalid size format: " ++ sizeStr))
    else
      match Bytes.stoull num with
      | .ok n => .ok (n * (splitSize sizeStr).2 % 2 ^ 64)
      | .error .invalidArgument =>
        .error (.invalidArgument (ascii "Invalid size format: " ++ sizeStr))
      | .error .outOfRange =>
        .error (.invalidArgument (ascii "Size value out of range: " ++ sizeStr))

/-- The value of a string of octal digits. -/
def octal (digits : Bytes) : Nat := digits.foldl (fun n d => 8 * n + (d.toNat - 48)) 0

/-- `std::stoul(s, nullptr, 8)`. -/
def stoul8 (s : Bytes) : Except Exception Nat :=
  let r := splitSign (s.dropWhile isSpace)
  let digits := r.2.takeWhile fun b => decide (48 ≤ b ∧ b ≤ 55)
  if digits = [] then .error (.invalidArgument (ascii "stoul"))
  else if 2 ^ 64 ≤ octal digits then .error (.outOfRange (ascii "stoul"))
  else .ok (if r.1 then (2 ^ 64 - octal digits) % 2 ^ 64 else octal digits)

/-- The `mode_t` of `umask`. -/
def readUmask (s : Bytes) : Except Exception Nat := (stoul8 s).map (· % 2 ^ 32)

/-- `enum class LogLevel`. -/
inductive LogLevel where
  | trace
  | debug
  | info
  | warn
  | error
  | ignore
  deriving DecidableEq, Repr

/-- `parse_log_level`. -/
def parseLogLevel (s : Bytes) : Except Exception LogLevel :=
  let level := s.map toLower
  if level = ascii "trace" then .ok .trace
  else if level = ascii "debug" then .ok .debug
  else if level = ascii "info" then .ok .info
  else if level = ascii "warn" ∨ level = ascii "warning" then .ok .warn
  else if level = ascii "error" then .ok .error
  else if level = ascii "ignore" then .ok .ignore
  else .error (.invalidArgument (ascii "Invalid log level: " ++ level))

/-! ## Variables of the environment -/

/-- `*(('\\' >> char_) | (char_ - quote))`: the characters, and what is left. -/
def quotedBody (quote : UInt8) : Bytes → Bytes × Bytes
  | [] => ([], [])
  | [c] => if c = quote then ([], [c]) else ([c], [])
  | 92 :: c :: cs => (c :: (quotedBody quote cs).1, (quotedBody quote cs).2)
  | c :: cs => if c = quote then ([], c :: cs)
    else (c :: (quotedBody quote cs).1, (quotedBody quote cs).2)

/-- `double_quoted` and `single_quoted`: the attribute, also where the rule fails, and what is left
where it does not. -/
def quoted (quote : UInt8) (s : Bytes) : Bytes × Option Bytes :=
  match s with
  | [] => ([], none)
  | c :: cs =>
    if c = quote then
      match (quotedBody quote cs).2 with
      | [] => ((quotedBody quote cs).1, none)
      | _ :: rest => ((quotedBody quote cs).1, some rest)
    else ([], none)

/-- `value`. -/
def envValue (s : Bytes) : Bytes × Bytes :=
  match (quoted 34 s).2 with
  | some rest => ((quoted 34 s).1, rest)
  | none =>
    match (quoted 39 s).2 with
    | some rest => ((quoted 34 s).1 ++ (quoted 39 s).1, rest)
    | none => ((quoted 34 s).1 ++ (quoted 39 s).1 ++ s.takeWhile (· != 44), s.dropWhile (· != 44))

/-- `pair_rule`. -/
def envPair (s : Bytes) : Option ((Bytes × Bytes) × Bytes) :=
  let key := (s.dropWhile isSpace).takeWhile isKeyChar
  if key = [] then none
  else
    match (((s.dropWhile isSpace).dropWhile isKeyChar).dropWhile isSpace) with
    | 61 :: rest =>
      let value := envValue (rest.dropWhile isSpace)
      some ((key, value.1), value.2)
    | _ => none

/-- The pairs after the first one; each takes at least its comma. -/
def envPairs : Nat → Bytes → List (Bytes × Bytes) × Bytes
  | 0, s => ([], s)
  | n + 1, s =>
    match s.dropWhile isSpace with
    | 44 :: rest =>
      match envPair rest with
      | some (pair, rest) => (pair :: (envPairs n rest).1, (envPairs n rest).2)
      | none => ([], s)
    | _ => ([], s)

/-- Insertion into a map in key order; a key that is there stays as it is. -/
def insertPair (pair : Bytes × Bytes) : List (Bytes × Bytes) → List (Bytes × Bytes)
  | [] => [pair]
  | entry :: entries =>
    if pair.1 < entry.1 then pair :: entry :: entries
    else if pair.1 = entry.1 then entry :: entries
    else entry :: insertPair pair entries

/-- `parse_environment_`. -/
def parseEnvironment (envStr : Bytes) : Except Exception (List (Bytes × Bytes)) :=
  let invalid := Exception.configParseError
    (ascii "Invalid environment variable format: " ++ envStr)
  match envPair envStr with
  | none => .error invalid
  | some (pair, rest) =>
    let more := envPairs rest.length rest
    if more.2.dropWhile isSpace = [] then
      .ok ((pair :: more.1).foldl (fun map pair => insertPair pair map) [])
    else .error invalid

/-! ## Lines and patterns -/

/-- The lines `std::getline` reads. -/
def getLines : Bytes → List Bytes
  | [] => []
  | b :: bs =>
    if b = 10 then [] :: getLines bs
    else
      match getLines bs with
      | [] => [[b]]
      | line :: lines => (b :: line) :: lines

/-- The position of the first semicolon after a blank. -/
def commentStart : Bytes → Option Nat
  | a :: b :: bs =>
    if b = 59 ∧ (a = 32 ∨ a = 9) then some 1 else (commentStart (b :: bs)).map (· + 1)
  | _ => none

/-- `strip_inline_comment_`. -/
def stripInlineComment (line : Bytes) : Bytes :=
  match commentStart line with
  | some i => ((line.take i).reverse.dropWhile fun b => b = 32 || b = 9).reverse
  | none => line

/-- What `read_ini` reads through `CommentStrippingBuf`. -/
def commentStripped (contents : Bytes) : Bytes :=
  (getLines contents).flatMap fun line => stripInlineComment line ++ [10]

/-- The replacements that make a regular expression of a glob: what is special in an expression is
escaped, and `*` and `?` are translated. They are searched for all at once, so that no replacement
is found in the result of another. -/
def globNeedles : Needles :=
  [(46, ascii "\\."), (94, ascii "\\^"), (36, ascii "\\$"), (43, ascii "\\+"), (40, ascii "\\("),
    (41, ascii "\\)"), (91, ascii "\\["), (93, ascii "\\]"), (123, [92, 123]), (125, [92, 125]),
    (92, ascii "\\\\"), (124, ascii "\\|"), (42, ascii ".*"), (63, ascii ".")]

/-- `util::glob_to_regex`. -/
def globToRegex (str : Bytes) : Bytes := escapeStr str globNeedles

/-- The loop of `substitute_variables`, which goes on behind the name it has put in. -/
def substituteLoop (name : Bytes) : Nat → Bytes → Nat → Bytes
  | 0, result, _ => result
  | n + 1, result, pos =>
    match Bytes.find (ascii "%(program_name)s") (result.drop pos) with
    | none => result
    | some i =>
      substituteLoop name n (result.take (pos + i) ++ name ++ result.drop (pos + i + 16))
        (pos + i + name.length)

/-- `substitute_variables`: there are at most as many occurrences as characters. -/
def substituteVariables (name input : Bytes) : Bytes :=
  substituteLoop name (input.length + 1) input 0

end Supervisorcpp
