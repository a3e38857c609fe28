/-
# What a process tells about itself

`get_info` and `get_uptime`. The description of a process that is up is a text, `pid P, uptime
H:MM:SS`; nothing is lost in it, since its numbers can be read back.

The strings of the state machine have one character for a byte.
-/
import Supervisorcpp.Process.Basic
import Supervisorcpp.Rpc.Xmlrpc

namespace Supervisorcpp

open Bytes (ascii decimal isDigit)

namespace Process

/-! ## `get_info` -/

/-- The states in which a process has an uptime. -/
def isUp (p : Process) : Bool := p.state = .running ∨ p.state = .starting

/-- `get_uptime`, in seconds. The count of the duration is converted to `int`. -/
def getUptime (p : Process) (now : Int) : Int32 :=
  if p.isUp then Int32.ofInt ((now - p.startTime).tdiv nanosPerSec) else 0

/-- `std::setfill('0') << std::setw(2) << n`. -/
def twoDigits (n : Int) : Bytes :=
  List.replicate (2 - (ascii (toString n)).length) 48 ++ ascii (toString n)

/-- `H:MM:SS`. -/
def uptimeText (uptime : Int) : Bytes :=
  ascii (toString (uptime.tdiv 3600)) ++ ascii ":" ++
    twoDigits ((uptime.tmod 3600).tdiv 60) ++ ascii ":" ++ twoDigits (uptime.tmod 60)

/-- The description of a process. -/
def description (p : Process) (now : Int) : Bytes :=
  if p.isUp then
    ascii "pid " ++ ascii (toString p.pid) ++ ascii ", uptime " ++
      uptimeText (p.getUptime now).toInt
  else []

/-- `get_info`. -/
def getInfo (p : Process) (now : Int) : ProcessInfo where
  name := ascii p.config.name
  state := p.state
  pid := Int32.ofInt p.pid
  exitstatus := Int32.ofInt p.exitstatus
  stdoutLogfile := match p.config.stdoutLog.file with
    | some file => ascii file
    | none => []
  spawnerr := ascii p.spawnError
  description := p.description now

/-! ## Reading it back -/

/-- The seconds in an uptime: three numbers with a colon between them. -/
def readUptime (s : Bytes) : Nat :=
  let afterHours := (s.dropWhile isDigit).drop 1
  let afterMinutes := (afterHours.dropWhile isDigit).drop 1
  decimal (s.takeWhile isDigit) * 3600 + decimal (afterHours.takeWhile isDigit) * 60 +
    decimal (afterMinutes.takeWhile isDigit)

/-- The pid and the seconds in a description. -/
def readDescription (s : Bytes) : Nat × Nat :=
  let afterPid := s.drop 4
  (decimal (afterPid.takeWhile isDigit), readUptime ((afterPid.dropWhile isDigit).drop 9))

section Read

variable {p : Process} {now : Int}

theorem twoDigits_isDigit (n : Nat) : ∀ b ∈ twoDigits n, isDigit b = true := by
  intro b hb
  rcases List.mem_append.mp hb with hb | hb
  · rw [List.eq_of_mem_replicate hb]
    decide
  · exact Bytes.isDigit_of_mem_toString (n := n) hb

/-- Leading zeros do not count. -/
theorem decimal_zeros (k : Nat) (ds : Bytes) : decimal (List.replicate k 48 ++ ds) = decimal ds := by
  induction k with
  | zero => rfl
  | succ k ih =>
      rw [List.replicate_succ, List.cons_append, ← ih]
      rfl

/-- Two digits are read back. -/
theorem decimal_twoDigits (n : Nat) : decimal (twoDigits n) = n := by
  rw [twoDigits, decimal_zeros]
  exact Bytes.decimal_toString n

/-- Hours, and minutes and seconds of two digits each. -/
theorem uptimeText_nat (n : Nat) : uptimeText n =
    ascii (toString (n / 3600)) ++ 58 :: (twoDigits (n % 3600 / 60 : Nat) ++
      58 :: twoDigits (n % 60 : Nat)) := by
  show ascii (toString (n / 3600)) ++ [58] ++ twoDigits (n % 3600 / 60 : Nat) ++ [58] ++
    twoDigits (n % 60 : Nat) = _
  simp only [List.append_assoc, List.cons_append, List.nil_append]

/-- **An uptime is read back.** -/
theorem readUptime_uptimeText (n : Nat) : readUptime (uptimeText n) = n := by
  have hcolon : ∀ rest : Bytes, ∀ b ∈ (58 :: rest).head?, isDigit b = false := by
    intro rest b hb
    obtain rfl : 58 = b := by simpa using hb
    decide
  have hend : ∀ b ∈ ([] : Bytes).head?, isDigit b = false := nofun
  obtain ⟨hhours, hbehind⟩ := Bytes.takeWhile_digits
    (fun _ => Bytes.isDigit_of_mem_toString (n := n / 3600))
    (hcolon (twoDigits (n % 3600 / 60 : Nat) ++ 58 :: twoDigits (n % 60 : Nat)))
  obtain ⟨hminutes, hlast⟩ := Bytes.takeWhile_digits (twoDigits_isDigit (n % 3600 / 60))
    (hcolon (twoDigits (n % 60 : Nat)))
  obtain ⟨hseconds, -⟩ := Bytes.takeWhile_digits (twoDigits_isDigit (n % 60)) hend
  rw [List.append_nil] at hseconds
  simp only [readUptime, uptimeText_nat, hhours, hbehind, List.drop_succ_cons, List.drop_zero,
    hminutes, hlast, hseconds, Bytes.decimal_toString, decimal_twoDigits]
  omega

/-- The uptime is that of the clock as long as it fits in an `int`. -/
theorem getUptime_toInt (hup : p.isUp = true) (hstart : p.startTime ≤ now)
    (hrange : (now - p.startTime).tdiv nanosPerSec < 2 ^ 31) :
    (p.getUptime now).toInt = (now - p.startTime).tdiv nanosPerSec := by
  have hlow : 0 ≤ (now - p.startTime).tdiv nanosPerSec :=
    Int.tdiv_nonneg (by omega) (by decide)
  rw [getUptime, if_pos hup, Int32.toInt_ofInt_of_le (by omega) hrange]

/-- **A description is read back.**  The pid and the whole seconds since the start of a process that
is up, as long as they fit in an `int`. -/
theorem readDescription_description (hup : p.isUp = true) (hpid : 0 < p.pid)
    (hstart : p.startTime ≤ now) (hrange : (now - p.startTime).tdiv nanosPerSec < 2 ^ 31) :
    readDescription (p.description now) =
      (p.pid.toNat, ((now - p.startTime).tdiv nanosPerSec).toNat) := by
  have hlow : 0 ≤ (now - p.startTime).tdiv nanosPerSec :=
    Int.tdiv_nonneg (by omega) (by decide)
  obtain ⟨pid, hp⟩ := Int.eq_ofNat_of_zero_le (Int.le_of_lt hpid)
  obtain ⟨n, hn⟩ := Int.eq_ofNat_of_zero_le hlow
  have hcomma : ∀ b ∈ (ascii ", uptime " ++ uptimeText n).head?, isDigit b = false := by
    intro b hb
    obtain rfl : 44 = b := Option.some.inj hb
    decide
  obtain ⟨hdigits, hbehind⟩ := Bytes.takeWhile_digits
    (fun _ => Bytes.isDigit_of_mem_toString (n := pid)) hcomma
  have htext : (p.description now).drop 4 =
      ascii (toString pid) ++ (ascii ", uptime " ++ uptimeText n) := by
    rw [description, if_pos hup, getUptime_toInt hup hstart hrange, hn, hp, List.append_assoc,
      List.append_assoc]
    rfl
  have hdrop : (ascii ", uptime " ++ uptimeText n).drop 9 = uptimeText n := rfl
  simp only [readDescription, htext, hdigits, hbehind, hdrop, Bytes.decimal_toString,
    readUptime_uptimeText, hp, hn, Int.toNat_natCast]

end Read

end Process

end Supervisorcpp
