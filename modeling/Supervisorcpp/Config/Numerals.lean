/-
# How strictly numeric options are read

The `int` options go through `from_chars`, which takes a whole numeral and nothing else. The two
`umask` options go through `stoul`, which passes over white space and a sign, stops at the first
byte that is no octal digit, and has its result narrowed.

An option is read strictly if every text that is accepted is the numeral of the value it is read as.
The two readers are measured by this, and then tied to the options of the two sections that use
them.
-/
import Supervisorcpp.Config.Parser

namespace Supervisorcpp

open Bytes (ascii isSpace isDigit decimal splitSign)

/-! ## The options -/

/-- The options whose text is read as a number that has to fit an `int` or a file mode. -/
inductive NumericOption where
  | startsecs
  | startretries
  | stopwaitsecs
  | stdoutLogfileBackups
  | stderrLogfileBackups
  | umask
  /-- of `[supervisord]` -/
  | logfileBackups
  /-- of `[supervisord]` -/
  | daemonUmask
  deriving DecidableEq, Repr

/-- The base a numeric option is written in: file modes are octal. -/
inductive Base where
  | decimal
  | octal
  deriving DecidableEq, Repr

namespace NumericOption

/-- The key of an option in its section, which is also what the messages call it. -/
def name : NumericOption → String
  | .startsecs => "startsecs"
  | .startretries => "startretries"
  | .stopwaitsecs => "stopwaitsecs"
  | .stdoutLogfileBackups => "stdout_logfile_backups"
  | .stderrLogfileBackups => "stderr_logfile_backups"
  | .logfileBackups => "logfile_backups"
  | .umask | .daemonUmask => "umask"

/-- Both masks are octal, everything else is decimal. -/
def base : NumericOption → Base
  | .umask | .daemonUmask => .octal
  | _ => .decimal

/-- The reader of the option, with the value it stores as an integer. -/
def read (o : NumericOption) (v : Bytes) : Except Exception Int :=
  match o.base with
  | .decimal => (readInt o.name v).map Int32.toInt
  | .octal => (readUmask v).map Int.ofNat

/-- What a program stores for the option. -/
def ofProgram : NumericOption → ProgramConfig → Option Int
  | .startsecs, p => some p.startsecs.toInt
  | .startretries, p => some p.startretries.toInt
  | .stopwaitsecs, p => some p.stopwaitsecs.toInt
  | .stdoutLogfileBackups, p => some p.stdoutLog.fileBackups.toInt
  | .stderrLogfileBackups, p => some p.stderrLog.fileBackups.toInt
  | .umask, p => p.umask.map Int.ofNat
  | .logfileBackups, _ | .daemonUmask, _ => none

/-- What `[supervisord]` stores for the option. -/
def ofDaemon : NumericOption → SupervisordConfig → Option Int
  | .logfileBackups, c => some c.logfileBackups.toInt
  | .daemonUmask, c => some (c.umask : Int)
  | _, _ => none

end NumericOption

/-! ## Strictness -/

/-- `0` to `7`. -/
def isOctalDigit (b : UInt8) : Bool := decide (48 ≤ b ∧ b ≤ 55)

/-- `v` as a whole is a numeral of the base, `i` is its value, and the option's type has it. -/
def Numeral : Base → Bytes → Int → Prop
  | .decimal, v, i => (∃ digits, digits ≠ [] ∧ (∀ b ∈ digits, isDigit b = true) ∧
      ((v = digits ∧ i = decimal digits) ∨ (v = 45 :: digits ∧ i = -decimal digits))) ∧
      -2 ^ 31 ≤ i ∧ i < 2 ^ 31
  | .octal, v, i => v ≠ [] ∧ (∀ b ∈ v, isOctalDigit b = true) ∧ i = octal v ∧ i < 2 ^ 32

/-- Whatever the option's reader accepts is a numeral, and it is stored as its value. -/
def Strict (o : NumericOption) (v : Bytes) : Prop := ∀ i, o.read v = .ok i → Numeral o.base v i

/-- The octal digits `stoul` finds behind white space and a sign. -/
def octalDigits (v : Bytes) : Bytes := (splitSign (v.dropWhile isSpace)).2.takeWhile isOctalDigit

/-- `stoul` finds no number it can represent, or the whole of `v` is one that `mode_t` has. -/
def CleanOctal (v : Bytes) : Prop :=
  octalDigits v = [] ∨ 2 ^ 64 ≤ octal (octalDigits v) ∨ (v = octalDigits v ∧ octal v < 2 ^ 32)

section Readers

variable {v : Bytes} {i : Int}

/-- The checks of `from_chars` on the digits and on the value. -/
theorem checkedInt_eq_some {digits : Bytes} {value : Int} {n : Int32}
    (h : (if digits.isEmpty || !digits.all isDigit then none
      else if -2 ^ 31 ≤ value ∧ value < 2 ^ 31 then some (Int32.ofInt value) else none) = some n) :
    digits ≠ [] ∧ (∀ b ∈ digits, isDigit b = true) ∧ n.toInt = value ∧
      -2 ^ 31 ≤ value ∧ value < 2 ^ 31 := by
  split at h
  · cases h
  · next hdigits =>
      split at h
      · next hfits =>
          obtain rfl := Option.some.inj h
          rw [Bool.or_eq_true, not_or, List.isEmpty_iff, Bool.not_eq_true',
            Bool.not_eq_false] at hdigits
          exact ⟨hdigits.1, List.all_eq_true.mp hdigits.2, Int32.toInt_ofInt_of_le hfits.1 hfits.2,
            hfits⟩
      · cases h

/-- **`from_chars`** takes whole numerals only. -/
theorem fromChars_strict {n : Int32} (h : fromChars v = some n) : Numeral .decimal v n.toInt := by
  by_cases hminus : v.head? = some 45
  · obtain ⟨digits, rfl⟩ : ∃ digits, v = 45 :: digits := by
      cases v with
      | nil => cases hminus
      | cons b v => exact ⟨v, by rw [Option.some.inj hminus]⟩
    simp only [fromChars, hminus, decide_true, if_true, List.tail_cons] at h
    obtain ⟨hne, hall, hvalue, hfits⟩ := checkedInt_eq_some h
    rw [← hvalue] at hfits
    exact ⟨⟨digits, hne, hall, Or.inr ⟨rfl, hvalue⟩⟩, hfits⟩
  · simp only [fromChars, hminus, decide_false, Bool.false_eq_true, if_false] at h
    obtain ⟨hne, hall, hvalue, hfits⟩ := checkedInt_eq_some h
    rw [← hvalue] at hfits
    exact ⟨⟨v, hne, hall, Or.inl ⟨rfl, hvalue⟩⟩, hfits⟩

/-- The signs and spaces `stoul` passes over are no octal digits. -/
theorem octalDigits_of_all (hne : v ≠ []) (h : ∀ b ∈ v, isOctalDigit b = true) :
    octalDigits v = v ∧ (splitSign (v.dropWhile isSpace)).1 = false := by
  have hdigit : ∀ b ∈ v, isDigit b = true := by
    intro b hb
    have hb' := h b hb
    simp only [isOctalDigit, isDigit, decide_eq_true_eq, UInt8.le_iff_toNat_le,
      UInt8.reduceToNat] at hb' ⊢
    omega
  obtain ⟨hspace, hsign⟩ := Bytes.digits_unsigned [] hne hdigit
  rw [List.append_nil] at hspace hsign
  unfold octalDigits
  rw [hspace, hsign]
  exact ⟨List.takeWhile_eq_self_iff.mpr h, rfl⟩

theorem octalDigits_mem {b : UInt8} (h : b ∈ octalDigits v) : isOctalDigit b = true :=
  List.mem_takeWhile_imp h

/-- What `stoul` does, by the digits it finds. -/
theorem readUmask_cases (v : Bytes) :
    ((octalDigits v = [] ∨ 2 ^ 64 ≤ octal (octalDigits v)) ∧ ∃ e, readUmask v = .error e) ∨
      (octalDigits v ≠ [] ∧ octal (octalDigits v) < 2 ^ 64 ∧ ∃ n, readUmask v = .ok n) := by
  unfold readUmask stoul8
  dsimp only
  split
  · next hnone => exact Or.inl ⟨Or.inl hnone, _, rfl⟩
  · next hsome =>
      split
      · next hlarge => exact Or.inl ⟨Or.inr hlarge, _, rfl⟩
      · next hsmall => exact Or.inr ⟨hsome, Nat.lt_of_not_le hsmall, _, rfl⟩

/-- A text of octal digits is read as its value, narrowed. -/
theorem readUmask_of_all (hne : v ≠ []) (h : ∀ b ∈ v, isOctalDigit b = true)
    (hsmall : octal v < 2 ^ 64) : readUmask v = .ok (octal v % 2 ^ 32) := by
  obtain ⟨hdigits, hsign⟩ := octalDigits_of_all hne h
  have hdigits' : ((splitSign (v.dropWhile isSpace)).2.takeWhile fun b =>
      decide (48 ≤ b ∧ b ≤ 55)) = v := hdigits
  have hlarge : ¬2 ^ 64 ≤ octal v := by omega
  simp only [readUmask, stoul8, hdigits', hsign, hne, hlarge, if_false, Bool.false_eq_true]
  rfl

/-- A mask is read strictly exactly if its text is clean. -/
theorem umask_strict_iff (v : Bytes) :
    (∀ n, readUmask v = .ok n → Numeral .octal v n) ↔ CleanOctal v := by
  rcases readUmask_cases v with ⟨hrejects, e, he⟩ | ⟨hsome, hsmall, n, hn⟩
  · refine iff_of_true (fun n hn => ?_) ?_
    · rw [he] at hn
      cases hn
    · rcases hrejects with hnone | hlarge
      · exact Or.inl hnone
      · exact Or.inr (Or.inl hlarge)
  · constructor
    · intro hstrict
      obtain ⟨hne, hall, hvalue, hlt⟩ := hstrict n hn
      refine Or.inr (Or.inr ⟨(octalDigits_of_all hne hall).1.symm, ?_⟩)
      omega
    · rintro (hnone | hlarge | ⟨hwhole, hfits⟩) m hm
      · exact absurd hnone hsome
      · omega
      -- the whole text is digits, so nothing is passed over and nothing narrowed
      · have hne : v ≠ [] := by
          rw [hwhole]
          exact hsome
        have hall : ∀ b ∈ v, isOctalDigit b = true := by
          intro b hb
          rw [hwhole] at hb
          exact octalDigits_mem hb
        rw [readUmask_of_all hne hall (by omega), Nat.mod_eq_of_lt hfits] at hm
        obtain rfl := Except.ok.inj hm
        exact ⟨hne, hall, rfl, by omega⟩

/-- Decimal options are always read strictly, octal ones exactly if the text is clean. -/
theorem strict_iff (o : NumericOption) (v : Bytes) :
    Strict o v ↔ o.base = .decimal ∨ CleanOctal v := by
  cases hbase : o.base with
  | decimal =>
      refine iff_of_true (fun i hi => ?_) (Or.inl rfl)
      simp only [NumericOption.read, hbase, Results.map_eq_ok] at hi
      obtain ⟨n, hn, rfl⟩ := hi
      rw [hbase]
      unfold readInt at hn
      cases hchars : fromChars v with
      | none =>
          rw [hchars] at hn
          cases hn
      | some m =>
          rw [hchars] at hn
          obtain rfl := Except.ok.inj hn
          exact fromChars_strict hchars
  | octal =>
      have hread : o.read v = (readUmask v).map Int.ofNat := by
        simp only [NumericOption.read, hbase]
      simp only [Strict, hread, hbase, Results.map_eq_ok, reduceCtorEq, false_or]
      rw [← umask_strict_iff]
      constructor
      · exact fun h n hn => h n ⟨n, hn, rfl⟩
      · rintro h _ ⟨n, hn, rfl⟩
        exact h n hn

end Readers

/-! ## The options in their sections -/

section Sections

variable {h : Host} {key v : Bytes} {section_ tree : Ptree} {prog : ProgramConfig}
  {c c' : SupervisordConfig}

/-- An option that is there has been read. -/
theorem ptGet_of_some {α : Type} {name : String} {value a : α} {read : Bytes → Except Exception α}
    (hv : section_.getString [ascii name] = some v)
    (hget : ptGet section_ name value read = .ok a) : read v = .ok a := by
  rw [ptGet, hv] at hget
  exact hget

/-- The numeric options of a program that was accepted, each read by its own reader. -/
structure ProgramNumbers (section_ : Ptree) (prog : ProgramConfig) : Prop where
  startretries : ptGet section_ "startretries" 3 (readInt "startretries") = .ok prog.startretries
  startsecs : ptGet section_ "startsecs" 1 (readInt "startsecs") = .ok prog.startsecs
  stderrBackups : ptGet section_ "stderr_logfile_backups" 10 (readInt "stderr_logfile_backups") =
    .ok prog.stderrLog.fileBackups
  stdoutBackups : ptGet section_ "stdout_logfile_backups" 10 (readInt "stdout_logfile_backups") =
    .ok prog.stdoutLog.fileBackups
  stopwaitsecs : ptGet section_ "stopwaitsecs" 10 (readInt "stopwaitsecs") = .ok prog.stopwaitsecs
  umask : ptGet section_ "umask" none (fun s => (readUmask s).map some) = .ok prog.umask

/-- The numeric options of a program are those of its section. -/
theorem parseProgram_numbers (hparse : parseProgram h key section_ = .ok prog) :
    ProgramNumbers section_ prog := by
  unfold parseProgram at hparse
  obtain ⟨command, -, hparse⟩ := Results.bind_eq_ok.mp hparse
  dsimp only at hparse
  split at hparse
  · cases hparse
  · obtain ⟨environment, -, hparse⟩ := Results.bind_eq_ok.mp hparse
    obtain ⟨autorestart, -, hparse⟩ := Results.bind_eq_ok.mp hparse
    obtain ⟨directory, -, hparse⟩ := Results.bind_eq_ok.mp hparse
    obtain ⟨redirectStderr, -, hparse⟩ := Results.bind_eq_ok.mp hparse
    obtain ⟨startretries, hretries, hparse⟩ := Results.bind_eq_ok.mp hparse
    obtain ⟨startsecs, hsecs, hparse⟩ := Results.bind_eq_ok.mp hparse
    obtain ⟨stderrFile, -, hparse⟩ := Results.bind_eq_ok.mp hparse
    obtain ⟨stderrMaxbytes, -, hparse⟩ := Results.bind_eq_ok.mp hparse
    obtain ⟨stderrBackups, hstderr, hparse⟩ := Results.bind_eq_ok.mp hparse
    obtain ⟨stdoutFile, -, hparse⟩ := Results.bind_eq_ok.mp hparse
    obtain ⟨stdoutMaxbytes, -, hparse⟩ := Results.bind_eq_ok.mp hparse
    obtain ⟨stdoutBackups, hstdout, hparse⟩ := Results.bind_eq_ok.mp hparse
    obtain ⟨stopsignal, -, hparse⟩ := Results.bind_eq_ok.mp hparse
    obtain ⟨stopwaitsecs, hwait, hparse⟩ := Results.bind_eq_ok.mp hparse
    obtain ⟨umask, humask, hparse⟩ := Results.bind_eq_ok.mp hparse
    obtain ⟨user, -, hparse⟩ := Results.bind_eq_ok.mp hparse
    obtain ⟨_, -, hparse⟩ := Results.bind_eq_ok.mp hparse
    obtain ⟨stdoutFile', -, hparse⟩ := Results.bind_eq_ok.mp hparse
    obtain ⟨stderrFile', -, hparse⟩ := Results.bind_eq_ok.mp hparse
    obtain rfl := Except.ok.inj hparse
    exact ⟨hretries, hsecs, hstderr, hstdout, hwait, humask⟩

/-- A program's numeric option that is given was read from its text. -/
theorem parseProgram_reads (o : NumericOption) {i : Int}
    (hparse : parseProgram h key section_ = .ok prog)
    (hv : section_.getString [ascii o.name] = some v) (hi : o.ofProgram prog = some i) :
    o.read v = .ok i := by
  have hnumbers := parseProgram_numbers hparse
  have hint : ∀ {name : String} {default n : Int32}, section_.getString [ascii name] = some v →
      ptGet section_ name default (readInt name) = .ok n →
      (readInt name v).map Int32.toInt = .ok n.toInt := by
    intro name default n hname hget
    rw [ptGet_of_some hname hget]
    rfl
  cases o with
  | startsecs => exact Option.some.inj hi ▸ hint hv hnumbers.startsecs
  | startretries => exact Option.some.inj hi ▸ hint hv hnumbers.startretries
  | stopwaitsecs => exact Option.some.inj hi ▸ hint hv hnumbers.stopwaitsecs
  | stdoutLogfileBackups => exact Option.some.inj hi ▸ hint hv hnumbers.stdoutBackups
  | stderrLogfileBackups => exact Option.some.inj hi ▸ hint hv hnumbers.stderrBackups
  | umask =>
      obtain ⟨n, hn, hsome⟩ := Results.map_eq_ok.mp (ptGet_of_some hv hnumbers.umask)
      have hread : (readUmask v).map Int.ofNat = .ok (n : Int) := by
        rw [hn]
        rfl
      rw [NumericOption.ofProgram, ← hsome] at hi
      exact Option.some.inj hi ▸ hread
  | logfileBackups => cases hi
  | daemonUmask => cases hi

/-- The same for the options of `[supervisord]`. -/
theorem parseSupervisord_reads (o : NumericOption) {i : Int}
    (hsection : tree.getChildOptional [ascii "supervisord"] = some section_)
    (hparse : parseSupervisord tree c = .ok c')
    (hv : section_.getString [ascii o.name] = some v) (hi : o.ofDaemon c' = some i) :
    o.read v = .ok i := by
  rw [parseSupervisord, hsection] at hparse
  obtain ⟨childlogdir, -, hparse⟩ := Results.bind_eq_ok.mp hparse
  obtain ⟨logfile, -, hparse⟩ := Results.bind_eq_ok.mp hparse
  obtain ⟨logfileMaxbytes, -, hparse⟩ := Results.bind_eq_ok.mp hparse
  obtain ⟨logfileBackups, hbackups, hparse⟩ := Results.bind_eq_ok.mp hparse
  obtain ⟨loglevel, -, hparse⟩ := Results.bind_eq_ok.mp hparse
  obtain ⟨pidfile, -, hparse⟩ := Results.bind_eq_ok.mp hparse
  obtain ⟨umask, humask, hparse⟩ := Results.bind_eq_ok.mp hparse
  obtain ⟨user, -, hparse⟩ := Results.bind_eq_ok.mp hparse
  obtain rfl := Except.ok.inj hparse
  cases o with
  | logfileBackups =>
      have hread : (readInt "logfile_backups" v).map Int32.toInt = .ok logfileBackups.toInt := by
        rw [ptGet_of_some hv hbackups]
        rfl
      exact Option.some.inj hi ▸ hread
  | daemonUmask =>
      have hread : (readUmask v).map Int.ofNat = .ok (umask : Int) := by
        rw [ptGet_of_some hv humask]
        rfl
      exact Option.some.inj hi ▸ hread
  | _ => cases hi

end Sections

/-- **Numeric options.**  An accepted section stores, for every numeric option it gives, what the
option's reader makes of the text; and the reader accepts nothing but numerals, stored as their
values, exactly if the option is an `int` one or the text of a `umask` is clean. -/
theorem numeric_options_strict_iff (o : NumericOption) (v : Bytes) :
    (Strict o v ↔ o.base = .decimal ∨ CleanOctal v) ∧
      (∀ h key section_ prog i, parseProgram h key section_ = .ok prog →
        section_.getString [ascii o.name] = some v → o.ofProgram prog = some i →
        o.read v = .ok i) ∧
      ∀ tree section_ c c' i, tree.getChildOptional [ascii "supervisord"] = some section_ →
        parseSupervisord tree c = .ok c' → section_.getString [ascii o.name] = some v →
        o.ofDaemon c' = some i → o.read v = .ok i :=
  ⟨strict_iff o v,
    fun _ _ _ _ _ hparse hv hi => parseProgram_reads o hparse hv hi,
    fun _ _ _ _ _ hsection hparse hv hi => parseSupervisord_reads o hsection hparse hv hi⟩

theorem numeric_options_strict_umask : Strict .umask (ascii "022") ∧ Strict .startsecs (ascii "5s") :=
  ⟨(numeric_options_strict_iff .umask (ascii "022")).1.mpr
      (Or.inr (Or.inr (Or.inr (by decide)))),
    (numeric_options_strict_iff .startsecs (ascii "5s")).1.mpr (Or.inl rfl)⟩

/-- Garbage behind the digits of a `umask` is accepted. -/
theorem umask_accepts_garbage :
    NumericOption.read .umask (ascii "022abc") = .ok 18 ∧ ¬Strict .umask (ascii "022abc") := by
  have hread : NumericOption.read .umask (ascii "022abc") = .ok 18 := by decide
  refine ⟨hread, fun hstrict => ?_⟩
  obtain ⟨-, hall, -, -⟩ := hstrict 18 hread
  exact absurd (hall 97 (by decide)) (by decide)

end Supervisorcpp
