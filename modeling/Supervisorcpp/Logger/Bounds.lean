/-
# Two limits that hold but for one case each

`backups` limits the number of backups, unless it is 0: the last rename of a rotation does not look
at it. `max_bytes` limits the log file, with room for one pending line and one write, unless
pending bytes are flushed: `flush` does not look at the size.
-/
import Mathlib.Data.List.Induction
import Supervisorcpp.Lib.Machine
import Supervisorcpp.Logger.Rotation

namespace Supervisorcpp

namespace LogWriter

variable {io : Io} {w w' : LogWriter}

/-! ## The number of backups -/

/-- How many calls of a sequence rotate. -/
def rotations (w : LogWriter) : List (Call × Io) → Nat
  | [] => 0
  | c :: calls => (if w.rotates c.1 then 1 else 0) + rotations (w.call c) calls

/-- After `n` rotations the backups are `logfile.1`, …, `logfile.k` with `k = min n backups`. -/
def KeepsBackups (n : Nat) (w : LogWriter) : Prop :=
  ∀ i, 1 ≤ i → ((w.disk.file i).isSome = true ↔ i ≤ min n w.backups.toInt.toNat)

/-- **One call** keeps the backups in number. -/
theorem backups_step {c : Call} {n : Nat} (hb : 1 ≤ w.backups.toInt) (h : Tracks w)
    (hkeeps : KeepsBackups n w) (he : Effect w w' c) :
    KeepsBackups ((if w.rotates c then 1 else 0) + n) w' := by
  intro i hi
  obtain ⟨j, rfl⟩ : ∃ j, i = j + 1 := ⟨i - 1, by omega⟩
  have hslots : backupSlots w.backups = w.backups.toInt.toNat := by unfold backupSlots; omega
  rw [he.backups, he.file, Slots.append_of_ne _ _ (by omega : j + 1 ≠ 0)]
  by_cases hrot : w.rotates c = true
  · simp only [hrot, if_true, hslots]
    by_cases hj : j + 1 ≤ w.backups.toInt.toNat
    -- the slot holds what the one below held
    · rw [Slots.lift_succ _ (Nat.zero_le j) hj]
      rcases Nat.eq_zero_or_pos j with rfl | hpos
      · simp only [h.present, true_iff]
        omega
      · rw [hkeeps j hpos]
        omega
    · rw [Slots.lift_above _ (by omega) (by omega), hkeeps (j + 1) hi]
      omega
  · simp only [hrot, if_false, Bool.false_eq_true, Nat.zero_add]
    exact hkeeps (j + 1) hi

/-- Every rotation of a run adds a backup, up to the number that is kept. -/
theorem run_keepsBackups {calls : List (Call × Io)} {n : Nat} (hcalls : ∀ c ∈ calls, Succeeds c.2)
    (hb : 1 ≤ w.backups.toInt) (h : Tracks w) (hkeeps : KeepsBackups n w) :
    KeepsBackups (w.rotations calls + n) (w.run calls) := by
  induction calls generalizing w n with
  | nil => simpa [rotations, run] using hkeeps
  | cons c calls ih =>
      have he := call_effect (hcalls c List.mem_cons_self) h
      have hrest := ih (fun c' hc' => hcalls c' (List.mem_cons_of_mem _ hc'))
        (by rw [he.backups]; exact hb) (he.tracks h) (backups_step hb h hkeeps he)
      have hcount : w.rotations (c :: calls) + n =
          (w.call c).rotations calls + ((if w.rotates c.1 then 1 else 0) + n) := by
        simp only [rotations]
        omega
      rw [hcount]
      exact hrest

/-- A sequence of calls keeps the size counter right. -/
theorem run_tracks {calls : List (Call × Io)} (hcalls : ∀ c ∈ calls, Succeeds c.2) (h : Tracks w) :
    Tracks (w.run calls) ∧ (w.run calls).backups = w.backups := by
  induction calls generalizing w with
  | nil => exact ⟨h, rfl⟩
  | cons c calls ih =>
      have he := call_effect (hcalls c List.mem_cons_self) h
      have hrest := ih (fun c' hc' => hcalls c' (List.mem_cons_of_mem _ hc')) (he.tracks h)
      exact ⟨hrest.1, hrest.2.trans he.backups⟩

/-- Calls none of which rotates leave all backups as they are. -/
theorem run_without_rotation {calls : List (Call × Io)} (hcalls : ∀ c ∈ calls, Succeeds c.2)
    (h : Tracks w) (hnone : w.rotations calls = 0) (i : Nat) :
    (w.run calls).disk.file (i + 1) = w.disk.file (i + 1) := by
  induction calls generalizing w with
  | nil => rfl
  | cons c calls ih =>
      have he := call_effect (hcalls c List.mem_cons_self) h
      have hhere : w.rotates c.1 = false := by
        by_contra hrot
        simp [rotations, hrot] at hnone
      have hlater : (w.call c).rotations calls = 0 := by
        simp only [rotations] at hnone
        omega
      have hrest := ih (fun c' hc' => hcalls c' (List.mem_cons_of_mem _ hc')) (he.tracks h) hlater
      show ((w.call c).run calls).disk.file (i + 1) = _
      rw [hrest, he.file, Slots.append_of_ne _ _ (Nat.succ_ne_zero i), hhere]
      rfl

theorem run_concat (w : LogWriter) (calls : List (Call × Io)) (c : Call × Io) :
    w.run (calls ++ [c]) = (w.run calls).call c := by
  simp [run]

/-- The last call adds a rotation where it rotates. -/
theorem rotations_concat (w : LogWriter) (calls : List (Call × Io)) (c : Call × Io) :
    w.rotations (calls ++ [c]) =
      w.rotations calls + if (w.run calls).rotates c.1 then 1 else 0 := by
  induction calls generalizing w with
  | nil => exact Nat.add_comm _ _
  | cons c' calls ih =>
      simp only [List.cons_append, rotations, ih, Nat.add_assoc]
      rfl

/-- Where no call rotates there are no rotations. -/
theorem rotations_eq_zero {calls : List (Call × Io)}
    (h : ∀ before c, before ++ [c] <+: calls → (w.run before).rotates c.1 = false) :
    w.rotations calls = 0 := by
  induction calls using List.reverseRecOn with
  | nil => rfl
  | append_singleton calls c ih =>
      rw [rotations_concat, h calls c (List.prefix_refl _),
        ih fun before c' hpre => h before c' (hpre.trans (List.prefix_append _ _))]
      rfl

/-- **The backups of a log.**  From a directory without backups and with no failing file operation,
the backups after every call are `logfile.1` to `logfile.k`, where `k` is the number of rotations so
far, at most `backups`, exactly if `backups` is not 0 or no write ever passes the limit. -/
theorem backups_kept_iff (maxBytes : Nat) (backups : Int32) (hb : 0 ≤ backups.toInt) (disk : Disk)
    (hnone : ∀ i, 1 ≤ i → disk.file i = none) (start : OpenIo)
    (hstart : start.opened = true ∧ start.sized = true) (calls : List (Call × Io))
    (hcalls : ∀ c ∈ calls, Succeeds c.2) :
    let w := create maxBytes backups disk start
    (∀ before, before <+: calls → KeepsBackups (w.rotations before) (w.run before)) ↔
      (1 ≤ backups.toInt ∨
        ∀ before c, before ++ [c] <+: calls → (w.run before).rotates c.1 = false) := by
  intro w
  obtain ⟨htracks, -, hbackups, -, hfile⟩ := create_tracks maxBytes backups disk hstart.1 hstart.2
  have hempty : ∀ i, 1 ≤ i → w.disk.file i = none := by
    intro i hi
    have hi0 : i ≠ 0 := by omega
    rw [hfile, Slots.append_of_ne _ _ hi0]
    exact hnone i hi
  have hsucceed : ∀ {before : List (Call × Io)}, before <+: calls → ∀ c ∈ before, Succeeds c.2 :=
    fun hpre c hc => hcalls c (hpre.subset hc)
  constructor
  · intro hkeeps
    by_contra hneither
    push Not at hneither
    obtain ⟨hzero, before, c, hpre, hrot⟩ := hneither
    have hrot' : (w.run before).rotates c.1 = true := by simpa using hrot
    obtain ⟨hbefore, hsame⟩ :=
      run_tracks (hsucceed ((List.prefix_append _ _).trans hpre)) htracks
    have hc : Succeeds c.2 := hsucceed hpre c (by simp)
    have he := call_effect hc hbefore
    -- the log file itself has become a backup, although none is to be kept
    have hone : ((w.run (before ++ [c])).disk.file 1).isSome = true := by
      rw [run_concat, he.file, Slots.append_of_ne _ _ Nat.one_ne_zero, hrot']
      have hslot := Slots.lift_succ (w.run before).disk.file (Nat.zero_le 0)
        (Nat.le_max_left 1 (w.run before).backups.toInt.toNat)
      simp only [if_true]
      exact (congrArg Option.isSome hslot).trans hbefore.present
    have hnot := (hkeeps _ hpre 1 (Nat.le_refl 1)).mp hone
    have hlimit : (w.run (before ++ [c])).backups.toInt.toNat = 0 := by
      rw [run_concat, he.backups, hsame, hbackups]
      omega
    omega
  · rintro hcase before hpre
    by_cases hpos : 1 ≤ backups.toInt
    · have hstartKeeps : KeepsBackups 0 w := by
        intro i hi
        simp only [hempty i hi, Option.isSome_none, Bool.false_eq_true, false_iff]
        omega
      exact run_keepsBackups (hsucceed hpre) (by rw [hbackups]; exact hpos) htracks hstartKeeps
    · have hno : w.rotations before = 0 := by
        apply rotations_eq_zero
        intro before' c hpre'
        exact hcase.resolve_left hpos before' c (hpre'.trans hpre)
      intro i hi
      obtain ⟨j, rfl⟩ : ∃ j, i = j + 1 := ⟨i - 1, by omega⟩
      rw [run_without_rotation (hsucceed hpre) htracks hno, hempty _ hi, hno]
      simp

/-- A directory without any log file. -/
def noFiles : Disk := ⟨fun _ => none, 0⟩

/-- Two lines of three bytes. -/
def twoLines : List (Call × Io) := [(.writeLine [97, 98], {}), (.writeLine [99, 100], {})]

theorem backups_kept_two :
    KeepsBackups ((create 3 2 noFiles {}).rotations twoLines)
      ((create 3 2 noFiles {}).run twoLines) := by
  have hio : ∀ c ∈ twoLines, Succeeds c.2 := by
    intro c hc
    simp only [twoLines, List.mem_cons, List.not_mem_nil, or_false] at hc
    rcases hc with rfl | rfl <;> exact succeeds_default
  have h := backups_kept_iff 3 2 (by decide) noFiles (fun _ _ => rfl) {} ⟨rfl, rfl⟩ twoLines hio
  exact h.mpr (Or.inl (by decide)) twoLines (List.prefix_refl _)

/-- With no backup to keep, the second line turns the first into a backup. -/
theorem backups_zero_keeps_one :
    ((create 3 0 noFiles {}).run twoLines).disk.file 1 = some [97, 98, 10] ∧
      ¬KeepsBackups ((create 3 0 noFiles {}).rotations twoLines)
        ((create 3 0 noFiles {}).run twoLines) := by
  have hone : ((create 3 0 noFiles {}).run twoLines).disk.file 1 = some [97, 98, 10] := by decide
  refine ⟨hone, fun hkeeps => ?_⟩
  have hle := (hkeeps 1 (Nat.le_refl 1)).mp (by rw [hone]; rfl)
  exact absurd hle (by decide)

/-! ## The size of the log file -/

/-- The argument of a call. -/
def Call.argument : Call → List UInt8
  | .write data => data
  | .writeLine line => line
  | .flush => []

/-- A flush of pending bytes finds the file within its limit, and a write of complete lines leaves
less than the limit and 64 KiB pending. -/
def StaysInLimit (w : LogWriter) : Call → Prop
  | .flush => w.pendingBuffer = [] ∨ w.currentSize ≤ w.maxBytes
  | c => newline ∈ c.data → (unfinished c.data).length < w.maxBytes + maxPendingBuffer

/-- What every call keeps: the log file's bound, and the bounds on what is pending that it needs. -/
structure Bounded (maxBytes size : Nat) (w : LogWriter) : Prop where
  tracks : Tracks w
  limit : w.maxBytes = maxBytes
  bound : w.fileSize ≤ maxBytes + maxPendingBuffer + size
  pendingWrite : w.pendingBuffer.length ≤ maxPendingBuffer + size
  pendingLimit : w.pendingBuffer.length < maxBytes + maxPendingBuffer

/-- A line may get a newline. -/
theorem lineData_length (line : List UInt8) : (lineData line).length ≤ line.length + 1 := by
  unfold lineData
  split <;> simp

theorem Call.data_length (c : Call) : c.data.length ≤ c.argument.length + 1 := by
  cases c with
  | write data => exact Nat.le_succ _
  | writeLine line => exact lineData_length line
  | flush => exact Nat.zero_le _

/-- What a call leaves pending is less than what it was given, once there is a newline in it. -/
theorem unfinished_length (data : List UInt8) (h : newline ∈ data) :
    (unfinished data).length < data.length := by
  rcases flushEnd_cases [] data with ⟨before, hdata, -, -⟩ | ⟨hno, -, -⟩ | ⟨hno, -, -⟩
  · have hlen := congrArg List.length hdata
    simp only [List.length_append, List.length_cons] at hlen
    omega
  · exact absurd h hno
  · exact absurd h hno

/-- What stays pending after a write is within both bounds. -/
theorem pending_bounded {maxBytes size : Nat} {c : Call} (hc : c ≠ .flush)
    (h : Bounded maxBytes size w) (hsize : c.argument.length ≤ size) (hstays : StaysInLimit w c) :
    ((w.pendingBuffer ++ c.data).drop (w.flushed c)).length ≤ maxPendingBuffer + size ∧
      ((w.pendingBuffer ++ c.data).drop (w.flushed c)).length < maxBytes + maxPendingBuffer := by
  have hwrite := h.pendingWrite
  have hlimit := h.pendingLimit
  by_cases hempty : c.data = []
  · simp only [hempty, List.append_nil, List.length_drop]
    omega
  · have hflushed : w.flushed c = flushEnd w.pendingBuffer c.data := by
      cases c <;> first | exact absurd rfl hc | simp [flushed, hempty]
    rw [hflushed]
    rcases flushEnd_cases w.pendingBuffer c.data with
      ⟨before, hdata, -, hn⟩ | ⟨-, -, hn⟩ | ⟨-, hshort, hn⟩
    · have hline : newline ∈ c.data := by rw [hdata]; simp
      have hrest : (unfinished c.data).length < maxBytes + maxPendingBuffer := by
        have hrest' : (unfinished c.data).length < w.maxBytes + maxPendingBuffer := by
          cases c <;> first | exact absurd rfl hc | exact hstays hline
        rw [← h.limit]
        exact hrest'
      have hlt := unfinished_length c.data hline
      have hdataLen := c.data_length
      rw [(flushed_line hdata hn).2]
      exact ⟨by omega, hrest⟩
    · rw [hn, List.drop_length]
      simp [maxPendingBuffer]
    · rw [hn, List.drop_zero]
      omega

/-- **One call** keeps the bound. -/
theorem bounded_step {maxBytes size : Nat} {c : Call} (hmax : 0 < maxBytes)
    (h : Bounded maxBytes size w) (hsize : c.argument.length ≤ size) (hstays : StaysInLimit w c)
    (he : Effect w w' c) : Bounded maxBytes size w' := by
  have hcount := he.size
  have htracks := he.tracks h.tracks
  have hsame : w.currentSize = w.fileSize := h.tracks.size
  have hwrite := h.pendingWrite
  have hlimit := h.pendingLimit
  have hbound := h.bound
  have hwithin : w'.fileSize ≤ maxBytes + maxPendingBuffer + size := by
    rw [← htracks.size, hcount]
    by_cases hflush : c = .flush
    · subst hflush
      -- the only path that does not look at the limit
      simp only [rotates, flushed, Bool.false_eq_true, if_false]
      rcases hstays with hnone | hinside
      · rw [hnone, hsame]
        simpa using hbound
      · have hmaxBytes := h.limit
        omega
    · have hle := flushed_le w c
      have hdata := c.data_length
      rw [List.length_append] at hle
      by_cases hrot : w.rotates c = true
      · simp only [hrot, if_true]
        omega
      · simp only [hrot, Bool.false_eq_true, if_false]
        rcases Nat.eq_zero_or_pos (w.flushed c) with hzero | hpos
        · omega
        -- no rotation: the file stays below the limit
        · have hbelow : w.passesLimit (w.flushed c) = false := by
            cases c <;> first | exact absurd rfl hflush | simpa [rotates, hpos] using hrot
          have hinside : w.currentSize + w.flushed c ≤ maxBytes := by
            simpa [passesLimit, h.limit, hmax] using hbelow
          omega
  by_cases hflush : c = .flush
  · subst hflush
    have hnone : w'.pendingBuffer = [] := by
      rw [he.pending]
      simp [flushed, Call.data]
    refine ⟨htracks, he.maxBytes.trans h.limit, hwithin, ?_, ?_⟩
    · rw [hnone]
      exact Nat.zero_le _
    · rw [hnone, List.length_nil]
      omega
  · obtain ⟨hpending, hpending'⟩ := pending_bounded hflush h hsize hstays
    rw [← he.pending] at hpending hpending'
    exact ⟨htracks, he.maxBytes.trans h.limit, hwithin, hpending, hpending'⟩

/-- The writer as a machine whose inputs are calls. -/
def logStep (w : LogWriter) (c : Call × Io) : Option LogWriter := some (w.call c)

/-- A call whose file operations succeed, with at most `size` bytes, that does not meet the paths
without a check. -/
def CheckedCall (size : Nat) (w : LogWriter) (c : Call × Io) : Prop :=
  Succeeds c.2 ∧ c.1.argument.length ≤ size ∧ StaysInLimit w c.1

/-- A new writer on a log file within its limit. -/
def StartsWithin (maxBytes : Nat) (backups : Int32) (w : LogWriter) : Prop :=
  ∃ (disk : Disk) (start : OpenIo), start.opened = true ∧ start.sized = true ∧
    ((disk.file 0).getD []).length ≤ maxBytes ∧ w = create maxBytes backups disk start

/-- **The log file is bounded**, as long as no flush meets pending bytes with the limit already
passed and no write leaves the limit and 64 KiB behind its last newline: in every state such a run
reaches the file has at most `max_bytes`, one full pending buffer and one write. -/
theorem log_size_bounded (maxBytes : Nat) (hmax : 0 < maxBytes) (backups : Int32) (size : Nat)
    (w : LogWriter)
    (h : Machine.Reach logStep (CheckedCall size) (StartsWithin maxBytes backups) w) :
    w.fileSize ≤ maxBytes + 65536 + size := by
  suffices hbounded : Bounded maxBytes size w from hbounded.bound
  refine h.invariant ?_ ?_
  · rintro w ⟨disk, start, hopen, hsized, hfile, rfl⟩
    obtain ⟨htracks, hlimit, -, hpending, hdisk⟩ := create_tracks maxBytes backups disk hopen hsized
    have hpos : 0 < maxPendingBuffer := by decide
    refine ⟨htracks, hlimit, ?_, ?_, ?_⟩
    · rw [fileSize, hdisk, Slots.append_self, Option.getD_some, List.append_nil]
      omega
    · rw [hpending]
      exact Nat.zero_le _
    · rw [hpending, List.length_nil]
      omega
  · rintro w c w' hw ⟨hio, hsize, hstays⟩ hstep
    obtain rfl : w.call c = w' := Option.some.inj hstep
    exact bounded_step hmax hw hsize hstays (call_effect hio hw.tracks)

/-- A partial line, flushed, and another one; the second flush still finds the file within its
limit. -/
theorem log_size_bounded_two_flushes :
    ((create 3 1 noFiles {}).run
      [(.write [97, 98], {}), (.flush, {}), (.write [99, 100], {}), (.flush, {})]).fileSize ≤
      3 + 65536 + 2 := by
  apply log_size_bounded 3 (by decide) 1 2
  refine .step (.step (.step (.step (.init ⟨noFiles, {}, rfl, rfl, Nat.zero_le _, rfl⟩)
    (i := (.write [97, 98], {})) ⟨succeeds_default, by decide, ?_⟩ rfl)
    (i := (.flush, {})) ⟨succeeds_default, by decide, ?_⟩ rfl)
    (i := (.write [99, 100], {})) ⟨succeeds_default, by decide, ?_⟩ rfl)
    (i := (.flush, {})) ⟨succeeds_default, by decide, ?_⟩ rfl
  · exact fun hline => absurd hline (by decide)
  · exact Or.inr (by decide)
  · exact fun hline => absurd hline (by decide)
  · exact Or.inr (by decide)

/-- A child that ends `n` times without ending its line: each run's bytes are flushed. -/
def flushLoop (data : List UInt8) : Nat → List (Call × Io)
  | 0 => []
  | n + 1 => (.write data, {}) :: (.flush, {}) :: flushLoop data n

/-- Every round of writing a short piece and flushing it makes the file longer, rotating nothing. -/
theorem flushLoop_size {data : List UInt8} (hline : newline ∉ data)
    (hshort : data.length < maxPendingBuffer) (n : Nat) (h : Tracks w)
    (hpending : w.pendingBuffer = []) :
    (w.run (flushLoop data n)).fileSize = w.fileSize + n * data.length := by
  induction n generalizing w with
  | zero => simp [flushLoop, run]
  | succ n ih =>
      have hwaits : w.flushed (.write data) = 0 := by
        rcases flushEnd_cases [] data with ⟨before, hdata, -, -⟩ | ⟨-, hlong, -⟩ | ⟨-, -, hn⟩
        · exact absurd (by rw [hdata]; simp) hline
        · exact absurd hlong (Nat.not_le_of_lt hshort)
        · simp [flushed, hpending, Call.data, hn]
      set v := w.call (.write data, {})
      have hv : Effect w v (.write data) := call_effect succeeds_default h
      have hvpending : v.pendingBuffer = data := by
        rw [hv.pending, hwaits, hpending]
        rfl
      have hvsize : v.fileSize = w.fileSize := by
        rw [← (hv.tracks h).size, hv.size, hwaits, ← h.size]
        simp [rotates, hwaits]
      set u := v.call (.flush, {})
      have hu : Effect v u .flush := call_effect succeeds_default (hv.tracks h)
      have hutracks := hu.tracks (hv.tracks h)
      have husize : u.fileSize = w.fileSize + data.length := by
        rw [← hutracks.size, hu.size, ← hvsize, ← (hv.tracks h).size]
        simp [rotates, flushed, hvpending]
      have hupending : u.pendingBuffer = [] := by
        rw [hu.pending]
        simp [flushed, Call.data]
      show (u.run (flushLoop data n)).fileSize = _
      rw [ih hutracks hupending, husize, Nat.succ_mul]
      omega

/-- **Flushing has no limit.**  One byte at a time, each flushed, the file outgrows any bound; with
a limit of one byte it has passed `max_bytes + 65536` and one write after 65539 rounds. -/
theorem flushed_log_outgrows_bound :
    (∀ c ∈ flushLoop [97] 65539, Succeeds c.2 ∧ c.1.argument.length ≤ 1) ∧
      1 + 65536 + 1 < ((create 1 1 noFiles {}).run (flushLoop [97] 65539)).fileSize := by
  constructor
  · generalize 65539 = n
    induction n with
    | zero => simp [flushLoop]
    | succ n ih =>
        simp only [flushLoop, List.forall_mem_cons]
        exact ⟨⟨succeeds_default, by decide⟩, ⟨succeeds_default, by decide⟩, ih⟩
  · have hstart : ({} : OpenIo).opened = true ∧ ({} : OpenIo).sized = true := ⟨rfl, rfl⟩
    obtain ⟨htracks, -, -, hpending, hdisk⟩ := create_tracks 1 1 noFiles hstart.1 hstart.2
    rw [flushLoop_size (by decide) (by decide) 65539 htracks hpending, fileSize, hdisk]
    decide

end LogWriter

end Supervisorcpp
