/-
# Rotation on line boundaries

Without `flush`, bytes reach the log file as whole lines only: `write` cuts behind the last newline,
and the 64 KiB overflow needs a line longer than that. Rotation, finished or abandoned at any
rename, only moves files up, so every backup it makes ends where a line does.

The invariant of a run (`Whole`) says which files end where a line does, and that what is pending is
the end of what was written. Renames that throw leave a hole in the numbering and nothing else.
-/
import Supervisorcpp.Logger.Rotation

namespace Supervisorcpp

/-! ## Moving files up -/

namespace Disk

/-- Every file satisfies the predicate of its slot. -/
def Holds (p : Nat → List UInt8 → Prop) (d : Disk) : Prop :=
  ∀ i bytes, d.file i = some bytes → p i bytes

variable {p : Nat → List UInt8 → Prop} {d : Disk}

/-- Removing a file makes nothing false of the others. -/
theorem Holds.remove (h : d.Holds p) (i : Nat) : (d.remove i).Holds p := by
  intro j bytes hj
  have hj' : Slots.clear d.file i j = some bytes := hj
  unfold Slots.clear at hj'
  split at hj'
  · cases hj'
  · exact h j bytes hj'

/-- A predicate that a file keeps when it moves up survives a rename. -/
theorem Holds.rename (hup : ∀ i bytes, p i bytes → p (i + 1) bytes) (h : d.Holds p) (i : Nat) :
    (d.rename i).Holds p := by
  intro j bytes hj
  have hj' : Slots.shift d.file i j = some bytes := hj
  unfold Slots.shift at hj'
  split at hj'
  · next hmoved =>
      rw [hmoved]
      exact hup i bytes (h i bytes hj')
  · split at hj'
    · cases hj'
    · exact h j bytes hj'

/-- Appending changes the log file only. -/
theorem Holds.append (h : d.Holds p) {bytes : List UInt8}
    (hlog : p 0 ((d.file 0).getD [] ++ bytes)) : (d.append bytes).Holds p := by
  intro j content hj
  by_cases hj0 : j = 0
  · subst hj0
    have hj' : Slots.append d.file 0 bytes 0 = some content := hj
    rw [Slots.append_self] at hj'
    rw [← Option.some.inj hj']
    exact hlog
  · have hj' : Slots.append d.file 0 bytes j = some content := hj
    rw [Slots.append_of_ne _ _ hj0] at hj'
    exact h j content hj'

/-- Opening the log file keeps what it holds, or makes it empty. -/
theorem Holds.append_nil (hnil : p 0 []) (h : d.Holds p) : (d.append []).Holds p := by
  apply h.append
  rw [List.append_nil]
  cases hfile : d.file 0 with
  | none => exact hnil
  | some bytes => exact h 0 bytes hfile

end Disk

namespace LogWriter

variable {p : Nat → List UInt8 → Prop} {io : Io} {w : LogWriter} {d : Disk}

/-- Renaming keeps what goes from a slot to the next one. -/
theorem Holds.renameUp (hup : ∀ i bytes, p i bytes → p (i + 1) bytes) (h : d.Holds p) (i : Nat) :
    (renameUp io i d).2.Holds p := by
  unfold LogWriter.renameUp
  split
  · exact h
  · split
    · split
      · exact h.rename hup i
      · exact h
    · exact h

theorem Holds.andThen {r : Bool × Disk} {next : Disk → Bool × Disk} (h : r.2.Holds p)
    (hnext : ∀ d, d.Holds p → (next d).2.Holds p) : (andThen r next).2.Holds p := by
  unfold LogWriter.andThen
  split
  · exact hnext r.2 h
  · exact h

theorem Holds.renameBackups (hup : ∀ i bytes, p i bytes → p (i + 1) bytes) (i : Nat)
    (h : d.Holds p) : (renameBackups io i d).2.Holds p := by
  induction i generalizing d with
  | zero => exact h
  | succ i ih => exact Holds.andThen (Holds.renameUp hup h (i + 1)) fun d' hd' => ih hd'

/-- **A rotation**, wherever it is abandoned, only moves files up. -/
theorem Holds.rotateFiles (hup : ∀ i bytes, p i bytes → p (i + 1) bytes) (backups : Int32)
    (h : d.Holds p) : (rotateFiles io backups d).2.Holds p := by
  have holdest : (removeOldest io backups d).2.Holds p := by
    simp only [removeOldest]
    split
    · split
      · exact h
      · split
        · split
          · exact h.remove _
          · exact h
        · exact h
    · exact h
  refine Holds.andThen (Holds.andThen holdest ?_) ?_
  · exact fun d' hd' => Holds.renameBackups hup _ hd'
  · exact fun d' hd' => Holds.renameUp hup hd' 0

/-- So does a rotation, if it is true of the new file. -/
theorem Holds.rotateFor (hio : Writable io) (hup : ∀ i bytes, p i bytes → p (i + 1) bytes)
    (hnil : p 0 []) (hready : Ready w) (h : w.disk.Holds p) (size : Nat) :
    Ready (w.rotateFor io size) ∧ (w.rotateFor io size).pendingBuffer = w.pendingBuffer ∧
      (w.rotateFor io size).disk.Holds p := by
  unfold LogWriter.rotateFor
  split
  · obtain ⟨hready', -, hpending, hdisk⟩ := rotateNL_ready hio hready
    refine ⟨hready', hpending, ?_⟩
    rw [hdisk]
    exact (Holds.rotateFiles hup _ (h.append_nil hnil)).append_nil hnil
  · exact ⟨hready, rfl, h⟩

/-! ## Whole lines -/

/-- Empty, or ending in a newline. -/
def LineEnded (bytes : List UInt8) : Prop := bytes = [] ∨ bytes.getLast? = some newline

/-- The log file ends where a line does, and so does every backup that was not there from the
start. -/
def LineBacked (old : Nat → Option (List UInt8)) : Nat → List UInt8 → Prop
  | 0, bytes => LineEnded bytes
  | _ + 1, bytes => LineEnded bytes ∨ ∃ j, old (j + 1) = some bytes

/-- No newline-free piece of the text has 64 KiB: every line, the unfinished one at the end too. -/
def ShortLines (text : List UInt8) : Prop :=
  ∀ before piece after, text = before ++ piece ++ after → newline ∉ piece → piece.length < 65536

/-- What every call keeps; `text` is all that was written so far. -/
structure Whole (old : Nat → Option (List UInt8)) (text : List UInt8) (w : LogWriter) : Prop where
  ready : Ready w
  unfinished : newline ∉ w.pendingBuffer
  pending : ∃ before, text = before ++ w.pendingBuffer
  files : w.disk.Holds (LineBacked old)

/-- A file that ends where a line does is such a backup when it is rotated. -/
theorem lineBacked_up {old : Nat → Option (List UInt8)} (i : Nat) (bytes : List UInt8)
    (h : LineBacked old i bytes) : LineBacked old (i + 1) bytes := by
  cases i with
  | zero => exact Or.inl h
  | succ i => exact h

/-- **One write** of any chunk of the text. -/
theorem write_whole {old : Nat → Option (List UInt8)} {text data : List UInt8} (hio : Writable io)
    (hshort : ShortLines (text ++ data)) (h : Whole old text w) :
    Whole old (text ++ data) (w.write io data).2 := by
  obtain ⟨before, htext⟩ := h.pending
  have hpending : text ++ data = before ++ (w.pendingBuffer ++ data) := by
    rw [htext, List.append_assoc]
  by_cases hempty : data.isEmpty = true
  · have hwrite : w.write io data = (0, w) := by simp [write, hempty]
    rw [hwrite, List.isEmpty_iff.mp hempty, List.append_nil]
    exact h
  simp only [write, hempty, Bool.false_eq_true, if_false, h.ready.isOpen, if_true, writeOpen]
  rcases flushEnd_cases w.pendingBuffer data with
    ⟨front, hdata, hafter, hn⟩ | ⟨hno, hlong, -⟩ | ⟨hno, -, hn⟩
  -- whole lines go to the file
  · obtain ⟨htake, hdrop⟩ := flushed_line hdata hn
    have hpos : ¬flushEnd w.pendingBuffer data = 0 := by omega
    simp only [hpos, if_false, htake]
    set v : LogWriter := { w with pendingBuffer := w.pendingBuffer ++ data } with hv
    have hvready : Ready v := h.ready
    set str := w.pendingBuffer ++ front ++ [newline] with hstr
    obtain ⟨hready, hkept, hfiles⟩ :=
      Holds.rotateFor hio lineBacked_up (Or.inl rfl) hvready h.files str.length
    have hrest : (v.rotateFor io str.length).pendingBuffer.drop (flushEnd w.pendingBuffer data) =
        unfinished data := by
      rw [hkept]
      exact hdrop
    rw [writeNL_eq hio rfl hready]
    refine ⟨rfl, ?_, ⟨text ++ front ++ [newline], ?_⟩, ?_⟩
    · show newline ∉ (v.rotateFor io str.length).pendingBuffer.drop _
      rw [hrest]
      exact hafter
    · show _ = _ ++ (v.rotateFor io str.length).pendingBuffer.drop _
      rw [hrest, List.append_assoc, List.append_assoc, List.singleton_append, ← hdata]
    · apply hfiles.append
      exact Or.inr (by rw [hstr, ← List.append_assoc, List.getLast?_concat])
  -- a line of 64 KiB is excluded
  · have hpiece : newline ∉ w.pendingBuffer ++ data := by
      simp [h.unfinished, hno]
    have hlt := hshort before (w.pendingBuffer ++ data) [] (by simpa using hpending) hpiece
    exact absurd hlong (Nat.not_le_of_lt hlt)
  · simp only [hn, if_true]
    refine ⟨h.ready, ?_, ⟨before, hpending⟩, h.files⟩
    simp [h.unfinished, hno]

/-- A text with short lines has them in every part of it. -/
theorem ShortLines.left {text rest : List UInt8} (h : ShortLines (text ++ rest)) :
    ShortLines text := by
  intro before piece after htext
  exact h before piece (after ++ rest) (by rw [htext]; simp)

/-- Every file of a run ends where a line does, except a backup that was there from the start. -/
theorem run_whole {old : Nat → Option (List UInt8)} {text : List UInt8} {calls : List (Call × Io)}
    (hcalls : ∀ c ∈ calls, Writable c.2 ∧ c.1 ≠ .flush) (hshort : ShortLines (text ++ written calls))
    (h : Whole old text w) : Whole old (text ++ written calls) (w.run calls) := by
  induction calls generalizing w text with
  | nil => simpa [written, run] using h
  | cons c calls ih =>
      obtain ⟨hio, hflush⟩ := hcalls c List.mem_cons_self
      have hsplit : text ++ written (c :: calls) = text ++ c.1.data ++ written calls := by
        simp [written]
      rw [hsplit] at hshort ⊢
      have hone : Whole old (text ++ c.1.data) (w.call c) := by
        obtain ⟨c, io⟩ := c
        cases c with
        | write data => exact write_whole hio hshort.left h
        | writeLine line => exact write_whole hio hshort.left h
        | flush => exact absurd rfl hflush
      exact ih (fun c' hc' => hcalls c' (List.mem_cons_of_mem _ hc')) hshort hone

/-- **Rotation on line boundaries.**  However a text with lines shorter than 64 KiB is cut into
writes, and whichever renames and removals fail, after every call the log file is empty or ends in a
newline, and so is every backup that was not there from the start. -/
theorem rotation_on_line_boundaries (maxBytes : Nat) (backups : Int32) (disk : Disk)
    (hlog : LineEnded ((disk.file 0).getD [])) (start : OpenIo) (hstart : start.opened = true)
    (calls : List (Call × Io)) (hcalls : ∀ c ∈ calls, Writable c.2 ∧ c.1 ≠ .flush)
    (hshort : ShortLines (written calls)) :
    let w := (create maxBytes backups disk start).run calls
    LineEnded ((w.disk.file 0).getD []) ∧
      ∀ i bytes, w.disk.file (i + 1) = some bytes →
        LineEnded bytes ∨ ∃ j, disk.file (j + 1) = some bytes := by
  intro w
  have hwhole : Whole disk.file [] (create maxBytes backups disk start) := by
    obtain ⟨_, hready, _, hpending, hdisk⟩ := openNL_ready .ok
      (w := ⟨maxBytes, backups, ⟨false, true, []⟩, 0, [], disk⟩) hstart rfl
    have hnone : (create maxBytes backups disk start).pendingBuffer = [] := hpending
    refine ⟨hready, by simp [hnone], ⟨[], by simp [hnone]⟩, ?_⟩
    have hstarted : (create maxBytes backups disk start).disk = disk.append [] := hdisk
    rw [hstarted]
    refine Disk.Holds.append_nil (Or.inl rfl) fun i bytes hi => ?_
    cases i with
    | zero => simpa [LineBacked, hi] using hlog
    | succ i => exact Or.inr ⟨i, hi⟩
  have hrun : Whole disk.file ([] ++ written calls) w := run_whole hcalls hshort hwhole
  refine ⟨?_, fun i bytes hi => hrun.files (i + 1) bytes hi⟩
  cases hfile : w.disk.file 0 with
  | none => exact Or.inl rfl
  | some bytes => exact hrun.files 0 bytes hfile

/-- A line in two chunks and a whole one; the limit of three bytes makes both calls that flush
rotate, and the second rotation fails to rename the log file. -/
def chunkedCalls : List (Call × Io) :=
  [(.write [97, 98], {}), (.write [99, 10, 100], {}),
    (.writeLine [101], { renameOk := fun i => i != 0 })]

theorem rotation_on_line_boundaries_chunked :
    let w := (create 3 1 ⟨fun _ => none, 0⟩ {}).run chunkedCalls
    w.disk.file 0 = some [97, 98, 99, 10, 100, 101, 10] ∧ LineEnded ((w.disk.file 0).getD []) := by
  have hcalls : ∀ c ∈ chunkedCalls, Writable c.2 ∧ c.1 ≠ .flush := by
    intro c hc
    simp only [chunkedCalls, List.mem_cons, List.not_mem_nil, or_false] at hc
    rcases hc with rfl | rfl | rfl <;> exact ⟨⟨rfl, rfl, rfl, rfl, rfl⟩, by decide⟩
  have hshort : ShortLines (written chunkedCalls) := by
    intro before piece after htext _
    have hlen := congrArg List.length htext
    simp only [List.length_append] at hlen
    have hseven : (written chunkedCalls).length = 7 := by decide
    omega
  have h := rotation_on_line_boundaries 3 1 ⟨fun _ => none, 0⟩ (Or.inl rfl) {} rfl chunkedCalls
    hcalls hshort
  exact ⟨by decide, h.1⟩

end LogWriter

end Supervisorcpp
