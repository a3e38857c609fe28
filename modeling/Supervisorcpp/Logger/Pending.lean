/-
# What waits in the pending buffer

`write` looks for the last newline in the new data only. That is right as long as the pending
buffer has none, which every way out of a call restores: what stays pending is the end of an
unfinished line, also when an open fails before the buffer has been extended, or a write after it.

Every pattern of failures is covered: what stays pending does not depend on whether the bytes that
left the buffer have reached the device.
-/
import Supervisorcpp.Logger.Bounds

namespace Supervisorcpp

namespace LogWriter

variable {io : Io} {w : LogWriter} {pending data : List UInt8}

/-! ## What leaves the pending buffer alone -/

@[simp] theorem fileOpen_pending (io : OpenIo) (w : LogWriter) :
    (w.fileOpen io).pendingBuffer = w.pendingBuffer := by
  unfold fileOpen
  split <;> rfl

@[simp] theorem fileClose_pending (close : Transfer) (w : LogWriter) :
    (w.fileClose close).pendingBuffer = w.pendingBuffer := by
  cases close <;> rfl

@[simp] theorem fileWrite_pending (write : Transfer) (bytes : List UInt8) (w : LogWriter) :
    (w.fileWrite write bytes).pendingBuffer = w.pendingBuffer := by
  unfold fileWrite
  split
  · cases write <;> rfl
  · rfl

@[simp] theorem fileFlush_pending (flush : Transfer) (w : LogWriter) :
    (w.fileFlush flush).pendingBuffer = w.pendingBuffer := by
  unfold fileFlush
  split
  · cases flush <;> rfl
  · rfl

@[simp] theorem openNL_pending (io : OpenIo) (close : Transfer) (w : LogWriter) :
    (w.openNL io close).2.pendingBuffer = w.pendingBuffer := by
  by_cases hopen : w.file.isOpen = true
  · simp only [openNL, hopen, if_true]
    split <;> simp
  · simp only [openNL, hopen, Bool.false_eq_true, if_false]
    split <;> simp

@[simp] theorem rotateFor_pending (io : Io) (size : Nat) (w : LogWriter) :
    (w.rotateFor io size).pendingBuffer = w.pendingBuffer := by
  unfold rotateFor rotateNL
  split
  · simp only [openNL_pending]
    split
    · exact fileClose_pending io.close w
    · rfl
  · rfl

@[simp] theorem writeNL_pending (io : Io) (str : List UInt8) (w : LogWriter) :
    (w.writeNL io str).2.pendingBuffer = w.pendingBuffer := by
  simp only [writeNL]
  split <;> simp

/-! ## What a call leaves pending -/

/-- `write` cuts off what it hands on, whether that reaches the file or not. -/
theorem writeOpen_pending (io : Io) (data : List UInt8) (w : LogWriter) :
    (w.writeOpen io data).2.pendingBuffer =
      (w.pendingBuffer ++ data).drop (flushEnd w.pendingBuffer data) := by
  simp only [writeOpen]
  split
  · next hnone => rw [hnone, List.drop_zero]
  · simp

/-- The file is open when the data is looked at: from before, or by the open at the start. -/
def OpenFor (io : Io) (w : LogWriter) : Prop := w.file.isOpen = true ∨ io.first.opened = true

/-- Once the file is open, what is flushed is no longer pending, also if the write fails. -/
theorem write_pending_open (h : OpenFor io w) (hdata : data ≠ []) :
    (w.write io data).2.pendingBuffer =
      (w.pendingBuffer ++ data).drop (flushEnd w.pendingBuffer data) := by
  have hsome : data.isEmpty = false := by simpa using hdata
  simp only [write, hsome, Bool.false_eq_true, if_false]
  by_cases hopen : w.file.isOpen = true
  · simp only [hopen, if_true, writeOpen_pending]
  · have hclosed : w.file.isOpen = false := by simpa using hopen
    have hopened := (openNL_ready io.close (h.resolve_left hopen) hclosed).1
    simp only [hclosed, Bool.false_eq_true, if_false, hopened, if_true, writeOpen_pending,
      openNL_pending]

/-- A failed open leaves before the buffer is extended. -/
theorem write_pending_closed (h : ¬OpenFor io w) :
    (w.write io data).2.pendingBuffer = w.pendingBuffer := by
  unfold OpenFor at h
  rw [not_or] at h
  have hclosed : w.file.isOpen = false := by simpa using h.1
  have hfails : io.first.opened = false := by simpa using h.2
  have hopen : (w.openNL io.first io.close).1 = false := by
    simp [openNL, hclosed, fileOpen, hfails]
  simp only [write]
  split
  · rfl
  · simp [hclosed, hopen]

/-! ## The invariant -/

/-- The end of a line that is not finished, of fewer than 64 KiB. -/
structure Unfinished (pending : List UInt8) : Prop where
  noLine : newline ∉ pending
  short : pending.length < 65536

/-- What stays behind `flush_end` is unfinished again. -/
theorem drop_unfinished (h : Unfinished pending) (hdata : data.length < 65536) :
    Unfinished ((pending ++ data).drop (flushEnd pending data)) := by
  rcases flushEnd_cases pending data with
    ⟨before, hsplit, hafter, hn⟩ | ⟨-, -, hn⟩ | ⟨hno, hshort, hn⟩
  · rw [(flushed_line hsplit hn).2]
    have hline : newline ∈ data := by
      rw [hsplit]
      exact List.mem_append_right _ List.mem_cons_self
    exact ⟨hafter, Nat.lt_trans (unfinished_length data hline) hdata⟩
  · rw [hn, List.drop_length]
    exact ⟨List.not_mem_nil, by decide⟩
  · rw [hn, List.drop_zero]
    refine ⟨?_, hshort⟩
    rw [List.mem_append, not_or]
    exact ⟨h.noLine, hno⟩

/-- A write leaves an unfinished line pending. -/
theorem write_unfinished (h : Unfinished w.pendingBuffer) (hdata : data.length < 65536) :
    Unfinished (w.write io data).2.pendingBuffer := by
  by_cases hempty : data = []
  · subst hempty
    exact h
  by_cases hopen : OpenFor io w
  · rw [write_pending_open hopen hempty]
    exact drop_unfinished h hdata
  · rw [write_pending_closed hopen]
    exact h

/-- So does a flush. -/
theorem flush_unfinished (io : Io) (h : Unfinished w.pendingBuffer) :
    Unfinished (w.flush io).pendingBuffer := by
  have hleaves : (w.flush io).pendingBuffer = w.pendingBuffer ∨ (w.flush io).pendingBuffer = [] := by
    simp only [flush]
    by_cases hpending : (!w.pendingBuffer.isEmpty && w.file.isOpen) = true
    · right
      simp only [hpending, if_true]
      split <;> simp
    · left
      simp only [hpending, Bool.false_eq_true, if_false]
      split <;> simp
  rcases hleaves with hsame | hnone
  · rw [hsame]
    exact h
  · rw [hnone]
    exact ⟨List.not_mem_nil, by decide⟩

/-- **One call**, whatever fails in it. -/
theorem call_unfinished {c : Call × Io} (h : Unfinished w.pendingBuffer)
    (hsize : c.1.argument.length ≤ 4096) : Unfinished (w.call c).pendingBuffer := by
  obtain ⟨c, io⟩ := c
  cases c with
  | write data =>
      apply write_unfinished h
      exact Nat.lt_of_le_of_lt hsize (by decide)
  | writeLine line =>
      apply write_unfinished h
      have hlen := lineData_length line
      have hline : line.length ≤ 4096 := hsize
      omega
  | flush => exact flush_unfinished io h

/-- **Every sequence of calls.** -/
theorem run_unfinished {calls : List (Call × Io)} (h : Unfinished w.pendingBuffer)
    (hsize : ∀ c ∈ calls, c.1.argument.length ≤ 4096) :
    Unfinished (w.run calls).pendingBuffer := by
  induction calls generalizing w with
  | nil => exact h
  | cons c calls ih =>
      rw [List.forall_mem_cons] at hsize
      exact ih (call_unfinished h hsize.1) hsize.2

/-! ## The search of the new data -/

/-- Behind text without the character the search finds the same one. -/
theorem rfind_append {c : UInt8} (h : c ∉ pending) (data : List UInt8) :
    rfind c (pending ++ data) = (rfind c data).map (pending.length + ·) := by
  induction pending with
  | nil => simp
  | cons b pending ih =>
      rw [List.mem_cons, not_or] at h
      rw [List.cons_append, rfind, ih h.2]
      cases rfind c data with
      | none => exact if_neg (Ne.symm h.1)
      | some i =>
          show some (pending.length + i + 1) = some (pending.length + 1 + i)
          congr 1
          omega

/-- **The pending buffer holds no newline.**  After any sequence of calls with at most 4096 bytes
each, whatever opens and writes fail, it has no newline and fewer than 64 KiB. So the last newline
of the buffer and the next data is found by searching the data alone, and a write that finds the
file open leaves pending exactly what follows it. -/
theorem pending_unfinished (maxBytes : Nat) (backups : Int32) (disk : Disk) (start : OpenIo)
    (calls : List (Call × Io)) (hsize : ∀ c ∈ calls, c.1.argument.length ≤ 4096) :
    let w := (create maxBytes backups disk start).run calls
    (newline ∉ w.pendingBuffer ∧ w.pendingBuffer.length < 65536) ∧
      (∀ data, (rfind newline data).map (w.pendingBuffer.length + ·) =
        rfind newline (w.pendingBuffer ++ data)) ∧
      (∀ io data, newline ∈ data → OpenFor io w →
        ∃ before, w.pendingBuffer ++ data = before ++ newline :: (w.write io data).2.pendingBuffer ∧
          newline ∉ (w.write io data).2.pendingBuffer) := by
  intro w
  have hcreated : (create maxBytes backups disk start).pendingBuffer = [] := openNL_pending _ _ _
  have hw : Unfinished w.pendingBuffer := by
    apply run_unfinished _ hsize
    rw [hcreated]
    exact ⟨List.not_mem_nil, by decide⟩
  refine ⟨⟨hw.noLine, hw.short⟩, fun data => (rfind_append hw.noLine data).symm, ?_⟩
  intro io data hline hopen
  have hdata : data ≠ [] := List.ne_nil_of_mem hline
  rw [write_pending_open hopen hdata]
  rcases flushEnd_cases w.pendingBuffer data with
    ⟨before, hsplit, hafter, hn⟩ | ⟨hno, -, -⟩ | ⟨hno, -, -⟩
  · rw [(flushed_line hsplit hn).2]
    refine ⟨w.pendingBuffer ++ before, ?_, hafter⟩
    rw [List.append_assoc, ← hsplit]
  · exact absurd hline hno
  · exact absurd hline hno

/-- The file cannot be opened at first; then a flush fails, with the end of a line behind it. -/
def failingCalls : List (Call × Io) :=
  [(.write [97], { first := { opened := false } }), (.write [98, 10, 99], { flush := .fail 0 })]

theorem pending_unfinished_failing :
    let w := (create 0 1 ⟨fun _ => none, 0⟩ { opened := false }).run failingCalls
    w.pendingBuffer = [99] ∧ newline ∉ w.pendingBuffer ∧
      rfind newline (w.pendingBuffer ++ [100, 10]) = some 2 ∧
      (w.write {} [100, 10, 101]).2.pendingBuffer = [101] := by
  have hsize : ∀ c ∈ failingCalls, c.1.argument.length ≤ 4096 := by decide
  have h := pending_unfinished 0 1 ⟨fun _ => none, 0⟩ { opened := false } failingCalls hsize
  obtain ⟨⟨hno, -⟩, hfind, -⟩ := h
  exact ⟨by decide, hno, (hfind [100, 10]).symm, by decide⟩

end LogWriter

end Supervisorcpp
