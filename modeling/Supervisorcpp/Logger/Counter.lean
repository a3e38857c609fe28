/-
# The size counter

`current_size_` is added to by hand wherever bytes are written and read from the file system by
every open. A rotation sets it to 0 and opens the file again, so it comes out right wherever the
rotation was abandoned. Only where the size cannot be read, after an open that has succeeded, does
`openNL_` put 0 for it, whatever the file holds.

The runs are those in which opens and writes succeed; renames and removals may fail, and so may the
size query. The counter is then the size of the file, less what the file had at the last size query
that failed.
-/
import Supervisorcpp.Logger.Rotation

namespace Supervisorcpp

namespace LogWriter

variable {io : Io} {w : LogWriter} {sized : Bool}

/-- The stream is ready, and the counter is right if `sized`. -/
structure Counts (sized : Bool) (w : LogWriter) : Prop where
  ready : Ready w
  size : sized = true → w.currentSize = w.fileSize

/-- Bytes at the end of the log file are bytes of its size. -/
theorem fileSize_append {v : LogWriter} {bytes : List UInt8}
    (hdisk : v.disk = w.disk.append bytes) : v.fileSize = w.fileSize + bytes.length := by
  unfold fileSize
  rw [hdisk]
  show ((Slots.append w.disk.file 0 bytes 0).getD []).length = _
  rw [Slots.append_self, Option.getD_some, List.length_append]

/-! ## One call -/

/-- An open reads the size of what it finds, or puts 0. -/
theorem openNL_counts {open' : OpenIo} (close : Transfer) (hopen : open'.opened = true)
    (hclosed : w.file.isOpen = false) : Counts open'.sized (w.openNL open' close).2 := by
  have hopened := openNL_ready close hopen hclosed
  refine ⟨hopened.2.1, fun hsized => ?_⟩
  have hdisk : (w.openNL open' close).2.disk = w.disk.append [] := hopened.2.2.2.2
  rw [(openNL_size close hopen hsized hclosed).2, fileSize_append hdisk]
  rfl

/-- **A rotation**, wherever it is abandoned, ends with an open. -/
theorem rotateFor_counts (hio : Writable io) (h : Counts sized w) (size : Nat) :
    Counts (if w.passesLimit size then io.again.sized else sized) (w.rotateFor io size) := by
  by_cases hlimit : w.passesLimit size = true
  · have hfor : w.rotateFor io size = w.rotateNL io := if_pos hlimit
    rw [if_pos hlimit, hfor, rotateNL_eq hio h.ready]
    apply openNL_counts io.close hio.again
    rfl
  · have hfor : w.rotateFor io size = w := if_neg hlimit
    rw [if_neg hlimit, hfor]
    exact h

/-- A write counts what it writes; behind a rotation the count starts with the size query of that
open. -/
theorem writeNL_counts (hio : Writable io) (h : Counts sized w) (str : List UInt8) :
    Counts (if w.passesLimit str.length then io.again.sized else sized) (w.writeNL io str).2 := by
  have hrotated := rotateFor_counts hio h str.length
  rw [writeNL_eq hio rfl hrotated.ready]
  refine ⟨rfl, fun hsized => ?_⟩
  rw [fileSize_append rfl, ← hrotated.size hsized]

/-- `write` counts in the same way. -/
theorem write_counts (hio : Writable io) (h : Counts sized w) (data : List UInt8) :
    Counts (if w.rotates (.write data) then io.again.sized else sized) (w.write io data).2 := by
  rcases write_cases io data h.ready.isOpen with ⟨hnone, hwrite⟩ | ⟨-, hlength, hrot, hwrite⟩
  · have hstays : w.rotates (.write data) = false := by simp [rotates, hnone]
    rw [hwrite, hstays]
    exact ⟨h.ready, h.size⟩
  · set v : LogWriter := { w with pendingBuffer := w.pendingBuffer ++ data }
    have hv : Counts sized v := ⟨h.ready, h.size⟩
    have hwritten := writeNL_counts hio hv (v.pendingBuffer.take (w.flushed (.write data)))
    rw [hlength, ← hrot] at hwritten
    rw [hwrite]
    exact ⟨hwritten.ready, hwritten.size⟩

/-- A flush counts what it writes and never rotates. -/
theorem flush_counts (hio : Writable io) (h : Counts sized w) : Counts sized (w.flush io) := by
  rw [flush_eq hio h.ready]
  refine ⟨rfl, fun hsized => ?_⟩
  rw [fileSize_append (w := w) rfl, ← h.size hsized]

/-- **One call** keeps the counter as it was, right or wrong, or rotates and reads the size anew. -/
theorem call_counts {c : Call × Io} (hio : Writable c.2) (h : Counts sized w) :
    Counts (if w.rotates c.1 then c.2.again.sized else sized) (w.call c) := by
  obtain ⟨c, io⟩ := c
  cases c with
  | write data => exact write_counts hio h data
  | writeLine line => exact write_counts hio h (lineData line)
  | flush => exact flush_counts hio h

/-! ## Every sequence of calls -/

/-- Whether the open that came last in a sequence of calls could read the size of the file; `sized`
says it of the last one before them. -/
def lastSized (w : LogWriter) (sized : Bool) : List (Call × Io) → Bool
  | [] => sized
  | c :: calls => lastSized (w.call c) (if w.rotates c.1 then c.2.again.sized else sized) calls

/-- In every run the counter is right from the last successful size query on. -/
theorem run_counts {calls : List (Call × Io)} (hcalls : ∀ c ∈ calls, Writable c.2)
    (h : Counts sized w) : Counts (w.lastSized sized calls) (w.run calls) := by
  induction calls generalizing w sized with
  | nil => exact h
  | cons c calls ih =>
      rw [List.forall_mem_cons] at hcalls
      exact ih hcalls.2 (call_counts hcalls.1 h)

/-- **The counter is truthful.**  For every log file, limit and number of backups, and every
sequence of calls whose opens and writes succeed, whatever checks, removals and renames throw in the
rotations: after the constructor and after every call `current_size_` is the length of the log file,
if the open that came last could read it. -/
theorem counter_truthful (maxBytes : Nat) (backups : Int32) (disk : Disk) (start : OpenIo)
    (hstart : start.opened = true) (calls : List (Call × Io))
    (hcalls : ∀ c ∈ calls, Writable c.2) :
    let w := create maxBytes backups disk start
    w.lastSized start.sized calls = true → (w.run calls).currentSize = (w.run calls).fileSize := by
  intro w
  have hw : Counts start.sized w := openNL_counts .ok hstart rfl
  exact (run_counts hcalls hw).size

/-- The second line rotates, and the rename of the log file throws. -/
def abandonedCalls : List (Call × Io) :=
  [(.writeLine [97, 98], {}), (.writeLine [99], { renameOk := fun i => i != 0 }), (.write [100], {}),
    (.flush, {})]

theorem counter_truthful_abandoned :
    let w := (create 3 1 ⟨fun _ => none, 0⟩ {}).run abandonedCalls
    w.disk.file 0 = some [97, 98, 10, 99, 10, 100] ∧ w.currentSize = w.fileSize := by
  have hcalls : ∀ c ∈ abandonedCalls, Writable c.2 := by
    intro c hc
    simp only [abandonedCalls, List.mem_cons, List.not_mem_nil, or_false] at hc
    rcases hc with rfl | rfl | rfl | rfl <;> exact ⟨rfl, rfl, rfl, rfl, rfl⟩
  have h := counter_truthful 3 1 ⟨fun _ => none, 0⟩ {} rfl abandonedCalls hcalls
  exact ⟨by decide, h (by decide)⟩

/-- A log file of one byte, whose size cannot be read after it has been opened. -/
theorem counter_zero_without_size :
    let start : OpenIo := { sized := false }
    let w := create 0 1 ⟨fun i => if i = 0 then some [97] else none, 0⟩ start
    start.opened = true ∧ w.disk.file 0 = some [97] ∧ w.currentSize = 0 ∧
      w.currentSize ≠ w.fileSize := by
  intro start w
  have hzero : w.currentSize = 0 := by decide
  have hone : w.fileSize = 1 := by decide
  refine ⟨rfl, by decide, hzero, ?_⟩
  rw [hzero, hone]
  exact Nat.zero_ne_one

end LogWriter

end Supervisorcpp
