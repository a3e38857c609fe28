/-
# After a failed write

A write or flush that fails leaves the stream in its error state and open. `write` reopens a closed
file but never clears an open one, so the log works again only if a rotation happens to reopen it;
with no size limit it never does.

The condition is read off the writer as it is before the call, after any history of calls and
failures. A writer that is stuck stays stuck whatever it is given (`stuck_run`), which is more than
the next line lost.
-/
import Supervisorcpp.Logger.Lines

namespace Supervisorcpp

namespace LogWriter

variable {io : Io} {w w' : LogWriter} {d : Disk}

/-- The log file after `d`'s is the same with more at its end, or a new one. -/
def LogExtends (d d' : Disk) (bytes : List UInt8) : Prop :=
  ∃ base, d'.file 0 = some (base ++ bytes) ∧ (base = [] ∨ (d.file 0).getD [] <+: base)

/-- A write of complete lines does its work: what was pending and the data are at the end of the log
file, and their number is returned. -/
def Logs (io : Io) (data : List UInt8) (w : LogWriter) : Prop :=
  (w.write io data).1 = (w.pendingBuffer ++ data).length ∧
    LogExtends w.disk (w.write io data).2.disk (w.pendingBuffer ++ data)

/-- Bytes that are appended extend the log by these bytes. -/
theorem LogExtends.more {d d' : Disk} {bytes : List UInt8} (h : LogExtends d d' []) :
    LogExtends d (d'.append bytes) bytes := by
  obtain ⟨base, hfile, hbase⟩ := h
  refine ⟨base, ?_, hbase⟩
  simp [Disk.append, hfile]

/-- A rotation leaves the log file, or leaves no log file. -/
theorem rotateFiles_log (io : Io) (backups : Int32) (d : Disk) :
    (rotateFiles io backups d).2.file 0 = none ∨
      (rotateFiles io backups d).2.file 0 = d.file 0 := by
  have hholds : d.Holds fun i bytes => i = 0 → d.file 0 = some bytes := by
    rintro i bytes hi rfl
    exact hi
  have hrotated : (rotateFiles io backups d).2.Holds fun i bytes => i = 0 → d.file 0 = some bytes :=
    Holds.rotateFiles (fun i bytes _ hzero => absurd hzero (Nat.succ_ne_zero i)) backups hholds
  cases hfile : (rotateFiles io backups d).2.file 0 with
  | none => exact Or.inl rfl
  | some bytes => exact Or.inr (hrotated 0 bytes hfile rfl).symm

/-- A rotation reopens the file, whatever state the stream was in. -/
theorem rotateNL_reopens (hio : Writable io) (w : LogWriter) :
    Ready (w.rotateNL io) ∧ (w.rotateNL io).pendingBuffer = w.pendingBuffer ∧
      LogExtends w.disk (w.rotateNL io).disk [] := by
  obtain ⟨v, hv⟩ : ∃ v, (if w.file.isOpen then w.fileClose io.close else w) = v := ⟨_, rfl⟩
  have hclosed : v.file.isOpen = false ∧ v.pendingBuffer = w.pendingBuffer ∧
      (w.disk.file 0).getD [] <+: (v.disk.file 0).getD [] := by
    rw [← hv]
    split
    · simp [fileClose, hio.close, Disk.append]
    · next hopen => exact ⟨by simpa using hopen, rfl, List.prefix_refl _⟩
  obtain ⟨hisOpen, hpending, hkept⟩ := hclosed
  have hrotate : w.rotateNL io = (openNL io.again io.close
      { v with disk := (rotateFiles io v.backups v.disk).2, currentSize := 0 }).2 := by
    rw [← hv]
    rfl
  rw [hrotate]
  obtain ⟨_, hready, -, hpending', hdisk⟩ := openNL_ready io.close hio.again
    (w := { v with disk := (rotateFiles io v.backups v.disk).2, currentSize := 0 }) hisOpen
  refine ⟨hready, hpending'.trans hpending, ?_⟩
  rw [hdisk]
  rcases rotateFiles_log io v.backups v.disk with hnone | hsame
  · exact ⟨[], by simp [Disk.append, hnone], Or.inl rfl⟩
  · exact ⟨(v.disk.file 0).getD [], by simp [Disk.append, hsame], Or.inr hkept⟩

/-- `writeNL_` on an open stream works exactly if the stream is good or the size makes it rotate. -/
theorem writeNL_logs_iff (hio : Writable io) (hopen : w.file.isOpen = true) (str : List UInt8) :
    ((w.writeNL io str).1 = str.length ∧ LogExtends w.disk (w.writeNL io str).2.disk str) ↔
      (w.file.good = true ∨ w.passesLimit str.length = true) := by
  by_cases hlimit : w.passesLimit str.length = true
  · have hfor : w.rotateFor io str.length = w.rotateNL io := if_pos hlimit
    obtain ⟨hready, -, hextends⟩ := rotateNL_reopens hio w
    rw [writeNL_eq hio hfor hready]
    exact iff_of_true ⟨rfl, hextends.more⟩ (Or.inr hlimit)
  · have hfor : w.rotateFor io str.length = w := if_neg hlimit
    cases hgood : w.file.good with
    | true =>
        refine iff_of_true ?_ (Or.inl rfl)
        simp only [writeNL, hfor, fileWrite, fileFlush, hopen, hgood, hio.write, hio.flush,
          Bool.and_self, if_true]
        exact ⟨trivial, (w.disk.file 0).getD [] ++ w.file.buffer, by simp [Disk.append],
          Or.inr (List.prefix_append _ _)⟩
    -- the error state is not cleared
    | false =>
        refine iff_of_false ?_ (by simp [hlimit])
        simp only [writeNL, hfor, fileWrite, hopen, hgood, Bool.and_false, Bool.false_eq_true,
          if_false]
        rintro ⟨hcount, -⟩
        omega

/-- Data that ends its last line is flushed whole. -/
theorem flushEnd_complete {pending data : List UInt8} (hline : data.getLast? = some newline) :
    flushEnd pending data = (pending ++ data).length := by
  have hmem : newline ∈ data := List.mem_of_getLast? hline
  rcases flushEnd_cases pending data with ⟨before, hdata, hafter, hn⟩ | ⟨hno, -, -⟩ | ⟨hno, -, -⟩
  · have hrest : unfinished data = [] := by
      by_contra hne
      have hlast : (unfinished data).getLast? = some newline := by
        rw [hdata, List.getLast?_append_cons, List.getLast?_cons_of_ne_nil hne] at hline
        exact hline
      exact hafter (List.mem_of_getLast? hlast)
    rw [hrest] at hdata
    rw [hn, hdata]
    simp [Nat.add_assoc]
  · exact absurd hmem hno
  · exact absurd hmem hno

/-- An open file logs the line if the stream is in order, or a rotation opens it anew. -/
theorem writeOpen_logs_iff (hio : Writable io) (hopen : w.file.isOpen = true) {data : List UInt8}
    (hline : data.getLast? = some newline) :
    ((w.writeOpen io data).1 = (w.pendingBuffer ++ data).length ∧
        LogExtends w.disk (w.writeOpen io data).2.disk (w.pendingBuffer ++ data)) ↔
      (w.file.good = true ∨ w.passesLimit (w.pendingBuffer ++ data).length = true) := by
  have hdata : data ≠ [] := by
    rintro rfl
    simp at hline
  have hsome : ¬(w.pendingBuffer ++ data).length = 0 := by
    simp [hdata]
  simp only [writeOpen, flushEnd_complete hline, hsome, if_false, List.take_length]
  exact writeNL_logs_iff (w := { w with pendingBuffer := w.pendingBuffer ++ data }) hio hopen
    (w.pendingBuffer ++ data)

/-! ## No way out without a limit -/

/-- Open, in error, and never rotating. -/
structure Stuck (w : LogWriter) : Prop where
  isOpen : w.file.isOpen = true
  error : w.file.good = false
  unlimited : w.maxBytes = 0

/-- A stream in error takes nothing. -/
theorem fileWrite_stuck (h : Stuck w) (write : Transfer) (bytes : List UInt8) :
    w.fileWrite write bytes = w := by
  have hsame : { w with file := { w.file with good := false } } = w := by rw [← h.error]
  unfold fileWrite
  rw [if_neg (by simp [h.error]), hsame]

/-- A write on it fails and changes nothing. -/
theorem writeNL_stuck (h : Stuck w) (io : Io) (str : List UInt8) : w.writeNL io str = (-1, w) := by
  have hfor : w.rotateFor io str.length = w := by simp [rotateFor, h.unlimited]
  simp only [writeNL, hfor, fileWrite_stuck h, h.error, Bool.false_eq_true, if_false]

/-- **One call** on a stuck stream, whatever the device answers, changes no file. -/
theorem stuck_step (h : Stuck w) (c : Call × Io) :
    Stuck (w.call c) ∧ (w.call c).disk = w.disk := by
  have hwrite : ∀ data, Stuck (w.write c.2 data).2 ∧ (w.write c.2 data).2.disk = w.disk := by
    intro data
    unfold write
    split
    · exact ⟨h, rfl⟩
    · rw [if_pos h.isOpen]
      simp only [writeOpen]
      split
      · exact ⟨⟨h.isOpen, h.error, h.unlimited⟩, rfl⟩
      · have hv : Stuck { w with pendingBuffer := w.pendingBuffer ++ data } :=
          ⟨h.isOpen, h.error, h.unlimited⟩
        rw [writeNL_stuck hv]
        exact ⟨⟨h.isOpen, h.error, h.unlimited⟩, rfl⟩
  obtain ⟨c, io⟩ := c
  cases c with
  | write data => exact hwrite data
  | writeLine line => exact hwrite (lineData line)
  | flush =>
      simp only [call, flush, fileWrite_stuck h, h.isOpen, Bool.and_true, fileFlush]
      split <;> simp [h.error, h.isOpen, h.unlimited, Stuck.mk]

/-- **Silence.**  Without a size limit one failed write stops the log for good. -/
theorem stuck_run (h : Stuck w) (calls : List (Call × Io)) :
    Stuck (w.run calls) ∧ (w.run calls).disk = w.disk := by
  induction calls generalizing w with
  | nil => exact ⟨h, rfl⟩
  | cons c calls ih =>
      obtain ⟨hstuck, hdisk⟩ := stuck_step h c
      obtain ⟨hrest, hdisk'⟩ := ih hstuck
      exact ⟨hrest, hdisk'.trans hdisk⟩

/-! ## The next write -/

/-- **When a write works again.**  Whatever calls and failures went before, a write of complete
lines on a device that accepts data appends them, with what was pending, and returns their number
exactly if the stream is closed or without error, or the bytes pass the size limit. -/
theorem write_logs_iff (maxBytes : Nat) (backups : Int32) (disk : Disk) (start : OpenIo)
    (calls : List (Call × Io)) (io : Io) (hio : Writable io) (data : List UInt8)
    (hline : data.getLast? = some newline) :
    let w := (create maxBytes backups disk start).run calls
    Logs io data w ↔
      (w.file.isOpen = false ∨ w.file.good = true ∨
        w.passesLimit (w.pendingBuffer ++ data).length = true) := by
  intro w
  have hdata : data.isEmpty = false := by
    cases data with
    | nil => simp at hline
    | cons b bs => rfl
  cases hopen : w.file.isOpen with
  | true =>
      have hwrite : w.write io data = w.writeOpen io data := by simp [write, hdata, hopen]
      unfold Logs
      rw [hwrite, writeOpen_logs_iff hio hopen hline]
      simp
  -- a closed file is opened, which clears the stream
  | false =>
      refine iff_of_true ?_ (Or.inl rfl)
      obtain ⟨hopened, hready, -, hpending, hdisk⟩ := openNL_ready io.close hio.first hopen
      have hwrite : w.write io data = (w.openNL io.first io.close).2.writeOpen io data := by
        simp [write, hdata, hopen, hopened]
      obtain ⟨hcount, base, hfile, hbase⟩ :=
        (writeOpen_logs_iff hio hready.isOpen hline).mpr (Or.inl (congrArg Ofstream.good hready))
      rw [hpending] at hcount hfile
      unfold Logs
      rw [hwrite]
      refine ⟨hcount, base, hfile, hbase.imp_right fun hkept => ?_⟩
      rw [hdisk] at hkept
      simpa [Disk.append] using hkept

/-- With a limit of one byte every line rotates, so the line after a failed one is logged. -/
theorem write_logs_after_rotation :
    Logs {} [98, 10]
      ((create 1 1 ⟨fun _ => none, 0⟩ {}).run [(.write [97, 10], { flush := .fail 0 })]) :=
  (write_logs_iff 1 1 ⟨fun _ => none, 0⟩ {} [(.write [97, 10], { flush := .fail 0 })] {}
    ⟨rfl, rfl, rfl, rfl, rfl⟩ [98, 10] rfl).mpr (by decide)

/-- After one failed flush without a size limit, the next line is lost although the device accepts
it, and so is whatever is written later. -/
theorem write_silent_after_failure :
    let w := (create 0 1 ⟨fun _ => none, 0⟩ {}).run [(.write [97, 10], { flush := .fail 0 })]
    Writable {} ∧ (w.write {} [98, 10]).1 = -1 ∧ (w.write {} [98, 10]).2.disk.file 0 = some [] ∧
      ¬Logs {} [98, 10] w ∧ ∀ calls, (w.run calls).disk = w.disk := by
  intro w
  have hcount : (w.write {} [98, 10]).1 = -1 := by decide
  have hstuck : Stuck w := ⟨by decide, by decide, rfl⟩
  refine ⟨⟨rfl, rfl, rfl, rfl, rfl⟩, hcount, by decide, fun hlogs => ?_,
    fun calls => (stuck_run hstuck calls).2⟩
  have hsame := hcount.symm.trans hlogs.1
  omega

end LogWriter

end Supervisorcpp
