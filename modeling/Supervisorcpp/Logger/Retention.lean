/-
# No log byte is lost but with the oldest backup

Read from the oldest backup to the log file and on into the pending buffer, the writer's files are
one sequence. A call appends its data to that sequence; a rotation, finished or abandoned at any
step, at most drops the oldest backup from its front.

Keeping the sequence is a relation between two writers and the bytes written in between (`Carries`),
and such relations compose; the only place where bytes can leave it is the removal of slot
`backups`.
-/
import Supervisorcpp.Logger.LogWriter

namespace Supervisorcpp

/-! ## Rotation -/

namespace Disk

/-- From `d` to `d'` the files up to `n` lose at most a front part, and nothing if no file was
removed. -/
def Trims (n : Nat) (d d' : Disk) : Prop :=
  d.removed ≤ d'.removed ∧ ∃ dropped, Slots.chain d.file n = dropped ++ Slots.chain d'.file n ∧
    (d'.removed = d.removed → dropped = [])

variable {n : Nat} {d d' d'' : Disk}

theorem Trims.refl (n : Nat) (d : Disk) : Trims n d d := ⟨Nat.le_refl _, [], rfl, fun _ => rfl⟩

theorem Trims.trans (h : Trims n d d') (h' : Trims n d' d'') : Trims n d d'' := by
  obtain ⟨hle, dropped, heq, hnone⟩ := h
  obtain ⟨hle', dropped', heq', hnone'⟩ := h'
  refine ⟨Nat.le_trans hle hle', dropped ++ dropped', by rw [heq, heq', List.append_assoc], ?_⟩
  intro hsame
  rw [hnone (by omega), hnone' (by omega)]
  rfl

/-- Renaming into an empty slot keeps everything. -/
theorem trims_rename {i : Nat} (hi : i + 1 ≤ n) (hfree : d.file (i + 1) = none) :
    Trims n d (d.rename i) :=
  ⟨Nat.le_refl _, [], (Slots.chain_shift hi hfree).symm, fun _ => rfl⟩

/-- Removing the oldest backup takes the front of what is kept. -/
theorem trims_remove (n : Nat) (d : Disk) : Trims n d (d.remove n) := by
  refine ⟨Nat.le_succ _, _, (Slots.chain_clear_top d.file n).symm, ?_⟩
  intro hsame
  exact absurd hsame (Nat.succ_ne_self _)

/-- Opening in append mode at most creates an empty log file. -/
theorem trims_append_nil (n : Nat) (d : Disk) : Trims n d (d.append []) := by
  refine ⟨Nat.le_refl _, [], ?_, fun _ => rfl⟩
  rw [append, Slots.chain_append_zero]
  simp

end Disk

namespace LogWriter

variable {io : Io} {w w' w'' : LogWriter} {d : Disk} {n : Nat}

/-- What one step of the `try` block leaves: nothing lost but by `remove`, and slot `i` free if the
step did not throw. -/
def Frees (n i : Nat) (d : Disk) (r : Bool × Disk) : Prop :=
  Disk.Trims n d r.2 ∧ (r.1 = true → r.2.file i = none)

/-- Two steps, of which the second needs the slot that the first has freed. -/
theorem Frees.andThen {i j : Nat} {r : Bool × Disk} {next : Disk → Bool × Disk}
    (h : Frees n i d r) (hnext : ∀ d', d'.file i = none → Frees n j d' (next d')) :
    Frees n j d (andThen r next) := by
  unfold LogWriter.andThen
  split
  · next hok =>
      have hrest := hnext r.2 (h.2 hok)
      exact ⟨h.1.trans hrest.1, hrest.2⟩
  · next hthrown => exact ⟨h.1, fun hok => absurd hok hthrown⟩

/-- The oldest backup makes room. -/
theorem removeOldest_frees {backups : Int32} (hb : 1 ≤ backups.toInt) (d : Disk) :
    Frees backups.toInt.toNat backups.toInt.toNat d (removeOldest io backups d) := by
  have hpos : 0 < backups.toInt := by omega
  simp only [removeOldest, hpos, if_true]
  split
  · exact ⟨.refl _ _, by simp⟩
  · split
    · split
      · exact ⟨Disk.trims_remove _ d, fun _ => Slots.clear_self _ _⟩
      · exact ⟨.refl _ _, by simp⟩
    · next hnone => exact ⟨.refl _ _, fun _ => by simpa using hnone⟩

/-- A file moves into the free slot, and its own is free then. -/
theorem renameUp_frees {i : Nat} (hi : i + 1 ≤ n) (hfree : d.file (i + 1) = none) :
    Frees n i d (renameUp io i d) := by
  unfold renameUp
  split
  · exact ⟨.refl _ _, by simp⟩
  · split
    · split
      · exact ⟨Disk.trims_rename hi hfree, fun _ => Slots.shift_self _ _⟩
      · exact ⟨.refl _ _, by simp⟩
    · next hnone => exact ⟨.refl _ _, fun _ => by simpa using hnone⟩

/-- Each turn of the loop finds the slot above free, because the turn before emptied it. -/
theorem renameBackups_frees {i : Nat} (hi : i + 1 ≤ n) {d : Disk} (hfree : d.file (i + 1) = none) :
    Frees n 1 d (renameBackups io i d) := by
  induction i generalizing d with
  | zero => exact ⟨.refl _ _, fun _ => hfree⟩
  | succ i ih =>
      apply (renameUp_frees hi hfree).andThen
      intro d' hfree'
      exact ih (by omega) hfree'

/-- **A rotation** loses at most the oldest backup, wherever it is abandoned. -/
theorem rotateFiles_trims {backups : Int32} (hb : 1 ≤ backups.toInt) (d : Disk) :
    Disk.Trims backups.toInt.toNat d (rotateFiles io backups d).2 := by
  have hlast : (backups.toInt - 1).toNat + 1 = backups.toInt.toNat := by omega
  have hrotate : Frees backups.toInt.toNat 0 d (rotateFiles io backups d) := by
    apply Frees.andThen (i := 1)
    · apply (removeOldest_frees hb d).andThen
      intro d' hfree
      exact renameBackups_frees (by omega) (by rw [hlast]; exact hfree)
    · intro d' hfree
      exact renameUp_frees (by omega) hfree
  exact hrotate.1

/-! ## One call -/

/-- The opens and the writes of this call succeed. -/
structure Writable (io : Io) : Prop where
  first : io.first.opened = true
  again : io.again.opened = true
  close : io.close = .ok
  write : io.write = .ok
  flush : io.flush = .ok

/-- The stream is open, without error, and has handed over all it was given. -/
def Ready (w : LogWriter) : Prop := w.file = ⟨true, true, []⟩

theorem Ready.isOpen (h : Ready w) : w.file.isOpen = true := congrArg Ofstream.isOpen h

/-- The oldest backup, …, `logfile.1`, `logfile`, one after the other. -/
def logged (w : LogWriter) : List UInt8 := Slots.chain w.disk.file w.backups.toInt.toNat

/-- What is in the files, and what is pending. -/
def content (w : LogWriter) : List UInt8 := w.logged ++ w.pendingBuffer

/-- From `w` to `w'` the content has got `bytes` at its end and lost at most a front part, nothing
if no file was removed. -/
structure Carries (w w' : LogWriter) (bytes : List UInt8) : Prop where
  ready : Ready w'
  backups : w'.backups = w.backups
  removed : w.disk.removed ≤ w'.disk.removed
  kept : ∃ dropped, w.content ++ bytes = dropped ++ w'.content ∧
    (w'.disk.removed = w.disk.removed → dropped = [])

theorem Carries.refl (h : Ready w) : Carries w w [] :=
  ⟨h, rfl, Nat.le_refl _, [], by simp, fun _ => rfl⟩

/-- What is written in two steps is kept one behind the other. -/
theorem Carries.trans {a b : List UInt8} (h : Carries w w' a) (h' : Carries w' w'' b) :
    Carries w w'' (a ++ b) := by
  obtain ⟨dropped, heq, hnone⟩ := h.kept
  obtain ⟨dropped', heq', hnone'⟩ := h'.kept
  have hle := h.removed
  have hle' := h'.removed
  refine ⟨h'.ready, h'.backups.trans h.backups, Nat.le_trans hle hle', dropped ++ dropped', ?_, ?_⟩
  · rw [← List.append_assoc, heq, List.append_assoc, heq', List.append_assoc]
  · intro hsame
    rw [hnone (by omega), hnone' (by omega)]
    rfl

/-- A successful open leaves the files as they are, but that the log file exists. -/
theorem openNL_ready {open' : OpenIo} (close : Transfer) (hio : open'.opened = true)
    (hclosed : w.file.isOpen = false) :
    (w.openNL open' close).1 = true ∧ Ready (w.openNL open' close).2 ∧
      (w.openNL open' close).2.backups = w.backups ∧
      (w.openNL open' close).2.pendingBuffer = w.pendingBuffer ∧
      (w.openNL open' close).2.disk = w.disk.append [] := by
  simp only [openNL, hclosed, fileOpen, hio, if_true, Bool.false_eq_true, if_false]
  exact ⟨trivial, rfl, trivial, trivial, trivial⟩

/-- The writer's files after `w'` are those of `w`, trimmed, with `bytes` at the end of the log
file. -/
def Appends (w w' : LogWriter) (bytes : List UInt8) : Prop :=
  ∃ d, Disk.Trims w.backups.toInt.toNat w.disk d ∧ w'.disk = d.append bytes

/-- The stream is closed with nothing left in its buffer, so a rotation moves the files and opens
the log file again. -/
theorem rotateNL_eq (hio : Writable io) (h : Ready w) :
    w.rotateNL io = (openNL io.again io.close { w with
      file := ⟨false, true, []⟩
      disk := (rotateFiles io w.backups (w.disk.append [])).2
      currentSize := 0 }).2 := by
  have hclose : w.fileClose io.close =
      { w with file := ⟨false, true, []⟩, disk := w.disk.append [] } := by
    have hfile : w.file = ⟨true, true, []⟩ := h
    simp only [fileClose, hio.close, hfile]
  simp only [rotateNL, h.isOpen, if_true, hclose]

/-- A rotation leaves the writer ready, and nothing of the pending bytes is lost. -/
theorem rotateNL_ready (hio : Writable io) (h : Ready w) :
    Ready (w.rotateNL io) ∧ (w.rotateNL io).backups = w.backups ∧
      (w.rotateNL io).pendingBuffer = w.pendingBuffer ∧
      (w.rotateNL io).disk = (rotateFiles io w.backups (w.disk.append [])).2.append [] := by
  rw [rotateNL_eq hio h]
  exact (openNL_ready io.close hio.again rfl).2

/-- A rotation loses nothing but what the oldest backup holds. -/
theorem rotateNL_appends (hio : Writable io) (hb : 1 ≤ w.backups.toInt) (h : Ready w) :
    Ready (w.rotateNL io) ∧ (w.rotateNL io).backups = w.backups ∧
      (w.rotateNL io).pendingBuffer = w.pendingBuffer ∧ Appends w (w.rotateNL io) [] := by
  obtain ⟨hready, hbackups, hpending, hdisk⟩ := rotateNL_ready hio h
  refine ⟨hready, hbackups, hpending, _, ?_, hdisk⟩
  exact (Disk.trims_append_nil _ _).trans (rotateFiles_trims hb _)

/-- So does the rotation that the size decides on. -/
theorem rotateFor_appends (hio : Writable io) (hb : 1 ≤ w.backups.toInt) (h : Ready w)
    (size : Nat) :
    Ready (w.rotateFor io size) ∧ (w.rotateFor io size).backups = w.backups ∧
      (w.rotateFor io size).pendingBuffer = w.pendingBuffer ∧
      Disk.Trims w.backups.toInt.toNat w.disk (w.rotateFor io size).disk := by
  unfold rotateFor
  split
  · obtain ⟨hready, hbackups, hpending, d, htrims, hdisk⟩ := rotateNL_appends hio hb h
    refine ⟨hready, hbackups, hpending, ?_⟩
    rw [hdisk]
    exact htrims.trans (Disk.trims_append_nil _ _)
  · exact ⟨h, rfl, rfl, .refl _ _⟩

theorem fileWrite_ready (hio : Writable io) (h : Ready w) (bytes : List UInt8) :
    w.fileWrite io.write bytes = { w with file := ⟨true, true, bytes⟩ } := by
  have hfile : w.file = ⟨true, true, []⟩ := h
  simp [fileWrite, hio.write, hfile]

/-- A flush that succeeds hands all over. -/
theorem fileFlush_good (hio : Writable io) {bytes : List UInt8} (h : w.file = ⟨true, true, bytes⟩) :
    w.fileFlush io.flush =
      { w with file := ⟨true, true, []⟩, disk := w.disk.append bytes } := by
  simp [fileFlush, hio.flush, h]

/-- On a ready stream, what is written is at the end of the log file when the call returns. -/
theorem writeNL_eq (hio : Writable io) {str : List UInt8} {v : LogWriter}
    (hv : w.rotateFor io str.length = v) (h : Ready v) :
    w.writeNL io str = ((str.length : Int), { v with
      file := ⟨true, true, []⟩
      currentSize := v.currentSize + str.length
      disk := v.disk.append str }) := by
  simp only [writeNL, hv, fileWrite_ready hio h, if_true]
  rw [fileFlush_good hio rfl]

/-- The flushed part of a write moves from the pending buffer to the files. -/
theorem writeOpen_carries (hio : Writable io) (hb : 1 ≤ w.backups.toInt) (h : Ready w)
    (data : List UInt8) : Carries w (w.writeOpen io data).2 data := by
  simp only [writeOpen]
  split
  · exact ⟨h, rfl, Nat.le_refl _, [], by simp [content, logged], fun _ => rfl⟩
  · set v : LogWriter := { w with pendingBuffer := w.pendingBuffer ++ data } with hv
    set k := flushEnd w.pendingBuffer data
    have hready : Ready v := h
    obtain ⟨hrotated, hbackups, hpending, hle, dropped, hchain, hnone⟩ :=
      rotateFor_appends hio (w := v) hb hready (v.pendingBuffer.take k).length
    rw [writeNL_eq hio rfl hrotated]
    refine ⟨rfl, hbackups, hle, dropped, ?_, hnone⟩
    simp only [content, logged, hbackups, hpending, Disk.append, Slots.chain_append_zero]
    calc Slots.chain w.disk.file w.backups.toInt.toNat ++ w.pendingBuffer ++ data
        = Slots.chain v.disk.file v.backups.toInt.toNat ++ v.pendingBuffer :=
          List.append_assoc _ _ _
      _ = (dropped ++ Slots.chain (v.rotateFor io (v.pendingBuffer.take k).length).disk.file
            v.backups.toInt.toNat) ++ (v.pendingBuffer.take k ++ v.pendingBuffer.drop k) := by
          rw [hchain, List.take_append_drop]
      _ = _ := by simp only [List.append_assoc]

/-- A write keeps its bytes: in the files, or pending. -/
theorem write_carries (hio : Writable io) (hb : 1 ≤ w.backups.toInt) (h : Ready w)
    (data : List UInt8) : Carries w (w.write io data).2 data := by
  unfold write
  split
  · next hempty =>
      rw [List.isEmpty_iff.mp hempty]
      exact .refl h
  · rw [if_pos h.isOpen]
    exact writeOpen_carries hio hb h data

/-- On a ready stream a flush leaves all that was pending at the end of the log file. -/
theorem flush_eq (hio : Writable io) (h : Ready w) :
    w.flush io = { w with
      file := ⟨true, true, []⟩
      currentSize := w.currentSize + w.pendingBuffer.length
      pendingBuffer := []
      disk := w.disk.append w.pendingBuffer } := by
  by_cases hpending : w.pendingBuffer = []
  · have hflush : w.flush io = w.fileFlush io.flush := by simp [flush, hpending, h.isOpen]
    rw [hflush, fileFlush_good hio h]
    simp [hpending]
  · have hsome : (!w.pendingBuffer.isEmpty && w.file.isOpen) = true := by
      simp [hpending, h.isOpen]
    simp only [flush, hsome, if_true, fileWrite_ready hio h]
    rw [fileFlush_good hio rfl]

/-- A flush keeps what is pending. -/
theorem flush_carries (hio : Writable io) (h : Ready w) : Carries w (w.flush io) [] := by
  rw [flush_eq hio h]
  refine ⟨rfl, rfl, Nat.le_refl _, [], ?_, fun _ => rfl⟩
  simp [content, logged, Disk.append, Slots.chain_append_zero]

/-- **One call** appends its data. -/
theorem call_carries {c : Call × Io} (hio : Writable c.2) (hb : 1 ≤ w.backups.toInt) (h : Ready w) :
    Carries w (w.call c) c.1.data := by
  obtain ⟨c, io⟩ := c
  cases c with
  | write data => exact write_carries hio hb h data
  | writeLine line => exact write_carries hio hb h (lineData line)
  | flush => exact flush_carries hio h

/-! ## Every sequence of calls -/

/-- A run keeps all that was written, in order. -/
theorem run_carries {calls : List (Call × Io)} (hio : ∀ c ∈ calls, Writable c.2)
    (hb : 1 ≤ w.backups.toInt) (h : Ready w) : Carries w (w.run calls) (written calls) := by
  induction calls generalizing w with
  | nil => exact .refl h
  | cons c calls ih =>
      have hc := call_carries (hio c List.mem_cons_self) hb h
      have hrest := ih (w := w.call c) (fun c' hc' => hio c' (List.mem_cons_of_mem _ hc'))
        (by rw [hc.backups]; exact hb) hc.ready
      exact hc.trans hrest

/-- The constructor leaves a ready stream and changes no byte of the files. -/
theorem create_ready (maxBytes : Nat) (backups : Int32) (disk : Disk) {open' : OpenIo}
    (hopen : open'.opened = true) :
    Ready (create maxBytes backups disk open') ∧
      (create maxBytes backups disk open').backups = backups ∧
      (create maxBytes backups disk open').disk.removed = disk.removed ∧
      (create maxBytes backups disk open').content = Slots.chain disk.file backups.toInt.toNat := by
  obtain ⟨_, hready, hbackups, hpending, hdisk⟩ := openNL_ready .ok
    (w := ⟨maxBytes, backups, ⟨false, true, []⟩, 0, [], disk⟩) hopen rfl
  unfold create
  refine ⟨hready, hbackups, by rw [hdisk]; rfl, ?_⟩
  unfold content logged
  rw [hbackups, hpending, hdisk, Disk.append, Slots.chain_append_zero]
  simp

/-- The destructor moves the pending buffer to the log file and leaves the backups alone. -/
theorem closeNL_moves_pending (hio : Writable io) (h : Ready w) :
    (w.closeNL io).pendingBuffer = [] ∧
      (w.closeNL io).disk = w.disk.append w.pendingBuffer := by
  by_cases hpending : w.pendingBuffer = []
  · have hfile : w.file = ⟨true, true, []⟩ := h
    simp [closeNL, hfile, hpending, fileClose, hio.close]
  · simp [closeNL, h.isOpen, hpending, fileWrite_ready hio h, fileClose, hio.close]

/-- **No log byte is lost, duplicated or reordered, except with the oldest backup.**  Whatever the
files held at first and however the calls interleave with rotations, finished or abandoned, the
files read from the oldest backup on, followed by the pending buffer, end what they held at first
followed by everything written; they are all of it as long as no backup was removed. The destructor
then moves the pending buffer to the end of the log file. -/
theorem no_log_byte_lost (maxBytes : Nat) (backups : Int32) (hb : 1 ≤ backups.toInt)
    (files : Nat → Option (List UInt8)) (start : OpenIo) (hstart : start.opened = true)
    (calls : List (Call × Io)) (hcalls : ∀ c ∈ calls, Writable c.2) (last : Io)
    (hlast : Writable last) :
    let w := (create maxBytes backups ⟨files, 0⟩ start).run calls
    let all := Slots.chain files backups.toInt.toNat ++ written calls
    (w.content <:+ all ∧ (w.disk.removed = 0 → w.content = all)) ∧
      (w.closeNL last).pendingBuffer = [] ∧
      (w.closeNL last).disk = w.disk.append w.pendingBuffer := by
  intro w all
  obtain ⟨hready, hbackups, hremoved, hcontent⟩ :=
    create_ready maxBytes backups ⟨files, 0⟩ hstart
  have hrun : Carries _ w (written calls) :=
    run_carries hcalls (by rw [hbackups]; exact hb) hready
  obtain ⟨dropped, hkept, hnone⟩ := hrun.kept
  rw [hcontent] at hkept
  refine ⟨⟨⟨dropped, hkept.symm⟩, fun hno => ?_⟩, closeNL_moves_pending hlast hrun.ready⟩
  have hdropped : dropped = [] := hnone (by rw [hno, hremoved])
  rw [hdropped] at hkept
  exact hkept.symm

/-- A log file and one backup. -/
def twoFiles : Nat → Option (List UInt8)
  | 0 => some [120, 121, 10]
  | 1 => some [97, 10]
  | _ => none

/-- With a limit of three bytes both lines rotate: the first one's rotation is finished, the second
one's removes the oldest backup and then fails to rename the log file; the last byte is pending. -/
def rotatingCalls : List (Call × Io) :=
  [(.write [98, 10], {}), (.writeLine [99], { renameOk := fun i => i != 0 }), (.write [100], {})]

theorem no_log_byte_lost_rotating :
    let w := (create 3 1 ⟨twoFiles, 0⟩ {}).run rotatingCalls
    w.content = [98, 10, 99, 10, 100] ∧
      w.content <:+ [97, 10, 120, 121, 10] ++ written rotatingCalls ∧
      (w.closeNL {}).pendingBuffer = [] := by
  have hio : ∀ c ∈ rotatingCalls, Writable c.2 := by
    intro c hc
    simp only [rotatingCalls, List.mem_cons, List.not_mem_nil, or_false] at hc
    rcases hc with rfl | rfl | rfl <;> exact ⟨rfl, rfl, rfl, rfl, rfl⟩
  have h := no_log_byte_lost 3 1 (by decide) twoFiles {} rfl rotatingCalls hio {}
    ⟨rfl, rfl, rfl, rfl, rfl⟩
  exact ⟨by decide, h.1.1, h.2.1⟩

end LogWriter

end Supervisorcpp
