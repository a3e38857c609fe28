/-
# What a rotation does when nothing fails

With every file operation succeeding, a rotation moves the log file and its backups up by one slot
and overwrites the oldest. `Effect` says in one place what a call does then: which bytes it moves
from the pending buffer to the log file, whether it rotates before, and what stays pending. The
bound on the number of backups and the bound on the size of the log file are both read off it.

The size counter is part of the account (`Tracks`): a writer that was opened with a size query that
succeeded knows how large its file is.
-/
import Supervisorcpp.Logger.Retention

namespace Supervisorcpp

namespace LogWriter

variable {io : Io} {w w' : LogWriter} {d : Disk}

/-- Every file operation of this call succeeds. -/
structure Succeeds (io : Io) : Prop extends Writable io where
  existsOk : ∀ i, io.existsOk i = true
  removeOk : io.removeOk = true
  renameOk : ∀ i, io.renameOk i = true
  sized : io.first.sized = true ∧ io.again.sized = true

theorem succeeds_default : Succeeds {} :=
  ⟨⟨rfl, rfl, rfl, rfl, rfl⟩, fun _ => rfl, rfl, fun _ => rfl, rfl, rfl⟩

/-! ## Rotation -/

/-- The oldest backup is gone. -/
theorem removeOldest_succeeds (hio : Succeeds io) {backups : Int32} (hb : 1 ≤ backups.toInt)
    (d : Disk) :
    (removeOldest io backups d).1 = true ∧
      (removeOldest io backups d).2.file = Slots.clear d.file backups.toInt.toNat := by
  have hpos : 0 < backups.toInt := by omega
  simp only [removeOldest, hpos, if_true, hio.existsOk, hio.removeOk, Bool.not_true,
    Bool.false_eq_true, if_false]
  split
  · exact ⟨rfl, rfl⟩
  · next hnone =>
      have hfree : d.file backups.toInt.toNat = none := Option.not_isSome_iff_eq_none.mp hnone
      exact ⟨rfl, (Slots.clear_of_none hfree).symm⟩

/-- A rename that finds its file, or finds both names free. -/
theorem renameUp_succeeds (hio : Succeeds io) {i : Nat}
    (h : (d.file i).isSome = true ∨ d.file (i + 1) = none) :
    (renameUp io i d).1 = true ∧ (renameUp io i d).2.file = Slots.shift d.file i := by
  simp only [renameUp, hio.existsOk, hio.renameOk, Bool.not_true, Bool.false_eq_true, if_false,
    if_true]
  split
  · exact ⟨rfl, rfl⟩
  · next hnone =>
      have hfree : d.file i = none := Option.not_isSome_iff_eq_none.mp hnone
      have habove : d.file (i + 1) = none := h.resolve_left hnone
      exact ⟨rfl, (Slots.shift_of_none hfree habove).symm⟩

/-- The loop moves the backups `1, …, i` up, slot `i + 1` being free. -/
theorem renameBackups_succeeds (hio : Succeeds io) {i : Nat} {d : Disk}
    (hfree : d.file (i + 1) = none) :
    (renameBackups io i d).1 = true ∧
      (renameBackups io i d).2.file = Slots.lift d.file 1 (i + 1) := by
  induction i generalizing d with
  | zero => exact ⟨rfl, (Slots.lift_of_none hfree).symm⟩
  | succ i ih =>
      obtain ⟨hok, hfile⟩ := renameUp_succeeds hio (Or.inr hfree)
      have hfree' : (renameUp io (i + 1) d).2.file (i + 1) = none := by
        rw [hfile]
        exact Slots.shift_self _ _
      obtain ⟨hok', hfile'⟩ := ih hfree'
      simp only [renameBackups, andThen, hok, if_true]
      refine ⟨hok', ?_⟩
      rw [hfile', hfile]
      exact Slots.lift_shift _ (by omega)

/-- The number of slots above the log file that a rotation moves files to. It is never 0. -/
def backupSlots (backups : Int32) : Nat := max 1 backups.toInt.toNat

/-- **A rotation** moves every file up by one slot. -/
theorem rotateFiles_succeeds (hio : Succeeds io) (backups : Int32) (h : (d.file 0).isSome = true) :
    (rotateFiles io backups d).2.file = Slots.lift d.file 0 (backupSlots backups) := by
  by_cases hb : 1 ≤ backups.toInt
  · obtain ⟨n, hn⟩ : ∃ n, backups.toInt.toNat = n + 1 := ⟨backups.toInt.toNat - 1, by omega⟩
    have hlast : (backups.toInt - 1).toNat = n := by omega
    have hslots : backupSlots backups = n + 1 := by unfold backupSlots; omega
    obtain ⟨hok, hfile⟩ := removeOldest_succeeds hio hb d
    have hfree : (removeOldest io backups d).2.file (n + 1) = none := by
      rw [hfile, hn]
      exact Slots.clear_self _ _
    obtain ⟨hok', hfile'⟩ := renameBackups_succeeds hio hfree
    have hlift : (renameBackups io n (removeOldest io backups d).2).2.file =
        Slots.lift d.file 1 (n + 1) := by
      rw [hfile', hfile, hn]
      exact Slots.lift_clear _ (by omega)
    have hone : (renameBackups io n (removeOldest io backups d).2).2.file (0 + 1) = none := by
      rw [hlift]
      exact Slots.lift_self _ _ _
    simp only [rotateFiles, andThen, hok, if_true, hlast, hok', hslots]
    rw [(renameUp_succeeds hio (Or.inr hone)).2, hlift]
    exact Slots.shift_lift _ (by omega)
  -- without backups there is nothing to delete and nothing to loop over
  · have hzero : ¬(0 < backups.toInt) := by omega
    have hlast : (backups.toInt - 1).toNat = 0 := by omega
    have hslots : backupSlots backups = 1 := by unfold backupSlots; omega
    simp only [rotateFiles, removeOldest, hzero, if_false, andThen, if_true, hlast, renameBackups,
      hslots]
    rw [(renameUp_succeeds hio (Or.inl h)).2]
    exact (Slots.lift_one _ _).symm

/-! ## One call -/

/-- The bytes of the log file. -/
def fileSize (w : LogWriter) : Nat := ((w.disk.file 0).getD []).length

/-- The log file is there, open for appending, and `current_size_` is its size. -/
structure Tracks (w : LogWriter) : Prop where
  ready : Ready w
  present : (w.disk.file 0).isSome = true
  size : w.currentSize = w.fileSize

/-- How many bytes of the pending buffer and the call's data go to the log file. -/
def flushed (w : LogWriter) : Call → Nat
  | .flush => w.pendingBuffer.length
  | c => if c.data.isEmpty then 0 else flushEnd w.pendingBuffer c.data

/-- `size` more bytes would pass the limit. -/
def passesLimit (w : LogWriter) (size : Nat) : Bool :=
  0 < w.maxBytes && w.maxBytes < w.currentSize + size

/-- The call finds the limit passed and rotates: `flush` never asks. -/
def rotates (w : LogWriter) : Call → Bool
  | .flush => false
  | c => 0 < w.flushed c && w.passesLimit (w.flushed c)

/-- What a call does when nothing fails. -/
structure Effect (w w' : LogWriter) (c : Call) : Prop where
  ready : Ready w'
  maxBytes : w'.maxBytes = w.maxBytes
  backups : w'.backups = w.backups
  pending : w'.pendingBuffer = (w.pendingBuffer ++ c.data).drop (w.flushed c)
  file : w'.disk.file = Slots.append
    (if w.rotates c then Slots.lift w.disk.file 0 (backupSlots w.backups) else w.disk.file) 0
    ((w.pendingBuffer ++ c.data).take (w.flushed c))
  size : w'.currentSize = (if w.rotates c then 0 else w.currentSize) + w.flushed c

/-- The file after a successful open is there and its size is known. -/
theorem openNL_size {open' : OpenIo} (close : Transfer) (hopen : open'.opened = true)
    (hsized : open'.sized = true) (hclosed : w.file.isOpen = false) :
    (w.openNL open' close).2.maxBytes = w.maxBytes ∧
      (w.openNL open' close).2.currentSize = ((w.disk.file 0).getD []).length := by
  simp [openNL, hclosed, fileOpen, hopen, hsized, Disk.append]

/-- A rotation moves every file up by one slot and starts a new one. -/
theorem rotateNL_succeeds (hio : Succeeds io) (h : Tracks w) :
    Ready (w.rotateNL io) ∧ (w.rotateNL io).maxBytes = w.maxBytes ∧
      (w.rotateNL io).backups = w.backups ∧ (w.rotateNL io).pendingBuffer = w.pendingBuffer ∧
      (w.rotateNL io).disk.file =
        Slots.append (Slots.lift w.disk.file 0 (backupSlots w.backups)) 0 [] ∧
      (w.rotateNL io).currentSize = 0 := by
  have hsame : (w.disk.append []).file = w.disk.file := Slots.append_nil_of_isSome h.present
  have hrotated := rotateFiles_succeeds hio w.backups (d := w.disk.append [])
    (by rw [hsame]; exact h.present)
  rw [hsame] at hrotated
  obtain ⟨hready, hbackups, hpending, hdisk⟩ := rotateNL_ready hio.toWritable h.ready
  have hlog : ((rotateFiles io w.backups (w.disk.append [])).2.file 0) = none := by
    rw [hrotated]
    exact Slots.lift_self _ _ _
  have hopened := rotateNL_eq hio.toWritable h.ready
  refine ⟨hready, by rw [hopened, (openNL_size _ hio.again hio.sized.2 rfl).1], hbackups, hpending,
    ?_, ?_⟩
  · rw [hdisk]
    exact congrArg (Slots.append · 0 []) hrotated
  · rw [hopened, (openNL_size _ hio.again hio.sized.2 rfl).2]
    simp [hlog]

/-- Nothing is found exactly where there is nothing to find. -/
theorem rfind_eq_none_iff {c : UInt8} {data : List UInt8} : rfind c data = none ↔ c ∉ data := by
  induction data with
  | nil => simp [rfind]
  | cons b bs ih =>
      unfold rfind
      split
      · next i hi => grind
      · next hnone => grind

/-- `data.rfind('\n')` splits the data behind its last newline. -/
theorem rfind_eq_some {c : UInt8} {data : List UInt8} {i : Nat} (h : rfind c data = some i) :
    ∃ before after, data = before ++ c :: after ∧ before.length = i ∧ c ∉ after := by
  induction data generalizing i with
  | nil => simp [rfind] at h
  | cons b bs ih =>
      unfold rfind at h
      split at h
      · next j hj =>
          obtain ⟨before, after, rfl, rfl, hafter⟩ := ih hj
          exact ⟨b :: before, after, rfl, by simpa using h, hafter⟩
      · next hnone =>
          split at h
          · next hb =>
              refine ⟨[], bs, by rw [hb]; rfl, by simpa using h, ?_⟩
              exact rfind_eq_none_iff.mp hnone
          · cases h

/-- What follows the last newline. -/
def unfinished (data : List UInt8) : List UInt8 :=
  match rfind newline data with
  | some i => data.drop (i + 1)
  | none => data

/-- The three cases of `flush_end`: up to the last newline, everything, or nothing yet. -/
inductive FlushEnd (pending data : List UInt8) (n : Nat) : Prop
  | line (before : List UInt8) (hdata : data = before ++ newline :: unfinished data)
      (hafter : newline ∉ unfinished data) (hn : n = (pending ++ before).length + 1)
  | overflow (hdata : newline ∉ data) (hlong : maxPendingBuffer ≤ (pending ++ data).length)
      (hn : n = (pending ++ data).length)
  | waits (hdata : newline ∉ data) (hshort : (pending ++ data).length < maxPendingBuffer)
      (hn : n = 0)

/-- How much is flushed: up to the last newline, all of a full buffer, or nothing. -/
theorem flushEnd_cases (pending data : List UInt8) :
    FlushEnd pending data (flushEnd pending data) := by
  unfold flushEnd
  split
  · next i hi =>
      obtain ⟨before, after, hdata, hlen, hafter⟩ := rfind_eq_some hi
      have hrest : unfinished data = after := by
        simp only [unfinished, hi]
        rw [hdata, ← hlen]
        simp
      refine .line before (by rw [hrest]; exact hdata) (by rw [hrest]; exact hafter) ?_
      rw [List.length_append, hlen]
  · next hnone =>
      have hno : newline ∉ data := rfind_eq_none_iff.mp hnone
      split
      · next hlong => exact .overflow hno hlong rfl
      · next hshort => exact .waits hno (Nat.lt_of_not_le hshort) rfl

/-- A write that flushes whole lines cuts behind the last newline. -/
theorem flushed_line {pending data before : List UInt8} {n : Nat}
    (hdata : data = before ++ newline :: unfinished data)
    (hn : n = (pending ++ before).length + 1) :
    (pending ++ data).take n = pending ++ before ++ [newline] ∧
      (pending ++ data).drop n = unfinished data := by
  have hsplit : pending ++ data = (pending ++ before ++ [newline]) ++ unfinished data := by
    rw [hdata]
    simp [← hdata]
  have hlen : n = (pending ++ before ++ [newline]).length := by
    simp only [hn, List.length_append, List.length_singleton]
  rw [hsplit, hlen]
  exact ⟨List.take_left, List.drop_left⟩

theorem flushEnd_le (pending data : List UInt8) :
    flushEnd pending data ≤ (pending ++ data).length := by
  rcases flushEnd_cases pending data with ⟨before, hdata, -, hn⟩ | ⟨-, -, hn⟩ | ⟨-, -, hn⟩
  · have hlen := congrArg List.length hdata
    simp only [List.length_append, List.length_cons] at hlen hn ⊢
    omega
  · exact Nat.le_of_eq hn
  · omega

theorem flushed_le (w : LogWriter) (c : Call) : w.flushed c ≤ (w.pendingBuffer ++ c.data).length := by
  have hend := flushEnd_le w.pendingBuffer c.data
  cases c with
  | flush => simp [flushed, Call.data]
  | write data => simp only [flushed]; split <;> omega
  | writeLine line => simp only [flushed]; split <;> omega

/-- Nothing goes to the log file. -/
theorem Effect.waits {c : Call} (h : Tracks w) (hnone : w.flushed c = 0)
    (hready : Ready w') (hmax : w'.maxBytes = w.maxBytes) (hbackups : w'.backups = w.backups)
    (hpending : w'.pendingBuffer = w.pendingBuffer ++ c.data) (hdisk : w'.disk = w.disk)
    (hsize : w'.currentSize = w.currentSize) : Effect w w' c := by
  have hstays : w.rotates c = false := by cases c <;> simp [rotates, hnone]
  refine ⟨hready, hmax, hbackups, by rw [hnone]; exact hpending, ?_, ?_⟩
  · simp only [hstays, hnone, hdisk, Bool.false_eq_true, if_false, List.take_zero]
    exact (Slots.append_nil_of_isSome h.present).symm
  · simp [hstays, hnone, hsize]

/-- What `writeNL_` does when nothing fails. -/
theorem writeNL_succeeds (hio : Succeeds io) (h : Tracks w) (str : List UInt8) :
    Ready (w.writeNL io str).2 ∧ (w.writeNL io str).2.maxBytes = w.maxBytes ∧
      (w.writeNL io str).2.backups = w.backups ∧
      (w.writeNL io str).2.pendingBuffer = w.pendingBuffer ∧
      (w.writeNL io str).2.disk.file = Slots.append
        (if w.passesLimit str.length then Slots.lift w.disk.file 0 (backupSlots w.backups)
          else w.disk.file) 0 str ∧
      (w.writeNL io str).2.currentSize =
        (if w.passesLimit str.length then 0 else w.currentSize) + str.length := by
  by_cases hlimit : w.passesLimit str.length = true
  · have hfor : w.rotateFor io str.length = w.rotateNL io := if_pos hlimit
    obtain ⟨hready, hmax, hbackups, hpending, hfile, hsize⟩ := rotateNL_succeeds hio h
    rw [writeNL_eq hio.toWritable hfor hready]
    refine ⟨rfl, hmax, hbackups, hpending, ?_, ?_⟩
    · simp only [Disk.append, hfile, hlimit, if_true, Slots.append_append, List.nil_append]
    · simp only [hsize, hlimit, if_true]
  · have hfor : w.rotateFor io str.length = w := if_neg hlimit
    rw [writeNL_eq hio.toWritable hfor h.ready]
    exact ⟨rfl, rfl, rfl, rfl, by simp only [if_neg hlimit]; rfl, by simp only [if_neg hlimit]⟩

/-- The two ways a write on an open file goes: nothing is flushed yet, or `writeNL_` gets what is. -/
theorem write_cases (io : Io) (data : List UInt8) (hopen : w.file.isOpen = true) :
    let v : LogWriter := { w with pendingBuffer := w.pendingBuffer ++ data }
    let n := w.flushed (.write data)
    (n = 0 ∧ (w.write io data).2 = v) ∨
      (0 < n ∧ (v.pendingBuffer.take n).length = n ∧ w.rotates (.write data) = v.passesLimit n ∧
        (w.write io data).2 = { (v.writeNL io (v.pendingBuffer.take n)).2 with
          pendingBuffer := (v.writeNL io (v.pendingBuffer.take n)).2.pendingBuffer.drop n }) := by
  intro v n
  by_cases hempty : data.isEmpty = true
  · left
    refine ⟨by simp [n, flushed, Call.data, hempty], ?_⟩
    simp [v, write, List.isEmpty_iff.mp hempty]
  · have hn : flushEnd w.pendingBuffer data = n := by simp [n, flushed, Call.data, hempty]
    simp only [write, hempty, Bool.false_eq_true, if_false, hopen, if_true, writeOpen, hn]
    by_cases hnone : n = 0
    · left
      simp only [hnone, if_true]
      exact ⟨trivial, rfl⟩
    · right
      have hpos : 0 < n := by omega
      refine ⟨hpos, ?_, ?_, by simp only [hnone, if_false]; rfl⟩
      · rw [List.length_take]
        exact Nat.min_eq_left (flushed_le w (.write data))
      · show (0 < n && w.passesLimit n) = v.passesLimit n
        simp only [hpos, decide_true, Bool.true_and]
        rfl

/-- What a write does to the files when everything succeeds. -/
theorem write_effect (hio : Succeeds io) (h : Tracks w) (data : List UInt8) :
    Effect w (w.write io data).2 (.write data) := by
  rcases write_cases io data h.ready.isOpen with ⟨hnone, hwrite⟩ | ⟨-, hlength, hrot, hwrite⟩
  · rw [hwrite]
    exact .waits h hnone h.ready rfl rfl rfl rfl rfl
  · rw [hwrite]
    set v : LogWriter := { w with pendingBuffer := w.pendingBuffer ++ data }
    have htracks : Tracks v := ⟨h.ready, h.present, h.size⟩
    obtain ⟨hready, hmax, hbackups, hpending, hfile, hsize⟩ :=
      writeNL_succeeds hio htracks (v.pendingBuffer.take (w.flushed (.write data)))
    rw [hlength, ← hrot] at hfile hsize
    exact ⟨hready, hmax, hbackups, congrArg (List.drop _) hpending, hfile, hsize⟩

/-- What a flush does. -/
theorem flush_effect (hio : Succeeds io) (h : Tracks w) : Effect w (w.flush io) .flush := by
  have htake : (w.pendingBuffer ++ Call.flush.data).take (w.flushed .flush) = w.pendingBuffer := by
    simp [Call.data, flushed]
  have hdrop : (w.pendingBuffer ++ Call.flush.data).drop (w.flushed .flush) = [] := by
    simp [Call.data, flushed]
  rw [flush_eq hio.toWritable h.ready]
  refine ⟨rfl, rfl, rfl, hdrop.symm, ?_, ?_⟩
  · rw [htake]
    simp [rotates, Disk.append]
  · simp [rotates, flushed]

/-- **One call**, when nothing fails. -/
theorem call_effect {c : Call × Io} (hio : Succeeds c.2) (h : Tracks w) :
    Effect w (w.call c) c.1 := by
  obtain ⟨c, io⟩ := c
  cases c with
  | write data => exact write_effect hio h data
  | writeLine line =>
      have heffect := write_effect hio h (lineData line)
      exact ⟨heffect.ready, heffect.maxBytes, heffect.backups, heffect.pending, heffect.file,
        heffect.size⟩
  | flush => exact flush_effect hio h

/-- After a call the size counter is right again. -/
theorem Effect.tracks {c : Call} (he : Effect w w' c) (h : Tracks w) : Tracks w' := by
  refine ⟨he.ready, by rw [he.file]; simp, ?_⟩
  have htaken : ((w.pendingBuffer ++ c.data).take (w.flushed c)).length = w.flushed c := by
    rw [List.length_take]
    exact Nat.min_eq_left (flushed_le w c)
  rw [he.size, fileSize, he.file, Slots.append_self, Option.getD_some, List.length_append, htaken]
  split
  · simp
  · rw [h.size]
    rfl

/-- A new writer tracks the size of its file. -/
theorem create_tracks (maxBytes : Nat) (backups : Int32) (disk : Disk) {start : OpenIo}
    (hopen : start.opened = true) (hsized : start.sized = true) :
    Tracks (create maxBytes backups disk start) ∧
      (create maxBytes backups disk start).maxBytes = maxBytes ∧
      (create maxBytes backups disk start).backups = backups ∧
      (create maxBytes backups disk start).pendingBuffer = [] ∧
      (create maxBytes backups disk start).disk.file = Slots.append disk.file 0 [] := by
  have hclosed : (⟨maxBytes, backups, ⟨false, true, []⟩, 0, [], disk⟩ : LogWriter).file.isOpen =
      false := rfl
  obtain ⟨_, hready, hbackups, hpending, hdisk⟩ := openNL_ready .ok hopen hclosed
  obtain ⟨hmax, hsize⟩ := openNL_size .ok hopen hsized hclosed
  have hfile : (create maxBytes backups disk start).disk.file = Slots.append disk.file 0 [] :=
    congrArg Disk.file hdisk
  refine ⟨⟨hready, by rw [hfile]; simp, ?_⟩, hmax, hbackups, hpending, hfile⟩
  have hsize' : (create maxBytes backups disk start).currentSize = ((disk.file 0).getD []).length :=
    hsize
  rw [hsize', fileSize, hfile, Slots.append_self]
  simp

end LogWriter

end Supervisorcpp
