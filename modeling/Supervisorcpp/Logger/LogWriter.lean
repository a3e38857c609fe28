/-
# The rotating log writer

`log_writer.cpp`: complete lines go to the log file, an unfinished line waits in `pending_buffer_`,
and a write that would pass `max_bytes` first moves the file to `logfile.1`, that one to `logfile.2`
and so on. The files of one writer are numbered slots, `logfile` itself is slot 0.

The answers of the operating system during a call (does the open succeed, does this rename throw)
are an argument of the call, so "every sequence of calls" below is over every pattern of failures.
`std::ofstream` keeps what it has been given in a buffer until a flush or a close hands it over, and
an operation that fails leaves it in an error state until the next successful `open`.
-/
import Supervisorcpp.Config.Types
import Supervisorcpp.Lib.Slots

namespace Supervisorcpp

/-! ## The files -/

/-- `logfile` is slot 0, `logfile.i` is slot `i`; `none` where there is no such file. -/
structure Disk where
  file : Nat → Option (List UInt8)
  /-- ghost: how many existing files `remove` has deleted -/
  removed : Nat

namespace Disk

/-- Bytes reach the end of the log file, which is created if there is none. -/
def append (d : Disk) (bytes : List UInt8) : Disk := { d with file := Slots.append d.file 0 bytes }

/-- `remove` of slot `i`, which the ghost counter records. -/
def remove (d : Disk) (i : Nat) : Disk :=
  { d with file := Slots.clear d.file i, removed := d.removed + 1 }

/-- `rename` of slot `i` to `i + 1`; it replaces what is there. -/
def rename (d : Disk) (i : Nat) : Disk := { d with file := Slots.shift d.file i }

end Disk

/-! ## What the operating system answers -/

/-- Handing bytes to the device; a failure may have taken the first `accepted` of them. -/
inductive Transfer where
  | ok
  | fail (accepted : Nat)
  deriving DecidableEq, Repr

/-- `file_.open`, and the `exists` and `file_size` after it. -/
structure OpenIo where
  opened : Bool := true
  sized : Bool := true
  deriving DecidableEq, Repr

/-- One call's answers. -/
structure Io where
  /-- the open at the start of `write` -/
  first : OpenIo := {}
  close : Transfer := .ok
  existsOk : Nat → Bool := fun _ => true
  removeOk : Bool := true
  renameOk : Nat → Bool := fun _ => true
  /-- the open at the end of a rotation -/
  again : OpenIo := {}
  write : Transfer := .ok
  flush : Transfer := .ok

/-- `std::ofstream`. -/
structure Ofstream where
  isOpen : Bool
  good : Bool
  buffer : List UInt8
  deriving DecidableEq, Repr

/-- A log writer with the files it writes to. The mutex is not modelled: `write`
and `flush` hold it from beginning to end, so that calls do not interleave. -/
structure LogWriter where
  maxBytes : Nat
  backups : Int32
  file : Ofstream
  currentSize : Nat
  pendingBuffer : List UInt8
  disk : Disk

namespace LogWriter

/-! ## `file_` -/

/-- `file_.open` in append mode: the error state is cleared if it succeeds, and the file exists from
then on. -/
def fileOpen (io : OpenIo) (w : LogWriter) : LogWriter :=
  if io.opened then { w with file := ⟨true, true, []⟩, disk := w.disk.append [] }
  else { w with file := ⟨false, false, []⟩ }

/-- Closing hands over the buffer first, also when the stream is in error. -/
def fileClose (close : Transfer) (w : LogWriter) : LogWriter :=
  match close with
  | .ok => { w with file := ⟨false, w.file.good, []⟩, disk := w.disk.append w.file.buffer }
  | .fail n => { w with file := ⟨false, false, []⟩, disk := w.disk.append (w.file.buffer.take n) }

/-- `file_.write`: the bytes go to the stream's buffer, or to the device where that fails half-way.
A stream in error takes none. -/
def fileWrite (write : Transfer) (bytes : List UInt8) (w : LogWriter) : LogWriter :=
  if w.file.isOpen && w.file.good then
    match write with
    | .ok => { w with file := { w.file with buffer := w.file.buffer ++ bytes } }
    | .fail n =>
      { w with
        file := { w.file with good := false, buffer := w.file.buffer.drop n }
        disk := w.disk.append ((w.file.buffer ++ bytes).take n) }
  else { w with file := { w.file with good := false } }

/-- `file_.flush`: what is in the stream's buffer goes to the device. -/
def fileFlush (flush : Transfer) (w : LogWriter) : LogWriter :=
  if w.file.isOpen && w.file.good then
    match flush with
    | .ok => { w with file := { w.file with buffer := [] }, disk := w.disk.append w.file.buffer }
    | .fail n =>
      { w with
        file := { w.file with good := false, buffer := w.file.buffer.drop n }
        disk := w.disk.append (w.file.buffer.take n) }
  else w

/-! ## Opening, closing, rotating -/

/-- `openNL_`; the flag is its result. -/
def openNL (io : OpenIo) (close : Transfer) (w : LogWriter) : Bool × LogWriter :=
  let w := if w.file.isOpen then w.fileClose close else w
  let w := w.fileOpen io
  if w.file.isOpen then
    let size := match w.disk.file 0 with
      | some bytes => bytes.length
      | none => 0
    (true, { w with currentSize := if io.sized then size else 0 })
  else (false, w)

/-- `LogWriter::LogWriter` on the files it finds. -/
def create (maxBytes : Nat) (backups : Int32) (disk : Disk) (io : OpenIo) : LogWriter :=
  (openNL io .ok ⟨maxBytes, backups, ⟨false, true, []⟩, 0, [], disk⟩).2

/-- `closeNL_`. -/
def closeNL (io : Io) (w : LogWriter) : LogWriter :=
  if !w.file.isOpen then w
  else
    let w := if w.pendingBuffer.isEmpty then w
      else
        let w := w.fileWrite io.write w.pendingBuffer
        { w with currentSize := w.currentSize + w.pendingBuffer.length, pendingBuffer := [] }
    w.fileClose io.close

/-- The rest of a `try` block: nothing more is done once something has thrown. -/
def andThen (r : Bool × Disk) (next : Disk → Bool × Disk) : Bool × Disk :=
  if r.1 then next r.2 else r

/-- Delete the oldest backup if it exists. The flag is false when something has thrown. -/
def removeOldest (io : Io) (backups : Int32) (d : Disk) : Bool × Disk :=
  let oldest := backups.toInt.toNat
  if 0 < backups.toInt then
    if !io.existsOk oldest then (false, d)
    else if (d.file oldest).isSome then
      if io.removeOk then (true, d.remove oldest) else (false, d)
    else (true, d)
  else (true, d)

/-- `if (exists(from)) rename(from, to)`, from slot `i` to the next one. -/
def renameUp (io : Io) (i : Nat) (d : Disk) : Bool × Disk :=
  if !io.existsOk i then (false, d)
  else if (d.file i).isSome then
    if io.renameOk i then (true, d.rename i) else (false, d)
  else (true, d)

/-- The loop over the backups `i`, `i - 1`, …, 1. -/
def renameBackups (io : Io) : Nat → Disk → Bool × Disk
  | 0, d => (true, d)
  | i + 1, d => andThen (renameUp io (i + 1) d) (renameBackups io i)

/-- The `try` block of `rotateNL_`. -/
def rotateFiles (io : Io) (backups : Int32) (d : Disk) : Bool × Disk :=
  andThen (andThen (removeOldest io backups d) (renameBackups io (backups.toInt - 1).toNat))
    (renameUp io 0)

/-- `rotateNL_`. -/
def rotateNL (io : Io) (w : LogWriter) : LogWriter :=
  let w := if w.file.isOpen then w.fileClose io.close else w
  let w := { w with disk := (rotateFiles io w.backups w.disk).2 }
  (openNL io.again io.close { w with currentSize := 0 }).2

/-! ## Writing -/

/-- The end of a line. -/
def newline : UInt8 := 10

/-- `data.rfind('\n')`. -/
def rfind (c : UInt8) : List UInt8 → Option Nat
  | [] => none
  | b :: bs =>
    match rfind c bs with
    | some i => some (i + 1)
    | none => if b = c then some 0 else none

/-- `MAX_PENDING_BUFFER`. -/
def maxPendingBuffer : Nat := 64 * 1024

/-- `flush_end`: how much of `pending_buffer_ + data` is written now. -/
def flushEnd (pending data : List UInt8) : Nat :=
  match rfind newline data with
  | some i => pending.length + i + 1
  | none =>
    if maxPendingBuffer ≤ (pending ++ data).length then (pending ++ data).length else 0

/-- Rotate if `size` more bytes would pass the limit. -/
def rotateFor (io : Io) (size : Nat) (w : LogWriter) : LogWriter :=
  if 0 < w.maxBytes && w.maxBytes < w.currentSize + size then w.rotateNL io else w

/-- `writeNL_`. -/
def writeNL (io : Io) (str : List UInt8) (w : LogWriter) : Int × LogWriter :=
  let w := w.rotateFor io str.length
  let w := w.fileWrite io.write str
  if w.file.good then
    let w := { w with currentSize := w.currentSize + str.length }
    (str.length, w.fileFlush io.flush)
  else (-1, w)

/-- `write` once the file is open. -/
def writeOpen (io : Io) (data : List UInt8) (w : LogWriter) : Int × LogWriter :=
  let flushEnd := flushEnd w.pendingBuffer data
  let w := { w with pendingBuffer := w.pendingBuffer ++ data }
  if flushEnd = 0 then (0, w)
  else
    let res := w.writeNL io (w.pendingBuffer.take flushEnd)
    (res.1, { res.2 with pendingBuffer := res.2.pendingBuffer.drop flushEnd })

/-- `LogWriter::write`. -/
def write (io : Io) (data : List UInt8) (w : LogWriter) : Int × LogWriter :=
  if data.isEmpty then (0, w)
  else if w.file.isOpen then w.writeOpen io data
  else
    let opened := w.openNL io.first io.close
    if opened.1 then opened.2.writeOpen io data else (-1, opened.2)

/-- The line with its newline. -/
def lineData (line : List UInt8) : List UInt8 :=
  if line.getLast? = some newline then line else line ++ [newline]

/-- `LogWriter::write_line`. -/
def writeLine (io : Io) (line : List UInt8) (w : LogWriter) : Int × LogWriter :=
  w.write io (lineData line)

/-- `LogWriter::flush`. -/
def flush (io : Io) (w : LogWriter) : LogWriter :=
  let w := if !w.pendingBuffer.isEmpty && w.file.isOpen then
      let w := w.fileWrite io.write w.pendingBuffer
      { w with currentSize := w.currentSize + w.pendingBuffer.length, pendingBuffer := [] }
    else w
  if w.file.isOpen then w.fileFlush io.flush else w

/-- The calls on a log writer. -/
inductive Call where
  | write (data : List UInt8)
  | writeLine (line : List UInt8)
  | flush
  deriving DecidableEq, Repr

/-- The bytes a call asks to be logged. -/
def Call.data : Call → List UInt8
  | .write data => data
  | .writeLine line => lineData line
  | .flush => []

/-- One call on the writer, with the system's answers during it. -/
def call (w : LogWriter) (c : Call × Io) : LogWriter :=
  match c.1 with
  | .write data => (w.write c.2 data).2
  | .writeLine line => (w.writeLine c.2 line).2
  | .flush => w.flush c.2

/-- A sequence of calls. -/
def run (w : LogWriter) (calls : List (Call × Io)) : LogWriter := calls.foldl call w

/-- All data of a sequence of calls. -/
def written (calls : List (Call × Io)) : List UInt8 := calls.flatMap fun c => c.1.data

end LogWriter

end Supervisorcpp
