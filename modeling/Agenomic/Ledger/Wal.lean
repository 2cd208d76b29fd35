import Agenomic.Ledger.WalRecord
import Agenomic.Lib.Directory

/-!
# The write-ahead log

A directory of segments `wal-<8 digits>.wal`, each a header and then frames, and
a `checkpoint.json` that says up to where the records are in the ledger. A writer
keeps the name and the length of the segment it appends to.

Opening the log recovers it: a torn last segment is cut back to its good prefix,
any other damaged segment is renamed to `<name>.corrupt`, a segment whose records
are all below the checkpoint is removed. What the operating system may do to an
append is a `WriteOutcome`: every call that reaches the file can fail after any
number of bytes.

Names in error texts are relative to the directory.
-/

namespace Agenomic.Ledger

open Lib

/-- The bytes opening every segment. -/
def walMagic : Bytes := asciiBytes "ALWL"

def walVersion : Nat := 1

/-- Checkpoint file name inside the WAL directory. -/
def walCheckpointFile : String := "checkpoint.json"

def headerLen : Nat := 8

def frameHeaderLen : Nat := 8

/-- The header of a segment. -/
def segmentHeader : Bytes := walMagic ++ le16 walVersion ++ le16 0

/-- The name of a segment. -/
def segmentPath (index : Nat) : String :=
  String.ofList ("wal-".toList ++ (padded 8 index ++ ".wal".toList))

def isSegmentName (n : String) : Bool :=
  "wal-".toList.isPrefixOf n.toList && ".wal".toList.isSuffixOf n.toList

/-- The live segments, sorted by name. -/
def listSegments (d : Directory) : List String := d.list isSegmentName

/-- A 32-bit number as the standard parser takes it, a leading plus allowed. -/
def parseU32 (cs : List Char) : Option Nat :=
  let ds := match cs with
    | '+' :: rest => rest
    | cs => cs
  if ds = [] ∨ !ds.all Char.isDigit then none
  else if ofDecimal ds < 4294967296 then some (ofDecimal ds) else none

/-- The index in a segment name, 0 when there is none. -/
def segmentIndex (n : String) : Nat :=
  (do
    let n ← stripPrefix? "wal-" n
    let n ← stripSuffix? ".wal" n
    parseU32 n.toList).getD 0

/-- Where a quarantined segment goes: its `.wal` extension becomes `.wal.corrupt`. -/
def corruptPath (segment : String) : String := segment ++ ".corrupt"

variable (serde : WalSerde)

/-- Read every intact frame of one segment: the records, the offset behind the last good
frame, and whether the segment ended mid-frame. -/
def readSegment (segment : String) (bytes : Bytes) : CliResult (FrameFormat.Scan WalRecord) :=
  match bytes with
  | m0 :: m1 :: m2 :: m3 :: v0 :: v1 :: _ :: _ :: rest =>
      if [m0, m1, m2, m3] ≠ walMagic then
        .error (.ledgerIntegrity s!"{segment} is not a WAL segment (bad magic)")
      else if ofLe16 v0 v1 ≠ walVersion then
        .error (.ledgerIntegrity s!"unsupported WAL segment version {ofLe16 v0 v1} in {segment}")
      else match serde.frames.scan rest with
        | none => .error (.ledgerIntegrity s!"undecodable WAL record in {segment}")
        | some s => .ok ⟨s.records, headerLen + s.goodEnd, s.torn⟩
  -- shorter than a header: nothing recoverable in this segment
  | _ => .ok ⟨[], 0, true⟩

/-- The records in the order of their positions. -/
def sortBySeq (rs : List WalRecord) : List WalRecord :=
  rs.mergeSort fun a b => decide (a.walSeq ≤ b.walSeq)

/-- What recovery found and did. -/
structure WalRecoveryReport where
  /-- Records above the checkpoint. -/
  pending : List WalRecord
  quarantinedSegments : List String
  truncatedBytes : Nat
  removedSegments : List String
  /-- Highest position seen anywhere in the log. -/
  lastWalSeq : Nat

/-- Append-side handle over a WAL directory. -/
structure WalWriter where
  segmentMaxBytes : Nat
  diskMaxBytes : Nat
  /-- The open segment and its size. -/
  current : String
  currentLen : Nat
  /-- Total bytes across all live segments. -/
  totalLen : Nat
  nextWalSeq : Nat
  deriving DecidableEq, Repr

/-- The applied watermark, 0 when no checkpoint was ever written. -/
def readCheckpoint (d : Directory) : CliResult Nat :=
  match d[walCheckpointFile]? with
  | none => .ok 0
  | some raw =>
      match serde.checkpointFromStr raw with
      | none => .error (.ledgerIntegrity "corrupt WAL checkpoint")
      | some n => .ok n

/-! ## Health -/

/-- What a read-only look at the log finds. -/
structure WalHealth where
  segments : Nat
  /-- Records above the checkpoint. -/
  pendingRecords : Nat
  damagedSegments : List String
  quarantinedSegments : List String
  deriving DecidableEq, Repr

/-- Count one segment. -/
def WalHealth.scan (d : Directory) (checkpoint : Nat) (health : WalHealth) (segment : String) :
    WalHealth :=
  let health := { health with segments := health.segments + 1 }
  match readSegment serde segment (d.content segment) with
  | .error _ => { health with damagedSegments := health.damagedSegments ++ [segment] }
  | .ok s =>
      { health with
        damagedSegments :=
          if s.torn then health.damagedSegments ++ [segment] else health.damagedSegments
        pendingRecords :=
          health.pendingRecords + (s.records.filter fun r => checkpoint < r.walSeq).length }

/-- Look at the log without changing it. -/
def scanHealth (d : Directory) : CliResult WalHealth := do
  let checkpoint ← readCheckpoint serde d
  let health := (listSegments d).foldl (WalHealth.scan serde d checkpoint) ⟨0, 0, [], []⟩
  .ok { health with
        quarantinedSegments := d.list fun n => ".corrupt".toList.isSuffixOf n.toList }

/-! ## Recovery -/

/-- Recovery underway: the directory as changed so far, the report, the bytes kept. -/
structure Recovery where
  dir : Directory
  report : WalRecoveryReport
  totalLen : Nat

namespace Recovery

/-- Set a damaged segment aside. -/
def quarantine (st : Recovery) (segment : String) : Recovery :=
  { st with
    dir := st.dir.rename segment (corruptPath segment)
    report := { st.report with
      quarantinedSegments := st.report.quarantinedSegments ++ [corruptPath segment] } }

/-- Cut a segment back to its good prefix. -/
def truncate (st : Recovery) (segment : String) (goodEnd : Nat) : Recovery :=
  let bytes := st.dir.content segment
  { st with
    dir := st.dir.insert segment (bytes.take goodEnd)
    report := { st.report with
      truncatedBytes := st.report.truncatedBytes + (bytes.length - goodEnd) } }

/-- Count the records of a segment and keep those above the checkpoint. -/
def collect (st : Recovery) (checkpoint : Nat) (records : List WalRecord) : Recovery :=
  { st with
    report := { st.report with
      lastWalSeq := records.foldl (fun m r => max m r.walSeq) st.report.lastWalSeq
      pending := st.report.pending ++ records.filter fun r => checkpoint < r.walSeq } }

/-- Remove a segment whose records are all in the ledger. -/
def remove (st : Recovery) (segment : String) : Recovery :=
  { st with
    dir := st.dir.erase segment
    report := { st.report with removedSegments := st.report.removedSegments ++ [segment] } }

/-- Count the bytes of a segment that is still there. -/
def measure (st : Recovery) (segment : String) : Recovery :=
  match st.dir[segment]? with
  | none => st
  | some bytes => { st with totalLen := st.totalLen + bytes.length }

end Recovery

/-- Recover one segment. -/
def recoverSegment (checkpoint : Nat) (isLast : Bool) (st : Recovery) (segment : String) :
    Recovery :=
  match readSegment serde segment (st.dir.content segment) with
  | .error _ => (st.quarantine segment).measure segment
  | .ok s =>
      let st :=
        if s.torn && isLast then st.truncate segment s.goodEnd
        else if s.torn then st.quarantine segment
        else st
      let st := st.collect checkpoint s.records
      if s.records.all (fun r => r.walSeq ≤ checkpoint) && !s.torn then st.remove segment
      else st.measure segment

/-- Recover the listed segments, in order. -/
def recoverSegments (checkpoint : Nat) : List String → Recovery → Recovery
  | [], st => st
  | segment :: rest, st =>
      recoverSegments checkpoint rest (recoverSegment serde checkpoint rest.isEmpty st segment)

namespace WalWriter

/-- Open the log and run recovery. -/
def «open» (segmentMaxBytes diskMaxBytes : Nat) (d : Directory) :
    Directory × CliResult (WalWriter × WalRecoveryReport) :=
  match readCheckpoint serde d with
  | .error e => (d, .error e)
  | .ok checkpoint =>
      let segments := listSegments d
      let lastIndex := (segments.getLast?.map segmentIndex).getD 0
      let st := recoverSegments serde checkpoint segments ⟨d, ⟨[], [], 0, [], 0⟩, 0⟩
      let report := { st.report with pending := sortBySeq st.report.pending }
      let current := segmentPath (max lastIndex 1)
      (st.dir, .ok
        ({ segmentMaxBytes, diskMaxBytes, current
           currentLen := (st.dir.content current).length
           totalLen := st.totalLen
           -- above both the highest surviving record and the checkpoint
           nextWalSeq := max report.lastWalSeq checkpoint + 1 }, report))

/-! ## Appending -/

/-- Start the segment after the current one. -/
def rotate (w : WalWriter) : CliResult WalWriter :=
  let next := segmentIndex w.current + 1
  if next < 4294967296 then .ok { w with current := segmentPath next, currentLen := 0 }
  else .error .overflow

end WalWriter

/-- How the calls an append makes fare: a write that fails leaves that many bytes. -/
structure WriteOutcome where
  opened : Bool
  header : Option Nat
  frame : Option Nat
  synced : Bool
  deriving DecidableEq, Repr

/-- Every call succeeds. -/
def WriteOutcome.ok : WriteOutcome := ⟨true, none, none, true⟩

namespace WalWriter

/-- Write the frame of a record to the current segment, durably. -/
def appendFrame (w : WalWriter) (d : Directory) (io : WriteOutcome) (frame : Bytes) :
    WalWriter × Directory × CliResult Nat :=
  match io.frame with
  | some k => (w, Directory.appendBytes d w.current (frame.take k), .error (.io w.current "write failed"))
  | none =>
      let d := Directory.appendBytes d w.current frame
      if io.synced then
        ({ w with
            currentLen := w.currentLen + frame.length
            totalLen := w.totalLen + frame.length
            nextWalSeq := w.nextWalSeq + 1 }, d, .ok w.nextWalSeq)
      else (w, d, .error (.io w.current "fsync failed"))

/-- Write a record to the current segment, with its header when the segment is new. -/
def appendRecord (w : WalWriter) (d : Directory) (io : WriteOutcome) (frame : Bytes) :
    WalWriter × Directory × CliResult Nat :=
  if !io.opened then (w, d, .error (.io w.current "open failed"))
  else if w.current ∉ d ∨ w.currentLen = 0 then
    match io.header with
    | some k =>
        (w, Directory.appendBytes d w.current (segmentHeader.take k), .error (.io w.current "write failed"))
    | none =>
        appendFrame { w with currentLen := headerLen, totalLen := w.totalLen + headerLen }
          (Directory.appendBytes d w.current segmentHeader) io frame
  else appendFrame w d io frame

/-- Append one record durably and return its position. -/
def append (w : WalWriter) (d : Directory) (draft : LedgerEntryDraft) (io : WriteOutcome) :
    WalWriter × Directory × CliResult Nat :=
  let frame := serde.frames.frame ⟨w.nextWalSeq, draft⟩
  if w.diskMaxBytes < w.totalLen + frame.length then
    (w, d, .error (.ledgerBusy (s!"WAL disk budget exhausted ({w.totalLen} of {w.diskMaxBytes} " ++
      "bytes used); the event was refused, not dropped")))
  else if w.segmentMaxBytes ≤ w.currentLen then
    match w.rotate with
    | .error e => (w, d, .error e)
    | .ok w => w.appendRecord d io frame
  else w.appendRecord d io frame

/-- Persist the applied watermark. -/
def checkpoint (d : Directory) (appliedWalSeq : Nat) : Directory :=
  d.insert walCheckpointFile (serde.checkpointToVec appliedWalSeq)

/-- The records above the checkpoint in the listed segments. -/
def pendingIn (d : Directory) (checkpoint : Nat) : List String → CliResult (List WalRecord)
  | [] => .ok []
  | segment :: rest => do
      let s ← readSegment serde segment (d.content segment)
      let rs ← pendingIn d checkpoint rest
      .ok ((s.records.filter fun r => checkpoint < r.walSeq) ++ rs)

/-- Records above the current checkpoint, in order. -/
def pending (d : Directory) : CliResult (List WalRecord) := do
  let checkpoint ← readCheckpoint serde d
  let rs ← pendingIn serde d checkpoint (listSegments d)
  .ok (sortBySeq rs)

end WalWriter

end Agenomic.Ledger
