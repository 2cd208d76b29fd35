import Agenomic.Atep.RoundTrip
import Agenomic.Lib.Keyed
import Agenomic.Lib.Run

/-!
# Appending to a store

A call that appends writes the file of a new segment, records it in the manifest it holds
in memory, and saves the manifest. A `Session` is an open store, what its directory has
saved, and, beside them, the events of the calls that succeeded.

Both ways to append end in **`addSegment`**, but only one asks for the agent of the event,
and a manifest that could not be saved keeps the record of the segment.
-/

namespace Agenomic.Atep

open Lib

variable (d : Deps)

/-! ## The calls -/

/-- The name of a segment's file. -/
def segmentFile (label : String) (seq : Nat) : String :=
  String.ofList (label.toList ++ '-' :: (padded 8 seq ++ ".atep".toList))

/-- What goes wrong outside of a call. -/
inductive Fault where
  | none
  /-- The file of the segment is not created. -/
  | openSegment (source : String)
  /-- A write to the file of the segment fails. -/
  | writeSegment (message : String)
  /-- The manifest is not replaced. -/
  | persist (e : CliError)

/-- What a call meets: a fault, and what the file of a segment is once a call stops while it
writes it. -/
structure Surroundings where
  fault : Fault
  left : Except String Bytes

/-- An open store and the manifest its directory has saved. -/
structure Opened where
  store : AtepStore
  saved : AtepManifest

namespace AtepStore

/-- The path of a stream's next segment, and its file name. -/
def nextSegmentPath (s : AtepStore) (label : String) : CliResult (String × String) := do
  let nextSeq ← match s.manifest.streams[label]? with
    | some v => addU32 (v.length % 4294967296) 1
    | none => .ok 1
  let name := segmentFile label nextSeq
  .ok (joinPath (joinPath s.root "streams") name, name)

end AtepStore

/-- Write the file of a segment, unless something goes wrong on the way. -/
def createSegment (files : Files) (path : String) (around : Surroundings)
    (segment : CliResult (Bytes × SegmentSummary)) : CliResult SegmentSummary × Files :=
  match around.fault with
  | .openSegment source => (.error (.io path source), files)
  | .writeSegment message => (.error (.internal message), Function.update files path around.left)
  | _ =>
      match segment with
      | .error e => (.error e, Function.update files path around.left)
      | .ok (file, summary) => (.ok summary, Function.update files path (.ok file))

/-- The manifest with one more record in a stream. -/
def AtepManifest.push (m : AtepManifest) (label : String) (rec : SegmentRecord) : AtepManifest :=
  { m with streams := m.streams.insert label ((m.streams[label]?).getD [] ++ [rec]) }

namespace Opened

/-- Save the manifest; where that fails the saved one stays. -/
def persistManifest (s : Opened) (fault : Fault) : CliResult Unit × Opened :=
  match fault with
  | .persist e => (.error e, s)
  | _ => (.ok (), { s with saved := s.store.manifest })

/-- Record a segment that was written, count its events, and save the manifest. -/
def recordSegment (s : Opened) (label file : String) (summary : SegmentSummary) (count : Nat)
    (fault : Fault) : CliResult Unit × Opened :=
  let pushed := s.store.manifest.push label
    ⟨file, summary.eventCount, String.ofList (hexEncode summary.merkleRoot.toList)⟩
  match addU64 pushed.totalEvents count with
  -- the overflow ends the process: what is left is what was saved
  | .error e => (.error e, { s with store := { s.store with manifest := s.saved } })
  | .ok totalEvents =>
      persistManifest { s with store := { s.store with manifest := { pushed with totalEvents } } }
        fault

/-- Write a segment of a stream and record it. -/
def addSegment (s : Opened) (label : String) (segment : CliResult (Bytes × SegmentSummary))
    (count : Nat) (around : Surroundings) : CliResult Unit × Opened :=
  match s.store.nextSegmentPath label with
  | .error e => (.error e, s)
  | .ok (path, file) =>
      match createSegment s.store.files path around segment with
      | (.error e, files) => (.error e, { s with store := { s.store with files } })
      | (.ok summary, files) =>
          recordSegment { s with store := { s.store with files } } label file summary count
            around.fault

/-- Append one event, to the stream it names. -/
def appendEvent (s : Opened) (event : d.Event) (around : Surroundings) : CliResult Unit × Opened :=
  if event.header.agentId ≠ s.store.manifest.agentId then
    (.error (.internal (s!"event agent_id {event.header.agentId} " ++
      s!"does not match store agent_id {s.store.manifest.agentId}")), s)
  else
    let segment := do
      let w ← SegmentWriter.new.append d event
      w.finalize d
    s.addSegment event.header.stream.label segment 1 around

/-- Write the frames of a batch, as long as the events are of its stream. -/
def appendBatchFrames (stream : StreamId) : SegmentWriter → List d.Event → CliResult SegmentWriter
  | w, [] => .ok w
  | w, ev :: rest => do
      if ev.header.stream ≠ stream then
        .error (.internal "event stream mismatch in batch")
      let w ← w.append d ev
      appendBatchFrames stream w rest

/-- Append several events of a stream as one segment. -/
def appendBatch (s : Opened) (stream : StreamId) (events : List d.Event)
    (around : Surroundings) : CliResult Unit × Opened :=
  if events = [] then (.ok (), s)
  else
    let segment := do
      let w ← appendBatchFrames d stream SegmentWriter.new events
      w.finalize d
    s.addSegment stream.label segment events.length around

/-- A store in a directory that has no manifest yet. -/
def init (root agentId : String) (files : Files) : Opened :=
  let m : AtepManifest := ⟨"atep.manifest/v0.1", agentId, ∅, 0⟩
  ⟨⟨root, m, files⟩, m⟩

/-- Open the directory again. -/
def reopen (s : Opened) (agentId : String) (fault : Option CliError) : CliResult Unit × Opened :=
  match fault with
  | some e => (.error e, s)
  | none =>
      if s.saved.agentId ≠ agentId then
        (.error (.internal (s!"agent_id mismatch: store has {s.saved.agentId} " ++
          s!"but {agentId} was requested")), s)
      else (.ok (), { s with store := { s.store with manifest := s.saved } })

end Opened

/-! ## Runs -/

/-- A call on a store. -/
inductive Call where
  | appendEvent (event : d.Event) (around : Surroundings)
  | appendBatch (stream : StreamId) (events : List d.Event) (around : Surroundings)
  | reopen (agentId : String) (fault : Option CliError)

variable {d}

/-- The events a call is to append. -/
def Call.events : Call d → List d.Event
  | .appendEvent event _ => [event]
  | .appendBatch _ events _ => events
  | .reopen _ _ => []

/-- What a call returns and leaves. -/
def Opened.call (s : Opened) : Call d → CliResult Unit × Opened
  | .appendEvent event around => s.appendEvent d event around
  | .appendBatch stream events around => s.appendBatch d stream events around
  | .reopen agentId fault => s.reopen agentId fault

variable (d)

/-- An open store, and the events of the calls on it that succeeded. -/
structure Session where
  opened : Opened
  accepted : List d.Event

namespace Session

variable {d}

/-- A fresh store. -/
def init (root agentId : String) (files : Files) : Session d := ⟨Opened.init root agentId files, []⟩

/-- The next call. -/
def step (s : Session d) (c : Call d) : Session d :=
  match s.opened.call c with
  | (.ok (), opened) => ⟨opened, s.accepted ++ c.events⟩
  | (.error _, opened) => ⟨opened, s.accepted⟩

/-- What can be read are the events of the calls that succeeded; they are of the store's agent,
and as many as the manifest and its records count. -/
def Consistent (s : Session d) : Prop :=
  ∃ events, s.opened.store.readAllEvents d = .ok events ∧ events.Perm s.accepted
    ∧ (∀ e ∈ events, e.header.agentId = s.opened.store.manifest.agentId)
    ∧ s.opened.store.manifest.totalEvents = events.length
    ∧ s.opened.store.manifest.totalEvents = (s.opened.store.records.map (·.events)).sum

end Session

end Agenomic.Atep
