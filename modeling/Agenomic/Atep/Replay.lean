import Agenomic.Atep.Clock
import Agenomic.Atep.Consistent
import Agenomic.Prompt.Bundle

/-!
# Reading a store

A stream is read segment by segment, a store stream by stream in the order of their
labels. To replay a store, its events are sorted by their clocks, where events with one
clock keep the order in which they are read, and folded into a state: how many events of
each type there are, and the payload of the last of each.

**`readings_agree`**: nothing of this depends on how the events were stored. Two runs of
calls that append the same events to each stream in the same order, in whatever segments
and however the streams are interleaved, are read alike.
-/

namespace Agenomic.Atep

open Lib
open Agenomic.Prompt (Members Value)
open Agenomic.Prompt.PromptError (insertMember)

/-! ## Payloads -/

/-- The CBOR values of a library. A double that is finite has an exact value and the text it
is printed as. -/
inductive Cbor where
  | null
  | bool (b : Bool)
  | integer (n : Int)
  | float (finite : Option (ℚ × String))
  | bytes (b : Bytes)
  | text (s : String)
  | array (items : List Cbor)
  | map (entries : List (Cbor × Cbor))
  | tag (number : Nat) (value : Cbor)
  | other

/-- The name a key becomes; entries under other keys are passed over. -/
def cborKey : Cbor → Option String
  | .text s => some s
  | .integer n => some (toString n)
  | _ => none

mutual

/-- The JSON of a CBOR value; there is one for each. -/
def cborToJson : Cbor → Value
  | .null => .null
  | .bool b => .bool b
  | .integer n =>
      if -9223372036854775808 ≤ n ∧ n < 9223372036854775808 then .number (.int n)
      else .string (toString n)
  | .float (some (value, text)) => .number (.float value text)
  | .float none => .null
  | .bytes b => .string (String.ofList (hexEncode b))
  | .text s => .string s
  | .array items => .array (cborToJsonItems items)
  | .map entries => .object (cborToJsonEntries entries [])
  | .tag _ value => cborToJson value
  | .other => .null

def cborToJsonItems : List Cbor → List Value
  | [] => []
  | v :: rest => cborToJson v :: cborToJsonItems rest

/-- The entries one after the other; a name that comes again replaces its member. -/
def cborToJsonEntries : List (Cbor × Cbor) → Members → Members
  | [], done => done
  | (k, v) :: rest, done =>
      match cborKey k with
      | some key => cborToJsonEntries rest (insertMember key (cborToJson v) done)
      | none => cborToJsonEntries rest done

end

/-! ## Replay -/

structure AgentState where
  agentId : String
  /-- The last clock that is looked at, if there is one. -/
  upTo : Option Hlc
  eventCounts : Std.ExtTreeMap String Nat
  lastEventPerType : Std.ExtTreeMap String Value

variable {d : Deps} (view : d.Value → Cbor)

/-- The event comes after the threshold. -/
def isLate (upTo : Option Hlc) (ev : d.Event) : Bool :=
  match upTo with
  | some threshold => decide (threshold < ev.header.clock)
  | none => false

/-- Count an event, and keep its payload as the last one of its type. -/
def AgentState.observe (state : AgentState) (ev : d.Event) : AgentState :=
  if isLate state.upTo ev then state
  else
    let eventType := ev.header.eventType
    { state with
      eventCounts := state.eventCounts.insert eventType
        ((state.eventCounts[eventType]?).getD 0 + 1)
      lastEventPerType := state.lastEventPerType.insert eventType
        (cborToJson (view ev.payload)) }

namespace AtepStore

variable (d) in
/-- All events of a stream, in the order of its segments. -/
def readStream (s : AtepStore) (stream : StreamId) : CliResult (List d.Event) :=
  match s.manifest.streams[stream.label]? with
  | some records => s.readRecords d records
  | none => .ok []

variable (d) in
/-- The number and the causal hash of the last event of a stream. -/
def streamHead (s : AtepStore) (stream : StreamId) : CliResult (Option (UInt64 × Hash32)) := do
  let events ← s.readStream d stream
  .ok (events.getLast?.map fun e => (e.header.streamSeq, e.causalHash))

/-- The state after the events up to a clock. -/
def replayToState (s : AtepStore) (upTo : Option Hlc) : CliResult AgentState := do
  let events ← s.readAllEvents d
  let sorted := events.insertionSort fun a b => a.header.clock ≤ b.header.clock
  let start : AgentState :=
    { agentId := s.manifest.agentId, upTo, eventCounts := ∅, lastEventPerType := ∅ }
  .ok (sorted.foldl (AgentState.observe view) start)

end AtepStore

/-! ## What is stored -/

/-- The events that a call is to append to a stream. -/
def Call.storedIn (stream : StreamId) : Call d → List d.Event
  | .appendEvent event _ => if event.header.stream = stream then [event] else []
  | .appendBatch st events _ => if st = stream then events else []
  | .reopen _ _ => []

/-- The events that some calls append to a stream, in order. -/
def streamEvents (stream : StreamId) (calls : List (Call d)) : List d.Event :=
  calls.flatMap (Call.storedIn stream)

namespace Opened

/-- The store after a call. -/
def after (s : Opened) (call : Call d) : Opened := (s.call call).2

/-- The call succeeds. -/
def Succeeds (s : Opened) (call : Call d) : Prop := (s.call call).1 = .ok ()

/-- A call that writes a segment and succeeds has saved the manifest. -/
theorem saved_of_addSegment {s : Opened} {label : String}
    {segment : CliResult (Bytes × SegmentSummary)} {count : Nat} {around : Surroundings}
    (h : (s.addSegment label segment count around).1 = .ok ()) (e : CliError) :
    around.fault ≠ .persist e := by
  intro hfault
  unfold addSegment createSegment recordSegment persistManifest at h
  rw [hfault] at h
  cases hpath : s.store.nextSegmentPath label with
  | error e =>
      rw [hpath] at h
      cases h
  | ok place =>
      rw [hpath] at h
      dsimp only at h
      cases segment with
      | error e => cases h
      | ok out =>
          dsimp only at h
          split at h
          · cases h
          · cases h

end Opened

namespace Stored

variable {s : Opened} {c : Contents d}

/-- **A segment that is stored** is added to its stream. -/
theorem addSegment_ok (h : Stored d s c) {st : StreamId} (es : List d.Event)
    {around : Surroundings} {segment : CliResult (Bytes × SegmentSummary)}
    (hsegment : ∀ out, segment = .ok out →
      out = (segmentBytes d es, segmentSummary d es) ∧ Storable d es)
    (hok : (s.addSegment st.label segment es.length around).1 = .ok ()) :
    Stored d (s.addSegment st.label segment es.length around).2 (c.add st es)
      ∧ (s.addSegment st.label segment es.length around).2.store.manifest.agentId
        = s.store.manifest.agentId := by
  obtain ⟨r, s', hcall, hagent, ⟨-, -, hstored⟩ | ⟨⟨e, hr⟩, -⟩⟩ :=
    h.addSegment es (Opened.saved_of_addSegment hok) fun _ => hsegment
  · rw [hcall]
    exact ⟨hstored, hagent⟩
  · rw [hcall, hr] at hok
    cases hok

/-- **A call that succeeds** stores its events behind those of their stream. -/
theorem call (h : Stored d s c) {call : Call d} (hok : s.Succeeds call) :
    ∃ c', Stored d (s.after call) c'
      ∧ (∀ st, (c' st).flatten = (c st).flatten ++ call.storedIn st)
      ∧ (s.after call).store.manifest.agentId = s.store.manifest.agentId := by
  have hadd : ∀ (stream : StreamId) (es : List d.Event) (st : StreamId),
      (c.add stream es st).flatten = (c st).flatten ++ if stream = st then es else [] := by
    intro stream es st
    unfold Contents.add
    by_cases hst : stream = st
    · rw [hst, Function.update_self, if_pos rfl, List.flatten_append, List.flatten_singleton]
    · rw [Function.update_of_ne (Ne.symm hst), if_neg hst, List.append_nil]
  unfold Opened.Succeeds at hok
  unfold Opened.after
  cases call with
  | appendEvent event around =>
      by_cases hagent : event.header.agentId ≠ s.store.manifest.agentId
      · have hcall : (s.call (.appendEvent event around)).1 = _ :=
          congrArg Prod.fst (if_pos hagent)
        rw [hcall] at hok
        cases hok
      · have hcall : s.call (.appendEvent event around) = s.addSegment event.header.stream.label
            (writeSegment d [event]) 1 around := by
          rw [← writeSegment_singleton]
          exact if_neg hagent
        rw [hcall] at hok ⊢
        obtain ⟨hstored, hsame⟩ :=
          h.addSegment_ok [event] (fun out hout => writeSegment_storable hout) hok
        exact ⟨_, hstored, hadd event.header.stream [event], hsame⟩
  | appendBatch stream events around =>
      by_cases hnone : events = []
      · have hcall : s.call (.appendBatch stream events around) = (.ok (), s) := if_pos hnone
        rw [hcall]
        refine ⟨c, h, fun st => ?_, rfl⟩
        change (c st).flatten = (c st).flatten ++ if stream = st then events else []
        rw [hnone, ite_self, List.append_nil]
      · have hcall : s.call (.appendBatch stream events around) = s.addSegment stream.label (do
            let w ← Opened.appendBatchFrames d stream SegmentWriter.new events
            w.finalize d) events.length around := if_neg hnone
        rw [hcall] at hok ⊢
        obtain ⟨hstored, hsame⟩ := h.addSegment_ok events
          (fun out hout => writeSegment_storable (appendBatch_segment hout).2) hok
        exact ⟨_, hstored, hadd stream events, hsame⟩
  | reopen agentId fault =>
      have hreload : (s.call (.reopen (d := d) agentId fault)).2
          = { s with store := { s.store with manifest := s.saved } } := by
        cases fault with
        | some e => cases hok
        | none =>
            change (if s.saved.agentId ≠ agentId then _ else _ : CliResult Unit × Opened).2 = _
            by_cases hagent : s.saved.agentId ≠ agentId
            · change (if s.saved.agentId ≠ agentId then _ else _ : CliResult Unit × Opened).1
                = _ at hok
              rw [if_pos hagent] at hok
              cases hok
            · rw [if_neg hagent]
      rw [hreload]
      refine ⟨c, h.reload, fun st => ?_, congrArg AtepManifest.agentId h.saved⟩
      unfold Call.storedIn
      rw [List.append_nil]

/-- **Runs**: a store has, for every stream, the events that were appended to it. -/
theorem run {calls : List (Call d)} {s : Opened} {c : Contents d} (h : Stored d s c)
    (hok : Along Opened.after Opened.Succeeds s calls) :
    ∃ c', Stored d (Lib.run Opened.after s calls) c'
      ∧ (∀ st, (c' st).flatten = (c st).flatten ++ streamEvents st calls)
      ∧ (Lib.run Opened.after s calls).store.manifest.agentId = s.store.manifest.agentId := by
  induction calls generalizing s c with
  | nil =>
      refine ⟨c, h, fun st => ?_, rfl⟩
      unfold streamEvents
      rw [List.flatMap_nil, List.append_nil]
  | cons call calls ih =>
      obtain ⟨c₁, h₁, hevents₁, hagent₁⟩ := h.call hok.1
      obtain ⟨c₂, h₂, hevents₂, hagent₂⟩ := ih h₁ hok.2
      refine ⟨c₂, h₂, fun st => ?_, hagent₂.trans hagent₁⟩
      unfold streamEvents at hevents₂ ⊢
      rw [hevents₂ st, hevents₁ st, List.flatMap_cons, List.append_assoc]

/-! ## What is read -/

/-- A stream is read back as its events. -/
theorem readStream_eq (h : Stored d s c) (st : StreamId) :
    s.store.readStream d st = (c st).flatten.mapM (reread d) := by
  unfold AtepStore.readStream
  rw [h.streams st]
  by_cases hnone : c st = []
  · rw [if_pos hnone, hnone]
    rfl
  · rw [if_neg hnone]
    exact h.readRecords_eq st

end Stored

/-- What two stores can be asked for: the streams, their heads, and the state at each clock. -/
structure ReadAlike (s s' : AtepStore) : Prop where
  readStream : ∀ st, s.readStream d st = s'.readStream d st
  streamHead : ∀ st, s.streamHead d st = s'.streamHead d st
  replayToState : ∀ upTo, s.replayToState view upTo = s'.replayToState view upTo

/-- Stores of one agent that have the same events in each stream are read alike. -/
theorem Stored.readAlike {s s' : Opened} {c c' : Contents d} (h : Stored d s c)
    (h' : Stored d s' c') (hsame : ∀ st, (c st).flatten = (c' st).flatten)
    (hagent : s.store.manifest.agentId = s'.store.manifest.agentId) :
    ReadAlike view s.store s'.store := by
  have hstream : ∀ st, s.store.readStream d st = s'.store.readStream d st := by
    intro st
    rw [h.readStream_eq, h'.readStream_eq, hsame]
  have hall : s.store.readAllEvents d = s'.store.readAllEvents d := by
    rw [h.readAllEvents_eq, h'.readAllEvents_eq]
    unfold Contents.events
    simp only [hsame]
  refine ⟨hstream, fun st => ?_, fun upTo => ?_⟩
  · unfold AtepStore.streamHead
    rw [hstream]
  · unfold AtepStore.replayToState
    rw [hall, hagent]

/-- **Batching does not matter.** Two fresh stores of an agent to which successful calls append
the same events in each stream are read alike. -/
theorem readings_agree {root root' agentId : String} {files files' : Files}
    {calls calls' : List (Call d)}
    (hok : Along Opened.after Opened.Succeeds (Opened.init root agentId files) calls)
    (hok' : Along Opened.after Opened.Succeeds (Opened.init root' agentId files') calls')
    (hsame : ∀ st, streamEvents st calls = streamEvents st calls') :
    ReadAlike view (run Opened.after (Opened.init root agentId files) calls).store
      (run Opened.after (Opened.init root' agentId files') calls').store := by
  obtain ⟨c, h, hevents, hagent⟩ := (Stored.init root agentId files).run hok
  obtain ⟨c', h', hevents', hagent'⟩ := (Stored.init root' agentId files').run hok'
  refine h.readAlike view h' (fun st => ?_) (hagent.trans hagent'.symm)
  rw [hevents, hevents', hsame]

/-- The events of two streams: those whose payload is a number above 2 are of the runtime. -/
def twoStreamsEvent (payload : UInt8) : AtepEvent UInt8 :=
  let event := AtepStore.exerciseEvent payload
  if payload ≤ 2 then event else { event with header := { event.header with stream := .runtime } }

/-- Libraries for these events. -/
def twoStreams : Deps :=
  { AtepStore.exerciseDeps with
    decodeEvent := fun
      | [v] => .ok (twoStreamsEvent v)
      | _ => .error "trailing bytes" }

/-- Two events in one segment, then one of the other stream. -/
def batchedCalls : List (Call twoStreams) :=
  [.appendBatch .capability [twoStreamsEvent 1, twoStreamsEvent 2] Session.calm,
    .appendEvent (twoStreamsEvent 3) Session.calm]

/-- The same events, each in a segment of its own. -/
def singleCalls : List (Call twoStreams) :=
  [.appendEvent (twoStreamsEvent 1) Session.calm,
    .appendEvent (twoStreamsEvent 3) Session.calm,
    .appendEvent (twoStreamsEvent 2) Session.calm]

/-- Their payloads are numbers. -/
def numberView (v : twoStreams.Value) : Cbor := .integer (UInt8.toNat v)

set_option maxRecDepth 4000 in
theorem readings_agree_batched :
    ReadAlike numberView
      (run Opened.after (Opened.init ".atep" "agent://acme/foo" fun _ => .error "")
        batchedCalls).store
      (run Opened.after (Opened.init ".atep" "agent://acme/foo" fun _ => .error "")
        singleCalls).store :=
  readings_agree numberView ⟨rfl, rfl, trivial⟩ ⟨rfl, rfl, rfl, trivial⟩ fun st => by
    cases st <;> rfl

end Agenomic.Atep
