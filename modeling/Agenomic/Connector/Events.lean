import Agenomic.Lib.JsonObject

/-!
# Events and their lines

An event is a JSON object; in the spool file it stands on a line of its own. The file is
read as bytes: each line with the offset just past it, so that what was sent can be cut
off in front of what was appended meanwhile. A line that is not JSON is read as one
without an event.

**`readLines_lines`**: the lines of events read back as the events, at their offsets.
-/

namespace Agenomic.Connector

open Lib
open Lib.Json (Fields optField ofOptStr)

inductive EventType where
  | sessionStarted | sessionEnded | turnStarted | turnCompleted | turnInterrupted
  | messageUser | messageAssistant | questionAsked | questionAnswered
  | toolRequested | toolStarted | toolCompleted | toolFailed
  | approvalRequested | approvalResolved | subagentStarted | subagentStopped
  | fileChanged | diffSnapshot | testResult | configChanged | permissionChanged
  | protectionState | usage | error
  deriving DecidableEq, Repr

def EventType.text : EventType → String
  | .sessionStarted => "session.started"
  | .sessionEnded => "session.ended"
  | .turnStarted => "turn.started"
  | .turnCompleted => "turn.completed"
  | .turnInterrupted => "turn.interrupted"
  | .messageUser => "message.user"
  | .messageAssistant => "message.assistant"
  | .questionAsked => "question.asked"
  | .questionAnswered => "question.answered"
  | .toolRequested => "tool.requested"
  | .toolStarted => "tool.started"
  | .toolCompleted => "tool.completed"
  | .toolFailed => "tool.failed"
  | .approvalRequested => "approval.requested"
  | .approvalResolved => "approval.resolved"
  | .subagentStarted => "subagent.started"
  | .subagentStopped => "subagent.stopped"
  | .fileChanged => "file.changed"
  | .diffSnapshot => "diff.snapshot"
  | .testResult => "test.result"
  | .configChanged => "config.changed"
  | .permissionChanged => "permission.changed"
  | .protectionState => "protection.state"
  | .usage => "usage"
  | .error => "error"

/-- Evidence events are never dropped: they spill to disk instead. -/
def EventType.mandatory : EventType → Bool
  | .toolRequested | .toolStarted | .toolCompleted | .toolFailed | .approvalRequested
  | .approvalResolved | .sessionStarted | .sessionEnded | .turnInterrupted | .configChanged
  | .permissionChanged | .protectionState | .error => true
  | _ => false

inductive Source where
  | runtime | adapter | gateway | supervisor | filesystem
  deriving DecidableEq, Repr

def Source.text : Source → String
  | .runtime => "runtime"
  | .adapter => "adapter"
  | .gateway => "gateway"
  | .supervisor => "supervisor"
  | .filesystem => "filesystem"

inductive Trust where
  | native | derived | observed
  deriving DecidableEq, Repr

def Trust.text : Trust → String
  | .native => "native"
  | .derived => "derived"
  | .observed => "observed"

/-- The correlation ids an event may have. -/
structure Extra where
  runtimeTurnId : Option String := none
  actionId : Option String := none
  attemptId : Option String := none
  traceId : Option String := none
  parentSpanId : Option String := none
  deriving DecidableEq, Repr

def Extra.toFields (x : Extra) : Fields :=
  optField "runtime_turn_id" (ofOptStr x.runtimeTurnId)
    ++ optField "action_id" (ofOptStr x.actionId)
    ++ optField "attempt_id" (ofOptStr x.attemptId)
    ++ optField "trace_id" (ofOptStr x.traceId)
    ++ optField "parent_span_id" (ofOptStr x.parentSpanId)

/-- What an event says: what its caller gave, redacted, or how many events the sink dropped. -/
inductive Payload where
  | given (fields : Fields)
  | eventsDropped (count : Nat)

structure CodingEvent where
  eventId : String
  codingSessionId : String
  type : EventType
  source : Source
  trust : Trust
  producerEpoch : String
  producerSeq : Nat
  occurredAt : String
  extra : Extra
  payload : Payload

namespace CodingEvent

variable (e : CodingEvent)

def mandatory : Bool := e.type.mandatory

/-- How many dropped events it reports. -/
def count : Nat :=
  match e.payload with
  | .given _ => 0
  | .eventsDropped count => count

/-- It is a report of dropped events. -/
def reports : Bool :=
  match e.payload with
  | .given _ => false
  | .eventsDropped _ => true

/-- The object of an event, with its fields in the order in which they are written. -/
def toFields : Fields :=
  match e.payload with
  | .given fields =>
      [("event_id", .str e.eventId), ("schema_version", .str "agenomic.coding.event/v1"),
        ("type", .str e.type.text), ("source", .str e.source.text), ("trust", .str e.trust.text),
        ("producer_epoch", .str e.producerEpoch), ("producer_seq", .num e.producerSeq),
        ("occurred_at", .str e.occurredAt)]
        ++ e.extra.toFields
        ++ [("coding_session_id", .str e.codingSessionId), ("payload", .obj fields)]
  | .eventsDropped count =>
      [("event_id", .str e.eventId), ("coding_session_id", .str e.codingSessionId),
        ("schema_version", .str "agenomic.coding.event/v1"), ("type", .str e.type.text),
        ("source", .str e.source.text), ("trust", .str e.trust.text),
        ("producer_epoch", .str e.producerEpoch), ("producer_seq", .num e.producerSeq),
        ("occurred_at", .str e.occurredAt),
        ("payload", .obj [("code", .str "events_dropped"), ("count", .num count)])]

def toJson : Json := .obj e.toFields

/-- The line of an event in the spool. -/
def line : Bytes := utf8Encode e.toJson.write ++ [10]

end CodingEvent

/-! ## Reading the spool -/

/-- A line that was read: the offset just past it, and its event, if it is readable. -/
structure Line where
  stop : Nat
  event : Option Json

/-- What stands between line feeds, each with the offset just past it. -/
def scan (pos : Nat) (text : Bytes) : Bytes → List (Nat × Bytes)
  | [] => if text = [] then [] else [(pos, text)]
  | b :: rest =>
      if b = 10 then (pos + 1, text) :: scan (pos + 1) [] rest
      else scan (pos + 1) (text ++ [b]) rest

/-- What a text is trimmed of. -/
def isTrimmed (c : Char) : Bool := (isWhiteSpace c && c.toNat != 133) || c.toNat == 65279

/-- Set a field of an object, in its place when it is there. -/
def setField (k : String) (v : Json) (fs : Fields) : Fields :=
  if (Json.lookup k fs).isSome then fs.map fun f => if f.1 = k then (k, v) else f
  else fs ++ [(k, v)]

/-- An event of this session; nothing is taken over of what is not an object. -/
def withSession (sessionId : String) : Json → Json
  | .obj fields => .obj (setField "coding_session_id" (.str sessionId) fields)
  | _ => .obj [("coding_session_id", .str sessionId)]

def readLine (sessionId : String) (piece : Nat × Bytes) : Option Line :=
  let text := utf8DecodeLossy piece.2
  if text.all isTrimmed then none
  else some ⟨piece.1, (Json.parse text).map (withSession sessionId)⟩

/-- The lines of a spool that are not blank. -/
def readLines (sessionId : String) (data : Bytes) : List Line :=
  (scan 0 [] data).filterMap (readLine sessionId)

/-! ## The lines of events -/

/-- The lines of these events from an offset on. -/
def linesAt (start : Nat) : List CodingEvent → List Line
  | [] => []
  | e :: es => ⟨start + e.line.length, some e.toJson⟩ :: linesAt (start + e.line.length) es

/-- What the events take in the spool. -/
def spoolOf (es : List CodingEvent) : Bytes := es.flatMap CodingEvent.line

@[simp] theorem spoolOf_nil : spoolOf [] = [] := rfl

@[simp] theorem spoolOf_cons (e : CodingEvent) (es : List CodingEvent) :
    spoolOf (e :: es) = e.line ++ spoolOf es := rfl

@[simp] theorem spoolOf_append (es fs : List CodingEvent) :
    spoolOf (es ++ fs) = spoolOf es ++ spoolOf fs := List.flatMap_append

theorem CodingEvent.line_ne_nil (e : CodingEvent) : e.line ≠ [] :=
  List.append_ne_nil_of_right_ne_nil _ (List.cons_ne_nil 10 [])

theorem spoolOf_eq_nil_iff {es : List CodingEvent} : spoolOf es = [] ↔ es = [] := by
  cases es with
  | nil => exact ⟨fun _ => rfl, fun _ => rfl⟩
  | cons e es =>
      refine ⟨fun h => ?_, fun h => nomatch h⟩
      exact absurd (List.append_eq_nil_iff.mp h).1 e.line_ne_nil

theorem lineFeed_notMem_text (e : CodingEvent) : 10 ∉ utf8Encode e.toJson.write := by
  intro hmem
  obtain ⟨c, hc, hbyte⟩ := List.mem_flatMap.mp hmem
  have hten : c.toNat = 10 := mem_utf8EncodeChar_ascii (by decide) hbyte
  have hprintable := Json.write_printable e.toJson hc
  omega

theorem scan_line {body : Bytes} (h : 10 ∉ body) (pos : Nat) (text rest : Bytes) :
    scan pos text (body ++ 10 :: rest)
      = (pos + body.length + 1, text ++ body) :: scan (pos + body.length + 1) [] rest := by
  induction body generalizing pos text with
  | nil =>
      rw [List.nil_append, scan, if_pos rfl, List.append_nil]
      rfl
  | cons b body ih =>
      obtain ⟨hb, hbody⟩ := not_or.mp (fun hor => h (List.mem_cons.mpr hor))
      rw [List.cons_append, scan, if_neg (Ne.symm hb), ih hbody, List.length_cons, List.append_assoc,
        List.singleton_append]
      have hpos : pos + 1 + body.length + 1 = pos + (body.length + 1) + 1 := by omega
      rw [hpos]

/-- A field that has its value already is not changed. -/
theorem setField_eq {k : String} {v : Json} {fs : Fields} (hmem : (Json.lookup k fs).isSome)
    (h : ∀ f ∈ fs, f.1 = k → f.2 = v) : setField k v fs = fs := by
  unfold setField
  rw [if_pos hmem]
  refine (List.map_congr_left fun f hf => ?_).trans (List.map_id fs)
  by_cases hk : f.1 = k
  · rw [if_pos hk, ← hk, ← h f hf hk]
    rfl
  · rw [if_neg hk]
    rfl

theorem Extra.key_ne (x : Extra) : ∀ f ∈ x.toFields, f.1 ≠ "coding_session_id" := by
  intro f hf
  have hkeys : f.1 ∈ Json.keys x.toFields := List.mem_map_of_mem hf
  have hsub : Json.keys x.toFields
      ⊆ ["runtime_turn_id", "action_id", "attempt_id", "trace_id", "parent_span_id"] := by
    unfold Extra.toFields
    intro k hk
    simp only [Json.keys_append, List.mem_append] at hk
    rcases hk with (((hk | hk) | hk) | hk) | hk
    all_goals
      have hone := (Json.keys_optField_sublist _ _).subset hk
      rw [List.mem_singleton.mp hone]
      decide
  intro heq
  have hmem := hsub hkeys
  rw [heq] at hmem
  exact absurd hmem (by decide)

/-- An event has its session already. -/
theorem withSession_toJson (e : CodingEvent) : withSession e.codingSessionId e.toJson = e.toJson := by
  unfold withSession CodingEvent.toJson
  refine congrArg Json.obj (setField_eq ?_ ?_)
  · unfold CodingEvent.toFields
    cases e.payload with
    | given fields =>
        dsimp only
        rw [Json.lookup_append]
        simp
    | eventsDropped count => rfl
  · unfold CodingEvent.toFields
    cases e.payload with
    | given fields =>
        intro f hf hk
        rcases List.mem_append.mp hf with hf | hf
        · rcases List.mem_append.mp hf with hf | hf
          · simp only [List.mem_cons, List.not_mem_nil, or_false] at hf
            rcases hf with rfl | rfl | rfl | rfl | rfl | rfl | rfl | rfl <;> simp at hk
          · exact absurd hk (e.extra.key_ne f hf)
        · simp only [List.mem_cons, List.not_mem_nil, or_false] at hf
          rcases hf with rfl | rfl
          · rfl
          · simp at hk
    | eventsDropped count =>
        intro f hf hk
        simp only [List.mem_cons, List.not_mem_nil, or_false] at hf
        rcases hf with rfl | rfl | rfl | rfl | rfl | rfl | rfl | rfl | rfl | rfl
        · simp at hk
        · rfl
        all_goals simp at hk

/-- The line of an event reads back. -/
theorem readLine_line (e : CodingEvent) (stop : Nat) :
    readLine e.codingSessionId (stop, utf8Encode e.toJson.write) = some ⟨stop, some e.toJson⟩ := by
  unfold readLine
  dsimp only
  rw [utf8DecodeLossy_utf8Encode, Json.parse_write, Option.map_some, withSession_toJson]
  have htext : e.toJson.write.all isTrimmed = false := rfl
  rw [htext]
  rfl

/-- **The lines of events read back as the events, at their offsets.** -/
theorem readLines_lines {sessionId : String} {es : List CodingEvent}
    (h : ∀ e ∈ es, e.codingSessionId = sessionId) :
    readLines sessionId (spoolOf es) = linesAt 0 es := by
  suffices hscan : ∀ pos, (scan pos [] (spoolOf es)).filterMap (readLine sessionId) = linesAt pos es
    from hscan 0
  induction es with
  | nil => exact fun _ => rfl
  | cons e es ih =>
      intro pos
      have hlen : e.line.length = (utf8Encode e.toJson.write).length + 1 := by
        unfold CodingEvent.line
        rw [List.length_append]
        rfl
      have hrest := ih (fun f hf => h f (List.mem_cons_of_mem e hf)) (pos + e.line.length)
      rw [spoolOf_cons, CodingEvent.line, List.append_assoc, List.singleton_append,
        scan_line (lineFeed_notMem_text e), List.nil_append, Nat.add_assoc, ← hlen,
        ← h e List.mem_cons_self, List.filterMap_cons_some (readLine_line e _),
        h e List.mem_cons_self, hrest]
      rfl

end Agenomic.Connector
