import Agenomic.Prompt.Value

/-!
# Tracked events and alerts

An event of an agent in production carries a hash over its other fields and over the hash
of the event before it. Detectors observe the events; what they find is an alert, to which
an id and a time are given when it is raised.
-/

namespace Agenomic.Track

open Lib Prompt

inductive TrackingEventType where
  | agentStarted
  | agentStepStarted
  | agentStepCompleted
  | modelCallStarted
  | modelCallCompleted
  | toolCallStarted
  | toolCallCompleted
  | memoryRead
  | memoryWrite
  | policyEvaluated
  | intentDetected
  | loopDetected
  | driftDetected
  | harnessViolation
  | alertCreated
  | agentCompleted
  | agentFailed
  deriving DecidableEq, Repr

/-- A double, by its bits. -/
abbrev Double := UInt64

structure ToolMeta where
  name : String
  protocol : Option String
  server : Option String
  permissions : List String
  deriving DecidableEq

structure ModelMeta where
  provider : String
  model : String
  fingerprint : Option String
  temperature : Option Double
  deriving DecidableEq

structure PolicyResult where
  policyId : Option String
  outcome : String
  denies : List String
  deriving DecidableEq

structure EventSignature where
  signerKeyId : String
  algo : String
  value : String
  deriving DecidableEq

/-- A point in time, in nanoseconds. -/
abbrev Timestamp := Int

structure TrackingEvent where
  eventId : String
  sessionId : String
  timestamp : Timestamp
  sequenceNumber : UInt64
  eventType : TrackingEventType
  parentEventId : Option String
  agentId : String
  genomeHash : Option String
  workflowStepId : Option String
  tool : Option ToolMeta
  model : Option ModelMeta
  inputHash : Option String
  outputHash : Option String
  redactedPreview : Option Value
  policyResult : Option PolicyResult
  intent : Option String
  prevEventHash : Option String
  eventHash : Option String
  signature : Option EventSignature
  metadata : Option Value
  deriving DecidableEq

/-- What is taken from other libraries: hashing, the JSON of an event, and doubles. -/
structure Deps where
  blake3 : Bytes → Bytes
  encodeEvent : TrackingEvent → Bytes
  /-- The difference of two doubles is greater than a third. -/
  deltaExceeds : Double → Double → Double → Bool
  printDouble : Double → String
  doubleValue : Double → Value
  /-- A list of texts, as the debug format prints it. -/
  debugTexts : List String → String

variable (d : Deps)

/-! ## Hashes -/

def eventDomain : Bytes := utf8Encode "AGENOMIC-TRACK-EVENT-v1".toList ++ [0]

/-- What stands for the hash before the first event. -/
def zeroHash : String := "blake3:" ++ String.ofList (List.replicate 64 '0')

namespace TrackingEvent

/-- The hash of an event leaves out its own hash and its signature. -/
def computeHash (ev : TrackingEvent) : String :=
  let bare := { ev with eventHash := none, signature := none }
  let prev := ev.prevEventHash.getD ""
  "blake3:" ++ String.ofList
    (hexEncode (d.blake3 (eventDomain ++ d.encodeEvent bare ++ utf8Encode prev.toList)))

/-- Link an event to the hash before it. -/
def linkAfter (prev : Option String) (ev : TrackingEvent) : TrackingEvent :=
  let linked := { ev with prevEventHash := some (prev.getD zeroHash) }
  { linked with eventHash := some (linked.computeHash d) }

def hashIsValid (ev : TrackingEvent) : Bool :=
  match ev.eventHash with
  | some h => decide (h = ev.computeHash d)
  | none => true

@[simp] theorem linkAfter_eventId (prev : Option String) (ev : TrackingEvent) :
    (ev.linkAfter d prev).eventId = ev.eventId := rfl

/-- A linked event carries its own hash. -/
theorem linkAfter_eventHash (prev : Option String) (ev : TrackingEvent) :
    (ev.linkAfter d prev).eventHash = some ((ev.linkAfter d prev).computeHash d) := rfl

theorem hashIsValid_linkAfter (prev : Option String) (ev : TrackingEvent) :
    (ev.linkAfter d prev).hashIsValid d = true := by
  unfold hashIsValid
  rw [linkAfter_eventHash]
  exact decide_eq_true rfl

end TrackingEvent

/-! ## Alerts -/

inductive AlertSeverity where
  | info
  | warning
  | critical
  deriving DecidableEq, Repr

inductive AlertKind where
  | drift
  | loop
  | intent
  | harness
  | policy
  | security
  deriving DecidableEq, Repr

/-- What an alert says. -/
structure AlertBody where
  sessionId : String
  kind : AlertKind
  severity : AlertSeverity
  title : String
  message : String
  observed : Option Value
  expected : Option Value
  evidenceEventIds : List String
  recommendedAction : Option String
  blocksRelease : Bool
  requiresHumanReview : Bool
  details : Option Value
  deriving DecidableEq

/-- The id and the time that a new alert is given. -/
structure Stamp where
  alertId : String
  createdAt : Timestamp
  deriving DecidableEq

structure Alert where
  stamp : Stamp
  body : AlertBody
  deriving DecidableEq

/-- Alerts for what was found, the ids and times given in order. -/
def stampAll (mint : Nat → Stamp) (found : List AlertBody) : List Alert :=
  found.mapIdx fun i body => ⟨mint i, body⟩

/-- The ids and times are all that depends on where they come from. -/
@[simp] theorem map_body_stampAll (mint : Nat → Stamp) (found : List AlertBody) :
    (stampAll mint found).map Alert.body = found := by
  unfold stampAll
  exact List.ext_getElem (by simp) (by simp)

/-! ## Watching -/

/-- A step of a detector: it changes and finds something. -/
abbrev Watch (σ : Type) := σ → σ × List AlertBody

namespace Watch

variable {σ : Type}

/-- See nothing. -/
def skip : Watch σ := fun s => (s, [])

/-- One step, then another. -/
def seq (f g : Watch σ) : Watch σ := fun s =>
  let (s₁, found) := f s
  let (s₂, more) := g s₁
  (s₂, found ++ more)

def when (p : Prop) [Decidable p] (f : Watch σ) : Watch σ := if p then f else skip

/-- A step that depends on the state. -/
def read (f : σ → Watch σ) : Watch σ := fun s => f s s

/-- Change the state. -/
def update (f : σ → σ) : Watch σ := fun s => (f s, [])

end Watch

/-- Every key alerts once. -/
def raiseOnce (alerted : List String) (key : String) (body : AlertBody) :
    List String × List AlertBody :=
  if key ∈ alerted then (alerted, []) else (key :: alerted, [body])

/-- One more of a key. -/
def countUp (counts : String → UInt32) (key : String) : String → UInt32 :=
  fun k => if k = key then counts key + 1 else counts k

end Agenomic.Track
