import Agenomic.Track.Detectors

/-!
# The tracking engine

The engine takes in one event after another, each id once: it links the event to the last
one, shows it to the detectors and records what they raise. An engine can be rebuilt from
a session and its stored events (`resume`), which shows them to new detectors.

**`resume_of_resumable`**, **`ingest_resumable`**: an engine rebuilt from what it has
stored is the same engine.
-/

namespace Agenomic.Track

open Lib Prompt

inductive SessionStatus where
  | active
  | completed
  | failed
  | cancelled
  deriving DecidableEq, Repr

def SessionStatus.label : SessionStatus → String
  | .active => "active"
  | .completed => "completed"
  | .failed => "failed"
  | .cancelled => "cancelled"

def SessionStatus.isTerminal (s : SessionStatus) : Bool := decide (s ≠ .active)

structure TrackingConfig where
  drift : DriftConfig
  loops : LoopConfig
  intent : IntentConfig
  deriving DecidableEq

structure SessionSummary where
  eventCount : UInt64
  alertCount : UInt64
  driftCount : UInt64
  loopCount : UInt64
  intentCount : UInt64
  harnessFailures : UInt64
  info : UInt64
  warning : UInt64
  critical : UInt64
  deriving DecidableEq

def SessionSummary.empty : SessionSummary := ⟨0, 0, 0, 0, 0, 0, 0, 0, 0⟩

namespace SessionSummary

def countKind (s : SessionSummary) : AlertKind → SessionSummary
  | .drift => { s with driftCount := s.driftCount + 1 }
  | .loop => { s with loopCount := s.loopCount + 1 }
  | .intent => { s with intentCount := s.intentCount + 1 }
  | .harness | .policy | .security => { s with harnessFailures := s.harnessFailures + 1 }

def countSeverity (s : SessionSummary) : AlertSeverity → SessionSummary
  | .info => { s with info := s.info + 1 }
  | .warning => { s with warning := s.warning + 1 }
  | .critical => { s with critical := s.critical + 1 }

def recordAlert (s : SessionSummary) (a : AlertBody) : SessionSummary :=
  ({ s with alertCount := s.alertCount + 1 }.countKind a.kind).countSeverity a.severity

/-- An event and what it raised. -/
def recordEvent (s : SessionSummary) (found : List AlertBody) : SessionSummary :=
  found.foldl recordAlert { s with eventCount := s.eventCount + 1 }

end SessionSummary

structure TrackingSession where
  sessionId : String
  agentId : String
  startedAt : Timestamp
  status : SessionStatus
  trackingConfig : TrackingConfig
  summary : SessionSummary
  alerts : List Alert
  deriving DecidableEq

structure TrackingEngine where
  session : TrackingSession
  events : List TrackingEvent
  seen : List String
  drift : DriftDetector
  loops : LoopDetector
  intent : IntentTracker
  lastEventHash : Option String

variable (d : Deps)

namespace TrackingEngine

def new (session : TrackingSession) (baseline : DriftBaseline) : TrackingEngine where
  session
  events := []
  seen := []
  drift := .new session.sessionId session.trackingConfig.drift baseline
  loops := .new session.sessionId session.trackingConfig.loops session.startedAt
  intent := .new session.sessionId session.trackingConfig.intent
  lastEventHash := none

/-- Show an event to the detectors. -/
def observe (ev : TrackingEvent) : Watch TrackingEngine := fun e =>
  let (drift, drifts) := DriftDetector.observe d ev e.drift
  let (loops, loopsFound) := LoopDetector.observe ev e.loops
  let (intent, intents) := IntentTracker.observe ev e.intent
  ({ e with drift, loops, intent }, drifts ++ loopsFound ++ intents)

/-- A stored event, seen again. What the detectors raise is dropped. -/
def replay (e : TrackingEngine) (ev : TrackingEvent) : TrackingEngine :=
  let warmed := (observe d ev e).1
  { warmed with
    seen := ev.eventId :: e.seen
    lastEventHash := ev.eventHash.or e.lastEventHash }

/-- An engine from a session and its stored events. -/
def resume (session : TrackingSession) (events : List TrackingEvent) (baseline : DriftBaseline) :
    TrackingEngine :=
  { events.foldl (replay d) (new session baseline) with events }

def hasEvent (e : TrackingEngine) (eventId : String) : Bool := decide (eventId ∈ e.seen)

/-- The event as it is stored: bound to the session, and linked to the last event when it does not
carry a hash. -/
def sealEvent (e : TrackingEngine) (event : TrackingEvent) : TrackingEvent :=
  let bound := { event with sessionId := e.session.sessionId }
  if bound.eventHash = none then bound.linkAfter d e.lastEventHash else bound

/-- Take an event in. -/
def ingest (mint : Nat → Stamp) (event : TrackingEvent) (e : TrackingEngine) :
    TrackingEngine × List Alert :=
  if event.eventId ∈ e.seen then (e, [])
  else
    let stored := e.sealEvent d event
    let (watched, found) := observe d stored e
    let alerts := stampAll mint found
    let session :=
      { e.session with
        summary := e.session.summary.recordEvent (alerts.map Alert.body)
        alerts := e.session.alerts ++ alerts }
    ({ watched with
        session
        events := e.events ++ [stored]
        seen := stored.eventId :: e.seen
        lastEventHash := stored.eventHash },
      alerts)

variable {d}

/-! ## Steps -/

/-- Replaying does not touch the session or the stored events. -/
theorem replay_with (ev : TrackingEvent) (e : TrackingEngine) (session : TrackingSession)
    (events : List TrackingEvent) :
    replay d { e with session := session, events := events } ev
      = { replay d e ev with session := session, events := events } := rfl

theorem foldl_replay_with (session : TrackingSession) (stored : List TrackingEvent) :
    ∀ (evs : List TrackingEvent) (e : TrackingEngine),
      evs.foldl (replay d) { e with session := session, events := stored }
        = { evs.foldl (replay d) e with session := session, events := stored }
  | [], _ => rfl
  | ev :: rest, e => by
      rw [List.foldl_cons, List.foldl_cons, replay_with, foldl_replay_with session stored rest]

/-- The sealed event has the id of the event. -/
@[simp] theorem sealEvent_eventId (e : TrackingEngine) (event : TrackingEvent) :
    (e.sealEvent d event).eventId = event.eventId := by
  unfold sealEvent
  by_cases h : event.eventHash = none
  · rw [if_pos h, TrackingEvent.linkAfter_eventId]
  · rw [if_neg h]

/-- Every sealed event carries a hash. -/
theorem sealEvent_eventHash_ne_none (e : TrackingEngine) (event : TrackingEvent) :
    (e.sealEvent d event).eventHash ≠ none := by
  unfold sealEvent
  by_cases h : event.eventHash = none
  · rw [if_pos h, TrackingEvent.linkAfter_eventHash]
    exact Option.some_ne_none _
  · rw [if_neg h]
    exact h

theorem ingest_of_mem {mint : Nat → Stamp} {event : TrackingEvent} {e : TrackingEngine}
    (h : event.eventId ∈ e.seen) : ingest d mint event e = (e, []) := if_pos h

/-- What taking in a new event does. -/
theorem ingest_of_not_mem {mint : Nat → Stamp} {event : TrackingEvent} {e : TrackingEngine}
    (h : event.eventId ∉ e.seen) :
    ingest d mint event e
      = ({ replay d e (e.sealEvent d event) with
            session :=
              { e.session with
                summary := e.session.summary.recordEvent (observe d (e.sealEvent d event) e).2
                alerts := e.session.alerts ++ stampAll mint (observe d (e.sealEvent d event) e).2 }
            events := e.events ++ [e.sealEvent d event] },
          stampAll mint (observe d (e.sealEvent d event) e).2) := by
  have hhash : (e.sealEvent d event).eventHash.or e.lastEventHash
      = (e.sealEvent d event).eventHash := by
    cases hs : (e.sealEvent d event).eventHash with
    | none => exact absurd hs (sealEvent_eventHash_ne_none e event)
    | some _ => rfl
  unfold ingest replay
  rw [if_neg h]
  dsimp only
  rw [hhash, map_body_stampAll]

/-! ## Resuming -/

/-- An engine that is rebuilt from its session and its stored events as it is. -/
def Resumable (baseline : DriftBaseline) (e : TrackingEngine) : Prop :=
  resume d e.session e.events baseline = e

/-- A rebuilt engine has the session and the events it was rebuilt from. -/
@[simp] theorem resume_session (session : TrackingSession) (events : List TrackingEvent)
    (baseline : DriftBaseline) : (resume d session events baseline).session = session := by
  have hfold := foldl_replay_with (d := d) session [] events (new session baseline)
  unfold resume
  change (events.foldl (replay d) (new session baseline)).session = session
  exact congrArg TrackingEngine.session hfold

@[simp] theorem resume_events (session : TrackingSession) (events : List TrackingEvent)
    (baseline : DriftBaseline) : (resume d session events baseline).events = events := rfl

theorem resume_resumable (session : TrackingSession) (events : List TrackingEvent)
    (baseline : DriftBaseline) :
    Resumable (d := d) baseline (resume d session events baseline) := by
  unfold Resumable
  rw [resume_session, resume_events]

theorem new_resumable (session : TrackingSession) (baseline : DriftBaseline) :
    Resumable (d := d) baseline (new session baseline) := rfl

/-- What a new engine takes from a session does not change when the session goes on. -/
theorem new_goOn (session : TrackingSession) (summary : SessionSummary) (alerts : List Alert)
    (baseline : DriftBaseline) :
    new { session with summary := summary, alerts := alerts } baseline
      = { new session baseline with
          session := { session with summary := summary, alerts := alerts } } := rfl

/-- **Taking an event in keeps an engine resumable.** -/
theorem ingest_resumable {baseline : DriftBaseline} {mint : Nat → Stamp} {event : TrackingEvent}
    {e : TrackingEngine} (h : Resumable (d := d) baseline e) :
    Resumable (d := d) baseline (ingest d mint event e).1 := by
  by_cases hseen : event.eventId ∈ e.seen
  · rw [ingest_of_mem hseen]
    exact h
  · rw [ingest_of_not_mem hseen]
    unfold Resumable resume at h ⊢
    dsimp only
    -- The new detectors see the stored events and then the one that was taken in.
    rw [List.foldl_append, new_goOn]
    have hfold := foldl_replay_with (d := d)
      { e.session with
        summary := e.session.summary.recordEvent (observe d (e.sealEvent d event) e).2
        alerts := e.session.alerts ++ stampAll mint (observe d (e.sealEvent d event) e).2 }
      [] e.events (new e.session baseline)
    change { List.foldl (replay d) (e.events.foldl (replay d)
        { new e.session baseline with
          session :=
            { e.session with
              summary := e.session.summary.recordEvent (observe d (e.sealEvent d event) e).2
              alerts := e.session.alerts ++ stampAll mint (observe d (e.sealEvent d event) e).2 }
          events := [] })
        [e.sealEvent d event] with events := e.events ++ [e.sealEvent d event] } = _
    rw [hfold]
    generalize hwarm : e.events.foldl (replay d) (new e.session baseline) = warm at h ⊢
    rw [← h]
    rfl

end TrackingEngine

end Agenomic.Track
