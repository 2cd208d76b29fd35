import Agenomic.Track.Engine

/-!
# Runs of the engine

Events are offered one by one, each with the ids and times that its alerts will be given.
Between two chunks of events the engine may be dropped and rebuilt from what is stored.

Rebuilding changes nothing (`ingestChunks_eq`), and the ids and times are all that differs
between two runs over the same events (`ingestAll_sameUpToStamps`). The events that are
stored are linked to each other (`stored_linked`).
-/

namespace Agenomic.Track

open Lib Prompt TrackingEngine

/-- An event, and the ids and times that are minted for its alerts. -/
abbrev Offer := TrackingEvent × (Nat → Stamp)

structure Outcome where
  duplicate : Bool
  alerts : List Alert
  deriving DecidableEq

variable (d : Deps)

namespace TrackingEngine

def ingestOne (o : Offer) (e : TrackingEngine) : TrackingEngine × Outcome :=
  let (e', alerts) := e.ingest d o.2 o.1
  (e', { duplicate := e.hasEvent o.1.eventId, alerts })

/-- Take in many events in order. -/
def ingestAll : List Offer → TrackingEngine → TrackingEngine × List Outcome
  | [], e => (e, [])
  | o :: rest, e =>
      let (e₁, outcome) := e.ingestOne d o
      let (e₂, outcomes) := ingestAll rest e₁
      (e₂, outcome :: outcomes)

/-- Take in chunks of events, each with an engine that is rebuilt from what is stored. -/
def ingestChunks (baseline : DriftBaseline) : List (List Offer) → TrackingEngine →
    TrackingEngine × List Outcome
  | [], e => (e, [])
  | chunk :: rest, e =>
      let (e₁, outcomes) := ingestAll d chunk (resume d e.session e.events baseline)
      let (e₂, more) := ingestChunks baseline rest e₁
      (e₂, outcomes ++ more)

variable {d}

theorem ingestAll_cons (o : Offer) (rest : List Offer) (e : TrackingEngine) :
    ingestAll d (o :: rest) e
      = ((ingestAll d rest (e.ingestOne d o).1).1,
          (e.ingestOne d o).2 :: (ingestAll d rest (e.ingestOne d o).1).2) := rfl

theorem ingestAll_append : ∀ (xs ys : List Offer) (e : TrackingEngine),
    ingestAll d (xs ++ ys) e
      = ((ingestAll d ys (ingestAll d xs e).1).1,
          (ingestAll d xs e).2 ++ (ingestAll d ys (ingestAll d xs e).1).2)
  | [], _, _ => rfl
  | o :: rest, ys, e => by
      rw [List.cons_append, ingestAll_cons, ingestAll_cons, ingestAll_append rest ys,
        List.cons_append]

theorem ingestAll_resumable {baseline : DriftBaseline} : ∀ (offers : List Offer)
    {e : TrackingEngine}, Resumable (d := d) baseline e →
      Resumable (d := d) baseline (ingestAll d offers e).1
  | [], _, h => h
  | _ :: rest, _, h => ingestAll_resumable rest (ingest_resumable h)

/-- **Rebuilding the engine between chunks changes nothing.** -/
theorem ingestChunks_eq {baseline : DriftBaseline} : ∀ (chunks : List (List Offer))
    {e : TrackingEngine}, Resumable (d := d) baseline e →
      ingestChunks d baseline chunks e = ingestAll d chunks.flatten e
  | [], _, _ => rfl
  | chunk :: rest, e, h => by
      have hback : resume d e.session e.events baseline = e := h
      unfold ingestChunks
      rw [hback, List.flatten_cons, ingestAll_append]
      dsimp only
      rw [ingestChunks_eq rest (ingestAll_resumable chunk h)]

/-! ## Ids and times -/

/-- Sessions that differ at most in the ids and times of their alerts. -/
def SameSession (s t : TrackingSession) : Prop :=
  { s with alerts := [] } = { t with alerts := [] }
    ∧ s.alerts.map Alert.body = t.alerts.map Alert.body

/-- Engines that differ at most in the ids and times of their alerts. -/
def SameUpToStamps (e f : TrackingEngine) : Prop :=
  SameSession e.session f.session ∧ f = { e with session := f.session }

theorem SameUpToStamps.refl (e : TrackingEngine) : SameUpToStamps e e := ⟨⟨rfl, rfl⟩, rfl⟩

theorem SameUpToStamps.events {e f : TrackingEngine} (h : SameUpToStamps e f) :
    f.events = e.events := by rw [h.2]

theorem SameUpToStamps.summary {e f : TrackingEngine} (h : SameUpToStamps e f) :
    f.session.summary = e.session.summary :=
  (congrArg TrackingSession.summary h.1.1).symm

theorem SameUpToStamps.seen {e f : TrackingEngine} (h : SameUpToStamps e f) : f.seen = e.seen := by
  rw [h.2]

/-- The event is stored in the same way. -/
theorem SameUpToStamps.sealEvent {e f : TrackingEngine} (h : SameUpToStamps e f)
    (event : TrackingEvent) : f.sealEvent d event = e.sealEvent d event := by
  have hid : f.session.sessionId = e.session.sessionId :=
    (congrArg TrackingSession.sessionId h.1.1).symm
  have hlast : f.lastEventHash = e.lastEventHash := by rw [h.2]
  unfold TrackingEngine.sealEvent
  rw [hid, hlast]

/-- The detectors find the same. -/
theorem SameUpToStamps.found {e f : TrackingEngine} (h : SameUpToStamps e f) (ev : TrackingEvent) :
    (observe d ev f).2 = (observe d ev e).2 := by
  rw [h.2]
  rfl

/-- **One event** is taken in alike, whatever ids and times its alerts are given. -/
theorem SameUpToStamps.ingest {e f : TrackingEngine} (h : SameUpToStamps e f)
    (event : TrackingEvent) (mint mint' : Nat → Stamp) :
    SameUpToStamps (e.ingest d mint event).1 (f.ingest d mint' event).1
      ∧ (e.ingest d mint event).2.map Alert.body = (f.ingest d mint' event).2.map Alert.body := by
  by_cases hseen : event.eventId ∈ e.seen
  · rw [ingest_of_mem hseen, ingest_of_mem (by rw [h.seen]; exact hseen)]
    exact ⟨h, rfl⟩
  · have hseen' : event.eventId ∉ f.seen := by
      rw [h.seen]
      exact hseen
    rw [ingest_of_not_mem hseen, ingest_of_not_mem hseen', h.sealEvent, h.found, h.events]
    refine ⟨⟨⟨?_, ?_⟩, ?_⟩, ?_⟩
    · have hsame := h.1.1
      have hsum := h.summary
      dsimp only
      rw [hsum]
      exact congrArg (fun s : TrackingSession =>
        { s with
          summary := e.session.summary.recordEvent (observe d (e.sealEvent d event) e).2 }) hsame
    · dsimp only
      rw [List.map_append, List.map_append, map_body_stampAll, map_body_stampAll, h.1.2]
    · rw [h.2]
      rfl
    · dsimp only
      rw [map_body_stampAll, map_body_stampAll]

/-- An outcome without ids and times. -/
def bareOutcome (o : Outcome) : Bool × List AlertBody := (o.duplicate, o.alerts.map Alert.body)

theorem ingestAll_sameUpToStamps : ∀ (xs ys : List Offer) {e f : TrackingEngine},
    xs.map Prod.fst = ys.map Prod.fst → SameUpToStamps e f →
      SameUpToStamps (ingestAll d xs e).1 (ingestAll d ys f).1
        ∧ (ingestAll d xs e).2.map bareOutcome = (ingestAll d ys f).2.map bareOutcome
  | [], [], _, _, _, h => ⟨h, rfl⟩
  | [], _ :: _, _, _, hxs, _ => by cases hxs
  | _ :: _, [], _, _, hxs, _ => by cases hxs
  | x :: xs, y :: ys, e, f, hxs, h => by
      rw [List.map_cons, List.map_cons, List.cons.injEq] at hxs
      obtain ⟨hevent, hrest⟩ := hxs
      obtain ⟨hsame, halerts⟩ := h.ingest (d := d) x.1 x.2 y.2
      rw [hevent] at hsame halerts
      obtain ⟨hrun, houtcomes⟩ := ingestAll_sameUpToStamps xs ys hrest hsame
      have hdup : e.hasEvent y.1.eventId = f.hasEvent y.1.eventId := by
        unfold hasEvent
        rw [h.seen]
      unfold ingestAll ingestOne bareOutcome
      rw [hevent]
      refine ⟨hrun, ?_⟩
      dsimp only
      rw [List.map_cons, List.map_cons]
      dsimp only
      rw [hdup, halerts]
      exact congrArg (_ :: ·) houtcomes

end TrackingEngine

/-- The same events with other ids and times for their alerts. -/
def remint (mints : Nat → Nat → Stamp) (offers : List Offer) : List Offer :=
  offers.mapIdx fun i o => (o.1, mints i)

theorem remint_events (mints : Nat → Nat → Stamp) (offers : List Offer) :
    (remint mints offers).map Prod.fst = offers.map Prod.fst := by
  unfold remint
  exact List.ext_getElem (by simp) (by simp)

/-- **Tracking in chunks equals tracking in one run**, up to the ids and times of the alerts. -/
theorem chunks_eq_whole (session : TrackingSession) (baseline : DriftBaseline)
    (chunks : List (List Offer)) (mints : Nat → Nat → Stamp) :
    let parts := ingestChunks d baseline chunks (new session baseline)
    let whole := ingestAll d (remint mints chunks.flatten) (new session baseline)
    parts.1.events = whole.1.events
      ∧ parts.2.map Outcome.duplicate = whole.2.map Outcome.duplicate
      ∧ parts.1.session.summary = whole.1.session.summary
      ∧ parts.2.map (fun o => o.alerts.map Alert.body)
          = whole.2.map (fun o => o.alerts.map Alert.body)
      ∧ parts.1.session.alerts.map Alert.body = whole.1.session.alerts.map Alert.body := by
  have hchunks := ingestChunks_eq (d := d) chunks (new_resumable session baseline)
  obtain ⟨hsame, houtcomes⟩ := ingestAll_sameUpToStamps (d := d) chunks.flatten
    (remint mints chunks.flatten) (remint_events mints chunks.flatten).symm
    (SameUpToStamps.refl (new session baseline))
  intro parts whole
  have hparts : parts = ingestAll d chunks.flatten (new session baseline) := hchunks
  rw [hparts]
  refine ⟨hsame.events.symm, ?_, hsame.summary.symm, ?_, hsame.1.2⟩
  · have hdup := congrArg (List.map Prod.fst) houtcomes
    rw [List.map_map, List.map_map] at hdup
    exact hdup
  · have hbodies := congrArg (List.map Prod.snd) houtcomes
    rw [List.map_map, List.map_map] at hbodies
    exact hbodies

/-! ## The chain of stored events -/

/-- An event as it was offered, and as it is stored after `prev`. -/
def StoredAfter (sessionId : String) (prev : Option String) (offered stored : TrackingEvent) :
    Prop :=
  match offered.eventHash with
  | none =>
      stored.hashIsValid d = true ∧ stored.eventHash ≠ none
        ∧ stored.prevEventHash = some (prev.getD zeroHash)
  | some _ => stored = { offered with sessionId := sessionId }

/-- Events as they were offered and as they are stored, each after the one before it. -/
def StoredChain (sessionId : String) :
    Option String → List TrackingEvent → List TrackingEvent → Prop
  | _, [], [] => True
  | prev, o :: os, s :: ss =>
      StoredAfter d sessionId prev o s ∧ StoredChain sessionId s.eventHash os ss
  | _, _, _ => False

/-- The hash that the next event is linked to. -/
def lastHash (history : List TrackingEvent) : Option String :=
  history.foldl (fun last ev => ev.eventHash.or last) none

variable {d}

theorem sealEvent_storedAfter (e : TrackingEngine) (event : TrackingEvent) :
    StoredAfter d e.session.sessionId e.lastEventHash event (e.sealEvent d event) := by
  unfold StoredAfter sealEvent
  cases h : event.eventHash with
  | some hash =>
      dsimp only
      rw [if_neg (Option.some_ne_none hash)]
  | none =>
      dsimp only
      rw [if_pos rfl]
      exact ⟨TrackingEvent.hashIsValid_linkAfter d _ _, Option.some_ne_none _, rfl⟩

/-- **A run stores a chain**, and what it stores are events that were offered. -/
theorem ingestAll_storedChain : ∀ (offers : List Offer) (e : TrackingEngine),
    ∃ accepted stored, (ingestAll d offers e).1.events = e.events ++ stored
      ∧ accepted.Sublist (offers.map Prod.fst)
      ∧ StoredChain d e.session.sessionId e.lastEventHash accepted stored
  | [], e => ⟨[], [], by simp [ingestAll], List.Sublist.refl _, trivial⟩
  | o :: rest, e => by
      obtain ⟨accepted, stored, hevents, hsub, hchain⟩ :=
        ingestAll_storedChain rest (e.ingest d o.2 o.1).1
      have hrun : (ingestAll d (o :: rest) e).1 = (ingestAll d rest (e.ingest d o.2 o.1).1).1 := rfl
      rw [hrun, hevents]
      by_cases hseen : o.1.eventId ∈ e.seen
      · -- A duplicate is not stored.
        rw [ingest_of_mem hseen] at hchain ⊢
        exact ⟨accepted, stored, rfl, hsub.cons _, hchain⟩
      · refine ⟨o.1 :: accepted, e.sealEvent d o.1 :: stored, ?_, hsub.cons_cons _, ?_⟩
        · rw [ingest_of_not_mem hseen]
          exact List.append_cons _ _ _ |>.symm
        · have hafter := sealEvent_storedAfter (d := d) e o.1
          refine ⟨hafter, ?_⟩
          have hlast : (e.ingest d o.2 o.1).1.lastEventHash = (e.sealEvent d o.1).eventHash := by
            unfold TrackingEngine.ingest
            rw [if_neg hseen]
          have hid : (e.ingest d o.2 o.1).1.session.sessionId = e.session.sessionId := by
            unfold TrackingEngine.ingest
            rw [if_neg hseen]
          rw [hlast, hid] at hchain
          exact hchain

/-- What a rebuilt engine links to. -/
theorem resume_lastEventHash (session : TrackingSession) (history : List TrackingEvent)
    (baseline : DriftBaseline) :
    (resume d session history baseline).lastEventHash = lastHash history := by
  have hfold : ∀ (evs : List TrackingEvent) (e : TrackingEngine),
      (evs.foldl (replay d) e).lastEventHash
        = evs.foldl (fun last ev => ev.eventHash.or last) e.lastEventHash := by
    intro evs
    induction evs with
    | nil => exact fun _ => rfl
    | cons ev rest ih => exact fun e => ih (replay d e ev)
  exact hfold history (new session baseline)

variable (d)

/-- **Stored events are linked**: on top of any history, in any chunks, what is stored are events
that were offered; one that came without a hash has a valid one and is linked to the event
before it, and one that came with a hash is kept as it came, bound to the session. -/
theorem stored_linked (session : TrackingSession) (baseline : DriftBaseline)
    (history : List TrackingEvent) (chunks : List (List Offer)) :
    ∃ accepted stored,
      (ingestChunks d baseline chunks (resume d session history baseline)).1.events
          = history ++ stored
        ∧ accepted.Sublist (chunks.flatten.map Prod.fst)
        ∧ StoredChain d session.sessionId (lastHash history) accepted stored := by
  have hchunks := ingestChunks_eq (d := d) chunks (resume_resumable session history baseline)
  obtain ⟨accepted, stored, hevents, hsub, hchain⟩ :=
    ingestAll_storedChain (d := d) chunks.flatten (resume d session history baseline)
  rw [resume_session, resume_lastEventHash] at hchain
  rw [hchunks]
  exact ⟨accepted, stored, hevents, hsub, hchain⟩

/-! ## Concrete runs -/

/-- Hashing and printing that forget everything. -/
def plainDeps : Deps where
  blake3 := fun _ => [0]
  encodeEvent := fun _ => []
  deltaExceeds := fun _ _ _ => false
  printDouble := fun _ => "0"
  doubleValue := fun _ => .null
  debugTexts := fun _ => "[]"

def plainSession : TrackingSession where
  sessionId := "s1"
  agentId := "agent://acme/claims"
  startedAt := 0
  status := .active
  trackingConfig :=
    { drift :=
        { enabled := true, deterministic := true, behavioral := false, temperatureTolerance := 0 }
      loops := .default
      intent :=
        { enabled := true, allowedIntents := [], forbiddenIntents := [], escalationIntents := [],
          stepIntents := [], intentTools := [] } }
  summary := .empty
  alerts := []

def plainEvent (eventType : TrackingEventType) : TrackingEvent where
  eventId := "e1"
  sessionId := ""
  timestamp := 0
  sequenceNumber := 0
  eventType
  parentEventId := none
  agentId := "agent://acme/claims"
  genomeHash := none
  workflowStepId := none
  tool := none
  model := none
  inputHash := none
  outputHash := none
  redactedPreview := none
  policyResult := none
  intent := none
  prevEventHash := none
  eventHash := none
  signature := none
  metadata := none

/-- The times of the alerts are not the same in two runs. -/
theorem creation_times_differ : ¬∀ (d : Deps) (session : TrackingSession) (baseline : DriftBaseline)
    (chunks : List (List Offer)) (mints : Nat → Nat → Stamp),
    ((ingestChunks d baseline chunks (new session baseline)).1.session.alerts.map
        fun a => (a.stamp.createdAt, a.body))
      = (ingestAll d (remint mints chunks.flatten) (new session baseline)).1.session.alerts.map
        fun a => (a.stamp.createdAt, a.body) := by
  intro h
  have hrun := h plainDeps plainSession .default
    [[(plainEvent .intentDetected, fun _ => ⟨"a", 0⟩)]] (fun _ _ => ⟨"b", 1⟩)
  exact absurd (congrArg (List.map Prod.fst) hrun) (by decide +kernel)

/-- A hash that a producer made up is kept. -/
theorem supplied_hash_kept : ¬∀ (d : Deps) (session : TrackingSession) (baseline : DriftBaseline)
    (offers : List Offer),
    ∀ ev ∈ (ingestAll d offers (new session baseline)).1.events, ev.hashIsValid d = true := by
  intro h
  let made : TrackingEvent := { plainEvent .agentStarted with eventHash := some "made-up" }
  have hvalid := h plainDeps plainSession .default [(made, fun _ => ⟨"a", 0⟩)]
    { made with sessionId := "s1" } (by decide +kernel)
  exact absurd hvalid (by decide +kernel)

end Agenomic.Track
