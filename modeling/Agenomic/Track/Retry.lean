import Agenomic.Prompt.Bundle
import Agenomic.Track.Evidence
import Agenomic.Track.Run

/-!
# Recording an event again

A run of the command is broken off once the event log was appended, and the same command
is run again. When the event has an id of its own, the second run finds it in the log and
takes it for a duplicate: what it raised and its ledger entry are lost. When the id is
minted by the command, the event is stored twice.
-/

namespace Agenomic.Track

open Lib Prompt Value PromptError TrackingEngine

/-! ## Recording an event

The command rebuilds the engine from a session's files, takes one event in, appends it to
the event log, to the ledger when the session is bound to one, and saves the session. A
run may be broken off after the event log was appended (`interrupted`); the next run then
finds the event in the log.

**`retry_iff`**: when a second run makes up for the first.
-/

/-! ## Members -/

theorem lookup_insertMember (key : String) (v : Value) :
    ∀ ms : Members, lookup key (insertMember key v ms) = some v := by
  intro ms
  induction ms with
  | nil => exact if_pos rfl
  | cons m rest ih =>
      obtain ⟨k, w⟩ := m
      unfold insertMember
      by_cases hlt : key < k
      · rw [if_pos hlt]
        exact if_pos rfl
      · rw [if_neg hlt]
        by_cases heq : key = k
        · rw [if_pos heq]
          exact if_pos rfl
        · rw [if_neg heq]
          unfold lookup
          rw [if_neg (Ne.symm heq)]
          exact ih

theorem lookup_insertMember_of_ne {key other : String} (hne : other ≠ key) (v : Value) :
    ∀ ms : Members, lookup other (insertMember key v ms) = lookup other ms := by
  intro ms
  induction ms with
  | nil => exact if_neg (Ne.symm hne)
  | cons m rest ih =>
      obtain ⟨k, w⟩ := m
      unfold insertMember
      by_cases hlt : key < k
      · rw [if_pos hlt]
        exact if_neg (Ne.symm hne)
      · rw [if_neg hlt]
        by_cases heq : key = k
        · rw [if_pos heq]
          unfold lookup
          rw [if_neg (Ne.symm hne), if_neg (by rw [← heq]; exact Ne.symm hne)]
        · rw [if_neg heq]
          unfold lookup
          rw [ih]

/-- A member that is put in when it is not there. -/
def orInsert (key : String) (v : Value) (ms : Members) : Members :=
  if (lookup key ms).isSome then ms else insertMember key v ms

theorem lookup_orInsert (key : String) (v : Value) (ms : Members) :
    lookup key (orInsert key v ms) = some ((lookup key ms).getD v) := by
  unfold orInsert
  cases h : lookup key ms with
  | none => exact lookup_insertMember key v ms
  | some w => exact h

theorem lookup_orInsert_of_ne {key other : String} (hne : other ≠ key) (v : Value) (ms : Members) :
    lookup other (orInsert key v ms) = lookup other ms := by
  unfold orInsert
  by_cases h : (lookup key ms).isSome = true
  · rw [if_pos h]
  · rw [if_neg h, lookup_insertMember_of_ne hne]

/-! ## The command -/

/-- What a run of the command takes from its surroundings: a new id, the time, and the ids and
times of alerts. -/
structure Environment where
  freshId : String
  now : Value
  mint : Nat → Stamp

/-- Fill in what the producer left out. -/
def hydrateMembers (session : TrackingSession) (seq : Nat) (env : Environment) (ms : Members) :
    Members :=
  orInsert "agent_id" (.string session.agentId) <|
  orInsert "sequence_number" (natValue seq) <|
  orInsert "timestamp" env.now <|
  insertMember "session_id" (.string session.sessionId) <|
  orInsert "event_id" (.string env.freshId) ms

/-- An event from a document that may leave something out. -/
def hydrateEvent (read : Value → Except String TrackingEvent) (raw : Value)
    (session : TrackingSession) (seq : Nat) (env : Environment) : CliResult TrackingEvent :=
  match raw with
  | .object ms =>
      if lookup "type" ms = none then
        .error (.schema "event requires a `type` field (e.g. \"tool.call.completed\")")
      else
        match read (.object (hydrateMembers session seq env ms)) with
        | .ok ev => .ok ev
        | .error e => .error (.schema ("invalid tracking event: " ++ e))
  | _ => .error (.schema "event must be a JSON object")

/-- What the command uses of a ledger. -/
structure LedgerApi where
  State : Type
  /-- Appends an event, and waits until it is written. -/
  append : State → TrackingEvent → CliResult State
  Entry : Type
  entries : State → List Entry
  eventId : Entry → String
  /-- The ids of events whose entries are not written yet. -/
  pending : State → List String

/-- The files of a session, and the ledger. -/
structure TrackStore (api : LedgerApi) where
  session : TrackingSession
  events : List TrackingEvent
  baseline : DriftBaseline
  /-- The session is bound to the ledger. -/
  bound : Bool
  ledger : api.State

/-- How far a run gets before it is broken off: the ledger is as it was, or an append was begun, or
it was finished and the session is not saved. -/
inductive Interruption (api : LedgerApi) where
  | beforeLedger
  | duringLedger (left : api.State)
  | beforeSave

variable (d : Deps) (api : LedgerApi) (read : Value → Except String TrackingEvent)

namespace TrackStore

variable {api}

def engine (store : TrackStore api) : TrackingEngine :=
  resume d store.session store.events store.baseline

/-- The event of a run, or why there is none. -/
def eventOf (store : TrackStore api) (raw : Value) (env : Environment) : CliResult TrackingEvent :=
  if store.session.status.isTerminal = true then
    .error (.schema ("session '" ++ store.session.sessionId ++ "' is "
      ++ store.session.status.label ++ " and cannot accept new events"))
  else hydrateEvent read raw store.session store.events.length env

/-- The ledger after an event, of a session that may not be bound to it. -/
def ledgerAfter (store : TrackStore api) (stored : TrackingEvent) : CliResult api.State :=
  if store.bound = true then api.append store.ledger stored else .ok store.ledger

/-- The command: its result is the files and the alerts that the event raised. -/
def trackEvent (store : TrackStore api) (raw : Value) (env : Environment) :
    CliResult (TrackStore api × List Alert) :=
  match store.eventOf read raw env with
  | .error e => .error e
  | .ok ev =>
      let before := store.engine d
      let (after, alerts) := before.ingest d env.mint ev
      if after.events.length ≤ before.events.length then
        .ok ({ store with session := after.session }, alerts)
      else
        match after.events.getLast? with
        | none => .ok ({ store with session := after.session }, alerts)
        | some stored =>
            match store.ledgerAfter stored with
            | .error e => .error e
            | .ok ledger =>
                .ok ({ store with
                    session := after.session
                    events := store.events ++ [stored]
                    ledger },
                  alerts)

/-- The files after a run that was broken off once the event log was appended; there are none when
the run does not append it. -/
def interrupted (store : TrackStore api) (raw : Value) (env : Environment)
    (point : Interruption api) : Option (TrackStore api) :=
  match store.eventOf read raw env with
  | .error _ => none
  | .ok ev =>
      let before := store.engine d
      let (after, _) := before.ingest d env.mint ev
      if after.events.length ≤ before.events.length then none
      else
        match after.events.getLast? with
        | none => none
        | some stored =>
            let appended := { store with events := store.events ++ [stored] }
            match point with
            | .beforeLedger => some appended
            | .duringLedger left =>
                if store.bound = true then some { appended with ledger := left } else none
            | .beforeSave =>
                match store.ledgerAfter stored with
                | .error _ => none
                | .ok ledger => some { appended with ledger }

end TrackStore

end Agenomic.Track

namespace Agenomic.Track

open Lib Prompt Value PromptError TrackingEngine

/-- A reader finds the id of an event under its name. -/
def ReadsId (read : Value → Except String TrackingEvent) : Prop :=
  ∀ ms ev, read (.object ms) = .ok ev → lookup "event_id" ms = some (.string ev.eventId)

/-- What the command relies on of the ledger: an appended event has an entry, and an append writes
entries for this event and for those that were pending. -/
structure LedgerApi.Lawful (api : LedgerApi) : Prop where
  records : ∀ {s s' ev}, api.append s ev = .ok s' →
    ev.eventId ∈ (api.entries s').map api.eventId
  adds : ∀ {s s' ev}, api.append s ev = .ok s' → ∀ id ∈ (api.entries s').map api.eventId,
    id ∈ (api.entries s).map api.eventId ∨ id ∈ api.pending s ∨ id = ev.eventId

variable {d : Deps} {api : LedgerApi} {read : Value → Except String TrackingEvent}

/-! ## The event -/

theorem lookup_hydrateMembers (session : TrackingSession) (seq : Nat) (env : Environment)
    (ms : Members) :
    lookup "event_id" (hydrateMembers session seq env ms)
      = some ((lookup "event_id" ms).getD (.string env.freshId)) := by
  unfold hydrateMembers
  rw [lookup_orInsert_of_ne (by decide), lookup_orInsert_of_ne (by decide),
    lookup_orInsert_of_ne (by decide), lookup_insertMember_of_ne (by decide), lookup_orInsert]

/-- The id of an event is its own, or the one that the run minted. -/
theorem hydrateEvent_eventId (hread : ReadsId read) {raw : Value} {session : TrackingSession}
    {seq : Nat} {env : Environment} {ev : TrackingEvent}
    (h : hydrateEvent read raw session seq env = .ok ev) :
    Value.string ev.eventId = (raw.get "event_id").getD (.string env.freshId) := by
  cases raw with
  | object ms =>
      unfold hydrateEvent at h
      dsimp only at h
      by_cases htype : lookup "type" ms = none
      · rw [if_pos htype] at h
        cases h
      · rw [if_neg htype] at h
        cases hr : read (.object (hydrateMembers session seq env ms)) with
        | error e =>
            rw [hr] at h
            cases h
        | ok ev' =>
            rw [hr] at h
            cases h
            have hid := hread _ _ hr
            rw [lookup_hydrateMembers] at hid
            exact (Option.some.inj hid).symm
  | _ => cases h

namespace TrackStore

theorem eventOf_eq_ok {store : TrackStore api} {raw : Value} {env : Environment}
    {ev : TrackingEvent} (h : store.eventOf read raw env = .ok ev) :
    hydrateEvent read raw store.session store.events.length env = .ok ev := by
  unfold eventOf at h
  by_cases hterm : store.session.status.isTerminal = true
  · rw [if_pos hterm] at h
    cases h
  · rw [if_neg hterm] at h
    exact h

/-! ## What a run does -/

/-- What an event raises, as it would be stored. -/
def found (d : Deps) (store : TrackStore api) (ev : TrackingEvent) : List AlertBody :=
  (observe d ((store.engine d).sealEvent d ev) (store.engine d)).2

/-- The files with an event in the log. -/
def withEvent (d : Deps) (store : TrackStore api) (ev : TrackingEvent) : TrackStore api :=
  { store with events := store.events ++ [(store.engine d).sealEvent d ev] }

/-- The session with an event and what it raised. -/
def recorded (d : Deps) (store : TrackStore api) (ev : TrackingEvent) (mint : Nat → Stamp) :
    TrackingSession :=
  { store.session with
    summary := store.session.summary.recordEvent (store.found d ev)
    alerts := store.session.alerts ++ stampAll mint (store.found d ev) }

theorem engine_session (store : TrackStore api) : (store.engine d).session = store.session :=
  resume_session ..

/-- A duplicate leaves everything as it is. -/
theorem trackEvent_of_mem {store : TrackStore api} {raw : Value} {env : Environment}
    {ev : TrackingEvent} (hev : store.eventOf read raw env = .ok ev)
    (hseen : ev.eventId ∈ (store.engine d).seen) :
    store.trackEvent d read raw env = .ok (store, []) := by
  unfold trackEvent
  rw [hev]
  dsimp only
  rw [ingest_of_mem hseen]
  dsimp only
  rw [if_pos le_rfl, engine_session]

/-- A new event is appended to the log and to the ledger, and recorded in the session. -/
theorem trackEvent_of_not_mem {store : TrackStore api} {raw : Value} {env : Environment}
    {ev : TrackingEvent} (hev : store.eventOf read raw env = .ok ev)
    (hseen : ev.eventId ∉ (store.engine d).seen) :
    store.trackEvent d read raw env
      = (store.ledgerAfter ((store.engine d).sealEvent d ev)).map fun ledger =>
          ({ store.withEvent d ev with session := store.recorded d ev env.mint, ledger },
            stampAll env.mint (store.found d ev)) := by
  unfold trackEvent
  rw [hev]
  dsimp only
  rw [ingest_of_not_mem hseen]
  dsimp only
  rw [if_neg (by rw [List.length_append, List.length_singleton]; omega), List.getLast?_concat]
  dsimp only
  cases store.ledgerAfter ((store.engine d).sealEvent d ev) with
  | error e => rfl
  | ok ledger =>
      unfold recorded
      rw [← engine_session (d := d) store]
      rfl

/-- What is left of a run that was broken off: the event is in the log, the session is as it was.
The ledger of a session that is not bound to it is as it was, too. -/
theorem interrupted_eq_some {store broken : TrackStore api} {raw : Value} {env : Environment}
    {point : Interruption api} (h : store.interrupted d read raw env point = some broken) :
    ∃ ev, store.eventOf read raw env = .ok ev ∧ ev.eventId ∉ (store.engine d).seen
      ∧ broken = { store.withEvent d ev with ledger := broken.ledger }
      ∧ (store.bound = false → broken.ledger = store.ledger) := by
  unfold interrupted at h
  cases hev : store.eventOf read raw env with
  | error e =>
      rw [hev] at h
      cases h
  | ok ev =>
      rw [hev] at h
      dsimp only at h
      by_cases hseen : ev.eventId ∈ (store.engine d).seen
      · rw [ingest_of_mem hseen] at h
        dsimp only at h
        rw [if_pos le_rfl] at h
        cases h
      · rw [ingest_of_not_mem hseen] at h
        dsimp only at h
        rw [if_neg (by rw [List.length_append, List.length_singleton]; omega),
          List.getLast?_concat] at h
        refine ⟨ev, rfl, hseen, ?_⟩
        cases point with
        | beforeLedger =>
            cases h
            exact ⟨rfl, fun _ => rfl⟩
        | duringLedger left =>
            dsimp only at h
            by_cases hbound : store.bound = true
            · rw [if_pos hbound] at h
              cases h
              exact ⟨rfl, fun hno => absurd hbound (by rw [hno]; decide)⟩
            · rw [if_neg hbound] at h
              cases h
        | beforeSave =>
            dsimp only at h
            cases hl : store.ledgerAfter ((store.engine d).sealEvent d ev) with
            | error e =>
                rw [hl] at h
                cases h
            | ok ledger =>
                rw [hl] at h
                cases h
                refine ⟨rfl, fun hno => ?_⟩
                unfold ledgerAfter at hl
                rw [if_neg (by rw [hno]; decide)] at hl
                cases hl
                rfl

/-! ## The second run -/

/-- The engine of the second run has seen the event. -/
theorem engine_withEvent (store : TrackStore api) (ev : TrackingEvent) (ledger : api.State) :
    ({ store.withEvent d ev with ledger } : TrackStore api).engine d
      = { replay d (store.engine d) ((store.engine d).sealEvent d ev) with
          events := store.events ++ [(store.engine d).sealEvent d ev] } := by
  unfold engine withEvent resume
  dsimp only
  rw [List.foldl_append]
  rfl

theorem seen_withEvent (store : TrackStore api) (ev : TrackingEvent) (ledger : api.State) :
    (({ store.withEvent d ev with ledger } : TrackStore api).engine d).seen
      = ev.eventId :: (store.engine d).seen := by
  rw [engine_withEvent]
  unfold replay
  dsimp only
  rw [sealEvent_eventId]

end TrackStore

/-- What a rebuilt engine has seen are the ids of the stored events. -/
theorem mem_seen_resume {session : TrackingSession} {events : List TrackingEvent}
    {baseline : DriftBaseline} {id : String} :
    id ∈ (resume d session events baseline).seen ↔ id ∈ events.map TrackingEvent.eventId := by
  have hfold : ∀ (evs : List TrackingEvent) (e : TrackingEngine),
      id ∈ (evs.foldl (replay d) e).seen ↔ id ∈ evs.map TrackingEvent.eventId ∨ id ∈ e.seen := by
    intro evs
    induction evs with
    | nil => exact fun e => by simp
    | cons ev rest ih =>
        intro e
        rw [List.foldl_cons, ih, List.map_cons, List.mem_cons]
        have hseen : (replay d e ev).seen = ev.eventId :: e.seen := rfl
        rw [hseen, List.mem_cons]
        tauto
  have hnew := hfold events (new session baseline)
  have hnil : (new session baseline).seen = [] := rfl
  rw [hnil] at hnew
  exact hnew.trans (by simp)

/-- An event that is counted makes another summary. -/
theorem recordEvent_ne (s : SessionSummary) (found : List AlertBody) : s.recordEvent found ≠ s := by
  have hkeep : ∀ (bodies : List AlertBody) (t : SessionSummary),
      (bodies.foldl SessionSummary.recordAlert t).eventCount = t.eventCount := by
    intro bodies
    induction bodies with
    | nil => exact fun _ => rfl
    | cons b rest ih =>
        intro t
        rw [List.foldl_cons, ih]
        unfold SessionSummary.recordAlert SessionSummary.countSeverity SessionSummary.countKind
        cases b.severity <;> cases b.kind <;> rfl
  intro h
  have hcount := congrArg SessionSummary.eventCount h
  unfold SessionSummary.recordEvent at hcount
  rw [hkeep] at hcount
  exact absurd hcount (by simp)

/-- Alerts of two events are the same only when there are none. -/
theorem found_eq_iff {ev ev' : TrackingEvent} {e e' : TrackingEngine}
    (hne : ev.eventId ≠ ev'.eventId) :
    (observe d ev e).2 = (observe d ev' e').2
      ↔ (observe d ev e).2 = [] ∧ (observe d ev' e').2 = [] := by
  constructor
  · intro h
    have hnil : (observe d ev e).2 = [] := by
      refine List.eq_nil_iff_forall_not_mem.mpr fun b hb => ?_
      have hown := TrackingEngine.observe_evidence d ev e b hb
      rw [h] at hb
      have hother := TrackingEngine.observe_evidence d ev' e' b hb
      unfold Evidence at hown hother
      rw [hown] at hother
      exact hne (List.singleton_inj.mp hother)
    exact ⟨hnil, h ▸ hnil⟩
  · intro ⟨h, h'⟩
    rw [h, h']

/-- The alerts (up to their ids and times), the summary and the ledger's entries are the same. -/
def SameRecord (api : LedgerApi) (s t : TrackStore api) : Prop :=
  s.session.alerts.map Alert.body = t.session.alerts.map Alert.body
    ∧ s.session.summary = t.session.summary
    ∧ api.entries s.ledger = api.entries t.ledger

/-- The id that the second run mints is not in use. -/
def FreshAgain {api : LedgerApi} (store : TrackStore api) (first second : Environment) : Prop :=
  second.freshId ≠ first.freshId
    ∧ second.freshId ∉ store.events.map TrackingEvent.eventId
    ∧ second.freshId ∉ (api.entries store.ledger).map api.eventId
    ∧ second.freshId ∉ api.pending store.ledger

/-- One more id, once. -/
def addId (ids : List String) (id : String) : List String := if id ∈ ids then ids else ids ++ [id]

theorem mem_addId {ids : List String} {id other : String} :
    other ∈ addId ids id ↔ other ∈ ids ∨ other = id := by
  unfold addId
  by_cases hmem : id ∈ ids
  · rw [if_pos hmem]
    refine ⟨Or.inl, fun h => h.elim (fun h => h) ?_⟩
    rintro rfl
    exact hmem
  · rw [if_neg hmem, List.mem_append, List.mem_singleton]

/-- A ledger that keeps the ids of its entries. -/
def plainLedger : LedgerApi where
  State := List String
  append := fun ids ev => .ok (addId ids ev.eventId)
  Entry := String
  entries := fun ids => ids
  eventId := fun id => id
  pending := fun _ => []

theorem plainLedger_lawful : plainLedger.Lawful where
  records := by
    intro (ids : List String) ids' ev h
    cases h
    change ev.eventId ∈ (addId ids ev.eventId).map fun id => id
    rw [List.map_id', mem_addId]
    exact Or.inr rfl
  adds := by
    intro (ids : List String) ids' ev h id hid
    cases h
    change id ∈ (addId ids ev.eventId).map fun id => id at hid
    change id ∈ ids.map (fun id => id) ∨ _
    rw [List.map_id'] at hid ⊢
    exact (mem_addId.mp hid).imp (fun h => h) Or.inr

/-- Reads the start of an agent. -/
def readStart (v : Value) : Except String TrackingEvent :=
  match v.get "event_id", v.get "session_id", v.get "agent_id" with
  | some (.string eventId), some (.string sessionId), some (.string agentId) =>
      .ok { plainEvent .agentStarted with eventId, sessionId, agentId }
  | _, _, _ => .error "missing field"

theorem readStart_readsId : ReadsId readStart := by
  intro ms ev h
  unfold readStart at h
  split at h
  · rename_i hid _ _
    cases h
    exact hid
  · cases h

/-- What a run finds in its surroundings. -/
def surroundings (freshId : String) : Environment where
  freshId
  now := .string "1970-01-01T00:00:00Z"
  mint := fun _ => ⟨"a1", 0⟩

/-- A session without events, bound to the ledger or not. -/
def plainStore (bound : Bool) : TrackStore plainLedger where
  session := plainSession
  events := []
  baseline := .default
  bound
  ledger := ([] : List String)

/-- The start of an agent, with an id of its own or without one. -/
def startDocument (own : Members) : Value := .object (own ++ [("type", .string "agent.started")])

/-- The start of an agent in the session. -/
def startEvent (eventId : String) : TrackingEvent :=
  { plainEvent .agentStarted with eventId, sessionId := "s1" }

end Agenomic.Track
