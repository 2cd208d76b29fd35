import Agenomic.Rmp.Monitor
import Agenomic.Lib.Run

/-!
# Retrying a monitor

An ingest that returns an error is tried again with the same event. When the append of
the event itself failed, nothing has happened and the retry does all there is to do.
When the append of a finding failed, the tracking engine has the event already: the
retry finds nothing to do and reports success, and the findings of the event are
nowhere (`Delivered`).
-/

namespace Agenomic.Rmp

open Lib
open Track (TrackingEvent TrackingEngine TrackingSession DriftBaseline Alert AlertBody Stamp)
open Track.TrackingEngine (ingest_of_mem ingest_of_not_mem)

/-! ## The sink -/

@[simp] theorem eventIds_append_lifecycle (records : List LedgerRecord) (ev : RmpLedgerEvent) :
    eventIds (records ++ [.lifecycle ev]) = eventIds records := by
  unfold eventIds
  rw [List.filterMap_append]
  exact List.append_nil _

/-- The ids after an event: its own is one of them. -/
theorem mem_eventIds_push {records : List LedgerRecord} {event : TrackingEvent} {id : String} :
    id ∈ eventIds (push (.event event) records) ↔ id ∈ eventIds records ∨ id = event.eventId := by
  unfold push
  dsimp only
  by_cases hmem : event.eventId ∈ eventIds records
  · rw [if_pos hmem]
    refine ⟨.inl, fun h => h.elim (fun h => h) fun heq => ?_⟩
    rw [heq]
    exact hmem
  · rw [if_neg hmem]
    unfold eventIds
    rw [List.filterMap_append, List.mem_append]
    exact or_congr_right List.mem_singleton

/-- An event that is there already adds nothing. -/
theorem push_push (event : TrackingEvent) (records : List LedgerRecord) :
    push (.event event) (push (.event event) records) = push (.event event) records := by
  have hmem : event.eventId ∈ eventIds (push (.event event) records) :=
    mem_eventIds_push.mpr (.inr rfl)
  generalize push (.event event) records = pushed at hmem
  exact if_pos hmem

theorem lifecycleEvents_push_event (event : TrackingEvent) (records : List LedgerRecord) :
    lifecycleEvents (push (.event event) records) = lifecycleEvents records := by
  unfold push
  dsimp only
  by_cases hmem : event.eventId ∈ eventIds records
  · rw [if_pos hmem]
  · rw [if_neg hmem]
    unfold lifecycleEvents
    rw [List.filterMap_append]
    exact List.append_nil _

/-- An append that succeeds. -/
theorem LedgerSink.append_ok {s : LedgerSink} (h : s.calls.head?.all fun r => !r.fails)
    (r : LedgerRecord) : ∃ s', s.append r = (s', .ok ()) ∧ s'.records = push r s.records
      ∧ s'.calls = s.calls.tail := by
  obtain ⟨records, calls, once⟩ := s
  cases calls with
  | nil => exact ⟨_, rfl, rfl, rfl⟩
  | cons call calls =>
      cases call with
      | ok => exact ⟨_, rfl, rfl, rfl⟩
      | failed kept e => cases h

/-- Whether the next append fails. -/
theorem LedgerSink.head_fails {s : LedgerSink} (h : ¬(s.calls.head?.all fun r => !r.fails) = true) :
    ∃ call calls, s.calls = call :: calls ∧ call.fails = true := by
  cases hcalls : s.calls with
  | nil =>
      rw [hcalls] at h
      exact absurd rfl h
  | cons call calls =>
      rw [hcalls] at h
      exact ⟨call, calls, rfl, by simpa using h⟩

/-- An append that fails. -/
theorem LedgerSink.append_error {s : LedgerSink} {call : AppendResult} {calls : List AppendResult}
    (hcalls : s.calls = call :: calls) (hfails : call.fails = true) (r : LedgerRecord) :
    ∃ s' e, s.append r = (s', .error e) ∧ s'.calls = calls
      ∧ (s'.records = push r s.records ∨ s'.records = s.records) := by
  obtain ⟨records, calls', once⟩ := s
  cases hcalls
  cases call with
  | ok => cases hfails
  | failed kept e =>
      cases kept with
      | true => exact ⟨_, _, rfl, rfl, .inl rfl⟩
      | false => exact ⟨_, _, rfl, rfl, .inr rfl⟩

namespace MonitorEngine

variable {d : Track.Deps} {m : MonitorEngine} {s : LedgerSink}

/-! ## Recording findings -/

/-- The ledger event of a finding, up to its id. -/
def findingEvent (session : MonitorSession) (body : FindingBody) : RmpLedgerEvent where
  eventType := findingEventType body.kind
  sessionId := session.sessionId
  runId := session.trackingSessionId
  agentId := session.agentId
  genomeHash := session.genomeHash
  releaseId := session.releaseId
  payload := .object [("evidence_refs", .array (body.evidenceRefs.map .string)),
    ("kind", .string body.kind.label), ("severity", .string body.severity.label),
    ("title", .string body.title)]
  evidenceRefs := []

theorem lifecycleEvents_push_finding (f : MonitorFinding) (records : List LedgerRecord) :
    lifecycleEvents (push (.lifecycle (m.lifecycleEvent (findingEventType f.body.kind)
        (findingPayload f))) records)
      = lifecycleEvents records ++ [findingEvent m.session f.body] := by
  unfold push lifecycleEvents
  dsimp only
  rw [List.filterMap_append]
  rfl

/-- **When no append fails**, every finding is recorded. -/
theorem recordFindings_ok (env : MonitorEnv) (i : Nat) (alerts : List Alert)
    (hs : m.ledger = some s) (hok : ∀ r ∈ s.calls.take alerts.length, r.fails = false) :
    ∃ s' findings, recordFindings env i alerts m = ({ m with ledger := some s' }, .ok findings)
      ∧ findings.map MonitorFinding.body = (alerts.map fun a => findingBody m.session a.body)
      ∧ lifecycleEvents s'.records = lifecycleEvents s.records
          ++ (alerts.map fun a => findingEvent m.session (findingBody m.session a.body))
      ∧ eventIds s'.records = eventIds s.records ∧ s'.calls <:+ s.calls := by
  induction alerts generalizing i m s with
  | nil =>
      refine ⟨s, [], ?_, rfl, (List.append_nil _).symm, rfl, List.suffix_refl _⟩
      unfold recordFindings
      rw [← hs]
  | cons alert rest ih =>
      have hhead : s.calls.head?.all fun r => !r.fails := by
        cases hcalls : s.calls with
        | nil => rfl
        | cons call calls =>
            rw [hcalls] at hok
            simp [hok call List.mem_cons_self]
      obtain ⟨s₁, happend, hrecords, hcalls⟩ := s.append_ok hhead
        (.lifecycle (m.lifecycleEvent (findingEventType (findingKind alert.body.kind))
          (findingPayload (m.findingFromAlert (env.finding i) alert))))
      have htail : ∀ r ∈ s₁.calls.take rest.length, r.fails = false := by
        intro r hr
        refine hok r ?_
        rw [hcalls] at hr
        cases hc : s.calls with
        | nil =>
            rw [hc, List.tail_nil, List.take_nil] at hr
            cases hr
        | cons call calls =>
            rw [hc] at hr
            exact List.mem_cons_of_mem call hr
      obtain ⟨s', findings, hrun, hbodies, hevents, hids, hrest⟩ :=
        ih (m := { m with ledger := some s₁ }) (i + 1) rfl htail
      refine ⟨s', m.findingFromAlert (env.finding i) alert :: findings, ?_, ?_, ?_, ?_, ?_⟩
      · unfold recordFindings recordFindingEvent recordLifecycleEvent appendRecord
        rw [hs]
        dsimp only [findingFromAlert, findingBody] at happend ⊢
        rw [happend]
        dsimp only
        rw [hrun]
      · rw [List.map_cons, List.map_cons, hbodies]
        rfl
      · have hpush := lifecycleEvents_push_finding (m := m)
          (m.findingFromAlert (env.finding i) alert) s.records
        rw [hevents, hrecords, List.map_cons, List.append_cons]
        exact congrArg (· ++ _) hpush
      · rw [hids, hrecords]
        exact eventIds_append_lifecycle _ _
      · exact hrest.trans (hcalls ▸ List.tail_suffix s.calls)

/-- **When one fails**, that is the end of it. -/
theorem recordFindings_error (env : MonitorEnv) (i : Nat) (alerts : List Alert)
    (hs : m.ledger = some s) (hbad : ∃ r ∈ s.calls.take alerts.length, r.fails = true) :
    ∃ s' e, recordFindings env i alerts m = ({ m with ledger := some s' }, .error e)
      ∧ eventIds s'.records = eventIds s.records ∧ s'.calls <:+ s.calls := by
  induction alerts generalizing i m s with
  | nil =>
      obtain ⟨r, hr, -⟩ := hbad
      cases hr
  | cons alert rest ih =>
      let record := LedgerRecord.lifecycle (m.lifecycleEvent
        (findingEventType (findingKind alert.body.kind))
        (findingPayload (m.findingFromAlert (env.finding i) alert)))
      cases hcalls : s.calls with
      | nil =>
          obtain ⟨r, hr, -⟩ := hbad
          rw [hcalls] at hr
          cases hr
      | cons call calls =>
          rw [hcalls] at hbad
          by_cases hfails : call.fails = true
          · obtain ⟨s', e, happend, hrest, hrecords⟩ := s.append_error hcalls hfails record
            refine ⟨s', e, ?_, ?_, ?_⟩
            · unfold recordFindings recordFindingEvent recordLifecycleEvent appendRecord
              rw [hs]
              dsimp only [record, findingFromAlert, findingBody] at happend ⊢
              rw [happend]
            · rcases hrecords with hrecords | hrecords
              · rw [hrecords]
                exact eventIds_append_lifecycle _ _
              · rw [hrecords]
            · rw [hrest]
              exact List.suffix_cons call calls
          · have hhead : s.calls.head?.all fun r => !r.fails := by
              rw [hcalls]
              simp [hfails]
            obtain ⟨s₁, happend, hrecords, htail⟩ := s.append_ok hhead record
            have hbad₁ : ∃ r ∈ s₁.calls.take rest.length, r.fails = true := by
              obtain ⟨r, hr, hrf⟩ := hbad
              rw [htail, hcalls]
              rcases List.mem_cons.mp hr with rfl | hr
              · exact absurd hrf hfails
              · exact ⟨r, hr, hrf⟩
            obtain ⟨s', e, hrun, hids, hrest⟩ :=
              ih (m := { m with ledger := some s₁ }) (i + 1) rfl hbad₁
            refine ⟨s', e, ?_, ?_, ?_⟩
            · unfold recordFindings recordFindingEvent recordLifecycleEvent appendRecord
              rw [hs]
              dsimp only [record, findingFromAlert, findingBody] at happend ⊢
              rw [happend]
              dsimp only
              rw [hrun]
            · rw [hids, hrecords]
              exact eventIds_append_lifecycle _ _
            · rw [← hcalls]
              exact hrest.trans (htail ▸ List.tail_suffix s.calls)

/-! ## Retrying -/

/-- An event that was seen is taken as it is. -/
theorem ingestAgain_seen (envs : Nat → MonitorEnv) {event : TrackingEvent}
    (h : event.eventId ∈ m.tracking.seen) (n : Nat) :
    ingestAgain d envs event n m = (m, .ok []) := by
  have hingest : ∀ env, m.ingest d env event = (m, .ok []) := by
    intro env
    unfold ingest
    exact if_pos (decide_eq_true h)
  cases n with
  | zero => exact hingest _
  | succ n =>
      unfold ingestAgain
      rw [hingest]

/-- The findings of an event. -/
def made (d : Track.Deps) (m : MonitorEngine) (event : TrackingEvent) : List FindingBody :=
  (m.found d event).map (findingBody m.session)

/-- The event cannot be written: nothing has happened. -/
theorem ingest_refused (env : MonitorEnv) {event : TrackingEvent} {call : AppendResult}
    {calls : List AppendResult} (hnew : event.eventId ∉ m.tracking.seen) (hs : m.ledger = some s)
    (hcalls : s.calls = call :: calls) (hfails : call.fails = true) :
    ∃ s' e, m.ingest d env event = ({ m with ledger := some s' }, .error e)
      ∧ s'.calls = calls
      ∧ (s'.records = push (.event event) s.records ∨ s'.records = s.records) := by
  obtain ⟨s', e, happend, hrest⟩ := s.append_error hcalls hfails (.event event)
  refine ⟨s', e, ?_, hrest⟩
  unfold ingest TrackingEngine.hasEvent
  rw [if_neg (by simpa using hnew)]
  unfold appendRecord
  rw [hs]
  dsimp only
  rw [happend]

/-- The event is written, and the findings of it as far as their appends succeed. -/
theorem ingest_written (env : MonitorEnv) {event : TrackingEvent}
    (hnew : event.eventId ∉ m.tracking.seen) (hs : m.ledger = some s)
    (hhead : s.calls.head?.all fun r => !r.fails) :
    ∃ s₁ : LedgerSink, s₁.records = push (.event event) s.records ∧ s₁.calls = s.calls.tail
      ∧ m.ingest d env event =
        match recordFindings env 0 (m.tracking.ingest d env.alert event).2
          { m with ledger := some s₁, tracking := (m.tracking.ingest d env.alert event).1 } with
        | (m, .error e) => (m, .error e)
        | (m, .ok findings) => ({ m with findings := m.findings ++ findings }, .ok findings) := by
  obtain ⟨s₁, happend, hrecords, hcalls⟩ := s.append_ok hhead (.event event)
  refine ⟨s₁, hrecords, hcalls, ?_⟩
  conv_lhs => unfold ingest TrackingEngine.hasEvent
  rw [if_neg (by simpa using hnew)]
  unfold appendRecord
  rw [hs]
  dsimp only
  rw [happend] <;> rfl

/-- The bodies of the alerts of an event that is new. -/
theorem alerts_body (env : MonitorEnv) {event : TrackingEvent}
    (hnew : event.eventId ∉ m.tracking.seen) :
    (m.tracking.ingest d env.alert event).2.map Alert.body = m.found d event := by
  rw [ingest_of_not_mem hnew]
  exact Track.map_body_stampAll _ _

theorem alerts_length (env : MonitorEnv) {event : TrackingEvent}
    (hnew : event.eventId ∉ m.tracking.seen) :
    (m.tracking.ingest d env.alert event).2.length = (m.found d event).length := by
  rw [← alerts_body env hnew, List.length_map]

/-- **What becomes of an event** that is delivered until it is taken: the tracking engine has it
and so has the ledger; its findings are there, all of them or none. -/
structure Delivered (d : Track.Deps) (m : MonitorEngine) (s : LedgerSink) (event : TrackingEvent)
    (m' : MonitorEngine) (s' : LedgerSink) : Prop where
  session : m'.session = m.session
  trigger : m'.protectTriggerSeverity = m.protectTriggerSeverity
  tracking : ∃ mint, m'.tracking = (m.tracking.ingest d mint event).1
  ledger : m'.ledger = some s'
  ids : eventIds s'.records = eventIds (push (.event event) s.records)
  calls : s'.calls <:+ s.calls
  lost : m.LosesFinding d event → m'.findings = m.findings
  whole : ¬ m.LosesFinding d event →
    m'.findings.map MonitorFinding.body = m.findings.map MonitorFinding.body ++ m.made d event
      ∧ lifecycleEvents s'.records
        = lifecycleEvents s.records ++ (m.made d event).map (findingEvent m.session)

/-- With the event written, the appends of its findings decide. -/
theorem losesFinding_iff {event : TrackingEvent} (hnew : event.eventId ∉ m.tracking.seen)
    (hs : m.ledger = some s) (hhead : s.calls.head?.all fun r => !r.fails) :
    m.LosesFinding d event
      ↔ ∃ r ∈ s.calls.tail.take (m.found d event).length, r.fails = true := by
  have hdrop : s.calls.dropWhile AppendResult.fails = s.calls := by
    cases hcalls : s.calls with
    | nil => rfl
    | cons call calls =>
        rw [hcalls] at hhead
        exact List.dropWhile_cons_of_neg (by simpa using hhead)
  unfold LosesFinding findingCalls calls
  rw [hs]
  dsimp only [Option.map_some, Option.getD_some]
  rw [hdrop]
  exact and_iff_right hnew

/-- A refused append of the event does not matter. -/
theorem losesFinding_of_refused {event : TrackingEvent} {call : AppendResult}
    {calls : List AppendResult} {s' : LedgerSink} (hs : m.ledger = some s)
    (hcalls : s.calls = call :: calls) (hfails : call.fails = true) (hrest : s'.calls = calls) :
    ({ m with ledger := some s' } : MonitorEngine).LosesFinding d event
      ↔ m.LosesFinding d event := by
  have hdrop : m.calls.dropWhile AppendResult.fails = s'.calls.dropWhile AppendResult.fails := by
    unfold MonitorEngine.calls
    rw [hs, hrest]
    dsimp only [Option.map_some, Option.getD_some]
    rw [hcalls, List.dropWhile_cons_of_pos hfails]
  unfold LosesFinding findingCalls
  rw [hdrop]
  rfl

/-- The tracking engine has the event that it took in. -/
theorem seen_ingest (mint : Nat → Stamp) {event : TrackingEvent}
    (hnew : event.eventId ∉ m.tracking.seen) :
    (m.tracking.ingest d mint event).1.seen = event.eventId :: m.tracking.seen := by
  rw [ingest_of_not_mem hnew]
  exact congrArg (· :: _) (TrackingEngine.sealEvent_eventId _ _)

/-- **When the event is written**, what one call does is what becomes of it. -/
theorem ingest_delivered (env : MonitorEnv) {event : TrackingEvent}
    (hnew : event.eventId ∉ m.tracking.seen) (hs : m.ledger = some s)
    (hhead : s.calls.head?.all fun r => !r.fails) :
    (∃ s', Delivered d m s event (m.ingest d env event).1 s')
      ∧ event.eventId ∈ (m.ingest d env event).1.tracking.seen
      ∧ (¬m.LosesFinding d event → ∃ findings, (m.ingest d env event).2 = .ok findings) := by
  obtain ⟨s₁, hrecords, hcalls, hrun⟩ := ingest_written (d := d) env hnew hs hhead
  have hlength := alerts_length (d := d) env hnew
  have hloses := losesFinding_iff (d := d) hnew hs hhead
  have hseen : event.eventId ∈ (m.tracking.ingest d env.alert event).1.seen := by
    rw [seen_ingest env.alert hnew]
    exact List.mem_cons_self
  rw [hrun]
  rw [← hcalls, ← hlength] at hloses
  by_cases hlose : m.LosesFinding d event
  · obtain ⟨s', e, hfindings, hids, hrest⟩ := recordFindings_error
      (m := { m with ledger := some s₁, tracking := (m.tracking.ingest d env.alert event).1 })
      env 0 _ rfl (hloses.mp hlose)
    rw [hfindings]
    refine ⟨⟨s', ?_⟩, hseen, fun hkeeps => absurd hlose hkeeps⟩
    exact {
      session := rfl
      trigger := rfl
      tracking := ⟨env.alert, rfl⟩
      ledger := rfl
      ids := by rw [hids, hrecords]
      calls := hrest.trans (hcalls ▸ List.tail_suffix s.calls)
      lost := fun _ => rfl
      whole := fun hkeeps => absurd hlose hkeeps }
  · have hok : ∀ r ∈ s₁.calls.take (m.tracking.ingest d env.alert event).2.length,
        r.fails = false := by
      intro r hr
      by_contra hfails
      exact hlose (hloses.mpr ⟨r, hr, by simpa using hfails⟩)
    obtain ⟨s', findings, hfindings, hbodies, hevents, hids, hrest⟩ := recordFindings_ok
      (m := { m with ledger := some s₁, tracking := (m.tracking.ingest d env.alert event).1 })
      env 0 _ rfl hok
    have hmade : ((m.tracking.ingest d env.alert event).2.map fun a => findingBody m.session a.body)
        = m.made d event := by
      unfold made
      rw [← alerts_body env hnew, List.map_map]
      rfl
    rw [hfindings]
    refine ⟨⟨s', ?_⟩, hseen, fun _ => ⟨findings, rfl⟩⟩
    exact {
      session := rfl
      trigger := rfl
      tracking := ⟨env.alert, rfl⟩
      ledger := rfl
      ids := by rw [hids, hrecords]
      calls := hrest.trans (hcalls ▸ List.tail_suffix s.calls)
      lost := fun h => absurd h hlose
      whole := by
        intro _
        refine ⟨?_, ?_⟩
        · dsimp only
          rw [List.map_append, hbodies, hmade]
        · rw [hevents, hrecords, lifecycleEvents_push_event, ← hmade, List.map_map]
          rfl }

/-- The same with the retries behind it, which find the event taken. -/
theorem ingestAgain_of_head (envs : Nat → MonitorEnv) {event : TrackingEvent}
    (hnew : event.eventId ∉ m.tracking.seen) (n : Nat) (hs : m.ledger = some s)
    (hhead : s.calls.head?.all fun r => !r.fails) :
    ∃ s', Delivered d m s event (ingestAgain d envs event n m).1 s' := by
  obtain ⟨hdelivered, hseen, -⟩ := ingest_delivered (d := d) (envs n) hnew hs hhead
  cases n with
  | zero => exact hdelivered
  | succ n =>
      unfold ingestAgain
      generalize m.ingest d (envs (n + 1)) event = result at hdelivered hseen ⊢
      obtain ⟨m', outcome⟩ := result
      cases outcome with
      | ok findings => exact hdelivered
      | error e =>
          dsimp only at hseen ⊢
          rw [ingestAgain_seen envs hseen]
          exact hdelivered

/-- **An event with enough retries.** The induction is on the retries; every refused append of the
event uses one up. -/
theorem ingestAgain_delivered (envs : Nat → MonitorEnv) {event : TrackingEvent}
    (hnew : event.eventId ∉ m.tracking.seen) (n : Nat) (hs : m.ledger = some s)
    (hn : s.calls.length ≤ n) :
    ∃ s', Delivered d m s event (ingestAgain d envs event n m).1 s' := by
  induction n generalizing m s with
  | zero =>
      have hnil : s.calls = [] := List.length_eq_zero_iff.mp (by omega)
      exact ingestAgain_of_head envs hnew 0 hs (by rw [hnil]; rfl)
  | succ n ih =>
      by_cases hhead : (s.calls.head?.all fun r => !r.fails) = true
      · exact ingestAgain_of_head envs hnew _ hs hhead
      · obtain ⟨call, calls, hcalls, hfails⟩ := LedgerSink.head_fails hhead
        obtain ⟨s₁, e, hrun, hcalls₁, hrecords⟩ :=
          ingest_refused (d := d) (envs (n + 1)) hnew hs hcalls hfails
        have hlength : s₁.calls.length ≤ n := by
          rw [hcalls, List.length_cons] at hn
          rw [hcalls₁]
          omega
        obtain ⟨s', hdelivered⟩ := ih (m := { m with ledger := some s₁ }) hnew rfl hlength
        have hloses : ({ m with ledger := some s₁ } : MonitorEngine).LosesFinding d event
            ↔ m.LosesFinding d event := losesFinding_of_refused hs hcalls hfails hcalls₁
        unfold ingestAgain
        rw [hrun]
        refine ⟨s', ?_⟩
        -- The ledger has the event at most once, and no finding of it yet.
        have hpush : push (.event event) s₁.records = push (.event event) s.records := by
          rcases hrecords with h | h
          · rw [h, push_push]
          · rw [h]
        have hevents : lifecycleEvents s₁.records = lifecycleEvents s.records := by
          rcases hrecords with h | h
          · rw [h, lifecycleEvents_push_event]
          · rw [h]
        exact {
          session := hdelivered.session
          trigger := hdelivered.trigger
          tracking := hdelivered.tracking
          ledger := hdelivered.ledger
          ids := by rw [hdelivered.ids, hpush]
          calls := by
            rw [hcalls]
            exact (hcalls₁ ▸ hdelivered.calls).trans (List.suffix_cons call calls)
          lost := fun h => hdelivered.lost (hloses.mpr h)
          whole := fun h => by
            have hwhole := hdelivered.whole fun h' => h (hloses.mp h')
            rw [hevents] at hwhole
            exact hwhole }

/-- **One event of a run**: a new one is delivered, and one that was seen is taken as it is. -/
theorem deliver_delivered (op : TrackingEvent × (Nat → MonitorEnv))
    (hnew : op.1.eventId ∉ m.tracking.seen) (hs : m.ledger = some s) :
    ∃ s', Delivered d m s op.1 (m.deliver d op) s' := by
  refine ingestAgain_delivered op.2 hnew _ hs (Nat.le_of_eq ?_)
  unfold callsLeft
  rw [hs]
  rfl

theorem deliver_seen (op : TrackingEvent × (Nat → MonitorEnv))
    (h : op.1.eventId ∈ m.tracking.seen) : m.deliver d op = m := by
  unfold deliver ingestUntilOk
  rw [ingestAgain_seen op.2 h]

end MonitorEngine

end Agenomic.Rmp
