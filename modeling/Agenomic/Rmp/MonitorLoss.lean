import Agenomic.Rmp.MonitorRetry

/-!
# What a failing ledger costs

The same events are delivered to two monitors that were started alike, one with a ledger
that may fail and one with a ledger that does not. The two track the same session. What
they have found differs by the findings of the events whose findings could not be
written.

**`lossless_iff`**: a run loses nothing exactly when no append of a finding fails.
-/

namespace Agenomic.Rmp

open Lib
open Track (TrackingEvent TrackingEngine TrackingSession DriftBaseline)
open Track.TrackingEngine (SameUpToStamps)

namespace MonitorEngine

/-- An event, and what its ingest and the retries of it make up. -/
abbrev Delivery := TrackingEvent × (Nat → MonitorEnv)

/-- What the ledger holds. -/
def records (m : MonitorEngine) : List LedgerRecord := (m.ledger.map LedgerSink.records).getD []

/-- A monitor has what another has, up to generated ids, and each event once. -/
structure Lossless (m r : MonitorEngine) (events : List TrackingEvent) : Prop where
  findings : m.findings.map MonitorFinding.body = r.findings.map MonitorFinding.body
  protect : m.protectTriggered = r.protectTriggered
  ledger : (lifecycleEvents m.records).Perm (lifecycleEvents r.records)
  once : ∀ ev ∈ events, (eventIds m.records).count ev.eventId = 1

variable {d : Track.Deps} {m r : MonitorEngine}

instance (event : TrackingEvent) : Decidable (m.LosesFinding d event) :=
  inferInstanceAs (Decidable (_ ∧ _))

/-! ## Events in the ledger -/

/-- What was taken in is in the ledger. -/
def Logged (m : MonitorEngine) : Prop :=
  ∃ s, m.ledger = some s ∧ ∀ id ∈ m.tracking.seen, id ∈ eventIds s.records

/-- **One event**: it is taken in, and nothing is taken out. -/
theorem Logged.deliver (h : Logged m) (op : Delivery) :
    Logged (m.deliver d op) ∧ op.1.eventId ∈ (m.deliver d op).tracking.seen
      ∧ ∀ id ∈ m.tracking.seen, id ∈ (m.deliver d op).tracking.seen := by
  by_cases hseen : op.1.eventId ∈ m.tracking.seen
  · rw [deliver_seen op hseen]
    exact ⟨h, hseen, fun _ hid => hid⟩
  · obtain ⟨s, hs, hlogged⟩ := h
    obtain ⟨s', hd⟩ := deliver_delivered (d := d) op hseen hs
    obtain ⟨mint, htracking⟩ := hd.tracking
    have hnow : (m.deliver d op).tracking.seen = op.1.eventId :: m.tracking.seen := by
      rw [htracking, seen_ingest mint hseen]
    rw [hnow]
    refine ⟨⟨s', hd.ledger, ?_⟩, List.mem_cons_self, fun _ hid => List.mem_cons_of_mem _ hid⟩
    intro id hid
    rw [hnow] at hid
    rw [hd.ids]
    refine mem_eventIds_push.mpr ?_
    rcases List.mem_cons.mp hid with heq | hid
    · exact .inr heq
    · exact .inl (hlogged id hid)

/-- **After a run** every event of it is in the ledger, once. -/
theorem run_logged (ops : List Delivery) (h : Logged m) :
    Logged (run (deliver d) m ops)
      ∧ (∀ ev ∈ ops.map Prod.fst, ev.eventId ∈ (run (deliver d) m ops).tracking.seen)
      ∧ ∀ id ∈ m.tracking.seen, id ∈ (run (deliver d) m ops).tracking.seen := by
  induction ops generalizing m with
  | nil => exact ⟨h, fun _ hev => absurd hev List.not_mem_nil, fun _ hid => hid⟩
  | cons op ops ih =>
      obtain ⟨hlogged, hmem, hkept⟩ := h.deliver (d := d) op
      obtain ⟨hrun, hevents, hseen⟩ := ih hlogged
      rw [run_cons]
      refine ⟨hrun, ?_, fun id hid => hseen id (hkept id hid)⟩
      intro ev hev
      rcases List.mem_cons.mp hev with heq | hev
      · rw [heq]
        exact hseen _ hmem
      · exact hevents ev hev

theorem run_once (ops : List Delivery) (h : Logged m) :
    ∀ ev ∈ ops.map Prod.fst, (eventIds (run (deliver d) m ops).records).count ev.eventId = 1 := by
  intro ev hev
  obtain ⟨⟨s, hs, hlogged⟩, hevents, -⟩ := run_logged (d := d) ops h
  unfold records
  rw [hs]
  exact List.count_eq_one_of_mem s.once (hlogged _ (hevents ev hev))

/-! ## Two monitors -/

/-- Two monitors that track alike, the second with a ledger that does not fail. -/
structure Alike (m r : MonitorEngine) : Prop where
  session : m.session = r.session
  trigger : m.protectTriggerSeverity = r.protectTriggerSeverity
  tracking : SameUpToStamps m.tracking r.tracking
  failing : ∃ s, m.ledger = some s
  reliable : ∃ t, r.ledger = some t ∧ t.calls = []

/-- They have found the same, and recorded it. -/
structure Whole (m r : MonitorEngine) : Prop where
  findings : m.findings.map MonitorFinding.body = r.findings.map MonitorFinding.body
  ledger : lifecycleEvents m.records = lifecycleEvents r.records

theorem Alike.seen (h : Alike m r) : r.tracking.seen = m.tracking.seen := h.tracking.seen

/-- A ledger that does not fail loses nothing. -/
theorem Alike.not_loses (h : Alike m r) (event : TrackingEvent) : ¬r.LosesFinding d event := by
  obtain ⟨t, ht, hcalls⟩ := h.reliable
  rintro ⟨-, call, hcall, -⟩
  unfold findingCalls calls at hcall
  rw [ht] at hcall
  dsimp only [Option.map_some, Option.getD_some] at hcall
  rw [hcalls, List.dropWhile_nil, List.tail_nil, List.take_nil] at hcall
  cases hcall

/-- They make the same of an event. -/
theorem Alike.made_eq (h : Alike m r) (event : TrackingEvent) : r.made d event = m.made d event := by
  unfold made found
  rw [h.session, h.tracking.sealEvent, h.tracking.found]

/-- **One event** keeps two monitors alike. -/
theorem Alike.deliver (h : Alike m r) {op op' : Delivery} (hop : op.1 = op'.1) :
    Alike (m.deliver d op) (r.deliver d op') := by
  by_cases hseen : op.1.eventId ∈ m.tracking.seen
  · have hseen' : op'.1.eventId ∈ r.tracking.seen := by
      rw [h.seen, ← hop]
      exact hseen
    rw [deliver_seen op hseen, deliver_seen op' hseen']
    exact h
  · have hseen' : op'.1.eventId ∉ r.tracking.seen := by
      rw [h.seen, ← hop]
      exact hseen
    obtain ⟨s, hs⟩ := h.failing
    obtain ⟨t, ht, hcalls⟩ := h.reliable
    obtain ⟨s', hm⟩ := deliver_delivered (d := d) op hseen hs
    obtain ⟨t', hr⟩ := deliver_delivered (d := d) op' hseen' ht
    obtain ⟨mint, htrack⟩ := hm.tracking
    obtain ⟨mint', htrack'⟩ := hr.tracking
    refine ⟨?_, ?_, ?_, ⟨s', hm.ledger⟩, t', hr.ledger, ?_⟩
    · rw [hm.session, hr.session, h.session]
    · rw [hm.trigger, hr.trigger, h.trigger]
    · rw [htrack, htrack', ← hop]
      exact (h.tracking.ingest op.1 mint mint').1
    · have hsuffix := hr.calls
      rw [hcalls] at hsuffix
      exact List.suffix_nil.mp hsuffix

/-- **An event that is not lost** keeps them whole. -/
theorem Whole.deliver (hw : Whole m r) (h : Alike m r) {op op' : Delivery} (hop : op.1 = op'.1)
    (hkeeps : ¬m.LosesFinding d op.1) : Whole (m.deliver d op) (r.deliver d op') := by
  by_cases hseen : op.1.eventId ∈ m.tracking.seen
  · have hseen' : op'.1.eventId ∈ r.tracking.seen := by
      rw [h.seen, ← hop]
      exact hseen
    rw [deliver_seen op hseen, deliver_seen op' hseen']
    exact hw
  · have hseen' : op'.1.eventId ∉ r.tracking.seen := by
      rw [h.seen, ← hop]
      exact hseen
    obtain ⟨s, hs⟩ := h.failing
    obtain ⟨t, ht, -⟩ := h.reliable
    obtain ⟨s', hm⟩ := deliver_delivered (d := d) op hseen hs
    obtain ⟨t', hr⟩ := deliver_delivered (d := d) op' hseen' ht
    obtain ⟨hfindings, hevents⟩ := hm.whole hkeeps
    obtain ⟨hfindings', hevents'⟩ := hr.whole (h.not_loses op'.1)
    have hledger := hw.ledger
    unfold records at hledger
    rw [hs, ht] at hledger
    dsimp only [Option.map_some, Option.getD_some] at hledger
    refine ⟨?_, ?_⟩
    · rw [hfindings, hfindings', hw.findings, ← hop, h.made_eq]
    · unfold records
      rw [hm.ledger, hr.ledger]
      dsimp only [Option.map_some, Option.getD_some]
      rw [hevents, hevents', hledger, ← hop, h.made_eq, h.session]

/-- A monitor never has more findings than one that does not fail, and an event whose findings
could not be written leaves it with fewer. -/
theorem Alike.findings_length (h : Alike m r) {op op' : Delivery} (hop : op.1 = op'.1)
    (hle : m.findings.length ≤ r.findings.length) :
    (m.deliver d op).findings.length ≤ (r.deliver d op').findings.length
      ∧ (m.findings.length < r.findings.length ∨ m.LosesFinding d op.1 →
        (m.deliver d op).findings.length < (r.deliver d op').findings.length) := by
  by_cases hseen : op.1.eventId ∈ m.tracking.seen
  · have hseen' : op'.1.eventId ∈ r.tracking.seen := by
      rw [h.seen, ← hop]
      exact hseen
    rw [deliver_seen op hseen, deliver_seen op' hseen']
    exact ⟨hle, fun hless => hless.elim (fun hlt => hlt) fun hlose => absurd hseen hlose.1⟩
  · have hseen' : op'.1.eventId ∉ r.tracking.seen := by
      rw [h.seen, ← hop]
      exact hseen
    obtain ⟨s, hs⟩ := h.failing
    obtain ⟨t, ht, -⟩ := h.reliable
    obtain ⟨s', hm⟩ := deliver_delivered (d := d) op hseen hs
    obtain ⟨t', hr⟩ := deliver_delivered (d := d) op' hseen' ht
    have hlength' : (r.deliver d op').findings.length
        = r.findings.length + (m.made d op.1).length := by
      have hfindings' := congrArg List.length (hr.whole (h.not_loses op'.1)).1
      rw [← hop, h.made_eq, List.length_append, List.length_map, List.length_map] at hfindings'
      exact hfindings'
    by_cases hlose : m.LosesFinding d op.1
    · have hlength := congrArg List.length (hm.lost hlose)
      -- Of no findings none could be lost.
      have hsome : 0 < (m.made d op.1).length := by
        obtain ⟨-, call, hcall, -⟩ := hlose
        have hpos := List.length_pos_of_mem hcall
        unfold findingCalls at hpos
        rw [List.length_take] at hpos
        unfold made
        rw [List.length_map]
        omega
      rw [hlength, hlength']
      exact ⟨by omega, fun _ => by omega⟩
    · have hlength : (m.deliver d op).findings.length
          = m.findings.length + (m.made d op.1).length := by
        have hfindings := congrArg List.length (hm.whole hlose).1
        rw [List.length_append, List.length_map, List.length_map] at hfindings
        exact hfindings
      rw [hlength, hlength']
      refine ⟨by omega, fun hless => ?_⟩
      rcases hless with hlt | hlost
      · omega
      · exact absurd hlost hlose

/-! ## Two runs -/

/-- **A run that loses nothing** finds what the run without failures finds. -/
theorem run_whole {ops ops' : List Delivery} (hw : Whole m r) (h : Alike m r)
    (hops : ops.map Prod.fst = ops'.map Prod.fst)
    (hkeeps : Along (deliver d) (fun m op => ¬m.LosesFinding d op.1) m ops) :
    Whole (run (deliver d) m ops) (run (deliver d) r ops')
      ∧ Alike (run (deliver d) m ops) (run (deliver d) r ops') := by
  induction ops generalizing m r ops' with
  | nil =>
      have hnil : ops' = [] := List.map_eq_nil_iff.mp hops.symm
      rw [hnil]
      exact ⟨hw, h⟩
  | cons op ops ih =>
      cases ops' with
      | nil => cases hops
      | cons op' ops' =>
          obtain ⟨hop, hrest⟩ := List.cons.inj hops
          rw [run_cons, run_cons]
          exact ih (hw.deliver h hop hkeeps.1) (h.deliver hop) hrest hkeeps.2

/-- **A run that loses a finding** ends with fewer. -/
theorem run_short {ops ops' : List Delivery} (h : Alike m r)
    (hops : ops.map Prod.fst = ops'.map Prod.fst) (hle : m.findings.length ≤ r.findings.length)
    (hless : m.findings.length < r.findings.length
      ∨ ¬Along (deliver d) (fun m op => ¬m.LosesFinding d op.1) m ops) :
    (run (deliver d) m ops).findings.length < (run (deliver d) r ops').findings.length := by
  induction ops generalizing m r ops' with
  | nil =>
      have hnil : ops' = [] := List.map_eq_nil_iff.mp hops.symm
      rw [hnil]
      exact hless.elim (fun hlt => hlt) fun hnot => absurd trivial hnot
  | cons op ops ih =>
      cases ops' with
      | nil => cases hops
      | cons op' ops' =>
          obtain ⟨hop, hrest⟩ := List.cons.inj hops
          obtain ⟨hle', hless'⟩ := h.findings_length (d := d) hop hle
          rw [run_cons, run_cons]
          refine ih (h.deliver hop) hrest hle' ?_
          rcases hless with hlt | hnot
          · exact .inl (hless' (.inl hlt))
          · by_cases hlose : m.LosesFinding d op.1
            · exact .inl (hless' (.inr hlose))
            · exact .inr fun halong => hnot ⟨hlose, halong⟩

/-- Protect is triggered by what the findings say. -/
theorem protectTriggered_congr (htrigger : m.protectTriggerSeverity = r.protectTriggerSeverity)
    (h : m.findings.map MonitorFinding.body = r.findings.map MonitorFinding.body) :
    m.protectTriggered = r.protectTriggered := by
  have hany : ∀ q : MonitorEngine, q.protectTriggered
      = (q.findings.map MonitorFinding.body).any
        fun body => q.protectTriggerSeverity ≤ body.severity := by
    intro q
    unfold protectTriggered
    rw [List.any_map]
    rfl
  rw [hany m, hany r, h, htrigger]

/-- **Two monitors that start** on one ledger, which fails for one of them later on. -/
theorem start_alike {session : MonitorSession} {trackingSession : TrackingSession}
    {baseline : DriftBaseline} {trigger : Severity} {sink : LedgerSink}
    (hm : start session trackingSession baseline trigger (some sink) = .ok m)
    (hr : start session trackingSession baseline trigger (some sink.reliable) = .ok r) :
    Alike m r ∧ Whole m r ∧ Logged m ∧ m.findings.length = r.findings.length := by
  let started : LedgerRecord := .lifecycle (lifecycleEvent
    ⟨session, .new trackingSession baseline, some sink, trigger, []⟩ "monitor.session.started"
    (.object [("environment", .string session.environment), ("mode", .string session.mode)]))
  have hreliable : r = ⟨session, .new trackingSession baseline,
      some (sink.reliable.append started).1, trigger, []⟩ := (Except.ok.inj hr).symm
  have hfailing : ∃ s, m = ⟨session, .new trackingSession baseline, some s, trigger, []⟩
      ∧ s.records = push started sink.records := by
    unfold start recordLifecycleEvent appendRecord at hm
    dsimp only at hm
    by_cases hhead : (sink.calls.head?.all fun r => !r.fails) = true
    · obtain ⟨s, happend, hrecords, -⟩ := sink.append_ok hhead started
      dsimp only [started] at happend
      rw [happend] at hm
      exact ⟨s, (Except.ok.inj hm).symm, hrecords⟩
    · obtain ⟨call, calls, hcalls, hfails⟩ := LedgerSink.head_fails hhead
      obtain ⟨s, e, happend, -⟩ := sink.append_error hcalls hfails started
      dsimp only [started] at happend
      rw [happend] at hm
      cases hm
  obtain ⟨s, hs, hrecords⟩ := hfailing
  rw [hs, hreliable]
  refine ⟨⟨rfl, rfl, SameUpToStamps.refl _, ⟨s, rfl⟩, _, rfl, rfl⟩, ⟨rfl, ?_⟩, ⟨s, rfl, ?_⟩, rfl⟩
  · unfold records
    dsimp only [Option.map_some, Option.getD_some]
    rw [hrecords]
    rfl
  · intro id hid
    cases hid

/-- **The monitor loses nothing exactly when no append of a finding fails**: deliver the same
events to a monitor whose ledger fails as it likes and to one whose ledger does not, each until it
is taken. -/
theorem lossless_iff (d : Track.Deps) {session : MonitorSession} {trackingSession : TrackingSession}
    {baseline : DriftBaseline} {trigger : Severity} {sink : LedgerSink}
    (hm : start session trackingSession baseline trigger (some sink) = .ok m)
    (hr : start session trackingSession baseline trigger (some sink.reliable) = .ok r)
    (ops ops' : List Delivery) (hops : ops.map Prod.fst = ops'.map Prod.fst) :
    Lossless (run (deliver d) m ops) (run (deliver d) r ops') (ops.map Prod.fst)
      ↔ Along (deliver d) (fun m op => ¬m.LosesFinding d op.1) m ops := by
  obtain ⟨halike, hwhole, hlogged, hlength⟩ := start_alike hm hr
  constructor
  · intro h
    by_contra hnot
    have hshort := run_short halike hops (Nat.le_of_eq hlength) (.inr hnot)
    have hsame := congrArg List.length h.findings
    rw [List.length_map, List.length_map] at hsame
    omega
  · intro h
    obtain ⟨hw, ha⟩ := run_whole hwhole halike hops h
    exact {
      findings := hw.findings
      protect := protectTriggered_congr ha.trigger hw.findings
      ledger := List.Perm.of_eq hw.ledger
      once := run_once ops hlogged }

/-! ## Concrete runs -/

def plainMonitor : MonitorSession where
  sessionId := "mon_1"
  trackingSessionId := "s1"
  agentId := "agent://acme/claims"
  genomeHash := none
  releaseId := none
  environment := "production"
  mode := "observe"

/-- A ledger whose appends go like this, behind the start of the session. -/
def plainSink (calls : List AppendResult) : LedgerSink := ⟨[], .ok :: calls, List.nodup_nil⟩

/-- The monitor that starts with it. -/
def plainStart (calls : List AppendResult) : CliResult MonitorEngine :=
  start plainMonitor Track.plainSession .default .high (some (plainSink calls))

def diskFull : CliError := .io "ledger.db" "disk full"

/-- An event that an alert is raised for. -/
def plainDelivery : Delivery :=
  (Track.plainEvent .intentDetected, fun _ => ⟨fun _ => ⟨"al_1", 0⟩, fun _ => ⟨"find_1", 0⟩⟩)

/-- An event that is refused, although it reached the ledger, and is delivered again. -/
theorem lossless_iff_refused : ∃ m r, plainStart [.failed true diskFull] = .ok m
    ∧ start plainMonitor Track.plainSession .default .high
      (some (plainSink [.failed true diskFull]).reliable) = .ok r
    ∧ Lossless (run (deliver Track.plainDeps) m [plainDelivery])
      (run (deliver Track.plainDeps) r [plainDelivery]) [plainDelivery.1] :=
  ⟨_, _, rfl, rfl, (lossless_iff Track.plainDeps rfl rfl [plainDelivery] [plainDelivery] rfl).mpr
    ⟨by decide +kernel, trivial⟩⟩

/-- The append of a finding fails: the retry of the event reports success, and the finding is
gone. -/
theorem not_lossless : ¬∀ (d : Track.Deps) (session : MonitorSession)
    (trackingSession : TrackingSession) (baseline : DriftBaseline) (trigger : Severity)
    (sink : LedgerSink) (m r : MonitorEngine),
    start session trackingSession baseline trigger (some sink) = .ok m →
    start session trackingSession baseline trigger (some sink.reliable) = .ok r →
    ∀ ops ops' : List Delivery, ops.map Prod.fst = ops'.map Prod.fst →
      Lossless (run (deliver d) m ops) (run (deliver d) r ops') (ops.map Prod.fst) := by
  intro h
  have hrun := h Track.plainDeps plainMonitor Track.plainSession .default .high
    (plainSink [.ok, .failed false diskFull]) _ _ rfl rfl [plainDelivery] [plainDelivery] rfl
  exact absurd (congrArg List.length hrun.findings) (by decide +kernel)

end MonitorEngine

end Agenomic.Rmp
