import Agenomic.Track.Intents

/-!
# Runs of the intent tracker

After some events the tracker remembers the intent named last and a key for each violation
shown (`Follows`, `observe_spec`). So as long as the violations that a run shows have
different joined names, each is reported once, by the event that shows it first
(`reportedOnce_of_names`).

An intent that is forbidden is reported as forbidden only, not as outside the allowed set
as well.
-/

namespace Agenomic.Track

open Lib Prompt

namespace IntentTracker

/-- Replace the provider. -/
def withProvider (t : IntentTracker)
    (provider : TrackingEvent → Option IntentClassification) : IntentTracker :=
  { t with provider }

def watched (t : IntentTracker) (evs : List TrackingEvent) : IntentTracker :=
  evs.foldl (fun t ev => (observe ev t).1) t

/-- The alerts of a run. -/
def alertsOf (t : IntentTracker) : List TrackingEvent → List AlertBody
  | [] => []
  | ev :: rest => (observe ev t).2 ++ alertsOf (observe ev t).1 rest

theorem watched_concat (t : IntentTracker) (evs : List TrackingEvent) (ev : TrackingEvent) :
    t.watched (evs ++ [ev]) = (observe ev (t.watched evs)).1 := List.foldl_append

theorem alertsOf_concat (t : IntentTracker) (evs : List TrackingEvent) (ev : TrackingEvent) :
    t.alertsOf (evs ++ [ev]) = t.alertsOf evs ++ (observe ev (t.watched evs)).2 := by
  induction evs generalizing t with
  | nil => exact List.append_nil _
  | cons e rest ih =>
      rw [List.cons_append, alertsOf, ih, alertsOf, List.append_assoc]
      rfl

/-- The violations shown so far. -/
def ShownBy (shows : List TrackingEvent → TrackingEvent → Violation → Prop)
    (evs : List TrackingEvent) (v : Violation) : Prop :=
  ∃ before ev after, evs = before ++ ev :: after ∧ shows before ev v

theorem shownBy_concat {shows : List TrackingEvent → TrackingEvent → Violation → Prop}
    {evs : List TrackingEvent} {ev : TrackingEvent} {v : Violation} :
    ShownBy shows (evs ++ [ev]) v ↔ ShownBy shows evs v ∨ shows evs ev v := by
  constructor
  · rintro ⟨before, e, after, hsplit, hshows⟩
    rcases List.eq_nil_or_concat after with rfl | ⟨rest, x, rfl⟩
    · obtain ⟨rfl, heq⟩ := List.append_inj' hsplit rfl
      cases heq
      exact Or.inr hshows
    · rw [List.concat_eq_append, ← List.cons_append, ← List.append_assoc] at hsplit
      obtain ⟨rfl, -⟩ := List.append_inj' hsplit rfl
      exact Or.inl ⟨before, e, rest, rfl, hshows⟩
  · rintro (⟨before, e, after, rfl, hshows⟩ | hshows)
    · exact ⟨before, e, after ++ [ev], by simp, hshows⟩
    · exact ⟨evs, ev, [], rfl, hshows⟩

theorem namedLast_concat (evs : List TrackingEvent) (ev : TrackingEvent) :
    namedLast (evs ++ [ev]) = (named ev).or (namedLast evs) := by
  unfold namedLast
  rw [List.filterMap_append]
  cases hev : named ev with
  | none => simp [hev]
  | some i => simp [hev]

/-- The alert only says that an event names no intent. -/
def IsUnclear (b : AlertBody) : Prop :=
  b.title = "Intent issue: " ++ IntentIssue.unclearIntent.label

theorem not_alertFor_of_isUnclear {b : AlertBody} (h : IsUnclear b) (v : Violation) :
    ¬ v.AlertFor b := by
  intro hv
  have hlabel : v.kind.issue.label = IntentIssue.unclearIntent.label :=
    (String.append_right_inj _).mp (hv.1.symm.trans h)
  revert hlabel
  cases v.kind <;> decide

variable {config : IntentConfig} {provider : TrackingEvent → Option IntentClassification}
  {past : List TrackingEvent} {ev : TrackingEvent} {t : IntentTracker}

/-- The tracker after some events: the intent named last, and a key for each violation shown. -/
structure Follows (config : IntentConfig)
    (provider : TrackingEvent → Option IntentClassification) (past : List TrackingEvent)
    (t : IntentTracker) : Prop where
  config_eq : t.config = config
  provider_eq : t.provider = provider
  current : t.currentIntent = namedLast past
  alerted : ∀ v : Violation, v.key ∈ t.alerted ↔
    ∃ w, ShownBy (Shows config provider) past w ∧ w.key = v.key

theorem follows_new (sessionId : String) (config : IntentConfig)
    (provider : TrackingEvent → Option IntentClassification) :
    Follows config provider [] ((new sessionId config).withProvider provider) := by
  refine ⟨rfl, rfl, rfl, fun v => ?_⟩
  constructor
  · intro h
    exact absurd h List.not_mem_nil
  · rintro ⟨w, ⟨before, e, after, hsplit, -⟩, -⟩
    exact absurd hsplit (by simp)

variable (ev) in
/-- The event's intent is checked; an event that is to name one and does not is unclear. -/
theorem observe_eq (henabled : t.config.enabled = true) :
    observe ev t =
      match intentOf t.provider ev with
      | some (i, conf) => observeIntent ev i conf (named ev).isSome t
      | none => if ev.eventType = .intentDetected then observeUnclear ev t else (t, []) := by
  unfold observe Watch.read Watch.when intentOf named
  dsimp only
  rw [if_pos henabled]
  by_cases htype : ev.eventType = .intentDetected
  · rw [if_pos htype, if_pos htype]
    cases ev.intent with
    | none => simp [htype]
    | some i =>
        by_cases hblank : isBlank i = false
        · have hkept : (some i).filter (fun i => !isBlank i) = some i := by
            simp [Option.filter, hblank]
          simp [hblank, hkept]
        · have hdropped : (some i).filter (fun i => !isBlank i) = none := by
            simp [Option.filter, hblank]
          simp [hblank, hdropped, htype]
  · rw [if_neg htype, if_neg htype]
    cases t.provider ev with
    | none => simp [htype, Watch.skip]
    | some c => simp [htype]

/-- What one event does to the tracker, and what it is alerted for. -/
structure Observed (config : IntentConfig)
    (provider : TrackingEvent → Option IntentClassification) (past : List TrackingEvent)
    (ev : TrackingEvent) (t : IntentTracker) : Prop where
  follows : Follows config provider (past ++ [ev]) (observe ev t).1
  new : ∀ v : Violation, Shows config provider past ev v → v.key ∉ t.alerted →
    (observe ev t).2.countP (fun b => v.AlertFor b) = 1
  old : ∀ v : Violation, ¬ Shows config provider past ev v ∨ v.key ∈ t.alerted →
    (observe ev t).2.countP (fun b => v.AlertFor b) = 0
  only : ∀ b ∈ (observe ev t).2,
    IsUnclear b ∨ ∃ v : Violation, v.AlertFor b ∧ Shows config provider past ev v

theorem Follows.concat_of {t' : IntentTracker} (h : Follows config provider past t)
    (hconfig : t'.config = config) (hprovider : t'.provider = provider)
    (hcurrent : t'.currentIntent = namedLast (past ++ [ev]))
    (hkeys : ∀ v : Violation, v.key ∈ t'.alerted ↔
      v.key ∈ t.alerted ∨ ∃ w, Shows config provider past ev w ∧ w.key = v.key) :
    Follows config provider (past ++ [ev]) t' := by
  refine ⟨hconfig, hprovider, hcurrent, fun v => ?_⟩
  rw [hkeys v, h.alerted v]
  constructor
  · rintro (⟨w, hw, hkey⟩ | ⟨w, hw, hkey⟩)
    · exact ⟨w, shownBy_concat.mpr (Or.inl hw), hkey⟩
    · exact ⟨w, shownBy_concat.mpr (Or.inr hw), hkey⟩
  · rintro ⟨w, hw, hkey⟩
    rcases shownBy_concat.mp hw with hw | hw
    · exact Or.inl ⟨w, hw, hkey⟩
    · exact Or.inr ⟨w, hw, hkey⟩

/-- An event with an intent. -/
theorem observed_intent {i : String} {conf : Confidence} (h : Follows config provider past t)
    (henabled : config.enabled = true) (hintent : intentOf provider ev = some (i, conf)) :
    Observed config provider past ev t := by
  have hat : violationsAt config provider past ev =
      violationsOf config ev i conf (namedLast past) (named ev).isSome := by
    unfold violationsAt
    rw [hintent]
  have hobserve := observe_eq ev (h.config_eq ▸ henabled : t.config.enabled = true)
  rw [h.provider_eq, hintent] at hobserve
  dsimp only at hobserve
  rw [raises_observeIntent t h.config_eq h.current, ← hat] at hobserve
  have hnodup : ((violationsAt config provider past ev).map Violation.key).Nodup := by
    rw [hat]
    exact nodup_key_violationsOf config ev i conf (namedLast past) (named ev).isSome
  obtain ⟨hbodies, hkeys⟩ := raiseEach_eq config conf ev.eventId
    (violationsAt config provider past ev) t hnodup
  obtain ⟨-, hconfig, hprovider, -⟩ :=
    raiseEach_kept config conf ev.eventId (violationsAt config provider past ev) t
  have hfound : (observe ev t).2 = ((violationsAt config provider past ev).filter
      (fun v => v.key ∉ t.alerted)).map (alertBody t.sessionId config conf ev.eventId) := by
    rw [hobserve]
    exact hbodies
  -- the alerts about a violation are as many as its places in the list
  have hcount : ∀ v : Violation, (observe ev t).2.countP (fun b => v.AlertFor b) =
      ((violationsAt config provider past ev).filter (fun v => v.key ∉ t.alerted)).count v := by
    intro v
    rw [hfound, List.countP_map, List.count]
    refine List.countP_congr fun w _ => ?_
    show decide (v.AlertFor _) = true ↔ (w == v) = true
    rw [decide_eq_true_eq, beq_iff_eq, alertFor_alertBody]
    exact eq_comm
  refine ⟨?_, ?_, ?_, ?_⟩
  · refine h.concat_of ?_ ?_ ?_ ?_
    · rw [hobserve]
      exact hconfig.trans h.config_eq
    · rw [hobserve]
      exact hprovider.trans h.provider_eq
    · rw [hobserve, namedLast_concat]
      cases hev : named ev with
      | none => rfl
      | some j =>
          have hj : j = i := by
            unfold intentOf at hintent
            rw [hev] at hintent
            exact congrArg Prod.fst (Option.some.inj hintent)
          subst hj
          rfl
    · intro v
      rw [hobserve]
      show v.key ∈ (raiseEach config conf ev.eventId _ t).1.alerted ↔ _
      rw [hkeys, List.mem_map]
      simp only [mem_violationsAt]
  · intro v hv hkey
    rw [hcount, List.count_filter (by simpa using hkey)]
    exact List.count_eq_one_of_mem (List.Nodup.of_map _ hnodup) (mem_violationsAt.mpr hv)
  · intro v hv
    rw [hcount, List.count_eq_zero, List.mem_filter, mem_violationsAt]
    rintro ⟨hshows, hkey⟩
    rcases hv with hv | hv
    · exact hv hshows
    · simp [hv] at hkey
  · intro b hb
    rw [hfound] at hb
    obtain ⟨v, hv, rfl⟩ := List.mem_map.mp hb
    exact Or.inr ⟨v, alertFor_alertBody.mpr rfl, mem_violationsAt.mp (List.mem_filter.mp hv).1⟩

/-- An event without an intent: it shows nothing, and is alerted for as unclear at most. -/
theorem observed_none (h : Follows config provider past t)
    (henabled : config.enabled = true) (hintent : intentOf provider ev = none) :
    Observed config provider past ev t := by
  have hshows : ∀ v, ¬ Shows config provider past ev v := by
    intro v hv
    have := mem_violationsAt.mpr hv
    unfold violationsAt at this
    rw [hintent] at this
    exact absurd this List.not_mem_nil
  have hname : named ev = none := by
    unfold intentOf at hintent
    cases hev : named ev with
    | none => rfl
    | some j => rw [hev] at hintent; cases hintent
  have hobserve := observe_eq ev (h.config_eq ▸ henabled : t.config.enabled = true)
  rw [h.provider_eq, hintent] at hobserve
  dsimp only at hobserve
  -- what an event without an intent may do
  have hquiet : (observe ev t).1.config = config ∧ (observe ev t).1.provider = provider
      ∧ (observe ev t).1.currentIntent = t.currentIntent
      ∧ (∀ v : Violation, v.key ∈ (observe ev t).1.alerted ↔ v.key ∈ t.alerted)
      ∧ ∀ b ∈ (observe ev t).2, IsUnclear b := by
    rw [hobserve]
    by_cases htype : ev.eventType = .intentDetected
    · rw [if_pos htype]
      unfold observeUnclear Watch.read raise raiseOnce
      dsimp only
      by_cases hkey : "unclear:" ++ ev.eventId ∈ t.alerted
      · rw [if_pos hkey]
        exact ⟨h.config_eq, h.provider_eq, rfl, fun _ => Iff.rfl,
          fun b hb => absurd hb List.not_mem_nil⟩
      · rw [if_neg hkey]
        refine ⟨h.config_eq, h.provider_eq, rfl, fun v => ?_, fun b hb => ?_⟩
        · rw [List.mem_cons, or_iff_right (v.key_ne_unclear ev.eventId)]
        · rw [List.mem_singleton.mp hb]
          rfl
    · rw [if_neg htype]
      exact ⟨h.config_eq, h.provider_eq, rfl, fun _ => Iff.rfl,
        fun b hb => absurd hb List.not_mem_nil⟩
  obtain ⟨hconfig, hprovider, hcurrent, hkeys, hunclear⟩ := hquiet
  refine ⟨?_, fun v hv _ => absurd hv (hshows v), ?_, fun b hb => Or.inl (hunclear b hb)⟩
  · refine h.concat_of hconfig hprovider ?_ fun v => ?_
    · rw [hcurrent, h.current, namedLast_concat, hname]
      rfl
    · rw [hkeys v]
      exact ⟨Or.inl, fun hor => hor.elim id fun ⟨w, hw, _⟩ => absurd hw (hshows w)⟩
  · intro v _
    rw [List.countP_eq_zero]
    intro b hb hv
    exact not_alertFor_of_isUnclear (hunclear b hb) v (of_decide_eq_true hv)

variable (ev) in
/-- **One event.** -/
theorem observe_spec (h : Follows config provider past t) (henabled : config.enabled = true) :
    Observed config provider past ev t := by
  cases hintent : intentOf provider ev with
  | none => exact observed_none h henabled hintent
  | some c => exact observed_intent h henabled hintent

variable (provider) in
theorem follows_watched (sessionId : String) (henabled : config.enabled = true)
    (evs : List TrackingEvent) :
    Follows config provider evs
      (((new sessionId config).withProvider provider).watched evs) := by
  induction evs using List.reverseRecOn with
  | nil => exact follows_new sessionId config provider
  | append_singleton evs ev ih =>
      rw [watched_concat]
      exact (observe_spec ev ih henabled).follows

/-- Each violation that the run shows has one alert, raised by the event that shows it
first, and every alert is about a violation that its event shows, or about an unclear
intent. -/
def ReportedOnce (shows : List TrackingEvent → TrackingEvent → Violation → Prop)
    (t : IntentTracker) (evs : List TrackingEvent) : Prop :=
  (∀ v, ShownBy shows evs v → (t.alertsOf evs).countP (fun b => v.AlertFor b) = 1) ∧
    ∀ past ev rest, evs = past ++ ev :: rest →
      (∀ v, shows past ev v → ¬ ShownBy shows past v →
        (observe ev (t.watched past)).2.countP (fun b => v.AlertFor b) = 1) ∧
      ∀ b ∈ (observe ev (t.watched past)).2,
        IsUnclear b ∨ ∃ v : Violation, v.AlertFor b ∧ shows past ev v

/-- Where keys tell violations apart, a key is remembered for the violation itself. -/
theorem Follows.key_mem_iff (h : Follows config provider past t) {v : Violation}
    (hkeys : ∀ w, ShownBy (Shows config provider) past w → w.key = v.key → w = v) :
    v.key ∈ t.alerted ↔ ShownBy (Shows config provider) past v := by
  rw [h.alerted v]
  constructor
  · rintro ⟨w, hw, hkey⟩
    exact hkeys w hw hkey ▸ hw
  · intro hv
    exact ⟨v, hv, rfl⟩

/-- The alerts of a run about one violation, by induction on the run: one once it is shown. -/
theorem countP_alertsOf (sessionId : String) (henabled : config.enabled = true) {v : Violation}
    (evs : List TrackingEvent)
    (hkeys : ∀ w, ShownBy (Shows config provider) evs w → w.key = v.key → w = v) :
    (ShownBy (Shows config provider) evs v →
      (((new sessionId config).withProvider provider).alertsOf evs).countP
        (fun b => v.AlertFor b) = 1) ∧
    (¬ ShownBy (Shows config provider) evs v →
      (((new sessionId config).withProvider provider).alertsOf evs).countP
        (fun b => v.AlertFor b) = 0) := by
  induction evs using List.reverseRecOn with
  | nil =>
      refine ⟨?_, fun _ => rfl⟩
      rintro ⟨before, e, after, hsplit, -⟩
      exact absurd hsplit (by simp)
  | append_singleton evs ev ih =>
      have hbefore : ∀ w, ShownBy (Shows config provider) evs w → w.key = v.key → w = v :=
        fun w hw => hkeys w (shownBy_concat.mpr (Or.inl hw))
      obtain ⟨hone, hzero⟩ := ih hbefore
      have hfollows := follows_watched provider sessionId henabled evs
      have hobserved := observe_spec ev hfollows henabled
      have hkey := hfollows.key_mem_iff hbefore
      rw [alertsOf_concat, List.countP_append, shownBy_concat]
      by_cases hshown : ShownBy (Shows config provider) evs v
      · -- raised before, so not again
        rw [hone hshown, hobserved.old v (Or.inr (hkey.mpr hshown))]
        exact ⟨fun _ => rfl, fun hnot => absurd (Or.inl hshown) hnot⟩
      · rw [hzero hshown]
        by_cases hshows : Shows config provider evs ev v
        · rw [hobserved.new v hshows fun hmem => hshown (hkey.mp hmem)]
          exact ⟨fun _ => rfl, fun hnot => absurd (Or.inr hshows) hnot⟩
        · rw [hobserved.old v (Or.inl hshows)]
          exact ⟨fun hor => absurd hor (not_or.mpr ⟨hshown, hshows⟩), fun _ => rfl⟩

/-- **Violations with different joined names are reported once.** -/
theorem reportedOnce_of_names (sessionId : String) (config : IntentConfig)
    (provider : TrackingEvent → Option IntentClassification) (evs : List TrackingEvent)
    (henabled : config.enabled = true)
    (hnames : ∀ v w, ShownBy (Shows config provider) evs v →
      ShownBy (Shows config provider) evs w → v.kind = w.kind → v.names = w.names → v = w) :
    ReportedOnce (Shows config provider) ((new sessionId config).withProvider provider) evs := by
  have hkeys : ∀ v w, ShownBy (Shows config provider) evs v →
      ShownBy (Shows config provider) evs w → w.key = v.key → w = v := by
    intro v w hv hw hkey
    have hkind := Violation.kind_eq_of_key_eq hkey
    unfold Violation.key at hkey
    rw [hkind] at hkey
    exact hnames w v hw hv hkind ((String.append_right_inj _).mp hkey)
  refine ⟨fun v hv => (countP_alertsOf sessionId henabled evs fun w => hkeys v w hv).1 hv, ?_⟩
  intro past ev rest hsplit
  have hfollows := follows_watched provider sessionId henabled past
  have hobserved := observe_spec ev hfollows henabled
  refine ⟨?_, hobserved.only⟩
  intro v hshows hfirst
  have hv : ShownBy (Shows config provider) evs v := ⟨past, ev, rest, hsplit, hshows⟩
  refine hobserved.new v hshows fun hmem => hfirst ((hfollows.key_mem_iff ?_).mp hmem)
  rintro w ⟨before, e, after, rfl, hw⟩ hkey
  refine hkeys v w hv ⟨before, e, after ++ ev :: rest, ?_, hw⟩ hkey
  rw [hsplit, List.append_assoc, List.cons_append]

/-! ## Concrete runs -/

/-- The violations of a run after some events, listed. -/
def violationsIn (config : IntentConfig)
    (provider : TrackingEvent → Option IntentClassification) :
    List TrackingEvent → List TrackingEvent → List Violation
  | _, [] => []
  | past, ev :: rest =>
      violationsAt config provider past ev ++ violationsIn config provider (past ++ [ev]) rest

theorem mem_violationsIn {v : Violation} {past evs before after : List TrackingEvent}
    (hsplit : evs = before ++ ev :: after) (h : Shows config provider (past ++ before) ev v) :
    v ∈ violationsIn config provider past evs := by
  induction before generalizing past evs with
  | nil =>
      subst hsplit
      rw [List.append_nil] at h
      exact List.mem_append_left _ (mem_violationsAt.mpr h)
  | cons e before ih =>
      subst hsplit
      exact List.mem_append_right _ (ih rfl (by rwa [List.append_assoc]))

/-- The event names an intent. -/
def intentEvent (intent : String) (step : Option String) : TrackingEvent :=
  { plainEvent .intentDetected with intent := some intent, workflowStepId := step }

/-- One step with one intent of its own. -/
def oneStepConfig : IntentConfig where
  enabled := true
  allowedIntents := ["verify", "pay"]
  forbiddenIntents := ["leak"]
  escalationIntents := ["pay"]
  stepIntents := [("check", ["verify"])]
  intentTools := []

/-- A run with a mismatch, a shift each way, an escalation and a forbidden intent. -/
theorem reportedOnce_payment : ReportedOnce (Shows oneStepConfig fun _ => none)
    ((new "s1" oneStepConfig).withProvider fun _ => none)
    [intentEvent "verify" (some "check"), intentEvent "pay" (some "check"),
      intentEvent "verify" none, intentEvent "pay" (some "check"), intentEvent "leak" none] := by
  refine reportedOnce_of_names "s1" oneStepConfig _ _ rfl ?_
  have hall : ∀ v ∈ violationsIn oneStepConfig (fun _ => none) []
      [intentEvent "verify" (some "check"), intentEvent "pay" (some "check"),
        intentEvent "verify" none, intentEvent "pay" (some "check"), intentEvent "leak" none],
      ∀ w ∈ violationsIn oneStepConfig (fun _ => none) []
        [intentEvent "verify" (some "check"), intentEvent "pay" (some "check"),
          intentEvent "verify" none, intentEvent "pay" (some "check"),
          intentEvent "leak" none],
        v.kind = w.kind → v.names = w.names → v = w := by decide +kernel
  rintro v w ⟨before, ev, after, hsplit, hv⟩ ⟨before', ev', after', hsplit', hw⟩
  exact hall v (mem_violationsIn hsplit hv) w (mem_violationsIn hsplit' hw)

/-- An intent outside the allowed set that is forbidden has no alert for being outside. -/
theorem forbidden_not_reported_outside :
    ¬ ReportedOnce (ShowsOutside oneStepConfig fun _ => none)
      ((new "s1" oneStepConfig).withProvider fun _ => none) [intentEvent "leak" none] := by
  intro h
  have hone := h.1 (.notAllowed "leak") ⟨[], intentEvent "leak" none, [], rfl,
    ⟨⟨1, "1.0"⟩, rfl, by norm_num⟩, by decide, by decide⟩
  exact absurd hone (by decide +kernel)

end IntentTracker

end Agenomic.Track
