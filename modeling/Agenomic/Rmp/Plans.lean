import Agenomic.Rmp.Alerts

/-!
# Plans and their remedies

A recommendation is made once for a kind and a title, for the first finding that has such a
template, and lists that finding as its source (**`recommend_spec`**). A plan takes the
recommendations whose source is among the findings of its alert.

**`remedied_iff`**: the plans carry all the remedies of their alerts exactly when, for every
template of a finding in a severe alert, the first finding with such a template has its id
among those of the alert. A title that recurs under another agent, or under another kind with
the same templates, is enough for a plan without its remedies.
-/

namespace Agenomic.Rmp.Protect

open Lib

variable {config : ProtectConfig} {ids : Ids} {agentId : String}

/-! ## Recommendations -/

/-- The templates have one kind and one title. -/
def Template.same (t u : Template) : Bool := (u.kind, u.title) = (t.kind, t.title)

/-- The first finding that has a template like this one. -/
def firstWith (findings : List MonitorFinding) (t : Template) : Option MonitorFinding :=
  findings.find? fun f => (recommendationTemplates f).any t.same

/-- The templates of the findings, one after the other. -/
def offers (findings : List MonitorFinding) : List (MonitorFinding × Template) :=
  findings.flatMap fun f => (recommendationTemplates f).map fun t => (f, t)

theorem find_offers (t : Template) : ∀ findings : List MonitorFinding,
    ((offers findings).find? fun o => t.same o.2).map Prod.fst = firstWith findings t
  | [] => rfl
  | f :: findings => by
      have hrest := find_offers t findings
      unfold offers firstWith at *
      rw [List.flatMap_cons, List.find?_append, List.find?_cons, List.find?_map, ← hrest]
      cases hfind : (recommendationTemplates f).find? t.same with
      | none =>
          have hany : (recommendationTemplates f).any t.same = false := by
            rw [List.any_eq_false]
            exact List.find?_eq_none.mp hfind
          have hmap : (recommendationTemplates f).find?
              ((fun o : MonitorFinding × Template => t.same o.2) ∘ fun t => (f, t)) = none := hfind
          rw [hany, hmap]
          rfl
      | some u =>
          have hany : (recommendationTemplates f).any t.same = true :=
            List.any_eq_true.mpr ⟨u, List.mem_of_find?_eq_some hfind, List.find?_some hfind⟩
          have hmap : (recommendationTemplates f).find?
              ((fun o : MonitorFinding × Template => t.same o.2) ∘ fun t => (f, t)) = some u := hfind
          rw [hany, hmap]
          rfl

variable (ids agentId) in
/-- The templates that were seen, and the recommendations made of them. -/
def takeOffers (os : List (MonitorFinding × Template)) :
    List (RecommendationKind × String) × List Recommendation :=
  os.foldl (fun state o => takeTemplate ids agentId o.1 state o.2) ([], [])

theorem recommend_eq (findings : List MonitorFinding) :
    recommend ids agentId findings = (takeOffers ids agentId (offers findings)).2 := by
  unfold recommend takeOffers offers
  rw [List.foldl_flatMap]
  simp only [List.foldl_map]

/-- What holds of the recommendations made of some templates. -/
structure Taken (ids : Ids) (os : List (MonitorFinding × Template))
    (state : List (RecommendationKind × String) × List Recommendation) : Prop where
  seen : state.1 = state.2.map fun r => (r.kind, r.title)
  complete : ∀ o ∈ os, (o.2.kind, o.2.title) ∈ state.1
  /-- Each is made for the first finding with such a template. -/
  source : ∀ r ∈ state.2, ∃ o, (os.find? fun o => (o.2.kind, o.2.title) = (r.kind, r.title)) = some o
    ∧ r.sourceFindingIds = [o.1.stamp.findingId]
  numbered : state.2.map (·.recommendationId)
    = (List.range state.2.length).map ids.recommendation

theorem taken_takeOffers (os : List (MonitorFinding × Template)) :
    Taken ids os (takeOffers ids agentId os) := by
  induction os using List.reverseRecOn with
  | nil =>
      refine ⟨rfl, ?_, ?_, rfl⟩
      · intro o ho
        exact absurd ho List.not_mem_nil
      · intro r hr
        exact absurd hr List.not_mem_nil
  | append_singleton os o ih =>
      have hstep : takeOffers ids agentId (os ++ [o])
          = takeTemplate ids agentId o.1 (takeOffers ids agentId os) o.2 := by
        unfold takeOffers
        rw [List.foldl_append]
        rfl
      rw [hstep]
      generalize takeOffers ids agentId os = state at ih ⊢
      -- what was found before is found still
      have hold : ∀ r ∈ state.2, ∃ o',
          ((os ++ [o]).find? fun o => (o.2.kind, o.2.title) = (r.kind, r.title)) = some o'
            ∧ r.sourceFindingIds = [o'.1.stamp.findingId] := by
        intro r hr
        obtain ⟨o', hfind, hsource⟩ := ih.source r hr
        refine ⟨o', ?_, hsource⟩
        rw [List.find?_append, hfind]
        rfl
      unfold takeTemplate
      by_cases hseen : (o.2.kind, o.2.title) ∈ state.1
      · rw [if_pos hseen]
        refine ⟨ih.seen, ?_, hold, ih.numbered⟩
        intro o' ho'
        rcases List.mem_append.mp ho' with ho' | ho'
        · exact ih.complete o' ho'
        · rw [List.mem_singleton.mp ho']
          exact hseen
      · rw [if_neg hseen]
        refine ⟨?_, ?_, ?_, ?_⟩
        · rw [List.map_append, ← ih.seen]
          rfl
        · intro o' ho'
          rcases List.mem_append.mp ho' with ho' | ho'
          · exact List.mem_append_left _ (ih.complete o' ho')
          · rw [List.mem_singleton.mp ho']
            exact List.mem_append_right _ (List.mem_singleton_self _)
        · intro r hr
          rcases List.mem_append.mp hr with hr | hr
          · exact hold r hr
          · rw [List.mem_singleton.mp hr]
            refine ⟨o, ?_, rfl⟩
            -- no template before was like this one
            have hnone : (os.find? fun o' => (o'.2.kind, o'.2.title) = (o.2.kind, o.2.title))
                = none := by
              rw [List.find?_eq_none]
              intro o' ho' heq
              exact hseen (of_decide_eq_true heq ▸ ih.complete o' ho')
            show ((os ++ [o]).find? fun o' => (o'.2.kind, o'.2.title) = (o.2.kind, o.2.title)) = _
            rw [List.find?_append, hnone, Option.none_or, List.find?_cons_of_pos]
            exact decide_eq_true rfl
        · rw [List.map_append, ih.numbered, List.length_append, List.length_singleton,
            List.range_succ, List.map_append]
          rfl

/-- **A recommendation** is made for the first finding with such a template, and lists it. -/
theorem recommend_spec {findings : List MonitorFinding} {r : Recommendation}
    (h : r ∈ recommend ids agentId findings) {t : Template} (hkind : r.kind = t.kind)
    (htitle : r.title = t.title) :
    ∃ first, firstWith findings t = some first ∧ r.sourceFindingIds = [first.stamp.findingId] := by
  rw [recommend_eq] at h
  obtain ⟨o, hfind, hsource⟩ := (taken_takeOffers (offers findings)).source r h
  refine ⟨o.1, ?_, hsource⟩
  rw [hkind, htitle] at hfind
  have hsame : ((offers findings).find? fun o => t.same o.2) = some o := hfind
  rw [← find_offers, hsame]
  rfl

/-- Every template of a finding is recommended. -/
theorem exists_recommend {findings : List MonitorFinding} {f : MonitorFinding} (hf : f ∈ findings)
    {t : Template} (ht : t ∈ recommendationTemplates f) :
    ∃ r ∈ recommend ids agentId findings, r.kind = t.kind ∧ r.title = t.title := by
  have htaken : Taken ids (offers findings) (takeOffers ids agentId (offers findings)) :=
    taken_takeOffers (offers findings)
  have hoffer : (f, t) ∈ offers findings :=
    List.mem_flatMap.mpr ⟨f, hf, List.mem_map.mpr ⟨t, ht, rfl⟩⟩
  have hseen := htaken.complete (f, t) hoffer
  rw [htaken.seen] at hseen
  obtain ⟨r, hr, heq⟩ := List.mem_map.mp hseen
  rw [recommend_eq]
  exact ⟨r, hr, congrArg Prod.fst heq, congrArg Prod.snd heq⟩

/-- No two recommendations have one id. -/
theorem recommendation_unique (hinj : Function.Injective ids.recommendation)
    {findings : List MonitorFinding} {r r' : Recommendation}
    (hr : r ∈ recommend ids agentId findings) (hr' : r' ∈ recommend ids agentId findings)
    (h : r.recommendationId = r'.recommendationId) : r = r' := by
  rw [recommend_eq] at hr hr'
  have hnodup : ((takeOffers ids agentId (offers findings)).2.map
      (·.recommendationId)).Nodup := by
    rw [(taken_takeOffers (offers findings)).numbered]
    exact List.nodup_range.map hinj
  exact List.inj_on_of_nodup_map hnodup hr hr' h

/-! ## Plans -/

/-- A step that names a recommendation is that of a related one. -/
theorem related_of_mem_planSteps {a : Alert} {recommendations : List Recommendation}
    {s : ActionPlanStep} {recId : String} (hs : s ∈ planSteps a recommendations)
    (hid : recId ∈ s.recommendationIds) :
    ∃ r ∈ relatedRecs a recommendations, r.recommendationId = recId := by
  have hnone : ∀ {title description phase : String} {approval : Bool},
      s ≠ step title description phase approval [] := by
    intro title description phase approval heq
    rw [heq] at hid
    exact absurd hid List.not_mem_nil
  unfold planSteps at hs
  rcases List.mem_append.mp hs with hs | hs
  · rcases List.mem_append.mp hs with hs | hs
    · rcases List.mem_append.mp hs with hs | hs
      · exact absurd (List.mem_singleton.mp hs) hnone
      · split at hs
        · exact absurd (List.mem_singleton.mp hs) hnone
        · exact absurd hs List.not_mem_nil
    · obtain ⟨r, hr, rfl⟩ := List.mem_map.mp hs
      exact ⟨r, hr, (List.mem_singleton.mp hid).symm⟩
  · rcases List.mem_cons.mp hs with hs | hs
    · exact absurd hs hnone
    · exact absurd (List.mem_singleton.mp hs) hnone

/-- The steps of a plan that remedy something are those of the related recommendations. -/
theorem mem_remediate {i : Nat} {a : Alert} {recommendations : List Recommendation}
    {proposals : List ScenarioEnrichmentProposal} {recId : String} :
    (∃ s ∈ (actionPlan ids i a recommendations proposals).steps,
      s.phase = "remediate" ∧ recId ∈ s.recommendationIds)
      ↔ ∃ r ∈ relatedRecs a recommendations, r.recommendationId = recId := by
  constructor
  · intro ⟨s, hs, _, hid⟩
    obtain ⟨j, hj, rfl⟩ := List.mem_mapIdx.mp hs
    exact related_of_mem_planSteps (List.getElem_mem hj) hid
  · intro ⟨r, hr, hid⟩
    have hmem : remediation r ∈ planSteps a recommendations := by
      unfold planSteps
      exact List.mem_append_left _ (List.mem_append_right _ (List.mem_map_of_mem hr))
    obtain ⟨j, hj, heq⟩ := List.getElem_of_mem hmem
    refine ⟨_, List.mem_mapIdx.mpr ⟨j, hj, rfl⟩, ?_, ?_⟩
    · show ((planSteps a recommendations)[j]).phase = "remediate"
      rw [heq]
      rfl
    · show recId ∈ ((planSteps a recommendations)[j]).recommendationIds
      rw [heq]
      exact List.mem_singleton.mpr hid.symm

theorem mem_relatedRecs {a : Alert} {recommendations : List Recommendation} {r : Recommendation} :
    r ∈ relatedRecs a recommendations
      ↔ r ∈ recommendations ∧ ∃ id ∈ r.sourceFindingIds, id ∈ a.findingIds := by
  unfold relatedRecs
  rw [List.mem_filter, List.any_eq_true]
  simp only [List.contains_iff_mem]

/-- No two alerts have one id. -/
theorem alert_unique (hinj : Function.Injective ids.alert) {xs : List MonitorFinding} {a b : Alert}
    (ha : a ∈ generateAlerts config ids agentId xs)
    (hb : b ∈ generateAlerts config ids agentId xs) (h : a.alertId = b.alertId) : a = b := by
  obtain ⟨i, g, first, hg, hfirst, rfl⟩ := mem_generateAlerts.mp ha
  obtain ⟨j, g', first', hg', hfirst', rfl⟩ := mem_generateAlerts.mp hb
  obtain rfl : i = j := hinj h
  rw [hg] at hg'
  cases hg'
  rw [hfirst] at hfirst'
  cases hfirst'
  rfl

/-! ## Remedies -/

variable (config ids agentId) in
/-- Every severe alert has a plan with a step for each template of its findings. -/
def Remedied (findings : List MonitorFinding) (riskMatrix : Option RiskMatrix) : Prop :=
  ∀ a ∈ (run config ids agentId findings riskMatrix).alerts, Severity.high ≤ a.severity →
    ∃ plan ∈ (run config ids agentId findings riskMatrix).actionPlans, plan.alertId = a.alertId
      ∧ ∀ f ∈ candidates config ids agentId findings riskMatrix, dedupKey f = a.dedupKey →
        ∀ t ∈ recommendationTemplates f,
          ∃ r ∈ (run config ids agentId findings riskMatrix).recommendations,
            r.kind = t.kind ∧ r.title = t.title ∧ ∃ s ∈ plan.steps, s.phase = "remediate"
              ∧ r.recommendationId ∈ s.recommendationIds

/-- For every template of a finding in a severe group, the first finding with such a template
has its id among those of the group. -/
def FirstInGroup (findings : List MonitorFinding) : Prop :=
  ∀ f ∈ findings, (∃ g ∈ findings, dedupKey g = dedupKey f ∧ Severity.high ≤ g.body.severity) →
    ∀ t ∈ recommendationTemplates f, ∀ first, firstWith (sorted findings) t = some first →
      ∃ g ∈ findings, dedupKey g = dedupKey f ∧ g.stamp.findingId = first.stamp.findingId

/-- An alert's plan remedies a template when its first finding is one of the alert's. -/
theorem remedies_iff (hrecs : Function.Injective ids.recommendation)
    {all : List MonitorFinding} {a : Alert} (ha : a ∈ generateAlerts config ids agentId (sorted all))
    {f : MonitorFinding} (hf : f ∈ all) {t : Template} (ht : t ∈ recommendationTemplates f)
    (i : Nat) (proposals : List ScenarioEnrichmentProposal) :
    (∃ r ∈ recommend ids agentId (sorted all), r.kind = t.kind ∧ r.title = t.title
      ∧ ∃ s ∈ (actionPlan ids i a (recommend ids agentId (sorted all)) proposals).steps,
        s.phase = "remediate" ∧ r.recommendationId ∈ s.recommendationIds)
      ↔ ∀ first, firstWith (sorted all) t = some first →
        ∃ g ∈ all, dedupKey g = a.dedupKey ∧ g.stamp.findingId = first.stamp.findingId := by
  have hlisted : ∀ id, id ∈ a.findingIds
      ↔ ∃ g ∈ all, dedupKey g = a.dedupKey ∧ g.stamp.findingId = id := by
    intro id
    rw [findingIds_alert ha, List.mem_map]
    refine exists_congr fun g => ?_
    rw [List.mem_filter, decide_eq_true_eq, mem_sorted, and_assoc]
  constructor
  · intro ⟨r, hr, hkind, htitle, hstep⟩ first hfirst
    obtain ⟨r', hrelated, hid⟩ := mem_remediate.mp hstep
    obtain ⟨hr', id, hsource, hmem⟩ := mem_relatedRecs.mp hrelated
    obtain rfl := recommendation_unique hrecs hr' hr hid
    obtain ⟨first', hfirst', hids⟩ := recommend_spec hr hkind htitle
    rw [hfirst] at hfirst'
    cases hfirst'
    rw [hids] at hsource
    rw [List.mem_singleton.mp hsource] at hmem
    exact (hlisted _).mp hmem
  · intro h
    obtain ⟨r, hr, hkind, htitle⟩ := exists_recommend (mem_sorted.mpr hf) ht
    obtain ⟨first, hfirst, hids⟩ := recommend_spec hr hkind htitle
    refine ⟨r, hr, hkind, htitle, mem_remediate.mpr ⟨r, ?_, rfl⟩⟩
    refine mem_relatedRecs.mpr ⟨hr, first.stamp.findingId, ?_, (hlisted _).mpr (h first hfirst)⟩
    rw [hids]
    exact List.mem_singleton_self _

/-- An alert is severe exactly when a finding with its key is. -/
theorem severe_iff {all : List MonitorFinding} {a : Alert}
    (ha : a ∈ generateAlerts config ids agentId (sorted all)) : Severity.high ≤ a.severity
      ↔ ∃ g ∈ all, dedupKey g = a.dedupKey ∧ Severity.high ≤ g.body.severity := by
  obtain ⟨hle, f, hf, hkey, hworst⟩ := severity_alert ha
  constructor
  · intro h
    exact ⟨f, mem_sorted.mp hf, hkey, hworst ▸ h⟩
  · intro ⟨g, hg, hgkey, hhigh⟩
    exact hhigh.trans (hle g (mem_sorted.mpr hg) hgkey)

/-- Every severe alert has a plan, which is made for it. -/
theorem exists_plan {findings : List MonitorFinding} {riskMatrix : Option RiskMatrix} {a : Alert}
    (ha : a ∈ (run config ids agentId findings riskMatrix).alerts)
    (hhigh : Severity.high ≤ a.severity) :
    ∃ i, actionPlan ids i a (run config ids agentId findings riskMatrix).recommendations
      (run config ids agentId findings riskMatrix).scenarioProposals
        ∈ (run config ids agentId findings riskMatrix).actionPlans := by
  have hmem : a ∈ (run config ids agentId findings riskMatrix).alerts.filter
      fun a => Severity.high ≤ a.severity :=
    List.mem_filter.mpr ⟨ha, decide_eq_true hhigh⟩
  obtain ⟨i, hi, heq⟩ := List.getElem_of_mem hmem
  exact ⟨i, List.mem_mapIdx.mpr ⟨i, hi, congrArg (fun a => actionPlan ids i a _ _) heq⟩⟩

/-- **The plans carry their remedies** exactly when the first finding with a template of a
finding in a severe group belongs to that group. -/
theorem remedied_iff (config : ProtectConfig) (ids : Ids) (agentId : String)
    (findings : List MonitorFinding) (riskMatrix : Option RiskMatrix)
    (halerts : Function.Injective ids.alert) (hrecs : Function.Injective ids.recommendation) :
    Remedied config ids agentId findings riskMatrix
      ↔ FirstInGroup (candidates config ids agentId findings riskMatrix) := by
  constructor
  · intro h f hf hsevere t ht first hfirst
    obtain ⟨a, ha, hkey⟩ := @exists_alert config ids agentId _ _ (mem_sorted.mpr hf)
    have hhigh : Severity.high ≤ a.severity := (severe_iff ha).mpr (hkey ▸ hsevere)
    obtain ⟨plan, hplan, hid, hall⟩ := h a ha hhigh
    obtain ⟨i, hi, rfl⟩ := List.mem_mapIdx.mp hplan
    have hmem := (List.mem_filter.mp (List.getElem_mem hi)).1
    have hsame := alert_unique halerts hmem ha hid
    have hremedy := hall f hf hkey.symm t ht
    rw [hsame] at hremedy
    rw [← hkey]
    exact (remedies_iff hrecs ha hf ht i _).mp hremedy first hfirst
  · intro h a ha hhigh
    obtain ⟨i, hplan⟩ := exists_plan ha hhigh
    refine ⟨_, hplan, rfl, ?_⟩
    intro f hf hkey t ht
    refine (remedies_iff hrecs ha hf ht i _).mpr fun first hfirst => ?_
    rw [← hkey]
    exact h f hf (hkey ▸ (severe_iff ha).mp hhigh) t ht first hfirst

theorem remedied_iff_failures :
    Remedied {} sampleIds "agent://acme/claims" failures none
      ↔ FirstInGroup (candidates {} sampleIds "agent://acme/claims" failures none) :=
  remedied_iff {} sampleIds "agent://acme/claims" failures none (strokes_injective 'a')
    (strokes_injective 'r')

/-- Misuse of tools by two agents, with one title. -/
def misuses : List MonitorFinding :=
  [sample "m1" "a" "shell" .toolMisuse .high, sample "m2" "b" "shell" .toolMisuse .high]

/-- The plan for the second agent has none of its remedies. -/
theorem not_remedied : ¬ Remedied {} sampleIds "a" misuses none := by
  intro h
  have hplans : ∀ plan ∈ (run {} sampleIds "a" misuses none).actionPlans,
      plan.alertId = strokes 'a' 1 → ∀ s ∈ plan.steps, s.phase ≠ "remediate" := by
    decide +kernel
  have halert : ∃ a ∈ (run {} sampleIds "a" misuses none).alerts, a.alertId = strokes 'a' 1
      ∧ Severity.high ≤ a.severity
      ∧ dedupKey (sample "m2" "b" "shell" .toolMisuse .high) = a.dedupKey := by
    decide +kernel
  obtain ⟨a, ha, hid, hhigh, hkey⟩ := halert
  obtain ⟨plan, hplan, hplanId, hall⟩ := h a ha hhigh
  have hsecond : sample "m2" "b" "shell" .toolMisuse .high
      ∈ candidates {} sampleIds "a" misuses none :=
    List.mem_append_left _ (List.mem_cons_of_mem _ List.mem_cons_self)
  obtain ⟨r, -, -, -, s, hs, hphase, -⟩ := hall _ hsecond hkey _ List.mem_cons_self
  exact hplans plan hplan (hplanId.trans hid) s hs hphase

end Agenomic.Rmp.Protect
