import Agenomic.Lib.Split
import Agenomic.Rmp.Protect

/-!
# Alerts

The findings of an alert are those with its key (**`alert_group`**), and every finding has one
alert. The alerts do not depend on the order of the input: sorted, the findings stand in an
order of their own, and what depends on the order of the input, the evidence of an anomaly, is
sorted once more.

**`groupsExactly_iff`**: two findings share an alert exactly when they have one kind, agent and
title, as long as no two of one kind have other agents and titles that read the same around the
colon between them.
-/

namespace Agenomic.Rmp

/-- The kind with a label. -/
def FindingKind.ofLabel (s : String) : Option FindingKind :=
  [riskGap, contractViolation, policyViolation, regression, scenarioFailure, coverageGap,
    replayDivergence, drift, loop, intentShift, failure, harnessViolation, anomaly, toolMisuse,
    memoryMisuse, dangerousAutonomy, forbiddenIntent, unexpectedWorkflowTransition,
    repeatedFailure, lowReplayFidelity, missingHumanApproval, suspiciousOutput,
    other].find? fun k => k.label = s

theorem FindingKind.ofLabel_label (k : FindingKind) : ofLabel k.label = some k := by
  cases k <;> rfl

theorem FindingKind.label_injective : Function.Injective FindingKind.label := by
  intro k k' h
  have hsome := ofLabel_label k
  rw [h, ofLabel_label k'] at hsome
  exact (Option.some.inj hsome).symm

theorem FindingKind.colon_notMem_label (k : FindingKind) : ':' ∉ k.label.toList := by
  cases k <;> simp [label]

namespace Protect

open Lib

variable {config : ProtectConfig} {ids : Ids} {agentId : String}

/-! ## Keys -/

/-- The agent and the title of a finding, as the key has them. -/
def signature (f : MonitorFinding) : String := f.body.agentId ++ ":" ++ f.body.title

/-- Findings have one key when they have one kind and their signatures read the same. -/
theorem dedupKey_eq_iff {f g : MonitorFinding} :
    dedupKey f = dedupKey g ↔ f.body.kind = g.body.kind ∧ signature f = signature g := by
  have hkey : ∀ f : MonitorFinding,
      (dedupKey f).toList = f.body.kind.label.toList ++ ':' :: (signature f).toList := by
    intro f
    have htext : dedupKey f
        = f.body.kind.label ++ ":" ++ f.body.agentId ++ ":" ++ f.body.title := rfl
    rw [htext]
    unfold signature
    simp [String.toList_append]
  rw [← String.toList_inj, hkey f, hkey g,
    append_cons_inj_of_notMem_left f.body.kind.colon_notMem_label g.body.kind.colon_notMem_label,
    String.toList_inj, String.toList_inj, FindingKind.label_injective.eq_iff]

/-! ## One alert for each key -/

theorem keys_of_groups {gs : List (String × List MonitorFinding)}
    {F : Nat → String × List MonitorFinding → Option Alert}
    (hF : ∀ i, ∀ g ∈ gs, ∃ a, F i g = some a ∧ a.dedupKey = g.1) :
    ((gs.mapIdx F).filterMap id).map Alert.dedupKey = gs.map Prod.fst := by
  induction gs generalizing F with
  | nil => rfl
  | cons g gs ih =>
      obtain ⟨a, ha, hkey⟩ := hF 0 g List.mem_cons_self
      have hrest := ih (F := fun i => F (i + 1)) fun i g' hg' =>
        hF (i + 1) g' (List.mem_cons_of_mem g hg')
      rw [List.mapIdx_cons, ha, List.filterMap_cons_some (f := id) rfl, List.map_cons, List.map_cons, hkey,
        hrest]

/-- The alerts have the keys of the groups, each once. -/
theorem keys_generateAlerts (xs : List MonitorFinding) :
    ((generateAlerts config ids agentId xs).map Alert.dedupKey).Perm
      ((groups dedupKey xs).map Prod.fst) := by
  unfold generateAlerts
  refine ((List.perm_insertionSort _ _).map _).trans (List.Perm.of_eq (keys_of_groups ?_))
  intro i g hg
  obtain ⟨hne, -⟩ := mem_groups.mp hg
  obtain ⟨first, hfirst⟩ := Option.ne_none_iff_exists'.mp (mt List.head?_eq_none_iff.mp hne)
  rw [hfirst]
  exact ⟨_, rfl, rfl⟩

theorem nodup_keys (xs : List MonitorFinding) :
    ((generateAlerts config ids agentId xs).map Alert.dedupKey).Nodup := by
  rw [(keys_generateAlerts xs).nodup_iff, List.nodup_iff_pairwise_ne, List.pairwise_map]
  exact (groups_sorted dedupKey xs).imp ne_of_lt

theorem mem_generateAlerts {xs : List MonitorFinding} {a : Alert} :
    a ∈ generateAlerts config ids agentId xs ↔ ∃ i g first, (groups dedupKey xs)[i]? = some g
      ∧ g.2.head? = some first ∧ a = alertOf config ids agentId i g.1 first g.2 := by
  unfold generateAlerts
  rw [List.mem_insertionSort, List.mem_filterMap]
  constructor
  · intro ⟨o, ho, hsome⟩
    obtain ⟨i, hi, rfl⟩ := List.mem_mapIdx.mp ho
    obtain ⟨first, hfirst, rfl⟩ := Option.map_eq_some_iff.mp hsome
    exact ⟨i, _, first, List.getElem?_eq_getElem hi, hfirst, rfl⟩
  · intro ⟨i, g, first, hg, hfirst, ha⟩
    obtain ⟨hi, rfl⟩ := List.getElem?_eq_some_iff.mp hg
    refine ⟨some a, List.mem_mapIdx.mpr ⟨i, hi, ?_⟩, rfl⟩
    rw [hfirst, ha]
    rfl

/-- **The findings of an alert** are those with its key. -/
theorem alert_group {xs : List MonitorFinding} {a : Alert}
    (h : a ∈ generateAlerts config ids agentId xs) :
    ∃ i first, (xs.filter (dedupKey · = a.dedupKey)).head? = some first
      ∧ a = alertOf config ids agentId i a.dedupKey first
        (xs.filter (dedupKey · = a.dedupKey)) := by
  obtain ⟨i, g, first, hg, hfirst, rfl⟩ := mem_generateAlerts.mp h
  obtain ⟨-, hgroup⟩ := mem_groups.mp (List.mem_of_getElem? hg)
  refine ⟨i, first, ?_, ?_⟩
  · rw [← hfirst, hgroup]
    rfl
  · exact congrArg (alertOf config ids agentId i g.1 first) hgroup

/-- Every finding has an alert. -/
theorem exists_alert {xs : List MonitorFinding} {f : MonitorFinding} (hf : f ∈ xs) :
    ∃ a ∈ generateAlerts config ids agentId xs, a.dedupKey = dedupKey f := by
  have hmem : f ∈ xs.filter (dedupKey · = dedupKey f) :=
    List.mem_filter.mpr ⟨hf, decide_eq_true rfl⟩
  have hgroup : (dedupKey f, xs.filter (dedupKey · = dedupKey f)) ∈ groups dedupKey xs :=
    mem_groups.mpr ⟨List.ne_nil_of_mem hmem, rfl⟩
  have hkey : dedupKey f ∈ (generateAlerts config ids agentId xs).map Alert.dedupKey :=
    (keys_generateAlerts xs).mem_iff.mpr (List.mem_map.mpr ⟨_, hgroup, rfl⟩)
  exact List.mem_map.mp hkey

theorem findingIds_alert {xs : List MonitorFinding} {a : Alert}
    (h : a ∈ generateAlerts config ids agentId xs) :
    a.findingIds = (xs.filter (dedupKey · = a.dedupKey)).map (·.stamp.findingId) := by
  obtain ⟨i, first, -, ha⟩ := alert_group h
  exact congrArg Alert.findingIds ha

/-- Where ids are distinct, an alert lists the findings with its key. -/
theorem mem_findingIds {xs : List MonitorFinding} (hnodup : (xs.map (·.stamp.findingId)).Nodup)
    {a : Alert} (h : a ∈ generateAlerts config ids agentId xs) {f : MonitorFinding} (hf : f ∈ xs) :
    f.stamp.findingId ∈ a.findingIds ↔ dedupKey f = a.dedupKey := by
  rw [findingIds_alert h, List.mem_map]
  constructor
  · intro ⟨g, hg, hid⟩
    obtain ⟨hmem, hkey⟩ := List.mem_filter.mp hg
    rw [List.inj_on_of_nodup_map hnodup hmem hf hid] at hkey
    exact of_decide_eq_true hkey
  · intro hkey
    exact ⟨f, List.mem_filter.mpr ⟨hf, decide_eq_true hkey⟩, rfl⟩

/-! ## Severities -/

theorem worst_spec (first : MonitorFinding) : ∀ group : List MonitorFinding,
    (∀ f ∈ first :: group, f.body.severity ≤ worst first group)
      ∧ ∃ f ∈ first :: group, f.body.severity = worst first group := by
  intro group
  induction group using List.reverseRecOn with
  | nil => exact ⟨fun f hf => (List.mem_singleton.mp hf) ▸ le_refl _, first, List.mem_cons_self, rfl⟩
  | append_singleton group g ih =>
      obtain ⟨hle, f, hf, hworst⟩ := ih
      have hstep : worst first (group ++ [g]) = max (worst first group) g.body.severity := by
        unfold worst
        rw [List.foldl_append]
        rfl
      rw [hstep, ← List.cons_append]
      constructor
      · intro f' hf'
        rcases List.mem_append.mp hf' with hold | hnew
        · exact le_max_of_le_left (hle f' hold)
        · rw [List.mem_singleton.mp hnew]
          exact le_max_right _ _
      · rcases max_choice (worst first group) g.body.severity with hmax | hmax
        · exact ⟨f, List.mem_append_left _ hf, hworst.trans hmax.symm⟩
        · exact ⟨g, List.mem_append_right _ (List.mem_singleton_self g), hmax.symm⟩

/-- The severity of an alert is the highest of the findings with its key. -/
theorem severity_alert {xs : List MonitorFinding} {a : Alert}
    (h : a ∈ generateAlerts config ids agentId xs) :
    (∀ f ∈ xs, dedupKey f = a.dedupKey → f.body.severity ≤ a.severity)
      ∧ ∃ f ∈ xs, dedupKey f = a.dedupKey ∧ f.body.severity = a.severity := by
  obtain ⟨i, first, hfirst, ha⟩ := alert_group h
  have hseverity : a.severity = worst first (xs.filter (dedupKey · = a.dedupKey)) :=
    congrArg Alert.severity ha
  obtain ⟨hle, f, hf, hworst⟩ := worst_spec first (xs.filter (dedupKey · = a.dedupKey))
  rw [hseverity]
  constructor
  · intro f' hf' hkey
    exact hle f' (List.mem_cons_of_mem _ (List.mem_filter.mpr ⟨hf', decide_eq_true hkey⟩))
  · have hmem : f ∈ xs.filter (dedupKey · = a.dedupKey) := by
      rcases List.mem_cons.mp hf with rfl | hf
      · exact List.mem_of_mem_head? hfirst
      · exact hf
    obtain ⟨hxs, hkey⟩ := List.mem_filter.mp hmem
    exact ⟨f, hxs, of_decide_eq_true hkey, hworst⟩

/-! ## The order of the input -/

def calmBody (b : FindingBody) : FindingBody :=
  { b with evidenceRefs := sortDedup (· ≤ ·) b.evidenceRefs }

/-- The finding with its evidence in order. -/
def calm (f : MonitorFinding) : MonitorFinding := ⟨f.stamp, calmBody f.body⟩

theorem worst_calm (first : MonitorFinding) (group : List MonitorFinding) :
    worst (calm first) (group.map calm) = worst first group := by
  unfold worst
  rw [List.foldl_map]
  rfl

/-- An alert has the evidence in order anyway. -/
theorem alertOf_calm (i : Nat) (key : String) (first : MonitorFinding)
    (group : List MonitorFinding) : alertOf config ids agentId i key (calm first) (group.map calm)
      = alertOf config ids agentId i key first group := by
  have hids : (group.map calm).map (·.stamp.findingId) = group.map (·.stamp.findingId) := by
    rw [List.map_map]
    rfl
  have hevidence : sortDedup (· ≤ ·) ((group.map calm).flatMap (·.body.evidenceRefs))
      = sortDedup (· ≤ ·) (group.flatMap (·.body.evidenceRefs)) := by
    refine sortDedup_congr fun x => ?_
    rw [List.flatMap_map, List.mem_flatMap, List.mem_flatMap]
    refine exists_congr fun f => and_congr_right fun _ => ?_
    exact mem_sortDedup
  unfold alertOf
  rw [worst_calm, hids, hevidence, List.length_map]
  rfl

theorem generateAlerts_calm (xs : List MonitorFinding) :
    generateAlerts config ids agentId (xs.map calm) = generateAlerts config ids agentId xs := by
  unfold generateAlerts
  have hkey : (fun f => dedupKey (calm f)) = dedupKey := rfl
  dsimp only
  rw [groups_map, hkey, mapIdx_map]
  have hgroup : ∀ i (g : String × List MonitorFinding),
      ((g.2.map calm).head?.map fun first => alertOf config ids agentId i g.1 first (g.2.map calm))
        = g.2.head?.map fun first => alertOf config ids agentId i g.1 first g.2 := by
    intro i g
    rw [List.head?_map, Option.map_map]
    congr 1
    funext first
    exact alertOf_calm i g.1 first g.2
  have hall : (fun (i : Nat) (g : String × List MonitorFinding) =>
      (g.2.map calm).head?.map fun first => alertOf config ids agentId i g.1 first (g.2.map calm))
        = fun i g => g.2.head?.map fun first => alertOf config ids agentId i g.1 first g.2 := by
    funext i g
    exact hgroup i g
  exact congrArg (fun F => (((groups dedupKey xs).mapIdx F).filterMap id).insertionSort
    fun a b => alertRank a ≤ alertRank b) hall

theorem sorted_calm (xs : List MonitorFinding) : sorted (xs.map calm) = (sorted xs).map calm :=
  (List.map_insertionSort _ _ calm xs fun _ _ _ _ => Iff.rfl).symm

/-- Where ids are distinct, the sorted list does not depend on the order. -/
theorem sorted_eq_of_perm {xs ys : List MonitorFinding} (hperm : xs.Perm ys)
    (hnodup : (xs.map (·.stamp.findingId)).Nodup) : sorted xs = sorted ys := by
  have hsorted : ∀ zs : List MonitorFinding, (sorted zs).Pairwise fun a b => rank a ≤ rank b :=
    fun zs => List.pairwise_insertionSort _ zs
  have hmem : ∀ {zs : List MonitorFinding} {f : MonitorFinding}, f ∈ sorted zs ↔ f ∈ zs :=
    List.mem_insertionSort _
  have hsame : (sorted xs).Perm (sorted ys) :=
    (List.perm_insertionSort _ xs).trans (hperm.trans (List.perm_insertionSort _ ys).symm)
  refine List.Perm.eq_of_pairwise ?_ (hsorted xs) (hsorted ys) hsame
  intro a b ha hb hab hba
  have hrank := le_antisymm hab hba
  have hid : a.stamp.findingId = b.stamp.findingId := congrArg (fun r => (ofLex (ofLex r).2).2) hrank
  exact List.inj_on_of_nodup_map hnodup (hmem.mp ha) (hperm.mem_iff.mpr (hmem.mp hb)) hid

theorem calm_repeatedFailures {xs ys : List MonitorFinding} (h : xs.Perm ys) :
    (repeatedFailures config ids agentId xs).map calmBody
      = (repeatedFailures config ids agentId ys).map calmBody := by
  have hfilter := h.filter isFailure
  unfold repeatedFailures
  dsimp only
  rw [hfilter.length_eq]
  split
  · have hevidence := sortDedup_congr fun x => (hfilter.map (·.stamp.findingId)).mem_iff (a := x)
    simp only [List.map_cons, List.map_nil, calmBody, newFinding, hevidence]
  · rfl

theorem calm_missingApproval {xs ys : List MonitorFinding} (h : xs.Perm ys) :
    (missingApproval ids agentId xs).map calmBody
      = (missingApproval ids agentId ys).map calmBody := by
  have hfilter := h.filter isUnapproved
  have hnil : xs.filter isUnapproved = [] ↔ ys.filter isUnapproved = [] := by
    rw [← List.length_eq_zero_iff, ← List.length_eq_zero_iff, hfilter.length_eq]
  unfold missingApproval
  dsimp only
  by_cases hx : xs.filter isUnapproved = []
  · rw [if_pos hx, if_pos (hnil.mp hx)]
  · rw [if_neg hx, if_neg (mt hnil.mpr hx), hfilter.length_eq]
    have hevidence := sortDedup_congr fun x => (hfilter.map (·.stamp.findingId)).mem_iff (a := x)
    simp only [List.map_cons, List.map_nil, calmBody, newFinding, hevidence]

theorem dangerousAutonomy_perm {xs ys : List MonitorFinding} (h : xs.Perm ys)
    (riskMatrix : Option RiskMatrix) :
    dangerousAutonomy ids agentId xs riskMatrix = dangerousAutonomy ids agentId ys riskMatrix := by
  have hany : xs.any isRisky = ys.any isRisky := h.any_eq
  unfold dangerousAutonomy
  rw [hany]

/-- The anomalies depend on the order of the input by the order of their evidence only. -/
theorem calm_detectAnomalies {xs ys : List MonitorFinding} (h : xs.Perm ys)
    (riskMatrix : Option RiskMatrix) :
    (detectAnomalies config ids agentId xs riskMatrix).map calm
      = (detectAnomalies config ids agentId ys riskMatrix).map calm := by
  have hmap : ∀ bodies : List FindingBody,
      (bodies.mapIdx fun i body => (⟨ids.finding i, body⟩ : MonitorFinding)).map calm
        = (bodies.map calmBody).mapIdx fun i body => ⟨ids.finding i, body⟩ := by
    intro bodies
    rw [map_mapIdx, mapIdx_map]
    rfl
  unfold detectAnomalies
  dsimp only
  rw [hmap, hmap, List.map_append, List.map_append, List.map_append, List.map_append,
    calm_repeatedFailures h, calm_missingApproval h, dangerousAutonomy_perm h]

theorem calm_candidates {xs ys : List MonitorFinding} (h : xs.Perm ys)
    (riskMatrix : Option RiskMatrix) :
    ((candidates config ids agentId xs riskMatrix).map calm).Perm
      ((candidates config ids agentId ys riskMatrix).map calm) := by
  unfold candidates
  rw [List.map_append, List.map_append, calm_detectAnomalies h]
  exact (h.map calm).append_right _

/-- The ids that are made up are none of the input's, and no two of them are the same. -/
structure Fresh (ids : Ids) (findings : List MonitorFinding) : Prop where
  distinct : ∀ i j, (ids.finding i).findingId = (ids.finding j).findingId → i = j
  new : ∀ i, ∀ f ∈ findings, (ids.finding i).findingId ≠ f.stamp.findingId

theorem nodup_candidates {findings : List MonitorFinding}
    (hids : (findings.map (·.stamp.findingId)).Nodup) (hfresh : Fresh ids findings)
    (riskMatrix : Option RiskMatrix) :
    ((candidates config ids agentId findings riskMatrix).map (·.stamp.findingId)).Nodup := by
  have hgenerated : ∀ bodies : List FindingBody,
      (bodies.mapIdx fun i body => (⟨ids.finding i, body⟩ : MonitorFinding)).map
        (·.stamp.findingId) = (List.range bodies.length).map fun i => (ids.finding i).findingId := by
    intro bodies
    refine List.ext_getElem ?_ ?_
    · simp
    · intro i h₁ h₂
      simp
  unfold candidates detectAnomalies
  rw [List.map_append, hgenerated]
  refine List.nodup_append.mpr ⟨hids, ?_, ?_⟩
  · exact List.nodup_range.map fun i j => hfresh.distinct i j
  · intro a ha b hb hab
    obtain ⟨f, hf, rfl⟩ := List.mem_map.mp ha
    obtain ⟨i, -, rfl⟩ := List.mem_map.mp hb
    exact hfresh.new i f hf hab.symm

/-- **The alerts do not depend on the order of the input.** -/
theorem generateAlerts_perm {xs ys : List MonitorFinding} (h : xs.Perm ys)
    (hids : (xs.map (·.stamp.findingId)).Nodup) (hfresh : Fresh ids xs)
    (riskMatrix : Option RiskMatrix) :
    generateAlerts config ids agentId (sorted (candidates config ids agentId xs riskMatrix))
      = generateAlerts config ids agentId
        (sorted (candidates config ids agentId ys riskMatrix)) := by
  have hnodup : (((candidates config ids agentId xs riskMatrix).map calm).map
      (·.stamp.findingId)).Nodup := by
    rw [List.map_map]
    exact nodup_candidates hids hfresh riskMatrix
  rw [← generateAlerts_calm, ← sorted_calm,
    sorted_eq_of_perm (calm_candidates h riskMatrix) hnodup, sorted_calm, generateAlerts_calm]

/-! ## Exact groups -/

variable (config ids agentId) in
/-- The alerts of a pass hold what they should: every finding in one alert, two findings in one
exactly when they have one kind, agent and title, the highest severity and the number of the
findings; and the order of the input makes no difference. -/
structure GroupsExactly (findings : List MonitorFinding) (riskMatrix : Option RiskMatrix) :
    Prop where
  once : ∀ f ∈ candidates config ids agentId findings riskMatrix,
    ((run config ids agentId findings riskMatrix).alerts.filter fun a =>
      f.stamp.findingId ∈ a.findingIds).length = 1
  shared : ∀ f ∈ candidates config ids agentId findings riskMatrix,
    ∀ g ∈ candidates config ids agentId findings riskMatrix,
      (∃ a ∈ (run config ids agentId findings riskMatrix).alerts,
        f.stamp.findingId ∈ a.findingIds ∧ g.stamp.findingId ∈ a.findingIds)
        ↔ f.body.kind = g.body.kind ∧ f.body.agentId = g.body.agentId ∧ f.body.title = g.body.title
  severity : ∀ a ∈ (run config ids agentId findings riskMatrix).alerts,
    (∀ f ∈ candidates config ids agentId findings riskMatrix, f.stamp.findingId ∈ a.findingIds →
      f.body.severity ≤ a.severity)
    ∧ ∃ f ∈ candidates config ids agentId findings riskMatrix,
      f.stamp.findingId ∈ a.findingIds ∧ f.body.severity = a.severity
  count : ∀ a ∈ (run config ids agentId findings riskMatrix).alerts, a.occurrenceCount
    = ((candidates config ids agentId findings riskMatrix).filter fun f =>
      f.stamp.findingId ∈ a.findingIds).length
  order : ∀ findings', findings.Perm findings' →
    (run config ids agentId findings' riskMatrix).alerts
      = (run config ids agentId findings riskMatrix).alerts

/-- No two findings of one kind have other agents and titles that read the same around a
colon. -/
def Unambiguous (findings : List MonitorFinding) : Prop :=
  ∀ f ∈ findings, ∀ g ∈ findings, f.body.kind = g.body.kind → signature f = signature g →
    f.body.agentId = g.body.agentId ∧ f.body.title = g.body.title

variable {findings : List MonitorFinding} {riskMatrix : Option RiskMatrix}

theorem perm_sorted (xs : List MonitorFinding) : (sorted xs).Perm xs := List.perm_insertionSort _ xs

theorem mem_sorted {xs : List MonitorFinding} {f : MonitorFinding} : f ∈ sorted xs ↔ f ∈ xs :=
  List.mem_insertionSort _

theorem nodup_sorted (hids : (findings.map (·.stamp.findingId)).Nodup)
    (hfresh : Fresh ids findings) :
    ((sorted (candidates config ids agentId findings riskMatrix)).map
      (·.stamp.findingId)).Nodup :=
  ((perm_sorted _).map _).nodup_iff.mpr (nodup_candidates hids hfresh riskMatrix)

/-- Two findings share an alert when they have one key. -/
theorem sharesAlert_iff (hids : (findings.map (·.stamp.findingId)).Nodup)
    (hfresh : Fresh ids findings) {f g : MonitorFinding}
    (hf : f ∈ candidates config ids agentId findings riskMatrix)
    (hg : g ∈ candidates config ids agentId findings riskMatrix) :
    (∃ a ∈ (run config ids agentId findings riskMatrix).alerts,
      f.stamp.findingId ∈ a.findingIds ∧ g.stamp.findingId ∈ a.findingIds)
      ↔ f.body.kind = g.body.kind ∧ signature f = signature g := by
  have hnodup : ((sorted (candidates config ids agentId findings riskMatrix)).map
      (·.stamp.findingId)).Nodup := nodup_sorted hids hfresh
  rw [← dedupKey_eq_iff]
  constructor
  · intro ⟨a, ha, hfa, hga⟩
    exact ((mem_findingIds hnodup ha (mem_sorted.mpr hf)).mp hfa).trans
      ((mem_findingIds hnodup ha (mem_sorted.mpr hg)).mp hga).symm
  · intro hkey
    obtain ⟨a, ha, hafter⟩ := exists_alert (mem_sorted.mpr hf)
    refine ⟨a, ha, ?_, ?_⟩
    · exact (mem_findingIds hnodup ha (mem_sorted.mpr hf)).mpr hafter.symm
    · exact (mem_findingIds hnodup ha (mem_sorted.mpr hg)).mpr (hkey.symm.trans hafter.symm)

/-- **Protect groups exactly** when the joined texts tell agents and titles apart. -/
theorem groupsExactly_iff (config : ProtectConfig) (ids : Ids) (agentId : String)
    (findings : List MonitorFinding) (riskMatrix : Option RiskMatrix)
    (hids : (findings.map (·.stamp.findingId)).Nodup) (hfresh : Fresh ids findings) :
    GroupsExactly config ids agentId findings riskMatrix
      ↔ Unambiguous (candidates config ids agentId findings riskMatrix) := by
  have hnodup : ((sorted (candidates config ids agentId findings riskMatrix)).map
      (·.stamp.findingId)).Nodup := nodup_sorted hids hfresh
  constructor
  · intro h f hf g hg hkind hsignature
    have hshared := (sharesAlert_iff hids hfresh hf hg).mpr ⟨hkind, hsignature⟩
    exact ((h.shared f hf g hg).mp hshared).2
  · intro h
    refine ⟨?_, ?_, ?_, ?_, ?_⟩
    · intro f hf
      have hmem := mem_sorted.mpr hf
      obtain ⟨a, ha, hkey⟩ := @exists_alert config ids agentId _ _ hmem
      have hcount : ((run config ids agentId findings riskMatrix).alerts.map Alert.dedupKey).count
          (dedupKey f) = 1 :=
        List.count_eq_one_of_mem (nodup_keys _) (List.mem_map.mpr ⟨a, ha, hkey⟩)
      rw [← hcount, List.count, List.countP_map, ← List.countP_eq_length_filter]
      refine List.countP_congr fun b hb => ?_
      rw [decide_eq_true_eq, mem_findingIds hnodup hb hmem, Function.comp_apply, beq_iff_eq]
      exact eq_comm
    · intro f hf g hg
      rw [sharesAlert_iff hids hfresh hf hg]
      constructor
      · intro ⟨hkind, hsignature⟩
        exact ⟨hkind, h f hf g hg hkind hsignature⟩
      · intro ⟨hkind, hagent, htitle⟩
        refine ⟨hkind, ?_⟩
        unfold signature
        rw [hagent, htitle]
    · intro a ha
      obtain ⟨hle, f, hf, hkey, hworst⟩ := severity_alert ha
      constructor
      · intro f' hf' hid
        exact hle f' (mem_sorted.mpr hf')
          ((mem_findingIds hnodup ha (mem_sorted.mpr hf')).mp hid)
      · exact ⟨f, mem_sorted.mp hf, (mem_findingIds hnodup ha hf).mpr hkey, hworst⟩
    · intro a ha
      obtain ⟨i, first, -, hspec⟩ := alert_group ha
      have hcount : a.occurrenceCount = ((sorted (candidates config ids agentId findings
          riskMatrix)).filter (dedupKey · = a.dedupKey)).length :=
        congrArg Alert.occurrenceCount hspec
      rw [hcount, ((perm_sorted _).filter _).length_eq]
      refine congrArg List.length (List.filter_congr fun f hf => ?_)
      rw [decide_eq_decide]
      exact (mem_findingIds hnodup ha (mem_sorted.mpr hf)).symm
    · intro findings' hperm
      exact (generateAlerts_perm hperm hids hfresh riskMatrix).symm

/-! ## Small passes -/

/-- A finding of this kind. -/
def sample (id agentId title : String) (kind : FindingKind) (severity : Severity) :
    MonitorFinding where
  stamp := ⟨id, 0⟩
  body :=
    { specVersion := rmpSpecVersion, loopStage := "monitor", sessionId := "mon_1", agentId
      genomeHash := none, kind, severity, title, message := "msg", riskIds := []
      evidenceRefs := [], observed := none, expected := none, recommendedAction := none
      blocksRelease := false, requiresHumanReview := false, details := none }

/-- Ids with a stroke for each one before. -/
def strokes (start : Char) (n : Nat) : String := String.ofList (start :: List.replicate n 'i')

theorem strokes_injective (start : Char) : Function.Injective (strokes start) := by
  intro m n h
  have hlen := congrArg (fun s : String => s.toList.length) h
  simpa [strokes] using hlen

def sampleIds : Ids where
  session := "prt_1"
  finding n := ⟨strokes 'f' n, 0⟩
  alert := strokes 'a'
  recommendation := strokes 'r'
  proposal := strokes 's'
  plan := strokes 'p'
  step _ := strokes 't'

theorem fresh_sampleIds {findings : List MonitorFinding}
    (h : ∀ f ∈ findings, f.stamp.findingId.toList.head? ≠ some 'f') : Fresh sampleIds findings where
  distinct _ _ hij := strokes_injective 'f' hij
  new i f hf heq := h f hf (by rw [← heq]; simp [sampleIds, strokes])

/-- Two failures of one agent. -/
def failures : List MonitorFinding :=
  [sample "m1" "agent://acme/claims" "timeout" .failure .medium,
    sample "m2" "agent://acme/claims" "refused" .failure .high]

theorem groupsExactly_iff_failures : GroupsExactly {} sampleIds "agent://acme/claims" failures none
    ↔ Unambiguous (candidates {} sampleIds "agent://acme/claims" failures none) :=
  groupsExactly_iff {} sampleIds "agent://acme/claims" failures none (by simp [failures, sample])
    (fresh_sampleIds (by simp [failures, sample]))

/-- Two drifts: of agent `a:b` with the title `c`, and of agent `a` with the title `b:c`. -/
def drifts : List MonitorFinding :=
  [sample "m1" "a:b" "c" .drift .medium, sample "m2" "a" "b:c" .drift .medium]

/-- The two drifts are folded into one alert. -/
theorem not_groupsExactly : ¬ GroupsExactly {} sampleIds "a" drifts none := by
  intro h
  have hmem : ∀ f ∈ drifts, f ∈ candidates {} sampleIds "a" drifts none :=
    fun f hf => List.mem_append_left _ hf
  have hids : (drifts.map (·.stamp.findingId)).Nodup := by simp [drifts, sample]
  have hfresh : Fresh sampleIds drifts := fresh_sampleIds (by simp [drifts, sample])
  have hfirst := hmem _ List.mem_cons_self
  have hsecond := hmem _ (List.mem_cons_of_mem _ List.mem_cons_self)
  have hshared := (sharesAlert_iff hids hfresh hfirst hsecond).mpr ⟨rfl, by decide⟩
  have hagent := ((h.shared _ hfirst _ hsecond).mp hshared).2.1
  exact absurd hagent (by decide)

end Protect

end Agenomic.Rmp
