import Agenomic.Diff.Complete

/-!
# When a replay is required

Three kinds of changes make a replay necessary: the fingerprint of the model, its revision,
and the snapshot of a knowledge source. The fingerprint is compared only where the id of the
model is the same, and changes of categories that are left out do not count.

**`replay_required_iff`**: such a change makes the diff require a replay exactly when one of
them is not hidden in one of these ways.
-/

namespace Agenomic.Diff

open Lib
open Agenomic.Prompt (Value)

/-! ## The kinds of changes -/

/-- A text of the runtime is not the same. -/
def RuntimeMoved (b c : Option Yaml) (field : String) : Prop :=
  runtimeField b field ≠ runtimeField c field

/-- A knowledge source that both have has another snapshot. -/
def SnapshotMoved (b c : Option Yaml) : Prop :=
  ∃ name before after, lastItem "name" name (itemsAt b "knowledge") = some before
    ∧ lastItem "name" name (itemsAt c "knowledge") = some after
    ∧ snapshotHash before.jsonOrNull ≠ snapshotHash after.jsonOrNull

theorem needsReplay_of_type {change : DiffChange} {changeType : String}
    (h : change.changeType = changeType) : needsReplay change = true
      ↔ changeType = "model_fingerprint_changed" ∨ changeType = "model_revision_changed"
        ∨ changeType = "knowledge_snapshot_changed" := by
  unfold needsReplay
  rw [h, Bool.or_eq_true, Bool.or_eq_true, beq_iff_eq, beq_iff_eq, beq_iff_eq, or_assoc]

theorem exists_mem_singleton {α : Type} {p : α → Prop} {x : α} : (∃ y ∈ [x], p y) ↔ p x := by
  simp only [List.mem_singleton, exists_eq_left]

theorem exists_mem_append {α : Type} {p : α → Prop} {xs ys : List α} :
    (∃ x ∈ xs ++ ys, p x) ↔ (∃ x ∈ xs, p x) ∨ ∃ x ∈ ys, p x := by
  simp only [List.mem_append, or_and_right, exists_or]

/-- No change of a list makes a replay necessary. -/
def Quiet (changes : List DiffChange) : Prop := ∀ change ∈ changes, needsReplay change = false

/-- **The changes between two maps**: of keys that only one has, and of values that are not the
same. -/
theorem mem_diffMaps_iff {V : Type} {same : V → V → Bool} {added removed : String → V → DiffChange}
    {changed : String → V → V → List DiffChange} {old new : Std.ExtTreeMap String V}
    {change : DiffChange} :
    change ∈ diffMaps same added changed removed old new
      ↔ (∃ name v, old[name]? = none ∧ new[name]? = some v ∧ change = added name v)
        ∨ (∃ name v w, old[name]? = some v ∧ new[name]? = some w ∧ same v w = false
          ∧ change ∈ changed name v w)
        ∨ ∃ name v, old[name]? = some v ∧ new[name]? = none ∧ change = removed name v := by
  unfold diffMaps
  rw [List.mem_append, List.mem_flatMap, List.mem_flatMap]
  constructor
  · rintro (⟨⟨name, w⟩, hw, h⟩ | ⟨⟨name, v⟩, hv, h⟩)
    · rw [Std.ExtTreeMap.mem_toList_iff_getElem?_eq_some] at hw
      dsimp only at h
      cases hb : old[name]? with
      | none =>
          rw [hb] at h
          exact .inl ⟨name, w, hb, hw, List.mem_singleton.mp h⟩
      | some v =>
          rw [hb] at h
          dsimp only at h
          by_cases hsame : same v w = true
          · rw [if_pos hsame] at h
            exact absurd h List.not_mem_nil
          · rw [if_neg hsame] at h
            exact .inr (.inl ⟨name, v, w, hb, hw, Bool.eq_false_iff.mpr hsame, h⟩)
    · rw [Std.ExtTreeMap.mem_toList_iff_getElem?_eq_some] at hv
      dsimp only at h
      by_cases hin : name ∈ new
      · rw [if_pos hin] at h
        exact absurd h List.not_mem_nil
      · rw [if_neg hin] at h
        refine .inr (.inr ⟨name, v, hv, ?_, List.mem_singleton.mp h⟩)
        exact Std.ExtTreeMap.getElem?_eq_none hin
  · rintro (⟨name, w, hb, hw, rfl⟩ | ⟨name, v, w, hb, hw, hsame, h⟩ | ⟨name, v, hv, hc, rfl⟩)
    · refine .inl ⟨(name, w), Std.ExtTreeMap.mem_toList_iff_getElem?_eq_some.mpr hw, ?_⟩
      dsimp only
      rw [hb]
      exact List.mem_singleton_self _
    · refine .inl ⟨(name, w), Std.ExtTreeMap.mem_toList_iff_getElem?_eq_some.mpr hw, ?_⟩
      dsimp only
      rw [hb]
      dsimp only
      rw [if_neg (Bool.eq_false_iff.mp hsame)]
      exact h
    · refine .inr ⟨(name, v), Std.ExtTreeMap.mem_toList_iff_getElem?_eq_some.mpr hv, ?_⟩
      have hnot : name ∉ new := by
        rw [Std.ExtTreeMap.mem_iff_isSome_getElem?, hc]
        exact Bool.false_ne_true
      dsimp only
      rw [if_neg hnot]
      exact List.mem_singleton_self _

/-- Maps whose changes are all of quiet kinds. -/
theorem quiet_diffMaps {V : Type} {same : V → V → Bool} {added removed : String → V → DiffChange}
    {changed : String → V → V → List DiffChange}
    (hadded : ∀ name v, needsReplay (added name v) = false)
    (hchanged : ∀ name v w, Quiet (changed name v w))
    (hremoved : ∀ name v, needsReplay (removed name v) = false) (b c : Std.ExtTreeMap String V) :
    Quiet (diffMaps same added changed removed b c) := by
  intro change h
  rcases mem_diffMaps_iff.mp h with ⟨name, v, _, _, rfl⟩ | ⟨name, v, w, _, _, _, hmem⟩
    | ⟨name, v, _, _, rfl⟩
  · exact hadded name v
  · exact hchanged name v w change hmem
  · exact hremoved name v

theorem quiet_singleton {change : DiffChange} (h : needsReplay change = false) : Quiet [change] := by
  intro other hmem
  rw [List.mem_singleton.mp hmem]
  exact h

theorem quiet_diffTools (b c : Option Yaml) : Quiet (diffTools b c) :=
  quiet_diffMaps (fun _ _ => rfl) (fun _ _ _ => quiet_singleton rfl) (fun _ _ => rfl) _ _

theorem quiet_diffPolicies (b c : Option Yaml) : Quiet (diffPolicies b c) :=
  quiet_diffMaps (fun _ _ => rfl) (fun _ _ _ _ h => absurd h List.not_mem_nil) (fun _ _ => rfl) _ _

theorem quiet_diffMemory (b c : Option Yaml) : Quiet (diffMemory b c) := by
  unfold diffMemory
  dsimp only
  split
  · exact fun _ h => absurd h List.not_mem_nil
  · exact quiet_singleton rfl

theorem quiet_diffContractRules (b c : Option Yaml) : Quiet (diffContractRules b c) :=
  quiet_diffMaps (fun _ _ => rfl) (fun _ _ _ => quiet_singleton rfl) (fun _ _ => rfl) _ _

theorem quiet_diffPrompts (b c : List (String × Bytes)) (ignoreWs : Bool) :
    Quiet (diffPrompts b c ignoreWs) :=
  quiet_diffMaps (fun _ _ => rfl) (fun _ _ _ => quiet_singleton rfl) (fun _ _ => rfl) _ _

/-- **Of the knowledge**, a snapshot that moved is what makes a replay necessary. -/
theorem exists_diffKnowledge_iff (b c : Option Yaml) :
    (∃ change ∈ diffKnowledge b c, needsReplay change = true) ↔ SnapshotMoved b c := by
  unfold diffKnowledge namedMap
  constructor
  · rintro ⟨change, hmem, hreplay⟩
    rcases mem_diffMaps_iff.mp hmem with ⟨name, v, _, _, rfl⟩ | ⟨name, v, w, hv, hw, _, hchanged⟩
      | ⟨name, v, _, _, rfl⟩
    · cases hreplay
    · rw [getElem?_keyedMap, Option.map_eq_some_iff] at hv hw
      obtain ⟨before, hbefore, rfl⟩ := hv
      obtain ⟨after, hafter, rfl⟩ := hw
      by_cases hmoved : snapshotHash before.jsonOrNull ≠ snapshotHash after.jsonOrNull
      · exact ⟨name, before, after, hbefore, hafter, hmoved⟩
      · rw [if_neg hmoved] at hchanged
        exact absurd hchanged List.not_mem_nil
    · cases hreplay
  · rintro ⟨name, before, after, hbefore, hafter, hmoved⟩
    have hdiffer : sameJson before.jsonOrNull after.jsonOrNull = false := by
      by_contra hsame
      refine hmoved ?_
      rw [← snapshotHash_norm, sameJson_iff.mp (Bool.not_eq_false _ ▸ hsame), snapshotHash_norm]
    refine ⟨itemChange "knowledge_snapshot_changed" .knowledge .medium
      s!"genome.yaml#knowledge[{name}].snapshot_hash"
      ((snapshotHash before.jsonOrNull).map .string) ((snapshotHash after.jsonOrNull).map .string)
      s!"Knowledge '{name}' snapshot changed — replay required",
      mem_diffMaps_iff.mpr (.inr (.inl ⟨name, before.jsonOrNull, after.jsonOrNull, ?_, ?_, hdiffer,
        ?_⟩)), ?_⟩
    · rw [getElem?_keyedMap, hbefore]
      rfl
    · rw [getElem?_keyedMap, hafter]
      rfl
    · rw [if_pos hmoved]
      exact List.mem_singleton_self _
    · rfl

/-- A text of the runtime that moved makes a replay necessary, where its kind of change does. -/
theorem exists_diffRuntimeString_iff (b c : Option Yaml) (field changeType : String)
    (severity : Rmp.Severity) (explanation : String) :
    (∃ change ∈ diffRuntimeString b c field changeType severity explanation,
        needsReplay change = true)
      ↔ RuntimeMoved b c field ∧ (changeType = "model_fingerprint_changed"
        ∨ changeType = "model_revision_changed" ∨ changeType = "knowledge_snapshot_changed") := by
  unfold diffRuntimeString RuntimeMoved
  by_cases hmoved : runtimeField b field ≠ runtimeField c field
  · rw [if_pos hmoved, exists_mem_singleton]
    exact (needsReplay_of_type rfl).trans (and_iff_right hmoved).symm
  · rw [if_neg hmoved]
    exact iff_of_false (fun ⟨_, h, _⟩ => List.not_mem_nil h) fun h => hmoved h.1

/-- **Of the model**, its revision does, and its fingerprint where the id is the same. -/
theorem exists_diffModel_iff (b c : Option Yaml) :
    (∃ change ∈ diffModel b c, needsReplay change = true) ↔ RuntimeMoved b c "revision"
      ∨ ¬ RuntimeMoved b c "model_id" ∧ RuntimeMoved b c "model_fingerprint" := by
  have hparameters : ¬ ∃ change ∈ (if Yaml.sameOption (runtimeValue b "parameters")
      (runtimeValue c "parameters") then [] else
      [{ changeType := "model_parameters_changed"
         category := .model
         severity := .medium
         path := "genome.yaml#runtime.parameters"
         before := (runtimeValue b "parameters").map Yaml.jsonOrNull
         after := (runtimeValue c "parameters").map Yaml.jsonOrNull
         explanation := "Model parameters changed — re-validate behavior" }] : List DiffChange),
      needsReplay change = true := by
    rintro ⟨change, hmem, hreplay⟩
    split at hmem
    · exact List.not_mem_nil hmem
    · rw [List.mem_singleton.mp hmem] at hreplay
      cases hreplay
  have hid : (∃ change ∈ (if runtimeField b "model_id" ≠ runtimeField c "model_id" then
      [runtimeChange b c "model_id" "model_id_changed" .high
        "Model ID changed — re-validate behavior"]
      else diffRuntimeString b c "model_fingerprint" "model_fingerprint_changed" .medium
        "Model fingerprint moved — replay required"), needsReplay change = true)
      ↔ ¬ RuntimeMoved b c "model_id" ∧ RuntimeMoved b c "model_fingerprint" := by
    by_cases hmoved : runtimeField b "model_id" ≠ runtimeField c "model_id"
    · rw [if_pos hmoved, exists_mem_singleton]
      exact iff_of_false (fun h => nomatch h) fun h => h.1 hmoved
    · rw [if_neg hmoved, exists_diffRuntimeString_iff]
      exact ⟨fun h => ⟨hmoved, h.1⟩, fun h => ⟨h.2, .inl rfl⟩⟩
  unfold diffModel
  rw [exists_mem_append, exists_mem_append, exists_mem_append, exists_mem_append, exists_mem_append,
    hid]
  have hprovider := exists_diffRuntimeString_iff b c "model_provider" "model_provider_changed" .high
    "Model provider changed — re-validate auth and behavior"
  have hrevision := exists_diffRuntimeString_iff b c "revision" "model_revision_changed" .high
    "Model revision changed — resolved weights differ, replay required"
  have htask := exists_diffRuntimeString_iff b c "task" "model_task_changed" .medium
    "Model task changed — re-validate behavior"
  have hendpoint := exists_diffRuntimeString_iff b c "endpoint_url" "model_endpoint_changed" .medium
    "Inference endpoint changed — re-validate connectivity and behavior"
  have hkinds : ∀ kind ∈ ["model_provider_changed", "model_task_changed", "model_endpoint_changed"],
      ¬ (kind = "model_fingerprint_changed" ∨ kind = "model_revision_changed"
        ∨ kind = "knowledge_snapshot_changed") := by decide
  rw [hprovider, hrevision, htask, hendpoint]
  constructor
  · rintro (((((h | h) | h) | h) | h) | h)
    · exact absurd h.2 (hkinds _ (by decide))
    · exact .inr h
    · exact .inl h.1
    · exact absurd h.2 (hkinds _ (by decide))
    · exact absurd h.2 (hkinds _ (by decide))
    · exact absurd h hparameters
  · rintro (h | h)
    · exact .inl (.inl (.inl (.inr ⟨h, .inr (.inl rfl)⟩)))
    · exact .inl (.inl (.inl (.inl (.inr h))))

/-! ## The report -/

variable (parse : Bytes → Option Yaml)

theorem category_diffRuntimeString {b c : Option Yaml} {field changeType explanation : String}
    {severity : Rmp.Severity} :
    ∀ change ∈ diffRuntimeString b c field changeType severity explanation,
      change.category = .model := by
  intro change hmem
  unfold diffRuntimeString at hmem
  split at hmem
  · rw [List.mem_singleton.mp hmem]
    rfl
  · exact absurd hmem List.not_mem_nil

theorem category_diffModel {b c : Option Yaml} :
    ∀ change ∈ diffModel b c, change.category = .model := by
  intro change hmem
  unfold diffModel at hmem
  simp only [List.mem_append] at hmem
  rcases hmem with ((((h | h) | h) | h) | h) | h
  · exact category_diffRuntimeString change h
  · split at h
    · rw [List.mem_singleton.mp h]
      rfl
    · exact category_diffRuntimeString change h
  · exact category_diffRuntimeString change h
  · exact category_diffRuntimeString change h
  · exact category_diffRuntimeString change h
  · split at h
    · exact absurd h List.not_mem_nil
    · rw [List.mem_singleton.mp h]

theorem category_diffKnowledge {b c : Option Yaml} :
    ∀ change ∈ diffKnowledge b c, change.category = .knowledge := by
  intro change hmem
  rcases mem_diffMaps_iff.mp hmem with ⟨name, v, _, _, rfl⟩ | ⟨name, v, w, hv, hw, _, hchanged⟩
    | ⟨name, v, _, _, rfl⟩
  · rfl
  · split at hchanged
    · rw [List.mem_singleton.mp hchanged]
      rfl
    · exact absurd hchanged List.not_mem_nil
  · rfl

/-- A replay is required by a change of a category that is shown. -/
theorem replayRequired_iff_exists (b c : Bundle) (options : DiffOptions) :
    (diffBundles parse b c options).replayRequired = true
      ↔ ∃ change ∈ allChanges parse b c options, Shown options change.category
        ∧ needsReplay change = true := by
  unfold diffBundles Shown
  dsimp only
  by_cases hall : options.included = []
  · rw [if_pos hall, List.any_eq_true]
    simp only [hall, true_or, true_and]
  · rw [if_neg hall, List.any_eq_true]
    simp only [List.mem_filter, decide_eq_true_eq, hall, false_or, and_assoc]

/-- **When a replay is required.** -/
theorem replayRequired_iff (b c : Bundle) (options : DiffOptions) :
    (diffBundles parse b c options).replayRequired = true
      ↔ Shown options .model ∧ (RuntimeMoved (genomeOf parse b) (genomeOf parse c) "revision"
          ∨ ¬ RuntimeMoved (genomeOf parse b) (genomeOf parse c) "model_id"
            ∧ RuntimeMoved (genomeOf parse b) (genomeOf parse c) "model_fingerprint")
        ∨ Shown options .knowledge ∧ SnapshotMoved (genomeOf parse b) (genomeOf parse c) := by
  have hquiet : ∀ {changes : List DiffChange}, Quiet changes →
      ¬ ∃ change ∈ changes, Shown options change.category ∧ needsReplay change = true := by
    rintro changes hq ⟨change, hmem, _, hreplay⟩
    rw [hq change hmem] at hreplay
    cases hreplay
  have hcategory : ∀ {changes : List DiffChange} {category : DiffCategory},
      (∀ change ∈ changes, change.category = category) →
      ((∃ change ∈ changes, Shown options change.category ∧ needsReplay change = true)
        ↔ Shown options category ∧ ∃ change ∈ changes, needsReplay change = true) := by
    intro changes category hc
    constructor
    · rintro ⟨change, hmem, hshown, hreplay⟩
      exact ⟨hc change hmem ▸ hshown, change, hmem, hreplay⟩
    · rintro ⟨hshown, change, hmem, hreplay⟩
      exact ⟨change, hmem, (hc change hmem).symm ▸ hshown, hreplay⟩
  rw [replayRequired_iff_exists, allChanges, exists_mem_append, exists_mem_append, exists_mem_append,
    exists_mem_append, exists_mem_append, exists_mem_append, hcategory category_diffModel,
    hcategory category_diffKnowledge, exists_diffModel_iff, exists_diffKnowledge_iff]
  simp only [hquiet (quiet_diffTools _ _), hquiet (quiet_diffPolicies _ _),
    hquiet (quiet_diffMemory _ _), hquiet (quiet_diffContractRules _ _),
    hquiet (quiet_diffPrompts _ _ _), or_false]

/-- The model's fingerprint or revision, or a snapshot of knowledge, is not the same. -/
def ReplayNeeded (b c : Option Yaml) : Prop :=
  RuntimeMoved b c "model_fingerprint" ∨ RuntimeMoved b c "revision" ∨ SnapshotMoved b c

/-- One of these changes is not hidden: the fingerprint by another id of the model, or any by the
categories that are left out. -/
def Unhidden (options : DiffOptions) (b c : Option Yaml) : Prop :=
  Shown options .model ∧ RuntimeMoved b c "model_fingerprint" ∧ ¬ RuntimeMoved b c "model_id"
    ∨ Shown options .model ∧ RuntimeMoved b c "revision"
    ∨ Shown options .knowledge ∧ SnapshotMoved b c

/-- **A changed model or snapshot requires a replay** exactly where not all of these changes are
hidden. -/
theorem replay_required_iff (b c : Bundle) (options : DiffOptions) :
    (ReplayNeeded (genomeOf parse b) (genomeOf parse c) →
        (diffBundles parse b c options).replayRequired = true)
      ↔ (ReplayNeeded (genomeOf parse b) (genomeOf parse c) →
        Unhidden options (genomeOf parse b) (genomeOf parse c)) := by
  rw [replayRequired_iff]
  refine imp_congr_right fun _ => ?_
  unfold Unhidden
  tauto

/-! ## A model that changed as a whole -/

/-- A genome with a model. -/
def modelGenome (id fingerprint : String) : Yaml :=
  .mapping [(.string "runtime", .mapping [(.string "model_id", .string id),
    (.string "model_fingerprint", .string fingerprint)])]

/-- The text of that genome. -/
def modelText (id fingerprint : String) : Bytes :=
  utf8Encode s!"runtime:\n  model_id: {id}\n  model_fingerprint: {fingerprint}\n".toList

/-- YAML, as far as these two genomes go. -/
def parseModels (bytes : Bytes) : Option Yaml :=
  if bytes = modelText "gpt-4o" "fp-1" then some (modelGenome "gpt-4o" "fp-1")
  else if bytes = modelText "gpt-5" "fp-2" then some (modelGenome "gpt-5" "fp-2")
  else none

def modelBundle (id fingerprint : String) : Bundle :=
  ⟨[("genome.yaml", modelText id fingerprint)], ""⟩

/-- The id and the fingerprint change together, and no replay is required. -/
theorem not_replay_required : ¬ ∀ (parse : Bytes → Option Yaml) (b c : Bundle)
    (options : DiffOptions), options.included = [] →
    ReplayNeeded (genomeOf parse b) (genomeOf parse c) →
      (diffBundles parse b c options).replayRequired = true := by
  intro h
  have hmoved : RuntimeMoved (genomeOf parseModels (modelBundle "gpt-4o" "fp-1"))
      (genomeOf parseModels (modelBundle "gpt-5" "fp-2")) "model_fingerprint" := by
    unfold RuntimeMoved
    decide +kernel
  have hreplay := h parseModels (modelBundle "gpt-4o" "fp-1") (modelBundle "gpt-5" "fp-2") ⟨[], false⟩
    rfl (.inl hmoved)
  revert hreplay
  decide +kernel

end Agenomic.Diff
