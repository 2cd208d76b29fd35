import Agenomic.Diff.Changes

/-!
# What it means that no change is reported

No change of a category says of the two bundles what the comparison of that category
looked at, and no more. A list was compared as the map of its items, so where every item
has a key of its own the whole lists agree up to order; where several share a key, only
the last of them were compared.

**`diffBundles_silent`**: for every category, what follows when none of its changes is
reported.
-/

namespace Agenomic.Diff

open Lib
open Agenomic.Prompt (Value Members)

/-! ## JSON values that are the same -/

theorem sameJson_iff {v w : Value} : sameJson v w = true ↔ v.norm = w.norm := by
  unfold sameJson
  rw [Value.same_iff, Option.map_some, Option.map_some, Option.some.injEq]

theorem lookup_normMembers (key : String) : ∀ ms : Members,
    Value.lookup key (Value.normMembers ms) = (Value.lookup key ms).map Value.norm := by
  intro ms
  induction ms with
  | nil => rfl
  | cons m rest ih =>
      obtain ⟨k, v⟩ := m
      unfold Value.normMembers Value.lookup
      by_cases hk : k = key
      · rw [if_pos hk, if_pos hk]
        rfl
      · rw [if_neg hk, if_neg hk]
        exact ih

theorem get_norm (v : Value) (key : String) : v.norm.get key = (v.get key).map Value.norm := by
  cases v with
  | object members =>
      unfold Value.norm
      exact lookup_normMembers key members
  | number n => cases n <;> rfl
  | _ => rfl

theorem asStr_norm (v : Value) : v.norm.asStr = v.asStr := by
  cases v with
  | number n => cases n <;> rfl
  | _ => rfl

/-- The snapshot does not depend on how doubles are printed. -/
theorem snapshotHash_norm (v : Value) : snapshotHash v.norm = snapshotHash v := by
  unfold snapshotHash
  rw [get_norm]
  cases v.get "snapshot_hash" with
  | none => rfl
  | some w => exact asStr_norm w

/-! ## Maps -/

/-- No change of a category. -/
def NoChange (category : DiffCategory) (changes : List DiffChange) : Prop :=
  ∀ change ∈ changes, change.category ≠ category

theorem NoChange.of_append {category : DiffCategory} {xs ys : List DiffChange}
    (h : NoChange category (xs ++ ys)) : NoChange category xs ∧ NoChange category ys :=
  ⟨fun x hx => h x (List.mem_append_left ys hx), fun y hy => h y (List.mem_append_right xs hy)⟩

theorem NoChange.singleton {category : DiffCategory} {change : DiffChange} :
    NoChange category [change] ↔ change.category ≠ category := by
  unfold NoChange
  rw [List.forall_mem_singleton]

/-- **No change between two maps**: they have the same keys, and what they hold at a key is the
same, or different in a way that is no change. -/
theorem diffMaps_noChange {V : Type} {same : V → V → Bool} {added removed : String → V → DiffChange}
    {changed : String → V → V → List DiffChange} {m n : Std.ExtTreeMap String V}
    {category : DiffCategory} (h : NoChange category (diffMaps same added changed removed m n))
    (hadded : ∀ name v, (added name v).category = category)
    (hremoved : ∀ name v, (removed name v).category = category) (name : String) :
    Option.Rel (fun bv cv => same bv cv = true ∨ NoChange category (changed name bv cv))
      m[name]? n[name]? := by
  unfold diffMaps at h
  obtain ⟨hfirst, hsecond⟩ := h.of_append
  cases hb : m[name]? with
  | none =>
      cases hc : n[name]? with
      | none => exact .none
      | some cv =>
          have hmem : (name, cv) ∈ n.toList :=
            Std.ExtTreeMap.mem_toList_iff_getElem?_eq_some.mpr hc
          refine absurd (hadded name cv) (hfirst _ (List.mem_flatMap.mpr ⟨_, hmem, ?_⟩))
          simp only [hb]
          exact List.mem_singleton_self _
  | some bv =>
      have hmem : (name, bv) ∈ m.toList :=
        Std.ExtTreeMap.mem_toList_iff_getElem?_eq_some.mpr hb
      cases hc : n[name]? with
      | none =>
          have hnot : name ∉ n := by
            rw [Std.ExtTreeMap.mem_iff_isSome_getElem?, hc]
            exact Bool.false_ne_true
          refine absurd (hremoved name bv) (hsecond _ (List.mem_flatMap.mpr ⟨_, hmem, ?_⟩))
          simp only [if_neg hnot]
          exact List.mem_singleton_self _
      | some cv =>
          refine .some ?_
          by_cases hsame : same bv cv = true
          · exact .inl hsame
          · refine .inr fun change hchange => ?_
            refine hfirst change (List.mem_flatMap.mpr ⟨(name, cv), ?_, ?_⟩)
            · exact Std.ExtTreeMap.mem_toList_iff_getElem?_eq_some.mpr hc
            · simp only [hb]
              rw [if_neg hsame]
              exact hchange

/-- What two related options are mapped to agrees, where it does for related values. -/
theorem map_eq_of_rel {α β γ : Type} {r : β → β → Prop} {f : α → β} {g : α → γ} {x y : Option α}
    (h : Option.Rel r (x.map f) (y.map f)) (hr : ∀ a b, r (f a) (f b) → g a = g b) :
    x.map g = y.map g := by
  cases x with
  | none =>
      cases y with
      | none => rfl
      | some b => cases h
  | some a =>
      cases y with
      | none => cases h
      | some b =>
          cases h with
          | some hab => exact congrArg some (hr a b hab)

/-! ## Lists as maps -/

/-- The last item of a list under a key. -/
def lastItem (key name : String) (items : List Yaml) : Option Yaml :=
  items.reverse.find? fun item => keyOf key item = some name

/-- A list as a map holds its last items. -/
theorem getElem?_keyedMap (key name : String) (items : List Yaml) :
    (keyedMap key items)[name]? = (lastItem key name items).map Yaml.jsonOrNull := by
  induction items using List.reverseRecOn with
  | nil => exact Std.ExtTreeMap.getElem?_empty
  | append_singleton items item ih =>
      unfold keyedMap lastItem at *
      rw [List.foldl_append, List.foldl_cons, List.foldl_nil, List.reverse_append,
        List.reverse_singleton, List.singleton_append, List.find?_cons]
      cases hkey : keyOf key item with
      | none =>
          have hne : decide ((none : Option String) = some name) = false := rfl
          simp only [hne]
          exact ih
      | some name' =>
          by_cases hname : name' = name
          · subst hname
            simp only [decide_true, Option.map_some]
            exact Std.ExtTreeMap.getElem?_insert_self
          · have hne : decide (some name' = some name) = false :=
              decide_eq_false fun h => hname (Option.some.inj h)
            simp only [hne]
            rw [Std.ExtTreeMap.getElem?_insert, if_neg]
            · exact ih
            · intro h
              exact hname (Std.LawfulEqCmp.eq_of_compare h)

/-- The data of an item: the JSON it turns into, up to how doubles are printed. -/
def data (item : Yaml) : Value := item.jsonOrNull.norm

/-- Every item has a key, and no two have the same. -/
def ToldApart (key : String) (items : List Yaml) : Prop :=
  (∀ item ∈ items, keyOf key item ≠ none) ∧ (items.map (keyOf key)).Nodup

/-- For every key the last items of two lists are the same; so the lists are, up to order, where
their items are told apart. -/
def SameItems (key : String) (xs ys : List Yaml) : Prop :=
  (∀ name, (lastItem key name xs).map data = (lastItem key name ys).map data)
    ∧ (ToldApart key xs → ToldApart key ys → (xs.map data).Perm (ys.map data))

/-- Among items told apart, the last one under a key is the only one. -/
theorem lastItem_eq_some_iff {key name : String} {items : List Yaml} (h : ToldApart key items)
    {item : Yaml} :
    lastItem key name items = some item ↔ item ∈ items ∧ keyOf key item = some name := by
  unfold lastItem
  constructor
  · intro hfind
    have hkey := List.find?_some hfind
    exact ⟨List.mem_reverse.mp (List.mem_of_find?_eq_some hfind), of_decide_eq_true hkey⟩
  · rintro ⟨hmem, hkey⟩
    cases hfind : items.reverse.find? fun item => keyOf key item = some name with
    | none =>
        rw [List.find?_eq_none] at hfind
        exact absurd (decide_eq_true hkey) (hfind item (List.mem_reverse.mpr hmem))
    | some other =>
        have hkey' := List.find?_some hfind
        have hother : keyOf key other = some name := of_decide_eq_true hkey'
        have hin := List.mem_reverse.mp (List.mem_of_find?_eq_some hfind)
        rw [List.inj_on_of_nodup_map h.2 hin hmem (hother.trans hkey.symm)]

/-- Keys together with data. -/
def keyedData (key : String) (items : List Yaml) : List (Option String × Value) :=
  items.map fun item => (keyOf key item, data item)

theorem mem_keyedData {key name : String} {items : List Yaml} (h : ToldApart key items) {v : Value} :
    (some name, v) ∈ keyedData key items ↔ (lastItem key name items).map data = some v := by
  unfold keyedData
  rw [List.mem_map, Option.map_eq_some_iff]
  constructor
  · rintro ⟨item, hmem, heq⟩
    obtain ⟨hkey, hdata⟩ := Prod.mk.inj heq
    exact ⟨item, (lastItem_eq_some_iff h).mpr ⟨hmem, hkey⟩, hdata⟩
  · rintro ⟨item, hlast, hdata⟩
    obtain ⟨hmem, hkey⟩ := (lastItem_eq_some_iff h).mp hlast
    exact ⟨item, hmem, Prod.ext hkey hdata⟩

theorem keyedData_nodup {key : String} {items : List Yaml} (h : ToldApart key items) :
    (keyedData key items).Nodup := by
  have hfst : (keyedData key items).map Prod.fst = items.map (keyOf key) := by
    unfold keyedData
    rw [List.map_map]
    rfl
  exact List.Nodup.of_map Prod.fst (hfst ▸ h.2)

/-- **From the maps to the lists.** -/
theorem SameItems.of_maps {key : String} {xs ys : List Yaml}
    (h : ∀ name : String, Option.Rel (fun v w : Value => v.norm = w.norm) (keyedMap key xs)[name]?
      (keyedMap key ys)[name]?) : SameItems key xs ys := by
  have hlast : ∀ name, (lastItem key name xs).map data = (lastItem key name ys).map data := by
    intro name
    have hrel := h name
    rw [getElem?_keyedMap, getElem?_keyedMap] at hrel
    exact map_eq_of_rel hrel fun _ _ hxy => hxy
  refine ⟨hlast, fun hxs hys => ?_⟩
  have hperm : (keyedData key xs).Perm (keyedData key ys) := by
    refine (List.perm_ext_iff_of_nodup (keyedData_nodup hxs) (keyedData_nodup hys)).mpr fun p => ?_
    obtain ⟨k, v⟩ := p
    cases k with
    | none =>
        -- no item is without a key
        have hnone : ∀ {items}, ToldApart key items → (none, v) ∉ keyedData key items := by
          intro items hitems hmem
          obtain ⟨item, hin, heq⟩ := List.mem_map.mp hmem
          exact hitems.1 item hin (Prod.mk.inj heq).1
        exact ⟨fun hmem => absurd hmem (hnone hxs), fun hmem => absurd hmem (hnone hys)⟩
    | some name => rw [mem_keyedData hxs, mem_keyedData hys, hlast name]
  have hsnd := hperm.map Prod.snd
  unfold keyedData at hsnd
  rw [List.map_map, List.map_map] at hsnd
  exact hsnd

/-- The content of a prompt; of several files with one path the last one counts. -/
def promptAt (path : String) (pairs : List (String × Bytes)) : Option Bytes :=
  (pairs.reverse.find? fun pair => pair.1 == path).map (·.2)

theorem getElem?_promptsMap {path : String} (hpath : isPrompt path = true)
    (pairs : List (String × Bytes)) : (promptsMap pairs)[path]? = promptAt path pairs := by
  induction pairs using List.reverseRecOn with
  | nil => exact Std.ExtTreeMap.getElem?_empty
  | append_singleton pairs pair ih =>
      unfold promptsMap promptAt at *
      rw [List.foldl_append, List.foldl_cons, List.foldl_nil, List.reverse_append,
        List.reverse_singleton, List.singleton_append, List.find?_cons]
      by_cases heq : pair.1 = path
      · rw [heq, if_pos hpath, beq_self_eq_true]
        exact Std.ExtTreeMap.getElem?_insert_self
      · have hne : (pair.1 == path) = false := beq_eq_false_iff_ne.mpr heq
        simp only [hne]
        by_cases hprompt : isPrompt pair.1 = true
        · rw [if_pos hprompt, Std.ExtTreeMap.getElem?_insert, if_neg]
          · exact ih
          · intro h
            exact heq (Std.LawfulEqCmp.eq_of_compare h)
        · rw [if_neg hprompt]
          exact ih

/-! ## The categories -/

/-- The texts of the runtime that are compared. -/
def modelFields : List String :=
  ["model_provider", "model_id", "model_fingerprint", "revision", "task", "endpoint_url"]

/-- What was compared of two runtimes is the same. -/
structure SameModel (b c : Option Yaml) : Prop where
  texts : ∀ field ∈ modelFields, runtimeField b field = runtimeField c field
  parameters : Yaml.sameOption (runtimeValue b "parameters") (runtimeValue c "parameters") = true

/-- The same names, and under each of them the same snapshot. -/
def SameSnapshots (xs ys : List Yaml) : Prop :=
  ∀ name, (lastItem "name" name xs).map (fun item => snapshotHash item.jsonOrNull)
    = (lastItem "name" name ys).map fun item => snapshotHash item.jsonOrNull

/-- The same ids. -/
def SameIds (xs ys : List Yaml) : Prop :=
  ∀ id, (lastItem "id" id xs).isSome = (lastItem "id" id ys).isSome

/-- The same prompts, up to white space where it is ignored. -/
def SamePrompts (b c : List (String × Bytes)) (ignoreWs : Bool) : Prop :=
  ∀ path, isPrompt path = true →
    Option.Rel (fun v w => samePrompt ignoreWs v w = true) (promptAt path b) (promptAt path c)

theorem diffRuntimeString_noChange {b c : Option Yaml} {field changeType explanation : String}
    {severity : Rmp.Severity}
    (h : NoChange .model (diffRuntimeString b c field changeType severity explanation)) :
    runtimeField b field = runtimeField c field := by
  unfold diffRuntimeString at h
  by_contra hne
  rw [if_pos hne, NoChange.singleton] at h
  exact h rfl

theorem diffModel_noChange {b c : Option Yaml} (h : NoChange .model (diffModel b c)) :
    SameModel b c := by
  unfold diffModel at h
  obtain ⟨h, hparameters⟩ := h.of_append
  obtain ⟨h, hendpoint⟩ := h.of_append
  obtain ⟨h, htask⟩ := h.of_append
  obtain ⟨h, hrevision⟩ := h.of_append
  obtain ⟨hprovider, hid⟩ := h.of_append
  have hsame : runtimeField b "model_id" = runtimeField c "model_id" := by
    by_contra hne
    rw [if_pos hne, NoChange.singleton] at hid
    exact hid rfl
  rw [if_neg (not_not.mpr hsame)] at hid
  refine ⟨fun field hfield => ?_, ?_⟩
  · have hall : ∀ f ∈ modelFields, runtimeField b f = runtimeField c f :=
      List.forall_mem_cons.mpr ⟨diffRuntimeString_noChange hprovider,
        List.forall_mem_cons.mpr ⟨hsame,
        List.forall_mem_cons.mpr ⟨diffRuntimeString_noChange hid,
        List.forall_mem_cons.mpr ⟨diffRuntimeString_noChange hrevision,
        List.forall_mem_cons.mpr ⟨diffRuntimeString_noChange htask,
        List.forall_mem_singleton.mpr (diffRuntimeString_noChange hendpoint)⟩⟩⟩⟩⟩
    exact hall field hfield
  · by_contra hne
    rw [if_neg hne, NoChange.singleton] at hparameters
    exact hparameters rfl

/-- Where a changed item is always a change, the items are the same. -/
theorem SameItems.of_noChange {key : String} {xs ys : List Yaml} {category : DiffCategory}
    {added removed : String → Value → DiffChange} {changed : String → Value → Value → DiffChange}
    (h : NoChange category (diffMaps sameJson added (fun name v w => [changed name v w]) removed
      (keyedMap key xs) (keyedMap key ys)))
    (hadded : ∀ name v, (added name v).category = category)
    (hchanged : ∀ name v w, (changed name v w).category = category)
    (hremoved : ∀ name v, (removed name v).category = category) : SameItems key xs ys := by
  refine SameItems.of_maps fun name => ?_
  have hrel := diffMaps_noChange h hadded hremoved name
  generalize (keyedMap key xs)[name]? = v, (keyedMap key ys)[name]? = w at hrel
  cases hrel with
  | none => exact .none
  | some hrel =>
      rcases hrel with hsame | hnone
      · exact .some (sameJson_iff.mp hsame)
      · exact absurd (hchanged _ _ _) (NoChange.singleton.mp hnone)

theorem diffKnowledge_noChange {b c : Option Yaml} (h : NoChange .knowledge (diffKnowledge b c)) :
    SameSnapshots (itemsAt b "knowledge") (itemsAt c "knowledge") := by
  intro name
  have hrel := diffMaps_noChange h (fun _ _ => rfl) (fun _ _ => rfl) name
  unfold namedMap at hrel
  rw [getElem?_keyedMap, getElem?_keyedMap] at hrel
  refine map_eq_of_rel hrel fun x y hor => ?_
  rcases hor with hsame | hnone
  · rw [← snapshotHash_norm x.jsonOrNull, sameJson_iff.mp hsame, snapshotHash_norm]
  · by_contra hne
    rw [if_pos hne, NoChange.singleton] at hnone
    exact hnone rfl

theorem diffPolicies_noChange {b c : Option Yaml} (h : NoChange .policies (diffPolicies b c)) :
    SameIds (itemsAt b "policies") (itemsAt c "policies") := by
  intro id
  have hrel := diffMaps_noChange h (fun _ _ => rfl) (fun _ _ => rfl) id
  unfold idMap at hrel
  rw [getElem?_keyedMap, getElem?_keyedMap] at hrel
  have hunit : (lastItem "id" id (itemsAt b "policies")).map (fun _ => ())
      = (lastItem "id" id (itemsAt c "policies")).map fun _ => () :=
    map_eq_of_rel hrel fun _ _ _ => rfl
  rw [← Option.isSome_map (f := fun _ => ()), hunit, Option.isSome_map]

theorem diffMemory_noChange {b c : Option Yaml} (h : NoChange .memory (diffMemory b c)) :
    Yaml.sameOption (b.bind (·.get "memory")) (c.bind (·.get "memory")) = true := by
  unfold diffMemory at h
  by_contra hne
  rw [if_neg hne, NoChange.singleton] at h
  exact h rfl

theorem diffPrompts_noChange {b c : List (String × Bytes)} {ignoreWs : Bool}
    (h : NoChange .prompts (diffPrompts b c ignoreWs)) : SamePrompts b c ignoreWs := by
  intro path hpath
  have hrel := diffMaps_noChange h (fun _ _ => rfl) (fun _ _ => rfl) path
  rw [getElem?_promptsMap hpath, getElem?_promptsMap hpath] at hrel
  generalize promptAt path b = v, promptAt path c = w at hrel ⊢
  cases hrel with
  | none => exact .none
  | some hor =>
      rcases hor with hsame | hnone
      · exact .some hsame
      · exact absurd rfl (NoChange.singleton.mp hnone)

/-! ## The report -/

variable (parse : Bytes → Option Yaml)

/-- The changes of a category are part of the report. -/
def Shown (options : DiffOptions) (category : DiffCategory) : Prop :=
  options.included = [] ∨ category ∈ options.included

/-- What follows, for each category, when none of its changes is reported. -/
structure Silence (b c : Bundle) (options : DiffOptions) (report : DiffReport) : Prop where
  model : Shown options .model → NoChange .model report.changes →
    SameModel (genomeOf parse b) (genomeOf parse c)
  tools : Shown options .tools → NoChange .tools report.changes →
    SameItems "name" (itemsAt (genomeOf parse b) "tools") (itemsAt (genomeOf parse c) "tools")
  knowledge : Shown options .knowledge → NoChange .knowledge report.changes →
    SameSnapshots (itemsAt (genomeOf parse b) "knowledge") (itemsAt (genomeOf parse c) "knowledge")
  policies : Shown options .policies → NoChange .policies report.changes →
    SameIds (itemsAt (genomeOf parse b) "policies") (itemsAt (genomeOf parse c) "policies")
  memory : Shown options .memory → NoChange .memory report.changes →
    Yaml.sameOption ((genomeOf parse b).bind (·.get "memory"))
      ((genomeOf parse c).bind (·.get "memory")) = true
  contract : Shown options .contract → NoChange .contract report.changes →
    SameItems "id" (rulesOf (contractOf parse b)) (rulesOf (contractOf parse c))
  prompts : Shown options .prompts → NoChange .prompts report.changes →
    SamePrompts b.pairs c.pairs options.ignorePromptsWhitespace

variable {parse}

/-- A change of a category that is shown was reported. -/
theorem noChange_allChanges {b c : Bundle} {options : DiffOptions} {category : DiffCategory}
    (hshown : Shown options category)
    (h : NoChange category (diffBundles parse b c options).changes) :
    NoChange category (allChanges parse b c options) := by
  intro change hchange hcategory
  refine h change ?_ hcategory
  unfold diffBundles
  dsimp only
  by_cases hall : options.included = []
  · rw [if_pos hall]
    exact hchange
  · rw [if_neg hall, List.mem_filter, hcategory]
    exact ⟨hchange, decide_eq_true (hshown.resolve_left hall)⟩

/-- **What silence means.** -/
theorem diffBundles_silent (parse : Bytes → Option Yaml) (b c : Bundle) (options : DiffOptions) :
    Silence parse b c options (diffBundles parse b c options) := by
  -- the changes of the seven categories stand one after the other
  have hparts : ∀ {category}, Shown options category →
      NoChange category (diffBundles parse b c options).changes →
      (((((NoChange category (diffModel (genomeOf parse b) (genomeOf parse c))
        ∧ NoChange category (diffTools (genomeOf parse b) (genomeOf parse c)))
        ∧ NoChange category (diffKnowledge (genomeOf parse b) (genomeOf parse c)))
        ∧ NoChange category (diffPolicies (genomeOf parse b) (genomeOf parse c)))
        ∧ NoChange category (diffMemory (genomeOf parse b) (genomeOf parse c)))
        ∧ NoChange category (diffContractRules (contractOf parse b) (contractOf parse c)))
        ∧ NoChange category (diffPrompts b.pairs c.pairs options.ignorePromptsWhitespace) := by
    intro category hshown h
    obtain ⟨h, hprompts⟩ := (noChange_allChanges hshown h).of_append
    obtain ⟨h, hcontract⟩ := h.of_append
    obtain ⟨h, hmemory⟩ := h.of_append
    obtain ⟨h, hpolicies⟩ := h.of_append
    obtain ⟨h, hknowledge⟩ := h.of_append
    obtain ⟨hmodel, htools⟩ := h.of_append
    exact ⟨⟨⟨⟨⟨⟨hmodel, htools⟩, hknowledge⟩, hpolicies⟩, hmemory⟩, hcontract⟩, hprompts⟩
  constructor
  · exact fun hshown h => diffModel_noChange (hparts hshown h).1.1.1.1.1.1
  · exact fun hshown h => SameItems.of_noChange (hparts hshown h).1.1.1.1.1.2 (fun _ _ => rfl)
      (fun _ _ _ => rfl) (fun _ _ => rfl)
  · exact fun hshown h => diffKnowledge_noChange (hparts hshown h).1.1.1.1.2
  · exact fun hshown h => diffPolicies_noChange (hparts hshown h).1.1.1.2
  · exact fun hshown h => diffMemory_noChange (hparts hshown h).1.1.2
  · exact fun hshown h => SameItems.of_noChange (hparts hshown h).1.2 (fun _ _ => rfl)
      (fun _ _ _ => rfl) (fun _ _ => rfl)
  · exact fun hshown h => diffPrompts_noChange (hparts hshown h).2

/-! ## A policy that changed -/

/-- A genome with one policy. -/
def policyGenome (source : String) : Yaml :=
  .mapping [(.string "policies", .sequence [.mapping
    [(.string "id", .string "egress"), (.string "source", .string source)]])]

/-- The text of that genome. -/
def policyText (source : String) : Bytes :=
  utf8Encode s!"policies:\n- id: egress\n  source: {source}\n".toList

/-- YAML, as far as these two genomes go. -/
def parsePolicies (bytes : Bytes) : Option Yaml :=
  if bytes = policyText "deny.rego" then some (policyGenome "deny.rego")
  else if bytes = policyText "allow.rego" then some (policyGenome "allow.rego")
  else none

def policyBundle (source : String) : Bundle := ⟨[("genome.yaml", policyText source)], ""⟩

/-- The content of a policy changes under its id, and nothing is reported. -/
theorem policy_overlooked :
    ¬ ∀ (parse : Bytes → Option Yaml) (b c : Bundle) (options : DiffOptions),
      Shown options .policies → NoChange .policies (diffBundles parse b c options).changes →
      ((itemsAt (genomeOf parse b) "policies").map data).Perm
        ((itemsAt (genomeOf parse c) "policies").map data) := by
  intro h
  have hnone : (diffBundles parsePolicies (policyBundle "deny.rego") (policyBundle "allow.rego")
      ⟨[], false⟩).changes = [] := by
    decide +kernel
  have hperm := h parsePolicies (policyBundle "deny.rego") (policyBundle "allow.rego") ⟨[], false⟩
    (.inl rfl) (by rw [hnone]; exact fun _ hmem => absurd hmem List.not_mem_nil)
  have hne : ((itemsAt (genomeOf parsePolicies (policyBundle "deny.rego")) "policies").map data)
      ≠ (itemsAt (genomeOf parsePolicies (policyBundle "allow.rego")) "policies").map data := by
    decide +kernel
  exact hne (List.perm_singleton.mp hperm)

end Agenomic.Diff
