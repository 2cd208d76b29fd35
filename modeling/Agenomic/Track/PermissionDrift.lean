import Agenomic.Track.Loops

/-!
# Drift of permissions

A tool that is not among the permitted ones is reported by its name; of a tool that is, and
whose permissions the baseline lists, the permissions outside this list are. Each of the two
reports comes once for a tool, and what the baseline does not list is not checked.

**`drift_reported`**: every tool outside the permitted ones is named by then; and the first
event at which a tool exceeds its list raises an alert that names the tool and all by which
it does.
-/

namespace Agenomic.Track

open Lib Prompt

/-- The tool that an event of a call uses. -/
def toolOf (ev : TrackingEvent) : Option ToolMeta :=
  match ev.eventType with
  | .toolCallStarted | .toolCallCompleted => ev.tool
  | _ => none

namespace DriftBaseline

/-- The baseline lets a tool have a permission. -/
def Grants (baseline : DriftBaseline) (tool permission : String) : Prop :=
  ∃ granted, baseline.toolPermissions.lookup tool = some granted ∧ permission ∈ granted

/-- The tool is outside the permitted ones. -/
def Outside (baseline : DriftBaseline) (tool : String) : Prop :=
  baseline.allowedTools ≠ [] ∧ tool ∉ baseline.allowedTools

instance (baseline : DriftBaseline) (tool : String) : Decidable (baseline.Outside tool) :=
  inferInstanceAs (Decidable (_ ∧ _))

/-- The tool is not outside, and the baseline lists what it may do. -/
def Lists (baseline : DriftBaseline) (tool : String) (granted : List String) : Prop :=
  ¬ baseline.Outside tool ∧ baseline.toolPermissions.lookup tool = some granted

/-- An event at which a tool does what its list does not have. -/
def Exceeds (baseline : DriftBaseline) (name : String) (ev : TrackingEvent) : Prop :=
  ∃ tool granted, toolOf ev = some tool ∧ tool.name = name ∧ baseline.Lists name granted
    ∧ ∃ permission ∈ tool.permissions, permission ∉ granted

end DriftBaseline

/-- An alert names a tool. -/
def NamesTool (b : AlertBody) (tool : String) : Prop :=
  ("Tool '" ++ tool ++ "' ").toList <+: b.message.toList

theorem namesTool_of_message {b : AlertBody} {tool verb rest : String}
    (hverb : "' ".toList <+: verb.toList) (h : b.message = "Tool '" ++ tool ++ verb ++ rest) :
    NamesTool b tool := by
  have hmessage : b.message.toList = (("Tool '" ++ tool).toList ++ verb.toList) ++ rest.toList := by
    rw [h, String.toList_append, String.toList_append]
  unfold NamesTool
  rw [hmessage, String.toList_append]
  exact ((List.prefix_append_right_inj _).mpr hverb).trans (List.prefix_append _ _)

/-- An alert names a permission, among what was observed. -/
def NamesPermission (b : AlertBody) (permission : String) : Prop :=
  ∃ observed, b.observed = some (.array observed) ∧ .string permission ∈ observed

namespace DriftDetector

variable (d : Deps)

/-- The detector after some events, and all the alerts that they raised. -/
def watched (t : DriftDetector) (evs : List TrackingEvent) : DriftDetector × List AlertBody :=
  evs.foldl (fun (t, found) ev => ((observe d ev t).1, found ++ (observe d ev t).2)) (t, [])

/-- What the detector compares with, and the tools that have been reported. -/
def permissionPart (t : DriftDetector) :
    DriftConfig × DriftBaseline × (String → Bool) × (String → Bool) :=
  (t.config, t.baseline, fun name => decide ("tool_perm:" ++ name ∈ t.alerted),
    fun name => decide ("tool_perm_extra:" ++ name ∈ t.alerted))

/-- Raising finds an alert with the message and what was observed, unless the key has alerted. -/
theorem raise_cases (key : String) (driftType : DriftType) (mode : String) (severity : AlertSeverity)
    (message : String) (observed expected : Value) (eid : String) (blocks review : Bool)
    (t : DriftDetector) :
    key ∈ t.alerted
        ∧ raise key driftType mode severity message observed expected eid blocks review t = (t, [])
      ∨ key ∉ t.alerted ∧ ∃ b, b.message = message ∧ b.observed = some observed
        ∧ raise key driftType mode severity message observed expected eid blocks review t
          = ({ t with alerted := key :: t.alerted }, [b]) := by
  unfold raise raiseOnce
  dsimp only
  by_cases hkey : key ∈ t.alerted
  · rw [if_pos hkey]
    exact .inl ⟨hkey, rfl⟩
  · rw [if_neg hkey]
    exact .inr ⟨hkey, _, rfl, rfl, rfl⟩

/-- How the keys of the other drifts start. -/
def otherStarts : List String :=
  ["model_provider", "model_id", "model_temp", "prompt", "policy:", "memory_schema", "workflow:",
    "behav:"]

theorem otherStarts_apart :
    ∀ start ∈ otherStarts, Apart "tool_perm:" start ∧ Apart "tool_perm_extra:" start := by
  decide +kernel

/-- Raising by another key leaves the reports about permissions alone. -/
theorem raise_leaves {start : String} (hstart : start ∈ otherStarts) (rest : String)
    {driftType : DriftType}
    {mode : String} {severity : AlertSeverity} {message : String} {observed expected : Value}
    {eid : String} {blocks review : Bool} :
    Watch.Leaves permissionPart (fun _ => True)
      (raise (start ++ rest) driftType mode severity message observed expected eid blocks
        review) := by
  obtain ⟨htool, hextra⟩ := otherStarts_apart start hstart
  intro t
  refine ⟨?_, fun _ _ => trivial⟩
  rcases raise_cases (start ++ rest) driftType mode severity message observed expected eid blocks
    review t with ⟨_, hraise⟩ | ⟨_, b, _, _, hraise⟩
  · rw [hraise]
  · rw [hraise]
    unfold permissionPart
    simp only [List.mem_cons, htool.append_ne _ rest, hextra.append_ne _ rest, false_or]

/-- The same for a key that is the start alone. -/
theorem raise_leaves_alone {key : String} (hkey : key ∈ otherStarts) {driftType : DriftType}
    {mode : String} {severity : AlertSeverity} {message : String} {observed expected : Value}
    {eid : String} {blocks review : Bool} :
    Watch.Leaves permissionPart (fun _ => True)
      (raise key driftType mode severity message observed expected eid blocks review) := by
  have hleaves := @raise_leaves key hkey "" driftType mode severity message observed
    expected eid blocks review
  rw [String.append_empty] at hleaves
  exact hleaves

theorem observeModel_leaves (ev : TrackingEvent) (model : ModelMeta) :
    Watch.Leaves permissionPart (fun _ => True) (observeModel d ev model) := by
  refine leaves_read fun t => leaves_seq ?_ (leaves_seq ?_ ?_)
  · cases t.baseline.modelProvider with
    | none => exact leaves_skip
    | some bp => exact leaves_when (raise_leaves_alone (by simp [otherStarts]))
  · cases t.baseline.modelId with
    | none => exact leaves_skip
    | some bm => exact leaves_when (raise_leaves_alone (by simp [otherStarts]))
  · split
    · exact leaves_when (raise_leaves_alone (by simp [otherStarts]))
    · exact leaves_skip

theorem observeMetadata_leaves {ev : TrackingEvent} {key : String} {expected : Option String}
    {alert : String → String → Watch DriftDetector}
    (h : ∀ b s, Watch.Leaves permissionPart (fun _ => True) (alert b s)) :
    Watch.Leaves permissionPart (fun _ => True) (observeMetadata ev key expected alert) := by
  unfold observeMetadata
  split
  · exact leaves_when (h _ _)
  · exact leaves_skip

theorem observePrompt_leaves (ev : TrackingEvent) :
    Watch.Leaves permissionPart (fun _ => True) (observePrompt ev) :=
  leaves_read fun _ => observeMetadata_leaves fun _ _ =>
    raise_leaves_alone (by simp [otherStarts])

theorem observeMemory_leaves (ev : TrackingEvent) :
    Watch.Leaves permissionPart (fun _ => True) (observeMemory ev) :=
  leaves_read fun _ => observeMetadata_leaves fun _ _ =>
    raise_leaves_alone (by simp [otherStarts])

theorem observePolicy_leaves (ev : TrackingEvent) :
    Watch.Leaves permissionPart (fun _ => True) (observePolicy ev) := by
  refine leaves_read fun t => ?_
  cases ev.policyResult.bind PolicyResult.policyId with
  | none => exact leaves_skip
  | some pid => exact leaves_when (raise_leaves (by simp [otherStarts]) pid)

theorem observeStep_leaves (ev : TrackingEvent) :
    Watch.Leaves permissionPart (fun _ => True) (observeStep ev) := by
  refine leaves_read fun t => ?_
  cases ev.workflowStepId with
  | none => exact leaves_skip
  | some step => exact leaves_when (raise_leaves (by simp [otherStarts]) step)

theorem behavioral_leaves (ev : TrackingEvent) :
    Watch.Leaves permissionPart (fun _ => True) (behavioral ev) := by
  refine leaves_read fun t => ?_
  cases t.provider.bind fun classify => classify ev t.baseline with
  | none => exact leaves_skip
  | some bd =>
      have hleaves := @raise_leaves "behav:" (by simp [otherStarts])
        (bd.driftType.label ++ ":" ++ ev.eventId)
      rw [← String.append_assoc, ← String.append_assoc] at hleaves
      exact hleaves

/-- A step reports permissions as it should: what it marks as reported it names, or an event
has exceeded its list; and what is not yet reported, it reports. -/
structure Reports (ev : TrackingEvent) (w : Watch DriftDetector) (t : DriftDetector) : Prop where
  config_eq : (w t).1.config = t.config
  baseline_eq : (w t).1.baseline = t.baseline
  outside : ∀ name, "tool_perm:" ++ name ∈ (w t).1.alerted →
    "tool_perm:" ++ name ∈ t.alerted ∨ ∃ b ∈ (w t).2, NamesTool b name
  exceeds : ∀ name, "tool_perm_extra:" ++ name ∈ (w t).1.alerted →
    "tool_perm_extra:" ++ name ∈ t.alerted ∨ t.baseline.Exceeds name ev
  reported : ∀ tool, toolOf ev = some tool → t.baseline.Outside tool.name →
    "tool_perm:" ++ tool.name ∈ (w t).1.alerted
  named : ∀ tool granted, toolOf ev = some tool → t.baseline.Lists tool.name granted →
    (∃ p ∈ tool.permissions, p ∉ granted) → "tool_perm_extra:" ++ tool.name ∉ t.alerted →
    ∃ b ∈ (w t).2, NamesTool b tool.name
      ∧ ∀ p ∈ tool.permissions, p ∉ granted → NamesPermission b p

variable {d} {ev : TrackingEvent} {f g : Watch DriftDetector} {t : DriftDetector}

/-- What leaves the reports alone may come after. -/
theorem Reports.before (h : Reports ev f t)
    (hg : Watch.Leaves permissionPart (fun _ => True) g) : Reports ev (.seq f g) t := by
  obtain ⟨hconfig, hrest⟩ := Prod.mk.inj (hg (f t).1).1
  obtain ⟨hbaseline, hrest⟩ := Prod.mk.inj hrest
  obtain ⟨houtside, hexceeds⟩ := Prod.mk.inj hrest
  refine ⟨hconfig.trans h.config_eq, hbaseline.trans h.baseline_eq, ?_, ?_, ?_, ?_⟩
  · intro name hname
    have hmem := (decide_eq_decide.mp (congrFun houtside name)).mp hname
    rcases h.outside name hmem with hold | ⟨b, hb, hnames⟩
    · exact .inl hold
    · exact .inr ⟨b, List.mem_append_left _ hb, hnames⟩
  · intro name hname
    exact h.exceeds name ((decide_eq_decide.mp (congrFun hexceeds name)).mp hname)
  · intro tool htool hout
    exact (decide_eq_decide.mp (congrFun houtside tool.name)).mpr (h.reported tool htool hout)
  · intro tool granted htool hlists hextra hnew
    obtain ⟨b, hb, hnames⟩ := h.named tool granted htool hlists hextra hnew
    exact ⟨b, List.mem_append_left _ hb, hnames⟩

theorem reports_of_leaves (hev : toolOf ev = none)
    (hf : Watch.Leaves permissionPart (fun _ => True) f) : Reports ev f t := by
  obtain ⟨hconfig, hrest⟩ := Prod.mk.inj (hf t).1
  obtain ⟨hbaseline, hrest⟩ := Prod.mk.inj hrest
  obtain ⟨houtside, hexceeds⟩ := Prod.mk.inj hrest
  refine ⟨hconfig, hbaseline, ?_, ?_, ?_, ?_⟩
  · exact fun name hname => .inl ((decide_eq_decide.mp (congrFun houtside name)).mp hname)
  · exact fun name hname => .inl ((decide_eq_decide.mp (congrFun hexceeds name)).mp hname)
  · intro tool htool
    rw [hev] at htool
    cases htool
  · intro tool granted htool
    rw [hev] at htool
    cases htool

theorem Reports.congr (h : Reports ev f t) (heq : g t = f t) : Reports ev g t := by
  obtain ⟨hconfig, hbaseline, houtside, hexceeds, hreported, hnamed⟩ := h
  rw [← heq] at hconfig hbaseline houtside hexceeds hreported hnamed
  exact ⟨hconfig, hbaseline, houtside, hexceeds, hreported, hnamed⟩

/-- A step that finds and marks nothing, where nothing is to be reported. -/
theorem reports_skip (hout : ∀ tool, toolOf ev = some tool → ¬ t.baseline.Outside tool.name)
    (hexceeds : ∀ tool granted, toolOf ev = some tool → t.baseline.Lists tool.name granted →
      ∀ p ∈ tool.permissions, p ∈ granted) : Reports ev .skip t where
  config_eq := rfl
  baseline_eq := rfl
  outside _ h := .inl h
  exceeds _ h := .inl h
  reported tool htool h := absurd h (hout tool htool)
  named tool granted htool hlists hextra := by
    obtain ⟨p, hp, hnot⟩ := hextra
    exact absurd (hexceeds tool granted htool hlists p hp) hnot

theorem permissionKeys_apart (name other : String) :
    "tool_perm:" ++ name ≠ "tool_perm_extra:" ++ other :=
  (by decide +kernel : Apart "tool_perm:" "tool_perm_extra:").append_ne name other

/-- A tool outside the permitted ones is reported by its name. -/
theorem reports_outside {tool : ToolMeta} (htool : toolOf ev = some tool)
    (hout : t.baseline.Outside tool.name) {severity : AlertSeverity} {observed expected : Value} :
    Reports ev (raiseDeterministic ("tool_perm:" ++ tool.name) .toolPermission severity
      ("Tool '" ++ tool.name ++ "' is not in the baseline's permitted tool set.") observed expected ev
      true true) t := by
  have hnoList : ∀ granted, ¬ t.baseline.Lists tool.name granted := fun _ h => h.1 hout
  unfold raiseDeterministic
  rcases raise_cases ("tool_perm:" ++ tool.name) .toolPermission "deterministic" severity
    ("Tool '" ++ tool.name ++ "' is not in the baseline's permitted tool set.") observed expected
    ev.eventId true true t with ⟨hkey, hraise⟩ | ⟨hkey, b, hmessage, _, hraise⟩
  · refine Reports.congr (f := fun t => (t, [])) ⟨rfl, rfl, ?_, ?_, ?_, ?_⟩ hraise
    · exact fun _ h => .inl h
    · exact fun _ h => .inl h
    · intro used hused _
      rw [htool] at hused
      cases hused
      exact hkey
    · intro used granted hused hlists
      rw [htool] at hused
      cases hused
      exact absurd hlists (hnoList granted)
  · refine Reports.congr (f := fun t => ({ t with alerted := ("tool_perm:" ++ tool.name) :: t.alerted },
      [b])) ⟨rfl, rfl, ?_, ?_, ?_, ?_⟩ hraise
    · intro name hname
      rcases List.mem_cons.mp hname with heq | hold
      · right
        refine ⟨b, List.mem_singleton_self b, ?_⟩
        rw [(String.append_right_inj _).mp heq]
        have hverb := hmessage.trans String.append_empty.symm
        exact namesTool_of_message (by decide +kernel) hverb
      · exact .inl hold
    · intro name hname
      rcases List.mem_cons.mp hname with heq | hold
      · exact absurd heq.symm (permissionKeys_apart _ _)
      · exact .inl hold
    · intro used hused _
      rw [htool] at hused
      cases hused
      exact List.mem_cons_self
    · intro used granted hused hlists
      rw [htool] at hused
      cases hused
      exact absurd hlists (hnoList granted)

/-- A tool that exceeds its list is reported with all by which it does. -/
theorem reports_extra {tool : ToolMeta} {granted : List String} (htool : toolOf ev = some tool)
    (hlists : t.baseline.Lists tool.name granted) {text : String} {severity : AlertSeverity}
    {expected : Value} (hextra : tool.permissions.filter (fun p => p ∉ granted) ≠ []) :
    Reports ev (raiseDeterministic ("tool_perm_extra:" ++ tool.name) .toolPermission severity
      ("Tool '" ++ tool.name ++ "' requested permissions outside its baseline grant: " ++ text ++ ".")
      (textValues (tool.permissions.filter fun p => p ∉ granted)) expected ev true true) t := by
  have hexceeds : t.baseline.Exceeds tool.name ev := by
    obtain ⟨p, hp⟩ := List.exists_mem_of_ne_nil _ hextra
    rw [List.mem_filter] at hp
    exact ⟨tool, granted, htool, rfl, hlists, p, hp.1, of_decide_eq_true hp.2⟩
  unfold raiseDeterministic
  rcases raise_cases ("tool_perm_extra:" ++ tool.name) .toolPermission "deterministic" severity
    ("Tool '" ++ tool.name ++ "' requested permissions outside its baseline grant: " ++ text ++ ".")
    (textValues (tool.permissions.filter fun p => p ∉ granted)) expected ev.eventId true true t with
    ⟨hkey, hraise⟩ | ⟨hkey, b, hmessage, hobserved, hraise⟩
  · refine Reports.congr (f := fun t => (t, [])) ⟨rfl, rfl, ?_, ?_, ?_, ?_⟩ hraise
    · exact fun _ h => .inl h
    · exact fun _ h => .inl h
    · intro used hused hout
      rw [htool] at hused
      cases hused
      exact absurd hout hlists.1
    · intro used granted' hused _ _ hnew
      rw [htool] at hused
      cases hused
      exact absurd hkey hnew
  · refine Reports.congr (f := fun t => ({ t with
      alerted := ("tool_perm_extra:" ++ tool.name) :: t.alerted }, [b])) ⟨rfl, rfl, ?_, ?_, ?_, ?_⟩
      hraise
    · intro name hname
      rcases List.mem_cons.mp hname with heq | hold
      · exact absurd heq (permissionKeys_apart _ _)
      · exact .inl hold
    · intro name hname
      rcases List.mem_cons.mp hname with heq | hold
      · rw [(String.append_right_inj _).mp heq]
        exact .inr hexceeds
      · exact .inl hold
    · intro used hused hout
      rw [htool] at hused
      cases hused
      exact absurd hout hlists.1
    · intro used granted' hused hlists' _ _
      rw [htool] at hused
      cases hused
      have hsame : granted' = granted := Option.some.inj (hlists'.2.symm.trans hlists.2)
      subst hsame
      refine ⟨b, List.mem_singleton_self b, ?_, fun p hp hnot => ?_⟩
      · refine namesTool_of_message ?_ (hmessage.trans String.append_assoc)
        decide +kernel
      · refine ⟨_, hobserved, List.mem_map_of_mem (List.mem_filter.mpr ⟨hp, ?_⟩)⟩
        exact decide_eq_true hnot

/-- **Checking the tool of an event** against the baseline. -/
theorem reports_observeTool (hev : toolOf ev = ev.tool) : Reports ev (observeTool d ev) t := by
  cases htool : ev.tool with
  | none =>
      refine reports_of_leaves (hev.trans htool) (leaves_read fun t => ?_)
      rw [htool]
      exact leaves_skip
  | some tool =>
      have hused : toolOf ev = some tool := hev.trans htool
      have hread : observeTool d ev t =
          (if t.baseline.Outside tool.name then
            raiseDeterministic ("tool_perm:" ++ tool.name) .toolPermission .critical
              ("Tool '" ++ tool.name ++ "' is not in the baseline's permitted tool set.")
              (.string tool.name) (textValues (sortedStrs t.baseline.allowedTools)) ev true true
          else
            (t.baseline.toolPermissions.lookup tool.name).elim .skip fun expected =>
                .when (tool.permissions.filter (fun p => p ∉ expected) ≠ []) <|
                  raiseDeterministic ("tool_perm_extra:" ++ tool.name) .toolPermission .critical
                    ("Tool '" ++ tool.name ++ "' requested permissions outside its baseline grant: "
                      ++ d.debugTexts (tool.permissions.filter fun p => p ∉ expected) ++ ".")
                    (textValues (tool.permissions.filter fun p => p ∉ expected))
                    (textValues (sortedStrs expected)) ev true true) t := by
        unfold observeTool Watch.read
        rw [htool]
        dsimp only
        cases t.baseline.toolPermissions.lookup tool.name <;> rfl
      refine Reports.congr ?_ hread
      by_cases hout : t.baseline.Outside tool.name
      · rw [if_pos hout]
        exact reports_outside hused hout
      · rw [if_neg hout]
        have hnotOut : ∀ used, toolOf ev = some used → ¬ t.baseline.Outside used.name := by
          intro used hu
          rw [hused] at hu
          cases hu
          exact hout
        cases hlookup : t.baseline.toolPermissions.lookup tool.name with
        | none =>
            refine reports_skip hnotOut fun used granted hu hlists => ?_
            rw [hused] at hu
            cases hu
            rw [DriftBaseline.Lists, hlookup] at hlists
            cases hlists.2
        | some granted =>
            dsimp only [Option.elim_some]
            unfold Watch.when
            by_cases hextra : tool.permissions.filter (fun p => p ∉ granted) ≠ []
            · rw [if_pos hextra]
              exact reports_extra hused ⟨hout, hlookup⟩ hextra
            · rw [if_neg hextra]
              refine reports_skip hnotOut fun used granted' hu hlists p hp => ?_
              rw [hused] at hu
              cases hu
              have hsame : granted' = granted := Option.some.inj (hlists.2.symm.trans hlookup)
              rw [hsame]
              by_contra hnot
              refine hextra fun hnil => ?_
              have hmem : p ∈ tool.permissions.filter fun p => p ∉ granted :=
                List.mem_filter.mpr ⟨hp, decide_eq_true hnot⟩
              rw [hnil] at hmem
              exact List.not_mem_nil hmem

theorem toolOf_eq_none (h : ev.eventType ≠ .toolCallStarted) (h' : ev.eventType ≠ .toolCallCompleted) :
    toolOf ev = none := by
  unfold toolOf
  split
  · exact absurd ‹_› h
  · exact absurd ‹_› h'
  · rfl

theorem reports_deterministic : Reports ev (deterministic d ev) t := by
  unfold deterministic
  split
  · rename_i ht
    exact reports_observeTool (by unfold toolOf; rw [ht])
  · rename_i ht
    exact reports_observeTool (by unfold toolOf; rw [ht])
  · rename_i ht
    refine reports_of_leaves (by unfold toolOf; rw [ht]) (leaves_seq ?_ (observePrompt_leaves ev))
    cases ev.model with
    | none => exact leaves_skip
    | some model => exact observeModel_leaves d ev model
  · rename_i ht
    refine reports_of_leaves (by unfold toolOf; rw [ht]) (leaves_seq ?_ (observePrompt_leaves ev))
    cases ev.model with
    | none => exact leaves_skip
    | some model => exact observeModel_leaves d ev model
  · rename_i ht
    exact reports_of_leaves (by unfold toolOf; rw [ht]) (observePolicy_leaves ev)
  · rename_i ht
    exact reports_of_leaves (by unfold toolOf; rw [ht]) (observeMemory_leaves ev)
  · rename_i ht
    exact reports_of_leaves (by unfold toolOf; rw [ht]) (observeMemory_leaves ev)
  · rename_i ht
    exact reports_of_leaves (by unfold toolOf; rw [ht]) (observeStep_leaves ev)
  · rename_i hstarted hcompleted _ _ _ _ _ _
    exact reports_of_leaves (toolOf_eq_none hstarted hcompleted) leaves_skip

/-- **One event.** -/
theorem reports_observe (henabled : t.config.enabled = true)
    (hdeterministic : t.config.deterministic = true) : Reports ev (observe d ev) t := by
  have hbehavioral : Watch.Leaves permissionPart (fun _ => True)
      (.when (t.config.behavioral = true) (behavioral ev)) := leaves_when (behavioral_leaves ev)
  refine Reports.congr ((reports_deterministic (d := d)).before hbehavioral) ?_
  unfold observe Watch.read
  dsimp only
  rw [Watch.when, if_pos henabled, Watch.when, if_pos hdeterministic]

/-! ## Runs -/

theorem watched_append (d : Deps) (t : DriftDetector) (past : List TrackingEvent)
    (ev : TrackingEvent) : t.watched d (past ++ [ev]) =
      ((observe d ev (t.watched d past).1).1,
        (t.watched d past).2 ++ (observe d ev (t.watched d past).1).2) := List.foldl_append

/-- What is marked as reported has been named, or an event has exceeded its list. -/
structure Reported (d : Deps) (t : DriftDetector) (past : List TrackingEvent) : Prop where
  config_eq : (t.watched d past).1.config = t.config
  baseline_eq : (t.watched d past).1.baseline = t.baseline
  outside : ∀ name, "tool_perm:" ++ name ∈ (t.watched d past).1.alerted →
    ∃ b ∈ (t.watched d past).2, NamesTool b name
  exceeds : ∀ name, "tool_perm_extra:" ++ name ∈ (t.watched d past).1.alerted →
    ∃ e ∈ past, t.baseline.Exceeds name e

theorem reported (d : Deps) {t : DriftDetector} (hnew : t.alerted = [])
    (henabled : t.config.enabled = true) (hdeterministic : t.config.deterministic = true)
    (past : List TrackingEvent) : Reported d t past := by
  induction past using List.reverseRecOn with
  | nil =>
      refine ⟨rfl, rfl, fun name h => ?_, fun name h => ?_⟩
      · change _ ∈ t.alerted at h
        rw [hnew] at h
        exact absurd h List.not_mem_nil
      · change _ ∈ t.alerted at h
        rw [hnew] at h
        exact absurd h List.not_mem_nil
  | append_singleton past ev ih =>
      have hstep : Reports ev (observe d ev) (t.watched d past).1 :=
        reports_observe (by rw [ih.config_eq]; exact henabled)
          (by rw [ih.config_eq]; exact hdeterministic)
      refine ⟨?_, ?_, ?_, ?_⟩
      · rw [watched_append]
        exact hstep.config_eq.trans ih.config_eq
      · rw [watched_append]
        exact hstep.baseline_eq.trans ih.baseline_eq
      · rw [watched_append]
        intro name hname
        rcases hstep.outside name hname with hold | ⟨b, hb, hnames⟩
        · obtain ⟨b, hb, hnames⟩ := ih.outside name hold
          exact ⟨b, List.mem_append_left _ hb, hnames⟩
        · exact ⟨b, List.mem_append_right _ hb, hnames⟩
      · rw [watched_append]
        intro name hname
        rcases hstep.exceeds name hname with hold | hev
        · obtain ⟨e, he, hexceeds⟩ := ih.exceeds name hold
          exact ⟨e, List.mem_append_left _ he, hexceeds⟩
        · rw [ih.baseline_eq] at hev
          exact ⟨ev, List.mem_append_right _ (List.mem_singleton_self ev), hev⟩

/-- **Drift of permissions is reported**: a tool outside the permitted ones has been named by the
event that uses it; and the first event at which a tool exceeds its list raises an alert that
names the tool and every permission by which it does. -/
theorem drift_reported (d : Deps) (t : DriftDetector) (hnew : t.alerted = [])
    (henabled : t.config.enabled = true) (hdeterministic : t.config.deterministic = true)
    (past : List TrackingEvent) (ev : TrackingEvent) (tool : ToolMeta)
    (htool : toolOf ev = some tool) :
    (t.baseline.Outside tool.name →
      ∃ b ∈ (t.watched d (past ++ [ev])).2, NamesTool b tool.name)
    ∧ ∀ granted, t.baseline.Lists tool.name granted →
      (∃ permission ∈ tool.permissions, permission ∉ granted) →
      (∀ e ∈ past, ¬ t.baseline.Exceeds tool.name e) →
      ∃ b ∈ (observe d ev (t.watched d past).1).2, NamesTool b tool.name
        ∧ ∀ permission ∈ tool.permissions, permission ∉ granted → NamesPermission b permission := by
  have hbefore := reported d hnew henabled hdeterministic past
  have hafter := reported d hnew henabled hdeterministic (past ++ [ev])
  have hstep : Reports ev (observe d ev) (t.watched d past).1 :=
    reports_observe (by rw [hbefore.config_eq]; exact henabled)
      (by rw [hbefore.config_eq]; exact hdeterministic)
  constructor
  · intro hout
    refine hafter.outside tool.name ?_
    rw [watched_append]
    exact hstep.reported tool htool (by rw [hbefore.baseline_eq]; exact hout)
  · intro granted hlists hextra hfirst
    refine hstep.named tool granted htool (by rw [hbefore.baseline_eq]; exact hlists) hextra ?_
    intro hmarked
    obtain ⟨e, he, hexceeds⟩ := hbefore.exceeds tool.name hmarked
    exact hfirst e he hexceeds

/-- Every permission that the baseline does not grant has been named when it is used. -/
def ReportsAll (d : Deps) (t : DriftDetector) (evs : List TrackingEvent) : Prop :=
  ∀ past ev tool, ∀ permission ∈ tool.permissions, past ++ [ev] <+: evs → toolOf ev = some tool →
    ¬ t.baseline.Grants tool.name permission →
    ∃ b ∈ (t.watched d (past ++ [ev])).2, NamesTool b tool.name ∧ NamesPermission b permission

/-- A call of a tool that writes. -/
def writingCall : TrackingEvent :=
  { plainEvent .toolCallCompleted with tool := some ⟨"search", none, none, ["read", "write"]⟩ }

/-- A baseline that lists nothing grants nothing, and is not checked. -/
theorem not_reportsAll : ¬ ReportsAll plainDeps
    (new "s1" ⟨true, true, false, 0⟩ DriftBaseline.default) [writingCall] := by
  intro h
  obtain ⟨b, hb, _⟩ := h [] writingCall ⟨"search", none, none, ["read", "write"]⟩ "write"
    (by decide) (List.prefix_refl _) rfl (fun ⟨_, hlookup, _⟩ => nomatch hlookup)
  exact List.not_mem_nil hb

/-- A list of one permission, exceeded by another. -/
theorem drift_reported_write :
    ∃ b ∈ (observe plainDeps writingCall ((new "s1" ⟨true, true, false, 0⟩
      { DriftBaseline.default with toolPermissions := [("search", ["read"])] }).watched plainDeps
        []).1).2, NamesTool b "search"
        ∧ ∀ permission ∈ ["read", "write"], permission ∉ ["read"] → NamesPermission b permission :=
  (drift_reported plainDeps (new "s1" ⟨true, true, false, 0⟩
    { DriftBaseline.default with toolPermissions := [("search", ["read"])] }) rfl rfl rfl [] writingCall
    ⟨"search", none, none, ["read", "write"]⟩ rfl).2 ["read"] ⟨fun h => h.1 rfl, by decide⟩
    ⟨"write", by decide, by decide⟩ fun _ h => absurd h List.not_mem_nil

end DriftDetector

end Agenomic.Track
