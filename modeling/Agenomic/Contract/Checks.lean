import Agenomic.Rmp.Report

/-!
# Behavior contracts and their deterministic checks

A check looks at one trace and one rule and passes or says what is wrong. The seven
checks differ in what they look for only: each is a test of the trace that gives the
message of a breach (`check`), run when the rule has the type of the check.

Beside the tests stands what a rule asks for according to its documentation
(`Breaks`). **`fails_iff`** compares the two.
-/

namespace Agenomic.Contract

open Rmp (Severity)

/-! ## Data -/

/-- A JSON value. A number is kept as it is written. -/
inductive Value where
  | null
  | bool (b : Bool)
  | number (text : String)
  | string (s : String)
  | array (items : List Value)
  | object (fields : List (String × Value))
  deriving Repr

/-- The value at a key. -/
def get (key : String) (fields : List (String × Value)) : Option Value :=
  (fields.find? fun f => f.1 = key).map Prod.snd

/-- Whether there is a value at a key. -/
def containsKey (key : String) (fields : List (String × Value)) : Bool :=
  fields.any fun f => f.1 = key

/-- A tool call of a trace. -/
structure ToolCall where
  name : String
  humanApprovalPresent : Option Bool
  deriving DecidableEq, Repr

/-- One trace: an output, with the tool calls on the way to it. -/
structure TraceEnvelope where
  traceId : String
  output : Option Value
  toolCalls : List ToolCall
  metadata : Option Value
  deriving Repr

/-- One rule of a behavior contract. -/
structure ContractRule where
  ruleType : String
  severity : Severity
  requiredFields : List String
  forbiddenTools : List String
  sensitiveTools : List String
  outputFormat : Option String
  deriving DecidableEq, Repr

/-- Parsed behavior contract. -/
structure BehaviorContract where
  id : String
  rules : List ContractRule
  deriving DecidableEq, Repr

/-- Result of running a single check on a single trace. -/
structure CheckResult where
  checkId : String
  passed : Bool
  severity : Severity
  violationMessage : Option String
  deriving DecidableEq, Repr

/-! ## The checks -/

/-- A deterministic check. -/
structure DeterministicCheck where
  id : String
  evaluate : TraceEnvelope → ContractRule → CheckResult

def passing (rule : ContractRule) (id : String) : CheckResult := ⟨id, true, rule.severity, none⟩

def failing (rule : ContractRule) (id : String) (msg : String) : CheckResult :=
  ⟨id, false, rule.severity, some msg⟩

/-- The check that runs a test on the rules of its own type. -/
def check (id : String) (test : TraceEnvelope → ContractRule → Option String) :
    DeterministicCheck where
  id := id
  evaluate trace rule :=
    if rule.ruleType ≠ id then passing rule id
    else match test trace rule with
      | none => passing rule id
      | some msg => failing rule id msg

/-- Output JSON has all `required_fields`. -/
def requiredOutputField : DeterministicCheck :=
  check "required_output_field" fun trace rule => match trace.output with
    | some (.object m) =>
        (rule.requiredFields.find? fun field => !containsKey field m).map fun field =>
          s!"missing required field '{field}'"
    | _ => some "output is not a JSON object"

/-- No use of any tool listed in `forbidden_tools`. -/
def forbiddenToolUsed : DeterministicCheck :=
  check "forbidden_tool_used" fun trace rule =>
    (trace.toolCalls.find? fun c => rule.forbiddenTools.contains c.name).map fun c =>
      s!"forbidden tool '{c.name}' used"

/-- Sensitive tools never called without `human_approval_present = true`. -/
def toolRequiresHumanApproval : DeterministicCheck :=
  check "tool_requires_human_approval" fun trace rule =>
    (trace.toolCalls.find? fun c =>
      rule.sensitiveTools.contains c.name && !c.humanApprovalPresent.getD false).map fun c =>
        s!"sensitive tool '{c.name}' called without human_approval"

/-- Whether a text mentions compensation or policy, in any case. Only ASCII letters can come
to be letters of these two words when a text is put in lower case. -/
def mentionsPolicy (s : String) : Bool :=
  let lc := s.toList.map Char.toLower
  decide ("compensation".toList <:+: lc) || decide ("policy".toList <:+: lc)

/-- A field whose text mentions compensation or policy. -/
def mentionsPolicyIn : String × Value → Bool
  | (_, .string s) => mentionsPolicy s
  | _ => false

/-- When output mentions compensation/policy, must reference a policy source. -/
def policySourceRequired : DeterministicCheck :=
  check "policy_source_required" fun trace _ => match trace.output with
    | some (.object m) =>
        if m.any mentionsPolicyIn && !containsKey "policy_source" m then
          some "output references a policy/compensation decision but `policy_source` is missing"
        else none
    | _ => none

/-- Output has a `language` field for multilingual auditability. -/
def languageMatchFieldPresent : DeterministicCheck :=
  check "language_match_field_present" fun trace _ => match trace.output with
    | some (.object m) =>
        if containsKey "language" m then none else some "missing `language` field"
    | _ => some "output is not a JSON object"

/-- If `output_format = json`, the final output parses as JSON. `isJson` is whether the parser
takes a text. -/
def jsonOutputValid (isJson : String → Bool) : DeterministicCheck :=
  check "json_output_valid" fun trace rule =>
    if rule.outputFormat ≠ some "json" then none
    else match trace.output with
      | some (.object _) | some (.array _) => none
      | some (.string s) =>
          if isJson s then none else some "output_format=json but output string is not valid JSON"
      | _ => some "output is not JSON"

/-- The flag `human_approval` of the metadata, when it is set and a boolean. -/
def humanApproval (metadata : Option Value) : Bool :=
  match metadata with
  | some (.object m) => match get "human_approval" m with
    | some (.bool b) => b
    | _ => false
  | _ => false

/-- Final decision requires a `human_approval` flag in metadata. -/
def noFinalDecisionWithoutApproval : DeterministicCheck :=
  check "no_final_decision_without_approval" fun trace _ => match trace.output with
    | some (.object m) =>
        if containsKey "final_decision" m && !humanApproval trace.metadata then
          some "final_decision present but human_approval is not true"
        else none
    | _ => none

/-- The registry of seven deterministic checks. -/
def defaultChecks (isJson : String → Bool) : List DeterministicCheck :=
  [requiredOutputField, forbiddenToolUsed, toolRequiresHumanApproval, policySourceRequired,
    languageMatchFieldPresent, jsonOutputValid isJson, noFinalDecisionWithoutApproval]

/-! ## What a rule asks for -/

/-- A trace breaks a rule, as the rule types are documented. -/
inductive Breaks (isJson : String → Bool) (trace : TraceEnvelope) (rule : ContractRule) : Prop
  /-- The output JSON must contain every entry of `required_fields`. -/
  | requiredOutputField (htype : rule.ruleType = "required_output_field")
      (h : ¬ ∃ m, trace.output = some (.object m)
        ∧ ∀ field ∈ rule.requiredFields, containsKey field m = true)
  /-- No call to any tool in `forbidden_tools`. -/
  | forbiddenToolUsed (htype : rule.ruleType = "forbidden_tool_used")
      (h : ∃ call ∈ trace.toolCalls, call.name ∈ rule.forbiddenTools)
  /-- Sensitive tool calls require explicit human approval. -/
  | toolRequiresHumanApproval (htype : rule.ruleType = "tool_requires_human_approval")
      (h : ∃ call ∈ trace.toolCalls, call.name ∈ rule.sensitiveTools
        ∧ call.humanApprovalPresent ≠ some true)
  /-- If the output references a policy decision, a `policy_source` field must be present. -/
  | policySourceRequired (htype : rule.ruleType = "policy_source_required")
      (h : ∃ m, trace.output = some (.object m) ∧ (∃ f ∈ m, mentionsPolicyIn f = true)
        ∧ containsKey "policy_source" m = false)
  /-- The output must declare its `language` field. -/
  | languageMatchFieldPresent (htype : rule.ruleType = "language_match_field_present")
      (h : ¬ ∃ m, trace.output = some (.object m) ∧ containsKey "language" m = true)
  /-- If `output_format = json`, the final output parses as JSON; an output that is already a
  JSON value always passes, the rule is for final answers that are strings. -/
  | jsonOutputValid (htype : rule.ruleType = "json_output_valid")
      (hformat : rule.outputFormat = some "json")
      (h : trace.output = none ∨ ∃ s, trace.output = some (.string s) ∧ isJson s = false)
  /-- An output containing `final_decision` requires `human_approval = true` in metadata. -/
  | noFinalDecisionWithoutApproval (htype : rule.ruleType = "no_final_decision_without_approval")
      (h : ∃ m, trace.output = some (.object m) ∧ containsKey "final_decision" m = true)
      (hmeta : ¬ ∃ m, trace.metadata = some (.object m)
        ∧ get "human_approval" m = some (.bool true))

/-- An output that is a JSON value, but no object, array or string. -/
def Value.isScalar : Value → Bool
  | .null | .bool _ | .number _ => true
  | _ => false

/-- A rule that wants JSON meets an output that is a scalar. -/
def ScalarJson (trace : TraceEnvelope) (rule : ContractRule) : Prop :=
  rule.ruleType = "json_output_valid" ∧ rule.outputFormat = some "json"
    ∧ trace.output.any Value.isScalar = true

instance (trace : TraceEnvelope) (rule : ContractRule) : Decidable (ScalarJson trace rule) :=
  inferInstanceAs (Decidable (_ ∧ _))

/-! ## The checks against the documentation -/

variable {isJson : String → Bool} {trace : TraceEnvelope} {rule : ContractRule}

/-- A check fails on a rule of its type when its test does. -/
theorem check_fails {id : String} {test : TraceEnvelope → ContractRule → Option String} :
    ((check id test).evaluate trace rule).passed = false
      ↔ rule.ruleType = id ∧ test trace rule ≠ none := by
  unfold check
  dsimp only
  by_cases hid : rule.ruleType = id
  · rw [if_neg (not_not.mpr hid)]
    cases htest : test trace rule with
    | none => simp [passing]
    | some msg => simp [failing, hid]
  · rw [if_pos hid]
    simp [passing, hid]

/-- The result of a check carries the id of the check and the severity of the rule. -/
theorem check_result {id : String} {test : TraceEnvelope → ContractRule → Option String} :
    ((check id test).evaluate trace rule).checkId = id
      ∧ ((check id test).evaluate trace rule).severity = rule.severity := by
  unfold check
  dsimp only
  by_cases hid : rule.ruleType = id
  · rw [if_neg (not_not.mpr hid)]
    cases test trace rule with
    | none => exact ⟨rfl, rfl⟩
    | some msg => exact ⟨rfl, rfl⟩
  · rw [if_pos hid]
    exact ⟨rfl, rfl⟩

theorem requiredOutputField_fails :
    (requiredOutputField.evaluate trace rule).passed = false
      ↔ rule.ruleType = "required_output_field" ∧ ¬ ∃ m, trace.output = some (.object m)
        ∧ ∀ field ∈ rule.requiredFields, containsKey field m = true := by
  unfold requiredOutputField
  rw [check_fails]
  refine and_congr_right fun _ => ?_
  cases hout : trace.output with
  | none => simp
  | some v =>
      cases v with
      | object m => simp
      | _ => simp

theorem forbiddenToolUsed_fails :
    (forbiddenToolUsed.evaluate trace rule).passed = false
      ↔ rule.ruleType = "forbidden_tool_used"
        ∧ ∃ call ∈ trace.toolCalls, call.name ∈ rule.forbiddenTools := by
  unfold forbiddenToolUsed
  rw [check_fails]
  simp

theorem toolRequiresHumanApproval_fails :
    (toolRequiresHumanApproval.evaluate trace rule).passed = false
      ↔ rule.ruleType = "tool_requires_human_approval"
        ∧ ∃ call ∈ trace.toolCalls, call.name ∈ rule.sensitiveTools
          ∧ call.humanApprovalPresent ≠ some true := by
  have happroved : ∀ o : Option Bool, o.getD false = false ↔ o ≠ some true := by
    intro o
    cases o with
    | none => simp
    | some b => cases b <;> simp
  unfold toolRequiresHumanApproval
  rw [check_fails]
  simp [happroved]

theorem policySourceRequired_fails :
    (policySourceRequired.evaluate trace rule).passed = false
      ↔ rule.ruleType = "policy_source_required" ∧ ∃ m, trace.output = some (.object m)
        ∧ (∃ f ∈ m, mentionsPolicyIn f = true) ∧ containsKey "policy_source" m = false := by
  unfold policySourceRequired
  rw [check_fails]
  refine and_congr_right fun _ => ?_
  cases hout : trace.output with
  | none => simp
  | some v =>
      cases v with
      | object m =>
          have hsplit : (∃ k v, (k, v) ∈ m ∧ mentionsPolicyIn (k, v) = true
              ∧ containsKey "policy_source" m = false)
                ↔ (∃ k v, (k, v) ∈ m ∧ mentionsPolicyIn (k, v) = true)
                  ∧ containsKey "policy_source" m = false := by
            simp only [← and_assoc, exists_and_right]
          simpa using hsplit
      | _ => simp

theorem languageMatchFieldPresent_fails :
    (languageMatchFieldPresent.evaluate trace rule).passed = false
      ↔ rule.ruleType = "language_match_field_present"
        ∧ ¬ ∃ m, trace.output = some (.object m) ∧ containsKey "language" m = true := by
  unfold languageMatchFieldPresent
  rw [check_fails]
  refine and_congr_right fun _ => ?_
  cases hout : trace.output with
  | none => simp
  | some v =>
      cases v with
      | object m => simp
      | _ => simp

/-- Here the check parts from its documentation: it fails on scalars. -/
theorem jsonOutputValid_fails :
    ((jsonOutputValid isJson).evaluate trace rule).passed = false
      ↔ rule.ruleType = "json_output_valid" ∧ rule.outputFormat = some "json"
        ∧ ((trace.output = none ∨ ∃ s, trace.output = some (.string s) ∧ isJson s = false)
          ∨ trace.output.any Value.isScalar = true) := by
  unfold jsonOutputValid
  rw [check_fails]
  refine and_congr_right fun _ => ?_
  by_cases hformat : rule.outputFormat = some "json"
  · cases hout : trace.output with
    | none => simp [hformat]
    | some v => cases v <;> simp [hformat, Value.isScalar]
  · simp [hformat]

theorem noFinalDecisionWithoutApproval_fails :
    (noFinalDecisionWithoutApproval.evaluate trace rule).passed = false
      ↔ rule.ruleType = "no_final_decision_without_approval"
        ∧ (∃ m, trace.output = some (.object m) ∧ containsKey "final_decision" m = true)
        ∧ ¬ ∃ m, trace.metadata = some (.object m)
          ∧ get "human_approval" m = some (.bool true) := by
  have happroved : humanApproval trace.metadata = false ↔ ¬ ∃ m, trace.metadata = some (.object m)
      ∧ get "human_approval" m = some (.bool true) := by
    unfold humanApproval
    cases hmeta : trace.metadata with
    | none => simp
    | some v =>
        cases v with
        | object m =>
            cases hget : get "human_approval" m with
            | none => simp [hget]
            | some v => cases v <;> simp [hget]
        | _ => simp
  unfold noFinalDecisionWithoutApproval
  rw [check_fails]
  refine and_congr_right fun _ => ?_
  cases hout : trace.output with
  | none => simp
  | some v =>
      cases v with
      | object m => simp [happroved]
      | _ => simp

/-- The check of the rule's type fails. -/
def fails (isJson : String → Bool) (trace : TraceEnvelope) (rule : ContractRule) : Bool :=
  (defaultChecks isJson).any fun c => !(c.evaluate trace rule).passed

/-- **The checks report the breaches, and scalars where JSON is wanted.** -/
theorem fails_iff : fails isJson trace rule = true
    ↔ Breaks isJson trace rule ∨ ScalarJson trace rule := by
  unfold fails defaultChecks
  simp only [List.any_cons, List.any_nil, Bool.or_false, Bool.or_eq_true, Bool.not_eq_true',
    requiredOutputField_fails, forbiddenToolUsed_fails, toolRequiresHumanApproval_fails,
    policySourceRequired_fails, languageMatchFieldPresent_fails, jsonOutputValid_fails,
    noFinalDecisionWithoutApproval_fails]
  constructor
  · rintro (⟨ht, h⟩ | ⟨ht, h⟩ | ⟨ht, h⟩ | ⟨ht, h⟩ | ⟨ht, h⟩ | ⟨ht, hformat, h | h⟩ | ⟨ht, h, hmeta⟩)
    · exact .inl (.requiredOutputField ht h)
    · exact .inl (.forbiddenToolUsed ht h)
    · exact .inl (.toolRequiresHumanApproval ht h)
    · exact .inl (.policySourceRequired ht h)
    · exact .inl (.languageMatchFieldPresent ht h)
    · exact .inl (.jsonOutputValid ht hformat h)
    · exact .inr ⟨ht, hformat, h⟩
    · exact .inl (.noFinalDecisionWithoutApproval ht h hmeta)
  · rintro (hbreaks | ⟨ht, hformat, h⟩)
    · cases hbreaks with
      | requiredOutputField ht h => exact .inl ⟨ht, h⟩
      | forbiddenToolUsed ht h => exact .inr (.inl ⟨ht, h⟩)
      | toolRequiresHumanApproval ht h => exact .inr (.inr (.inl ⟨ht, h⟩))
      | policySourceRequired ht h => exact .inr (.inr (.inr (.inl ⟨ht, h⟩)))
      | languageMatchFieldPresent ht h => exact .inr (.inr (.inr (.inr (.inl ⟨ht, h⟩))))
      | jsonOutputValid ht hformat h =>
          exact .inr (.inr (.inr (.inr (.inr (.inl ⟨ht, hformat, .inl h⟩)))))
      | noFinalDecisionWithoutApproval ht h hmeta =>
          exact .inr (.inr (.inr (.inr (.inr (.inr ⟨ht, h, hmeta⟩)))))
    · exact .inr (.inr (.inr (.inr (.inr (.inl ⟨ht, hformat, .inr h⟩)))))

/-- A scalar breaks no rule. -/
theorem ScalarJson.not_breaks (h : ScalarJson trace rule) : ¬ Breaks isJson trace rule := by
  obtain ⟨ht, -, hscalar⟩ := h
  intro hbreaks
  cases hbreaks with
  | jsonOutputValid ht' hformat h =>
      rcases h with hnone | ⟨s, hs, -⟩
      · rw [hnone] at hscalar
        cases hscalar
      · rw [hs] at hscalar
        cases hscalar
  | _ ht' => exact absurd (ht.symm.trans ht') (by decide)

theorem breaks_iff : Breaks isJson trace rule
    ↔ fails isJson trace rule = true ∧ ¬ ScalarJson trace rule := by
  rw [fails_iff]
  constructor
  · intro h
    exact ⟨.inl h, fun hscalar => hscalar.not_breaks h⟩
  · rintro ⟨h, hno⟩
    exact h.resolve_right hno

instance (isJson : String → Bool) (trace : TraceEnvelope) (rule : ContractRule) :
    Decidable (Breaks isJson trace rule) := decidable_of_iff _ breaks_iff.symm

/-- Every check of the registry runs a test on the rules of its own type. -/
theorem defaultChecks_check {c : DeterministicCheck} (h : c ∈ defaultChecks isJson) :
    ∃ id test, c = check id test := by
  unfold defaultChecks at h
  simp only [List.mem_cons, List.not_mem_nil, or_false] at h
  rcases h with rfl | rfl | rfl | rfl | rfl | rfl | rfl <;> exact ⟨_, _, rfl⟩

theorem defaultChecks_nodup (isJson : String → Bool) :
    ((defaultChecks isJson).map DeterministicCheck.id).Nodup := by
  have hids : (defaultChecks isJson).map DeterministicCheck.id = ["required_output_field",
      "forbidden_tool_used", "tool_requires_human_approval", "policy_source_required",
      "language_match_field_present", "json_output_valid",
      "no_final_decision_without_approval"] := rfl
  rw [hids]
  decide

end Agenomic.Contract
