import Agenomic.Gate.Gate

/-!
# What a bundle of policies decides

Policies are compiled and given an input; then the `allow` rule is asked, and the `deny` rule
for its reasons. The rule's value comes back as JSON, and only lists and texts are read: a
value of another shape says nothing, and neither does a rule whose evaluation fails.

**`failsClosed_iff`**: these are the only ways in which a denial is lost.
-/

namespace Agenomic.Policy

open Lib
open Agenomic.Prompt (Value Members)
open Agenomic.Gate (PolicyError PolicyDecision PolicyBundle RegoEngine)

/-- Why a rule has no value. -/
inductive RuleError where
  | noRule
  | failed (reason : String)
  deriving DecidableEq, Repr

/-- An interpreter of policies. -/
structure Engine where
  State : Type
  Rego : Type
  new : State
  addPolicy : State → String → String → Except String State
  setInput : State → Value → Except String State
  evalAllowQuery : State → Bool × State
  evalRule : State → Except RuleError Rego
  toValue : Rego → Except String Value

namespace Engine

variable (e : Engine)

def addPolicies (st : e.State) : List (String × String) → Except PolicyError e.State
  | [] => .ok st
  | (name, text) :: rest =>
      match e.addPolicy st name text with
      | .error reason => .error (.compile name reason)
      | .ok st => addPolicies st rest

/-- The engine with the policies and the input. -/
def prepare (sources : List (String × String)) (input : Value) : Except PolicyError e.State := do
  let st ← e.addPolicies e.new sources
  match e.setInput st input with
  | .error reason => .error (.input reason)
  | .ok st => .ok st

def denyText : Value → String
  | .string s => s
  | other => String.ofList other.write

/-- The reasons in what the `deny` rule yields. -/
def denyTexts : Value → List String
  | .array items => items.map denyText
  | .string s => [s]
  | _ => []

def collectDenies (st : e.State) : Except PolicyError (List String) :=
  match e.evalRule st with
  -- every error is taken for a rule that is not there
  | .error _ => .ok []
  | .ok value =>
      match e.toValue value with
      | .error reason => .error (.eval reason)
      | .ok json => .ok (sortDedup (· ≤ ·) (denyTexts json))

def evaluate (policy : PolicyBundle) (input : Value) : Except PolicyError PolicyDecision :=
  if policy.sources = [] then
    .ok { allowed := true, denies := [], allowRule := true, policies := [] }
  else do
    let st ← e.prepare policy.sources input
    let (allowRule, st) := e.evalAllowQuery st
    let denies ← e.collectDenies st
    .ok
      { allowed := allowRule && decide (denies = []), denies, allowRule,
        policies := policy.sources.map Prod.fst }

/-- The engine as the gate knows it. -/
def rego : RegoEngine := fun sources input => do
  let st ← e.prepare sources input
  let (allowRule, st) := e.evalAllowQuery st
  let denies ← e.collectDenies st
  .ok (allowRule, denies)

/-- The reasons are in order, each once. -/
theorem collectDenies_sorted {st : e.State} {denies : List String}
    (h : e.collectDenies st = .ok denies) : sortDedup (· ≤ ·) denies = denies := by
  unfold collectDenies at h
  cases hrule : e.evalRule st with
  | error error =>
      rw [hrule] at h
      cases h
      rfl
  | ok value =>
      rw [hrule] at h
      dsimp only at h
      cases hjson : e.toValue value with
      | error reason =>
          rw [hjson] at h
          cases h
      | ok json =>
          rw [hjson] at h
          cases h
          exact sortDedup_of_pairwise_lt (pairwise_lt_sortDedup _)

/-- The decision that the gate takes the policies for. -/
theorem evaluate_rego (policy : PolicyBundle) (input : Value) :
    policy.evaluate e.rego input = e.evaluate policy input := by
  unfold PolicyBundle.evaluate evaluate rego
  by_cases hnone : policy.sources = []
  · rw [if_pos hnone, if_pos hnone]
  · rw [if_neg hnone, if_neg hnone]
    cases e.prepare policy.sources input with
    | error error => rfl
    | ok ready =>
        change ((e.collectDenies _ >>= _) >>= _) = (e.collectDenies _ >>= _)
        cases hdenies : e.collectDenies (e.evalAllowQuery ready).2 with
        | error error => rfl
        | ok denies =>
            change Except.ok _ = Except.ok _
            rw [e.collectDenies_sorted hdenies]

/-! ## What counts as a denial -/

/-- The engine is ready, and the `allow` rule holds; what is left is asked next. -/
def Allows (policy : PolicyBundle) (input : Value) (st : e.State) : Prop :=
  ∃ ready, e.prepare policy.sources input = .ok ready ∧ e.evalAllowQuery ready = (true, st)

/-- There is no rule, or it has no value: one without is written as `null`. -/
def Undefined (st : e.State) : Prop :=
  e.evalRule st = .error .noRule ∨ ∃ value, e.evalRule st = .ok value ∧ e.toValue value = .ok .null

/-- The rule yields a list or an object without a member. -/
def Empty (st : e.State) : Prop :=
  ∃ value, e.evalRule st = .ok value
    ∧ (e.toValue value = .ok (.array []) ∨ e.toValue value = .ok (.object []))

/-- Whatever is allowed was allowed by every policy and denied by none; a `deny` rule that
fails, or that yields anything, allows nothing. -/
structure FailsClosed (policy : PolicyBundle) (input : Value) : Prop where
  allowed : ∀ decision, e.evaluate policy input = .ok decision → decision.allowed = true →
    ∃ st, e.Allows policy input st ∧ (e.Undefined st ∨ e.Empty st)
  denied : ∀ st, e.Allows policy input st → ¬e.Undefined st → ¬e.Empty st →
    ∀ decision, e.evaluate policy input = .ok decision → decision.allowed = false

/-- A list, a text, or nothing. -/
def Readable : Value → Prop
  | .bool _ | .number _ => False
  | .object members => members = []
  | _ => True

/-- The `deny` rule is asked without an error, and what it yields can be read. -/
structure Heeded (st : e.State) : Prop where
  evaluated : ∀ reason, e.evalRule st ≠ .error (.failed reason)
  readable : ∀ value json, e.evalRule st = .ok value → e.toValue value = .ok json → Readable json

variable {e}

theorem denyTexts_eq_nil {json : Value} (h : denyTexts json = []) :
    json = .null ∨ json = .array [] ∨ json = .object [] ∨ ¬Readable json := by
  cases json with
  | null => exact .inl rfl
  | bool b => exact .inr (.inr (.inr id))
  | number n => exact .inr (.inr (.inr id))
  | string s => cases h
  | array items => exact .inr (.inl (congrArg Value.array (List.map_eq_nil_iff.mp h)))
  | object members =>
      by_cases hempty : members = []
      · exact .inr (.inr (.inl (congrArg Value.object hempty)))
      · exact .inr (.inr (.inr hempty))

theorem denyTexts_unreadable {json : Value} (h : ¬Readable json) : denyTexts json = [] := by
  cases json with
  | null => exact absurd trivial h
  | bool b => rfl
  | number n => rfl
  | string s => exact absurd trivial h
  | array items => exact absurd trivial h
  | object members => rfl

/-- When no reason is found. -/
theorem collectDenies_nil_iff {st : e.State} : e.collectDenies st = .ok [] ↔
    (∃ error, e.evalRule st = .error error)
      ∨ ∃ value json, e.evalRule st = .ok value ∧ e.toValue value = .ok json
        ∧ denyTexts json = [] := by
  unfold collectDenies
  constructor
  · intro h
    cases hrule : e.evalRule st with
    | error error => exact .inl ⟨error, rfl⟩
    | ok value =>
        right
        rw [hrule] at h
        dsimp only at h
        cases hjson : e.toValue value with
        | error reason =>
            rw [hjson] at h
            cases h
        | ok json =>
            rw [hjson] at h
            exact ⟨value, json, rfl, hjson, sortDedup_eq_nil.mp (Except.ok.inj h)⟩
  · rintro (⟨error, hrule⟩ | ⟨value, json, hrule, hjson, htexts⟩)
    · rw [hrule]
    · rw [hrule]
      dsimp only
      rw [hjson]
      dsimp only
      rw [htexts]
      rfl

/-- Nothing is found where nothing is said, and where what is said is not heeded. -/
theorem collectDenies_nil {st : e.State} :
    e.collectDenies st = .ok [] ↔ e.Undefined st ∨ e.Empty st ∨ ¬e.Heeded st := by
  rw [collectDenies_nil_iff]
  constructor
  · rintro (⟨error, hrule⟩ | ⟨value, json, hrule, hjson, htexts⟩)
    · cases error with
      | noRule => exact .inl (.inl hrule)
      | failed reason => exact .inr (.inr fun h => h.evaluated reason hrule)
    · rcases denyTexts_eq_nil htexts with rfl | rfl | rfl | hnot
      · exact .inl (.inr ⟨value, hrule, hjson⟩)
      · exact .inr (.inl ⟨value, hrule, .inl hjson⟩)
      · exact .inr (.inl ⟨value, hrule, .inr hjson⟩)
      · exact .inr (.inr fun h => hnot (h.readable value json hrule hjson))
  · rintro ((hnone | ⟨value, hrule, hjson⟩) | ⟨value, hrule, hjson | hjson⟩ | hnot)
    · exact .inl ⟨_, hnone⟩
    · exact .inr ⟨value, _, hrule, hjson, rfl⟩
    · exact .inr ⟨value, _, hrule, hjson, rfl⟩
    · exact .inr ⟨value, _, hrule, hjson, rfl⟩
    · by_contra hsome
      push Not at hsome
      obtain ⟨hrule, htexts⟩ := hsome
      refine hnot ⟨fun reason hfailed => hrule _ hfailed, fun value json hvalue hjson => ?_⟩
      by_contra hunread
      exact htexts value json hvalue hjson (denyTexts_unreadable hunread)

/-- The engine has one state after the `allow` rule. -/
theorem Allows.unique {policy : PolicyBundle} {input : Value} {st st' : e.State}
    (h : e.Allows policy input st) (h' : e.Allows policy input st') : st = st' := by
  obtain ⟨ready, hready, hst⟩ := h
  obtain ⟨ready', hready', hst'⟩ := h'
  cases hready.symm.trans hready'
  exact (Prod.mk.inj (hst.symm.trans hst')).2

/-- A rule that says nothing is heeded. -/
theorem heeded_of_silent {st : e.State} (h : e.Undefined st ∨ e.Empty st) : e.Heeded st := by
  rcases h with (hnone | ⟨value, hrule, hjson⟩) | ⟨value, hrule, hjson⟩
  · constructor
    · intro reason hfailed
      cases hnone.symm.trans hfailed
    · intro value json hvalue
      cases hnone.symm.trans hvalue
  · constructor
    · intro reason hfailed
      cases hrule.symm.trans hfailed
    · intro value' json hvalue hjson'
      cases hrule.symm.trans hvalue
      cases hjson.symm.trans hjson'
      exact trivial
  · constructor
    · intro reason hfailed
      cases hrule.symm.trans hfailed
    · intro value' json hvalue hjson'
      cases hrule.symm.trans hvalue
      rcases hjson with hjson | hjson
      · cases hjson.symm.trans hjson'
        exact trivial
      · cases hjson.symm.trans hjson'
        exact rfl

/-- What is allowed is what no reason was found against. -/
theorem evaluate_allowed_iff {policy : PolicyBundle} {input : Value} (h : policy.sources ≠ []) :
    (∃ decision, e.evaluate policy input = .ok decision ∧ decision.allowed = true)
      ↔ ∃ st, e.Allows policy input st ∧ e.collectDenies st = .ok [] := by
  unfold evaluate Allows
  rw [if_neg h]
  constructor
  · rintro ⟨decision, hok, hallowed⟩
    obtain ⟨ready, hready, hok⟩ := bind_eq_ok.mp hok
    obtain ⟨denies, hdenies, hok⟩ := bind_eq_ok.mp hok
    cases hok
    obtain ⟨hrule, hnone⟩ := (Bool.and_eq_true _ _).mp hallowed
    refine ⟨(e.evalAllowQuery ready).2, ⟨ready, hready, Prod.ext hrule rfl⟩, ?_⟩
    rw [hdenies, of_decide_eq_true hnone]
  · rintro ⟨st, ⟨ready, hready, hallow⟩, hdenies⟩
    rw [hready]
    refine ⟨⟨true, [], true, policy.sources.map Prod.fst⟩, ?_, rfl⟩
    change (e.collectDenies (e.evalAllowQuery ready).2 >>= fun denies =>
      Except.ok (PolicyDecision.mk ((e.evalAllowQuery ready).1 && decide (denies = [])) denies
        (e.evalAllowQuery ready).1 (policy.sources.map Prod.fst))) = _
    rw [hallow]
    dsimp only
    rw [hdenies]
    rfl

/-- A bundle fails closed exactly when the `deny` rule, where the `allow` rule holds, is
evaluated without an error and does not yield a flag, a number or an object with members. -/
theorem failsClosed_iff (e : Engine) (policy : PolicyBundle) (input : Value)
    (h : policy.sources ≠ []) :
    e.FailsClosed policy input ↔ ∀ st, e.Allows policy input st → e.Heeded st := by
  have hall := @evaluate_allowed_iff e policy input h
  constructor
  · intro hclosed st hallow
    by_contra hnot
    have hnone := collectDenies_nil.mpr (.inr (.inr hnot))
    obtain ⟨decision, hok, hallowed⟩ := hall.mpr ⟨st, hallow, hnone⟩
    obtain ⟨st', hallow', hsaid⟩ := hclosed.allowed decision hok hallowed
    cases hallow.unique hallow'
    exact hnot (heeded_of_silent hsaid)
  · intro hheeded
    refine ⟨fun decision hok hallowed => ?_, fun st hallow hdefined hfull decision hok => ?_⟩
    · obtain ⟨st, hallow, hnone⟩ := hall.mp ⟨decision, hok, hallowed⟩
      refine ⟨st, hallow, ?_⟩
      rcases collectDenies_nil.mp hnone with hundefined | hempty | hnot
      · exact .inl hundefined
      · exact .inr hempty
      · exact absurd (hheeded st hallow) hnot
    · by_contra hallowed
      rw [Bool.not_eq_false] at hallowed
      obtain ⟨st', hallow', hnone⟩ := hall.mp ⟨decision, hok, hallowed⟩
      cases hallow.unique hallow'
      rcases collectDenies_nil.mp hnone with hundefined | hempty | hnot
      · exact hdefined hundefined
      · exact hfull hempty
      · exact hnot (hheeded st hallow)

/-- An engine for one policy, which knows what its rules yield. -/
def fixed (allow : Bool) (deny : Except RuleError Value) : Engine where
  State := Unit
  Rego := Value
  new := ()
  addPolicy := fun _ _ _ => .ok ()
  setInput := fun _ _ => .ok ()
  evalAllowQuery := fun _ => (allow, ())
  evalRule := fun _ => deny
  toValue := .ok

/-- A policy with a set of reasons, of which there are none. -/
def setPolicy : PolicyBundle := ⟨[("launch.rego", "package agenomic\ndefault allow := true\n"
  ++ "deny contains \"egress\" if input.network_allow_count > 0\n")]⟩

theorem failsClosed_iff_set :
    (fixed true (.ok (.array []))).FailsClosed setPolicy (.object []) := by
  refine (failsClosed_iff _ setPolicy (.object []) (by decide)).mpr fun st _ => ?_
  exact heeded_of_silent (.inr ⟨.array [], rfl, .inl rfl⟩)

/-- A policy whose `deny` is a flag. -/
def flagPolicy : PolicyBundle := ⟨[("launch.rego", "package agenomic\ndefault allow := true\n"
  ++ "deny := true\n")]⟩

/-- A denial that is a flag is lost. -/
theorem not_failsClosed : ¬∀ (e : Engine) (policy : PolicyBundle) (input : Value),
    policy.sources ≠ [] → e.FailsClosed policy input := by
  intro h
  have hclosed := h (fixed true (.ok (.bool true))) flagPolicy (.object []) (by decide)
  obtain ⟨st, -, hsaid⟩ := hclosed.allowed ⟨true, [], true, ["launch.rego"]⟩ rfl rfl
  exact (heeded_of_silent hsaid).readable (.bool true) (.bool true) rfl rfl

end Engine

end Agenomic.Policy
