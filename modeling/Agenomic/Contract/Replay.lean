import Agenomic.Contract.Checks

/-!
# The replay verdict

`evaluate_contract` runs every rule over every trace, files what it finds by check
and counts it in four counters of 32 bits. `run_local_replay` makes its verdict from
the counters alone.

The evaluation is a fold over the breaches it finds, in the order of the loops
(`evaluateContractWith_eq`). What the report says then follows from what filing and
counting do with one list. **`replay_exact_iff`** says when the report is exact.
-/

namespace Agenomic.Contract

open Rmp (Severity)

/-! ## Evaluating a contract -/

/-- One violation, scoped to a particular trace. -/
structure TraceViolation where
  traceId : String
  checkId : String
  severity : Severity
  message : String
  deriving DecidableEq, Repr

/-- The severity counters. -/
structure Counts where
  critical : UInt32
  high : UInt32
  medium : UInt32
  low : UInt32
  deriving DecidableEq, Repr

/-- Severity counter helper used by the evaluator. -/
def bumpCount : Severity → Counts → Counts
  | .critical, n => { n with critical := n.critical + 1 }
  | .high, n => { n with high := n.high + 1 }
  | .medium, n => { n with medium := n.medium + 1 }
  | .low, n | .info, n => { n with low := n.low + 1 }

/-- Lists by key, in the order of the keys. -/
abbrev Filed := List (String × List TraceViolation)

/-- Push to the list of a key. -/
def Filed.push (key : String) (v : TraceViolation) : Filed → Filed
  | [] => [(key, [v])]
  | (k, vs) :: rest =>
      if key = k then (k, vs ++ [v]) :: rest
      else if key < k then (key, [v]) :: (k, vs) :: rest
      else (k, vs) :: Filed.push key v rest

/-- What the evaluation has found so far. -/
structure Found where
  violations : Filed
  counts : Counts
  deriving DecidableEq, Repr

/-- Aggregated outcome for an entire contract evaluation. -/
structure ContractEvaluation where
  contractId : String
  totalTraces : Nat
  passed : Bool
  violationsByCheck : Filed
  criticalCount : UInt32
  highCount : UInt32
  mediumCount : UInt32
  lowCount : UInt32
  deriving DecidableEq, Repr

/-- The violation of a failed result. -/
def TraceViolation.of (trace : TraceEnvelope) (r : CheckResult) : TraceViolation :=
  ⟨trace.traceId, r.checkId, r.severity, r.violationMessage.getD "violation"⟩

/-- Count a violation and file it. -/
def Found.record (s : Found) (v : TraceViolation) : Found :=
  ⟨Filed.push v.checkId v s.violations, bumpCount v.severity s.counts⟩

/-- The body of the loops. -/
def Found.run (s : Found) (trace : TraceEnvelope) (rule : ContractRule)
    (check : DeterministicCheck) : Found :=
  if check.id ≠ rule.ruleType then s
  else
    let r := check.evaluate trace rule
    if !r.passed then s.record (.of trace r) else s

/-- Nothing found. -/
def Found.none : Found := ⟨[], ⟨0, 0, 0, 0⟩⟩

/-- Evaluate using a custom check set. -/
def evaluateContractWith (contract : BehaviorContract) (traces : List TraceEnvelope)
    (checks : List DeterministicCheck) : ContractEvaluation :=
  let s := traces.foldl (fun s trace =>
    contract.rules.foldl (fun s rule =>
      checks.foldl (fun s check => s.run trace rule check) s) s) Found.none
  { contractId := contract.id
    totalTraces := traces.length
    passed := s.counts.critical == 0 && s.counts.high == 0
    violationsByCheck := s.violations
    criticalCount := s.counts.critical
    highCount := s.counts.high
    mediumCount := s.counts.medium
    lowCount := s.counts.low }

/-- Evaluate a contract against a list of traces using the default check set. -/
def evaluateContract (isJson : String → Bool) (contract : BehaviorContract)
    (traces : List TraceEnvelope) : ContractEvaluation :=
  evaluateContractWith contract traces (defaultChecks isJson)

/-! ## The replay -/

/-- Aggregate counters for a replay. -/
structure ReplayAggregates where
  critical : UInt32
  high : UInt32
  medium : UInt32
  low : UInt32
  deriving DecidableEq, Repr

/-- The worst severity that is counted. -/
def aggregatesMax (a : ReplayAggregates) : Severity :=
  if 0 < a.critical then .critical
  else if 0 < a.high then .high
  else if 0 < a.medium then .medium
  else if 0 < a.low then .low
  else .info

/-- A diagnostic note of a report. -/
structure ValidationIssue where
  code : String
  severity : Severity
  message : String
  deriving DecidableEq, Repr

/-- Replay options, as far as the report depends on them. -/
structure ReplayOptions where
  runsPerTrace : UInt32
  failOn : Severity
  deriving DecidableEq, Repr

/-- What a replay reads: the hashes of the bundle, the contract, the traces and the clock. -/
structure ReplayInputs where
  logicalBundleHash : String
  rootHash : String
  contract : BehaviorContract
  traces : List TraceEnvelope
  now : String

/-- Replay report. -/
structure ReplayReport where
  reportVersion : String
  bundleHash : String
  bundleLogicalHash : String
  contractId : String
  totalTraces : Nat
  totalRuns : Nat
  mode : String
  contractPassed : Bool
  violations : List TraceViolation
  aggregates : ReplayAggregates
  generatedAt : String
  notes : List ValidationIssue
  deriving DecidableEq, Repr

/-- The note that several runs of a trace are one. -/
def runsPerTraceNoOp : ValidationIssue where
  code := "agenomic::replay::runs_per_trace_no_op"
  severity := .medium
  message := "Local replay v0.1 only validates stored traces against deterministic contract " ++
    "checks. runs_per_trace > 1 has no effect without a runtime adapter (provider plugin). " ++
    "For statistical replay across LLM stochasticity, use Agenomic Cloud or a custom runtime " ++
    "adapter."

/-- Run a local replay over what was read. -/
def runLocalReplay (isJson : String → Bool) (options : ReplayOptions) (inputs : ReplayInputs) :
    ReplayReport :=
  let evaluation := evaluateContract isJson inputs.contract inputs.traces
  let aggregates : ReplayAggregates :=
    ⟨evaluation.criticalCount, evaluation.highCount, evaluation.mediumCount, evaluation.lowCount⟩
  { reportVersion := "agenomic.replay/v0.1"
    bundleHash := inputs.logicalBundleHash
    bundleLogicalHash := inputs.rootHash
    contractId := inputs.contract.id
    totalTraces := inputs.traces.length
    totalRuns := inputs.traces.length * options.runsPerTrace.toNat
    mode := "deterministic_offline"
    contractPassed := aggregatesMax aggregates < options.failOn
      || (options.failOn == .critical && aggregates.critical == 0)
    violations := evaluation.violationsByCheck.flatMap Prod.snd
    aggregates
    generatedAt := inputs.now
    notes := if 1 < options.runsPerTrace then [runsPerTraceNoOp] else [] }

/-! ## What is found -/

/-- The violations of one rule on one trace. -/
def violationsAt (checks : List DeterministicCheck) (trace : TraceEnvelope) (rule : ContractRule) :
    List TraceViolation :=
  (checks.filter fun check =>
    check.id = rule.ruleType && !(check.evaluate trace rule).passed).map fun check =>
      .of trace (check.evaluate trace rule)

/-- Every trace with every rule, in the order of the loops. -/
def occurrences (contract : BehaviorContract) (traces : List TraceEnvelope) :
    List (TraceEnvelope × ContractRule) := traces ×ˢ contract.rules

theorem foldl_run (checks : List DeterministicCheck) (trace : TraceEnvelope)
    (rule : ContractRule) (s : Found) :
    checks.foldl (fun s check => s.run trace rule check) s
      = (violationsAt checks trace rule).foldl Found.record s := by
  unfold violationsAt
  induction checks generalizing s with
  | nil => rfl
  | cons check checks ih =>
      rw [List.foldl_cons, ih]
      unfold Found.run
      dsimp only
      by_cases hid : check.id = rule.ruleType
      · rw [if_neg (not_not.mpr hid), List.filter_cons, decide_eq_true hid, Bool.true_and]
        cases (check.evaluate trace rule).passed <;> rfl
      · rw [if_pos hid, List.filter_cons, decide_eq_false hid]
        rfl

/-- **Evaluating is recording every violation**, in the order of the loops. -/
theorem evaluate_found (contract : BehaviorContract) (traces : List TraceEnvelope)
    (checks : List DeterministicCheck) (s : Found) :
    traces.foldl (fun s trace => contract.rules.foldl (fun s rule =>
        checks.foldl (fun s check => s.run trace rule check) s) s) s
      = ((occurrences contract traces).flatMap fun p => violationsAt checks p.1 p.2).foldl
          Found.record s := by
  simp only [foldl_run, occurrences, SProd.sprod, List.product, List.foldl_flatMap, List.foldl_map,
    List.flatMap_assoc]

/-- What a violation says of where it comes from. -/
def TraceViolation.key (v : TraceViolation) : String × String × Severity :=
  (v.traceId, v.checkId, v.severity)

/-- What the violation of a rule by a trace says. -/
def occurrenceKey (p : TraceEnvelope × ContractRule) : String × String × Severity :=
  (p.1.traceId, p.2.ruleType, p.2.severity)

variable {isJson : String → Bool}

/-- **A rule has one violation on a trace when its check fails**, and none otherwise. -/
theorem violationsAt_keys (trace : TraceEnvelope) (rule : ContractRule) :
    (violationsAt (defaultChecks isJson) trace rule).map TraceViolation.key
      = if fails isJson trace rule then [occurrenceKey (trace, rule)] else [] := by
  have hfails : ∀ c ∈ defaultChecks isJson, (c.evaluate trace rule).passed = false →
      c.id = rule.ruleType := by
    intro c hc hp
    obtain ⟨id, test, rfl⟩ := defaultChecks_check hc
    exact (check_fails.mp hp).1.symm
  have hkey : ∀ c ∈ defaultChecks isJson, c.id = rule.ruleType →
      (TraceViolation.of trace (c.evaluate trace rule)).key = occurrenceKey (trace, rule) := by
    intro c hc hid
    obtain ⟨id, test, rfl⟩ := defaultChecks_check hc
    have hcheck : ((check id test).evaluate trace rule).checkId = rule.ruleType :=
      check_result.1.trans hid
    have hseverity : ((check id test).evaluate trace rule).severity = rule.severity :=
      check_result.2
    unfold TraceViolation.key TraceViolation.of occurrenceKey
    rw [hcheck, hseverity]
  unfold violationsAt
  rw [List.map_map]
  by_cases hf : fails isJson trace rule = true
  · rw [if_pos hf]
    obtain ⟨c, hc, hp⟩ := List.any_eq_true.mp hf
    rw [Bool.not_eq_true'] at hp
    have hid := hfails c hc hp
    have hmem : c ∈ (defaultChecks isJson).filter fun check =>
        check.id = rule.ruleType && !(check.evaluate trace rule).passed := by
      rw [List.mem_filter, decide_eq_true hid, hp]
      exact ⟨hc, rfl⟩
    -- no two checks have one id
    have hle : ((defaultChecks isJson).filter fun check =>
        check.id = rule.ruleType && !(check.evaluate trace rule).passed).length ≤ 1 := by
      have hone := List.nodup_iff_count_le_one.mp (defaultChecks_nodup isJson) rule.ruleType
      rw [List.count_eq_countP, List.countP_map] at hone
      rw [← List.countP_eq_length_filter]
      refine (List.countP_mono_left fun c' _ h => ?_).trans hone
      rw [Bool.and_eq_true, decide_eq_true_eq] at h
      exact beq_iff_eq.mpr h.1
    obtain ⟨c', hone⟩ := List.length_eq_one_iff.mp (le_antisymm hle (List.length_pos_of_mem hmem))
    rw [hone] at hmem ⊢
    rw [← List.mem_singleton.mp hmem, List.map_singleton]
    exact congrArg (fun k => [k]) (hkey c hc hid)
  · rw [if_neg hf]
    rw [List.map_eq_nil_iff, List.filter_eq_nil_iff]
    intro c hc h
    rw [Bool.and_eq_true] at h
    exact hf (List.any_eq_true.mpr ⟨c, hc, h.2⟩)

/-- The breaches, in the order of the loops. -/
def breaches (isJson : String → Bool) (contract : BehaviorContract)
    (traces : List TraceEnvelope) : List (TraceEnvelope × ContractRule) :=
  (occurrences contract traces).filter fun p => Breaks isJson p.1 p.2

/-! ## What is filed and counted -/

/-- Pushing files one more. -/
theorem push_perm (key : String) (v : TraceViolation) (m : Filed) :
    ((m.push key v).flatMap Prod.snd).Perm (m.flatMap Prod.snd ++ [v]) := by
  induction m with
  | nil => exact .refl _
  | cons entry rest ih =>
      obtain ⟨k, vs⟩ := entry
      unfold Filed.push
      by_cases heq : key = k
      · rw [if_pos heq, List.flatMap_cons, List.flatMap_cons, List.append_assoc, List.append_assoc]
        exact List.perm_append_comm.append_left vs
      · rw [if_neg heq]
        by_cases hlt : key < k
        · rw [if_pos hlt, List.flatMap_cons]
          exact List.perm_append_comm
        · rw [if_neg hlt, List.flatMap_cons, List.flatMap_cons, List.append_assoc]
          exact ih.append_left vs

/-- Recording files every violation. -/
theorem record_perm (vs : List TraceViolation) (s : Found) :
    ((vs.foldl Found.record s).violations.flatMap Prod.snd).Perm
      (s.violations.flatMap Prod.snd ++ vs) := by
  induction vs generalizing s with
  | nil =>
      rw [List.append_nil]
      exact .refl _
  | cons v vs ih =>
      rw [List.foldl_cons]
      refine (ih (s.record v)).trans ?_
      have hpush := (push_perm v.checkId v s.violations).append_right vs
      rw [List.append_assoc] at hpush
      exact hpush

/-- A counter that goes up by one on some violations. -/
theorem record_count {count : Counts → UInt32} {p : TraceViolation → Bool}
    (h : ∀ s v, count (bumpCount v.severity s) = if p v then count s + 1 else count s)
    (vs : List TraceViolation) (s : Found) :
    (count (vs.foldl Found.record s).counts).toNat
      = ((count s.counts).toNat + vs.countP p) % 2 ^ 32 := by
  induction vs generalizing s with
  | nil => exact (Nat.mod_eq_of_lt (count s.counts).toNat_lt).symm
  | cons v vs ih =>
      have hstep : count (s.record v).counts
          = if p v then count s.counts + 1 else count s.counts := h s.counts v
      rw [List.foldl_cons, ih, hstep, List.countP_cons]
      by_cases hp : p v = true
      · rw [if_pos hp, if_pos hp, UInt32.toNat_add]
        show ((_ + 1) % 2 ^ 32 + _) % 2 ^ 32 = _
        omega
      · rw [if_neg hp, if_neg hp, Nat.add_zero]

/-! ## The report -/

/-- The report says what there is to say: a violation for every breach, the number of violations
of each severity (low and info together), and a verdict that follows from the violations. -/
structure Exact (isJson : String → Bool) (options : ReplayOptions) (inputs : ReplayInputs) : Prop where
  violations : ((runLocalReplay isJson options inputs).violations.map TraceViolation.key).Perm
    ((breaches isJson inputs.contract inputs.traces).map occurrenceKey)
  critical : (runLocalReplay isJson options inputs).aggregates.critical.toNat
    = (runLocalReplay isJson options inputs).violations.countP fun v => v.severity = .critical
  high : (runLocalReplay isJson options inputs).aggregates.high.toNat
    = (runLocalReplay isJson options inputs).violations.countP fun v => v.severity = .high
  medium : (runLocalReplay isJson options inputs).aggregates.medium.toNat
    = (runLocalReplay isJson options inputs).violations.countP fun v => v.severity = .medium
  low : (runLocalReplay isJson options inputs).aggregates.low.toNat
    = (runLocalReplay isJson options inputs).violations.countP fun v =>
      v.severity = .low ∨ v.severity = .info
  verdict : (runLocalReplay isJson options inputs).contractPassed = true
    ↔ ∀ v ∈ (runLocalReplay isJson options inputs).violations, v.severity < options.failOn

section Report

variable (isJson : String → Bool) (options : ReplayOptions) (inputs : ReplayInputs)

/-- Every violation, in the order of the loops. -/
def allViolations (contract : BehaviorContract) (traces : List TraceEnvelope) :
    List TraceViolation :=
  (occurrences contract traces).flatMap fun p => violationsAt (defaultChecks isJson) p.1 p.2

theorem report_violations : (runLocalReplay isJson options inputs).violations.Perm
    (allViolations isJson inputs.contract inputs.traces) := by
  have hperm := record_perm (allViolations isJson inputs.contract inputs.traces) Found.none
  unfold allViolations at hperm ⊢
  rw [← evaluate_found] at hperm
  exact hperm

/-- **What is reported** is the occurrences on which a check fails. -/
theorem report_keys : ((runLocalReplay isJson options inputs).violations.map TraceViolation.key).Perm
    (((occurrences inputs.contract inputs.traces).filter fun p => fails isJson p.1 p.2).map
      occurrenceKey) := by
  refine ((report_violations isJson options inputs).map _).trans (.of_eq ?_)
  unfold allViolations
  induction occurrences inputs.contract inputs.traces with
  | nil => rfl
  | cons p ps ih =>
      rw [List.flatMap_cons, List.map_append, ih, violationsAt_keys, List.filter_cons]
      by_cases hf : fails isJson p.1 p.2 = true
      · rw [if_pos hf, if_pos hf]
        rfl
      · rw [if_neg hf, if_neg hf]
        rfl

/-- A counter of the report is the number of its violations, as far as 32 bits go. -/
theorem report_count {count : Counts → UInt32} {p : TraceViolation → Bool}
    (h : ∀ s v, count (bumpCount v.severity s) = if p v then count s + 1 else count s)
    (hzero : count ⟨0, 0, 0, 0⟩ = 0) :
    (count ((allViolations isJson inputs.contract inputs.traces).foldl Found.record
        Found.none).counts).toNat
      = (runLocalReplay isJson options inputs).violations.countP p % 2 ^ 32 := by
  rw [record_count h, (report_violations isJson options inputs).countP_eq]
  show ((count ⟨0, 0, 0, 0⟩).toNat + _) % _ = _
  rw [hzero]
  exact congrArg (· % 2 ^ 32) (Nat.zero_add _)

/-- The violations of a severity. -/
def TraceViolation.has (s : Severity) (v : TraceViolation) : Bool := v.severity = s

/-- The violations the lowest counter counts. -/
def TraceViolation.minor (v : TraceViolation) : Bool := v.severity = .low ∨ v.severity = .info

theorem report_aggregates :
    (runLocalReplay isJson options inputs).aggregates.critical.toNat
        = (runLocalReplay isJson options inputs).violations.countP (·.has .critical) % 2 ^ 32
      ∧ (runLocalReplay isJson options inputs).aggregates.high.toNat
        = (runLocalReplay isJson options inputs).violations.countP (·.has .high) % 2 ^ 32
      ∧ (runLocalReplay isJson options inputs).aggregates.medium.toNat
        = (runLocalReplay isJson options inputs).violations.countP (·.has .medium) % 2 ^ 32
      ∧ (runLocalReplay isJson options inputs).aggregates.low.toNat
        = (runLocalReplay isJson options inputs).violations.countP TraceViolation.minor % 2 ^ 32 := by
  have hfound : ∀ count : Counts → UInt32, count
      ((allViolations isJson inputs.contract inputs.traces).foldl Found.record Found.none).counts
        = count (inputs.traces.foldl (fun s trace => inputs.contract.rules.foldl (fun s rule =>
          (defaultChecks isJson).foldl (fun s check => s.run trace rule check) s) s)
            Found.none).counts := by
    intro count
    rw [evaluate_found]
    rfl
  refine ⟨?_, ?_, ?_, ?_⟩
  · refine (congrArg UInt32.toNat (hfound Counts.critical)).symm.trans
      (report_count isJson options inputs (fun s v => ?_) rfl)
    unfold TraceViolation.has
    cases v.severity <;> rfl
  · refine (congrArg UInt32.toNat (hfound Counts.high)).symm.trans
      (report_count isJson options inputs (fun s v => ?_) rfl)
    unfold TraceViolation.has
    cases v.severity <;> rfl
  · refine (congrArg UInt32.toNat (hfound Counts.medium)).symm.trans
      (report_count isJson options inputs (fun s v => ?_) rfl)
    unfold TraceViolation.has
    cases v.severity <;> rfl
  · refine (congrArg UInt32.toNat (hfound Counts.low)).symm.trans
      (report_count isJson options inputs (fun s v => ?_) rfl)
    unfold TraceViolation.minor
    cases v.severity <;> rfl

end Report

/-- No counter at or above a severity has counted anything; with nothing to be below, the lowest
severity is never clear. -/
def Clear (a : ReplayAggregates) : Severity → Prop
  | .critical => a.critical = 0
  | .high => a.critical = 0 ∧ a.high = 0
  | .medium => a.critical = 0 ∧ a.high = 0 ∧ a.medium = 0
  | .low => a.critical = 0 ∧ a.high = 0 ∧ a.medium = 0 ∧ a.low = 0
  | .info => False

theorem passed_iff (a : ReplayAggregates) (failOn : Severity) :
    (aggregatesMax a < failOn || (failOn == .critical && a.critical == 0)) = true
      ↔ Clear a failOn := by
  have hpos : ∀ n : UInt32, 0 < n ↔ n ≠ 0 := fun n => UInt32.pos_iff_ne_zero
  unfold aggregatesMax
  simp only [hpos]
  by_cases hcritical : a.critical = 0 <;> by_cases hhigh : a.high = 0 <;>
    by_cases hmedium : a.medium = 0 <;> by_cases hlow : a.low = 0 <;>
    cases failOn <;> simp [Clear, hcritical, hhigh, hmedium, hlow] <;> decide

/-! ## When the report is exact -/

/-- What the report needs to be exact: no scalar meets a rule that wants JSON, the counters have
room, and at the two lowest thresholds the counters tell what they have to. -/
structure Tellable (isJson : String → Bool) (failOn : Severity) (contract : BehaviorContract)
    (traces : List TraceEnvelope) : Prop where
  noScalar : ∀ p ∈ occurrences contract traces, ¬ ScalarJson p.1 p.2
  critical : ((breaches isJson contract traces).countP fun p => p.2.severity = .critical) < 2 ^ 32
  high : ((breaches isJson contract traces).countP fun p => p.2.severity = .high) < 2 ^ 32
  medium : ((breaches isJson contract traces).countP fun p => p.2.severity = .medium) < 2 ^ 32
  low : ((breaches isJson contract traces).countP fun p =>
    p.2.severity = .low ∨ p.2.severity = .info) < 2 ^ 32
  /-- With the threshold at info, something is broken. -/
  info : failOn = .info → breaches isJson contract traces ≠ []
  /-- With the threshold at low, breaches of severity info do not stand alone. -/
  notice : failOn = .low → (∃ p ∈ breaches isJson contract traces, p.2.severity = .info) →
    ∃ p ∈ breaches isJson contract traces, .low ≤ p.2.severity

section Transfer

variable {vs : List TraceViolation} {bs : List (TraceEnvelope × ContractRule)}

theorem countP_of_keys (h : (vs.map TraceViolation.key).Perm (bs.map occurrenceKey))
    (q : Severity → Bool) : vs.countP (fun v => q v.severity) = bs.countP fun p => q p.2.severity := by
  have hcount := h.countP_eq fun k => q k.2.2
  rw [List.countP_map, List.countP_map] at hcount
  exact hcount

theorem forall_of_keys (h : (vs.map TraceViolation.key).Perm (bs.map occurrenceKey))
    (q : Severity → Prop) : (∀ v ∈ vs, q v.severity) ↔ ∀ p ∈ bs, q p.2.severity := by
  constructor
  · intro hv p hp
    obtain ⟨v, hvs, hkey⟩ := List.mem_map.mp (h.mem_iff.mpr (List.mem_map_of_mem hp))
    have hsev : v.severity = p.2.severity := congrArg (fun k => k.2.2) hkey
    exact hsev ▸ hv v hvs
  · intro hp v hv
    obtain ⟨p, hps, hkey⟩ := List.mem_map.mp (h.mem_iff.mp (List.mem_map_of_mem hv))
    have hsev : p.2.severity = v.severity := congrArg (fun k => k.2.2) hkey
    exact hsev ▸ hp p hps

theorem exists_of_keys (h : (vs.map TraceViolation.key).Perm (bs.map occurrenceKey))
    (q : Severity → Prop) : (∃ v ∈ vs, q v.severity) ↔ ∃ p ∈ bs, q p.2.severity := by
  have hall := forall_of_keys h fun s => ¬ q s
  rw [← not_iff_not]
  push Not
  exact hall

theorem ne_nil_of_keys (h : (vs.map TraceViolation.key).Perm (bs.map occurrenceKey)) :
    vs ≠ [] ↔ bs ≠ [] := by
  have hlen := h.length_eq
  rw [List.length_map, List.length_map] at hlen
  rw [← List.length_pos_iff, ← List.length_pos_iff, hlen]

end Transfer

variable {options : ReplayOptions} {inputs : ReplayInputs}

/-- The violations are those of the breaches exactly when no scalar meets a rule for JSON. -/
theorem keys_iff (isJson : String → Bool) (options : ReplayOptions) (inputs : ReplayInputs) :
    ((runLocalReplay isJson options inputs).violations.map TraceViolation.key).Perm
      ((breaches isJson inputs.contract inputs.traces).map occurrenceKey)
    ↔ ∀ p ∈ occurrences inputs.contract inputs.traces, ¬ ScalarJson p.1 p.2 := by
  have hkeys := report_keys isJson options inputs
  have hbreaches : breaches isJson inputs.contract inputs.traces
      = ((occurrences inputs.contract inputs.traces).filter fun p => fails isJson p.1 p.2).filter
        fun p => !decide (ScalarJson p.1 p.2) := by
    unfold breaches
    rw [List.filter_filter]
    refine List.filter_congr fun p _ => ?_
    rw [decide_eq_decide.mpr breaks_iff, Bool.decide_and, Bool.decide_coe, Bool.and_comm,
      decide_not]
  constructor
  · intro h p hp hscalar
    have hlen := (h.symm.trans hkeys).length_eq
    rw [List.length_map, List.length_map, hbreaches, List.length_filter_eq_length_iff] at hlen
    have hfails : fails isJson p.1 p.2 = true := fails_iff.mpr (.inr hscalar)
    have hno := hlen p (List.mem_filter.mpr ⟨hp, hfails⟩)
    rw [decide_eq_true hscalar] at hno
    cases hno
  · intro hno
    rw [hbreaches, List.filter_eq_self.mpr]
    · exact hkeys
    · intro p hp
      rw [decide_eq_false (hno p (List.mem_filter.mp hp).1)]
      rfl

/-- A counter that is exact is zero when there is nothing for it to count. -/
theorem counter_zero {n : UInt32} {vs : List TraceViolation} {q : Severity → Prop} [DecidablePred q]
    (h : n.toNat = vs.countP fun v => q v.severity) : n = 0 ↔ ∀ v ∈ vs, ¬ q v.severity := by
  have hzero : n = 0 ↔ n.toNat = 0 := UInt32.toNat_inj.symm
  rw [hzero, h, List.countP_eq_zero]
  simp

/-- With exact counters the verdict is right, but for the two lowest thresholds. -/
theorem clear_iff {a : ReplayAggregates} {vs : List TraceViolation}
    (hcritical : a.critical.toNat = vs.countP fun v => v.severity = .critical)
    (hhigh : a.high.toNat = vs.countP fun v => v.severity = .high)
    (hmedium : a.medium.toNat = vs.countP fun v => v.severity = .medium)
    (hlow : a.low.toNat = vs.countP fun v => v.severity = .low ∨ v.severity = .info)
    (failOn : Severity) :
    (Clear a failOn ↔ ∀ v ∈ vs, v.severity < failOn)
      ↔ (failOn = .info → vs ≠ [])
        ∧ (failOn = .low → (∃ v ∈ vs, v.severity = .info) → ∃ v ∈ vs, .low ≤ v.severity) := by
  have h₁ := counter_zero (q := fun s => s = .critical) hcritical
  have h₂ := counter_zero (q := fun s => s = .high) hhigh
  have h₃ := counter_zero (q := fun s => s = .medium) hmedium
  have h₄ := counter_zero (q := fun s => s = .low ∨ s = .info) hlow
  cases failOn with
  | critical =>
      refine iff_of_true ?_ ⟨(nomatch ·), (nomatch ·)⟩
      rw [Clear, h₁]
      refine forall₂_congr fun v _ => ?_
      cases v.severity <;> decide
  | high =>
      refine iff_of_true ?_ ⟨(nomatch ·), (nomatch ·)⟩
      rw [Clear, h₁, h₂, ← forall₂_and]
      refine forall₂_congr fun v _ => ?_
      cases v.severity <;> decide
  | medium =>
      refine iff_of_true ?_ ⟨(nomatch ·), (nomatch ·)⟩
      rw [Clear, h₁, h₂, h₃, ← forall₂_and, ← forall₂_and]
      refine forall₂_congr fun v _ => ?_
      cases v.severity <;> decide
  | low =>
      have hclear : Clear a .low ↔ vs = [] := by
        rw [Clear, h₁, h₂, h₃, h₄, ← forall₂_and, ← forall₂_and, ← forall₂_and,
          List.eq_nil_iff_forall_not_mem]
        refine forall₂_congr fun v _ => ?_
        cases v.severity <;> decide
      have hbelow : ∀ s : Severity, s < .low ↔ s = .info := by decide
      have habove : ∀ s : Severity, .low ≤ s ↔ ¬ s = .info := by decide
      simp only [hclear, hbelow, habove]
      constructor
      · intro h
        refine ⟨(nomatch ·), fun _ hinfo => ?_⟩
        by_contra hall
        push Not at hall
        obtain ⟨v, hv, -⟩ := hinfo
        rw [h.mpr hall] at hv
        cases hv
      · rintro ⟨-, h⟩
        constructor
        · intro hnil v hv
          rw [hnil] at hv
          cases hv
        · intro hall
          by_contra hne
          obtain ⟨v, hv⟩ := List.exists_mem_of_ne_nil vs hne
          obtain ⟨w, hw, hnot⟩ := h trivial ⟨v, hv, hall v hv⟩
          exact hnot (hall w hw)
  | info =>
      have hbelow : ∀ s : Severity, ¬ s < .info := by decide
      simp only [Clear, hbelow, imp_false, ← List.eq_nil_iff_forall_not_mem, false_iff]
      constructor
      · intro h
        exact ⟨fun _ => h, (nomatch ·)⟩
      · intro h
        exact h.1 trivial

/-- **When a replay report is exact**: no output that is a bare scalar meets a rule that wants
JSON, each counter has room for what it counts, with the threshold at info something is broken,
and with the threshold at low not everything broken is of severity info. -/
theorem replay_exact_iff (isJson : String → Bool) (options : ReplayOptions)
    (inputs : ReplayInputs) : Exact isJson options inputs
      ↔ Tellable isJson options.failOn inputs.contract inputs.traces := by
  obtain ⟨hcritical, hhigh, hmedium, hlow⟩ := report_aggregates isJson options inputs
  have hpassed := passed_iff (runLocalReplay isJson options inputs).aggregates options.failOn
  constructor
  · intro h
    have hkeys := h.violations
    have hcount := countP_of_keys hkeys
    have hlt : ∀ {n : UInt32} {k : Nat}, n.toNat = k → k < 2 ^ 32 := fun {n _} hn => hn ▸ n.toNat_lt
    have hverdict := (clear_iff h.critical h.high h.medium h.low options.failOn).mp
      (hpassed.symm.trans h.verdict)
    refine ⟨(keys_iff isJson options inputs).mp hkeys, ?_, ?_, ?_, ?_, ?_, ?_⟩
    · rw [← hcount fun s => s = .critical]
      exact hlt h.critical
    · rw [← hcount fun s => s = .high]
      exact hlt h.high
    · rw [← hcount fun s => s = .medium]
      exact hlt h.medium
    · rw [← hcount fun s => s = .low ∨ s = .info]
      exact hlt h.low
    · intro hinfo
      exact (ne_nil_of_keys hkeys).mp (hverdict.1 hinfo)
    · intro hlow hinfo
      exact (exists_of_keys hkeys fun s => .low ≤ s).mp
        (hverdict.2 hlow ((exists_of_keys hkeys fun s => s = .info).mpr hinfo))
  · intro h
    have hkeys := (keys_iff isJson options inputs).mpr h.noScalar
    have hcount := countP_of_keys hkeys
    have hcritical' := hcritical.trans (Nat.mod_eq_of_lt
      (lt_of_eq_of_lt (hcount fun s => s = .critical) h.critical))
    have hhigh' := hhigh.trans (Nat.mod_eq_of_lt
      (lt_of_eq_of_lt (hcount fun s => s = .high) h.high))
    have hmedium' := hmedium.trans (Nat.mod_eq_of_lt
      (lt_of_eq_of_lt (hcount fun s => s = .medium) h.medium))
    have hlow' := hlow.trans (Nat.mod_eq_of_lt
      (lt_of_eq_of_lt (hcount fun s => s = .low ∨ s = .info) h.low))
    refine ⟨hkeys, hcritical', hhigh', hmedium', hlow', hpassed.trans ?_⟩
    refine (clear_iff hcritical' hhigh' hmedium' hlow' options.failOn).mpr ⟨?_, ?_⟩
    · intro hinfo
      exact (ne_nil_of_keys hkeys).mpr (h.info hinfo)
    · intro hlow hinfo
      exact (exists_of_keys hkeys fun s => .low ≤ s).mpr
        (h.notice hlow ((exists_of_keys hkeys fun s => s = .info).mp hinfo))

/-! ## The defects -/

/-- A replay of one trace under one rule. -/
def oneRule (ruleType : String) (severity : Severity) (output : Option Value) : ReplayInputs where
  logicalBundleHash := ""
  rootHash := ""
  contract := ⟨"c1", [⟨ruleType, severity, [], [], [], some "json"⟩]⟩
  traces := [⟨"t1", output, [], none⟩]
  now := ""

/-- A breach of severity info fails a replay whose threshold is low. -/
theorem not_exact_notice : ¬ Exact (fun _ => true) ⟨1, .low⟩
    (oneRule "language_match_field_present" .info (some (.object []))) := by
  intro h
  have hpassed := h.verdict.mpr (by decide +kernel)
  exact absurd hpassed (by decide +kernel)

/-- With the threshold at info a replay fails though nothing is broken. -/
example : ¬ Exact (fun _ => true) ⟨1, .info⟩
    (oneRule "language_match_field_present" .high (some (.object [("language", .string "en")]))) := by
  intro h
  have hpassed := h.verdict.mpr (by decide +kernel)
  exact absurd hpassed (by decide +kernel)

/-- A number is a JSON value, and is reported not to be one. -/
example : ¬ Exact (fun _ => true) ⟨1, .critical⟩
    (oneRule "json_output_valid" .high (some (.number "42"))) := by
  intro h
  exact absurd h.violations (by decide +kernel)

end Agenomic.Contract
