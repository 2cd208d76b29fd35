import Mathlib.Data.Prod.Lex
import Agenomic.Lib.Groups
import Agenomic.Lib.Json

/-!
# Diagnosis

Flagged traces are grouped by the label of their signal and by their skill. A group becomes
a cluster: its trace ids, the words that its snippets have most often, and up to three of
the snippets as exemplars. A cluster becomes a proposal, and a proposal is criticised by a
list of rules; all of this is one `audit`.
-/

namespace Agenomic.Governance

open Lib

/-- Why a trace was flagged. -/
inductive FailureSignal where
  | escalation
  | complaint
  | refundGranted
  | contractViolation
  | humanOverride
  | other (s : String)
  deriving DecidableEq, Repr

def FailureSignal.label : FailureSignal → String
  | .escalation => "escalation"
  | .complaint => "complaint"
  | .refundGranted => "refund_granted"
  | .contractViolation => "contract_violation"
  | .humanOverride => "human_override"
  | .other s => s

structure FlaggedTrace where
  traceId : String
  skill : String
  signal : FailureSignal
  inputSnippet : String
  outputSnippet : String
  deriving DecidableEq, Repr

structure Cluster where
  id : String
  signal : FailureSignal
  skill : String
  size : Nat
  members : List String
  keywords : List String
  exemplars : List String
  deriving DecidableEq, Repr

/-! ## Words -/

def stopwords : List String :=
  ["a", "an", "and", "are", "as", "at", "be", "but", "by", "for", "from", "had", "has", "have",
    "he", "her", "his", "i", "in", "is", "it", "its", "me", "my", "no", "not", "of", "on", "or",
    "our", "she", "so", "some", "than", "that", "the", "their", "them", "they", "this", "to",
    "was", "we", "were", "what", "when", "which", "who", "will", "with", "would", "you", "your"]

def lowercase (cs : List Char) : List Char := cs.map Char.toLower

/-- The words of a text that say something, in lower case. -/
def tokenise (s : String) : List String :=
  (s.toList.splitOnP fun c => !c.isAlphanum).filterMap fun tok =>
    let lower := lowercase tok
    if lower.length < 3 ∨ String.ofList lower ∈ stopwords then none
    else some (String.ofList lower)

/-- The order of words with their counts. -/
def MoreFrequent (a b : String × Nat) : Prop := b.2 < a.2 ∨ (a.2 = b.2 ∧ a.1 ≤ b.1)

instance : DecidableRel MoreFrequent := fun _ _ => inferInstanceAs (Decidable (_ ∨ _))

def tokensOf (members : List FlaggedTrace) : List String :=
  members.flatMap fun m => tokenise m.inputSnippet ++ tokenise m.outputSnippet

/-- The eight words that occur most often. -/
def mineKeywords (members : List FlaggedTrace) : List String :=
  let tokens := tokensOf members
  let pairs := (sortDedup (· ≤ ·) tokens).map fun w => (w, tokens.count w)
  ((pairs.insertionSort MoreFrequent).take 8).map (·.1)

/-! ## Exemplars -/

/-- The first snippet of a trace that has a keyword and was not picked yet. -/
def offer (kw : String) (out : List String) (m : FlaggedTrace) : Option String :=
  [m.inputSnippet, m.outputSnippet].find? fun snippet =>
    snippet ≠ "" ∧ lowercase kw.toList <:+: lowercase snippet.toList ∧ snippet ∉ out

/-- One snippet of each trace, until there are three. -/
def pickFrom (kw : String) : List FlaggedTrace → List String → List String
  | [], out => out
  | m :: rest, out =>
      let out' := out ++ (offer kw out m).toList
      if 3 ≤ out'.length then out' else pickFrom kw rest out'

def pickFor (members : List FlaggedTrace) : List String → List String → List String
  | [], out => out
  | kw :: rest, out =>
      let out' := pickFrom kw members out
      if 3 ≤ out'.length then out' else pickFor members rest out'

def pickExemplars (members : List FlaggedTrace) (keywords : List String) : List String :=
  let out := pickFor members (keywords.take 3) []
  if out.isEmpty then
    (members.take 3).filterMap fun m =>
      if m.inputSnippet ≠ "" then some m.inputSnippet
      else if m.outputSnippet ≠ "" then some m.outputSnippet
      else none
  else out

/-! ## Clusters -/

section

variable (blake3 : Bytes → Bytes)

def nul : Char := Char.ofNat 0

/-- The first half of a hash, in hexadecimal. -/
def shortHash (text : List Char) : String :=
  String.ofList (hexEncode ((blake3 (utf8Encode text)).take 16))

def clusterId (signal : FailureSignal) (skill : String) (traceIds : List String) : String :=
  shortHash blake3 ("cluster".toList ++ nul :: signal.label.toList ++ nul :: skill.toList
    ++ traceIds.flatMap fun id => nul :: id.toList)

/-- The signal is that of the first member; a group has one. -/
def buildCluster (skill : String) (members : List FlaggedTrace) : Cluster :=
  let signal := (members.head?.map (·.signal)).getD (.other "")
  let traceIds := sortDedup (· ≤ ·) (members.map (·.traceId))
  let keywords := mineKeywords members
  { id := clusterId blake3 signal skill traceIds
    signal := signal
    skill := skill
    size := traceIds.length
    members := traceIds
    keywords := keywords
    exemplars := pickExemplars members keywords }

/-- The label and the skill that a trace is grouped by. -/
def clusterKey (t : FlaggedTrace) : String ×ₗ String := toLex (t.signal.label, t.skill)

/-- The order of the clusters. -/
def LargestFirst (a b : Cluster) : Prop := b.size < a.size ∨ (a.size = b.size ∧ a.id ≤ b.id)

instance : DecidableRel LargestFirst := fun _ _ => inferInstanceAs (Decidable (_ ∨ _))

def cluster (traces : List FlaggedTrace) : List Cluster :=
  ((groups clusterKey traces).map fun g => buildCluster blake3 (ofLex g.1).2 g.2).insertionSort
    LargestFirst

end

/-! ## Proposals -/

inductive ProposalAction where
  | extendSkillExamples (count : Nat)
  | narrowSkillScope (excludedKeywords : List String)
  | addPolicyRule (ruleHint : String)
  | escalationOverhaul
  | none
  deriving DecidableEq, Repr

namespace ProposalAction

def label : ProposalAction → String
  | extendSkillExamples _ => "extend_skill_examples"
  | narrowSkillScope _ => "narrow_skill_scope"
  | addPolicyRule _ => "add_policy_rule"
  | escalationOverhaul => "escalation_overhaul"
  | none => "none"

def toJson (action : ProposalAction) : Json :=
  .obj (("kind", .str action.label) :: match action with
    | extendSkillExamples count => [("count", .num count)]
    | narrowSkillScope excluded => [("excluded_keywords", .arr (excluded.map .str))]
    | addPolicyRule hint => [("rule_hint", .str hint)]
    | escalationOverhaul => []
    | none => [])

end ProposalAction

structure Proposal where
  id : String
  clusterId : String
  targetSkill : String
  targetVersion : Option String
  hypothesis : String
  suggestedAction : ProposalAction
  evidenceCount : Nat
  deriving DecidableEq, Repr

/-- The skill moves money. -/
def movesMoney (skill : String) : Bool :=
  (stripPrefix? "compensation" skill).isSome || (stripPrefix? "refund" skill).isSome

def quotedList (keywords : List String) : String :=
  ", ".intercalate (keywords.map fun k => "\"" ++ k ++ "\"")

section

-- how a text is shown in a hint
variable (debug : String → String)

def suggestAction (cluster : Cluster) : ProposalAction :=
  match cluster.signal with
  | .escalation | .complaint => .extendSkillExamples (max 3 (min cluster.size 12))
  | .contractViolation =>
      match cluster.keywords.head? with
      | some kw => .addPolicyRule ("forbid when input contains " ++ debug kw)
      | none => .addPolicyRule "(no anchoring keyword surfaced — refine cluster first)"
  | .refundGranted =>
      if movesMoney cluster.skill then .escalationOverhaul
      else .extendSkillExamples (max 3 (min cluster.size 8))
  | .humanOverride => .narrowSkillScope (cluster.keywords.take 3)
  | .other _ => .none

def renderHypothesis (cluster : Cluster) (action : ProposalAction) : String :=
  let kw := if cluster.keywords.isEmpty then "no dominant keywords"
    else "around keywords [" ++ quotedList (cluster.keywords.take 5) ++ "]"
  let skill := cluster.skill
  let n := cluster.size
  let signal := cluster.signal.label
  match action with
  | .extendSkillExamples count =>
      s!"Skill `{skill}` shows {n} {signal} traces {kw}. Hypothesis: the skill does not cover "
        ++ s!"this case. Candidate remediation: extend the skill prompt with {count} additional "
        ++ "examples drawn from the cluster."
  | .addPolicyRule hint =>
      s!"Skill `{skill}` produced {n} contract-violating outputs {kw}. Hypothesis: the policy "
        ++ "layer is missing a hard guard. Candidate remediation: add a policy rule — "
        ++ hint ++ "."
  | .escalationOverhaul =>
      s!"Skill `{skill}` saw {n} refund-granted overrides {kw}. Hypothesis: the current "
        ++ "escalation path under-routes high-value disputes. Candidate remediation: re-design "
        ++ "the escalation gate before further deployment."
  | .narrowSkillScope excluded =>
      s!"Skill `{skill}` was manually overridden {n} times {kw}. Hypothesis: the skill is "
        ++ "over-triggering. Candidate remediation: narrow scope by excluding inputs containing ["
        ++ quotedList excluded ++ "]."
  | .none =>
      s!"Skill `{skill}` shows {n} traces with signal `{signal}` {kw}, but the diagnostic has no "
        ++ "canonical remediation for this signal. Recommend triage by a human before proposing "
        ++ "a change."

def proposalId (blake3 : Bytes → Bytes) (cluster : Cluster) (action : ProposalAction) : String :=
  shortHash blake3 ("proposal".toList ++ nul :: cluster.id.toList ++ nul :: action.label.toList
    ++ nul :: action.toJson.write)

def hypothesize (blake3 : Bytes → Bytes) (cluster : Cluster) : Proposal :=
  let action := suggestAction debug cluster
  { id := proposalId blake3 cluster action
    clusterId := cluster.id
    targetSkill := cluster.skill
    targetVersion := none
    hypothesis := renderHypothesis cluster action
    suggestedAction := action
    evidenceCount := cluster.size }

end

/-! ## Criticism -/

inductive Severity where
  | info
  | low
  | medium
  | high
  | critical
  deriving DecidableEq, Repr

def Severity.rank : Severity → Nat
  | info => 0
  | low => 1
  | medium => 2
  | high => 3
  | critical => 4

structure Finding where
  severity : Severity
  area : String
  title : String
  body : String
  citations : List String
  deriving DecidableEq, Repr

inductive Verdict where
  | pass
  | warn
  | block
  deriving DecidableEq, Repr

/-- The verdict on the most severe finding. -/
def Verdict.fromFindings (findings : List Finding) : Verdict :=
  match (findings.map (·.severity.rank)).max? with
  | none | some 0 => pass
  | some 1 | some 2 => warn
  | some _ => block

structure Critique where
  proposalId : String
  findings : List Finding
  verdict : Verdict
  deriving DecidableEq, Repr

def ruleSampleSize (p : Proposal) : Option Finding :=
  if p.evidenceCount < 3 then
    let n := p.evidenceCount
    some ⟨.high, "evidence", "evidence base too small",
      s!"Proposal is backed by only {n} flagged trace(s). Fewer than 3 traces risks overfitting "
        ++ "to a single incident — wait for the pattern to recur before approving a change.",
      ["proposal.evidence_count"]⟩
  else none

def ruleNoAction (p : Proposal) : Option Finding :=
  match p.suggestedAction with
  | .none =>
      some ⟨.medium, "remediation", "no concrete remediation",
        "The proposal carries no `suggested_action`; either close the cluster as triage-only "
          ++ "or refine the diagnostic so a typed action is produced.",
        ["proposal.suggested_action"]⟩
  | _ => none

def ruleExtensionTooLarge (p : Proposal) : Option Finding :=
  match p.suggestedAction with
  | .extendSkillExamples count =>
      if 20 < count then
        some ⟨.medium, "regression-risk", "large prompt expansion",
          s!"Adding {count} examples in a single change increases over-triggering risk. "
            ++ "Split into multiple proposals or canary the change at 5/25/100%.",
          ["proposal.suggested_action.count"]⟩
      else none
  | _ => none

def ruleScopeNarrowingWithoutExclusions (p : Proposal) : Option Finding :=
  match p.suggestedAction with
  | .narrowSkillScope [] =>
      some ⟨.high, "regression-risk", "scope narrowing without exclusions",
        "Narrowing the skill's scope without explicit excluded keywords masks the failure "
          ++ "rather than fixing it; the next override will simply move sideways.",
        ["proposal.suggested_action.excluded_keywords"]⟩
  | _ => none

def unanchored (hint : String) : Bool :=
  isBlank hint || decide ("no anchoring keyword".toList <:+: lowercase hint.toList)

def rulePolicyRuleUnanchored (p : Proposal) : Option Finding :=
  match p.suggestedAction with
  | .addPolicyRule hint =>
      if unanchored hint then
        some ⟨.high, "policy", "policy rule lacks an anchor",
          "Proposing a policy rule without an anchoring keyword phrase produces a guard that "
            ++ "either never fires or fires everywhere. Re-cluster or hand-pick the anchor "
            ++ "before approval.",
          ["proposal.suggested_action.rule_hint"]⟩
      else none
  | _ => none

def ruleEscalationOverhaulNeedsHumanGate (p : Proposal) : Option Finding :=
  match p.suggestedAction with
  | .escalationOverhaul =>
      if movesMoney p.targetSkill then
        some ⟨.medium, "compliance", "escalation overhaul on a money-touching skill",
          "Re-routing escalations on a compensation/refund skill is a high-impact change; it "
            ++ "must traverse the AI Act human-approval gate explicitly before any shadow "
            ++ "deployment.",
          ["proposal.target_skill"]⟩
      else none
  | _ => none

def ruleNoTargetVersion (p : Proposal) : Option Finding :=
  if p.targetVersion = none then
    some ⟨.low, "lineage", "target_version not pinned",
      "`target_version` is unset; pin the proposal against a specific skill version to prevent "
        ++ "retroactive drift once the skill is updated.",
      ["proposal.target_version"]⟩
  else none

def rules : List (Proposal → Option Finding) :=
  [ruleSampleSize, ruleNoAction, ruleExtensionTooLarge, ruleScopeNarrowingWithoutExclusions,
    rulePolicyRuleUnanchored, ruleEscalationOverhaulNeedsHumanGate, ruleNoTargetVersion]

/-- The order of the findings of a critique. -/
def MostSevereFirst (a b : Finding) : Prop :=
  b.severity.rank < a.severity.rank ∨ (a.severity = b.severity ∧ a.area ≤ b.area)

instance : DecidableRel MostSevereFirst := fun _ _ => inferInstanceAs (Decidable (_ ∨ _))

def critique (p : Proposal) : Critique :=
  let findings := (rules.filterMap fun rule => rule p).insertionSort MostSevereFirst
  ⟨p.id, findings, .fromFindings findings⟩

/-! ## The chain -/

structure AuditReport where
  clusters : List Cluster
  proposals : List Proposal
  critiques : List Critique

def audit (blake3 : Bytes → Bytes) (debug : String → String) (traces : List FlaggedTrace) :
    AuditReport :=
  let clusters := cluster blake3 traces
  let proposals := clusters.map (hypothesize debug blake3)
  ⟨clusters, proposals, proposals.map critique⟩

end Agenomic.Governance
