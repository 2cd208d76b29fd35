import Agenomic.Gate.Detect
import Agenomic.Lib.Sorted
import Agenomic.Prompt.Value

/-!
# The tool boundary gate

A proposed tool call is checked by six families of rules and by a bundle of policies before
it has any effect. Every rule that trips is a reason, and the reasons decide.
-/

namespace Agenomic.Gate

open Lib Prompt Value

/-! ## The rules of the gate

A rule set has lists of tools and of protected paths, with a floor that a `gate.json` can
only extend: what it says of the floor lists is united with the built-in ones
(`enforceFloor`). The grants are taken as they are given.
-/

structure GateRuleSet where
  allowedTools : List String
  allowedScopes : List (String × List String)
  irreversibleTools : List String
  externalSinkTools : List String
  selfMutationTools : List String
  effectfulWriteTools : List String
  approvedRecipients : List String
  protectedPaths : List String
  deriving DecidableEq

def defaultIrreversible : List String :=
  [ "delete_record", "delete_file", "delete_user", "drop_table", "db.delete", "db.drop", "deploy",
    "publish", "publish_release", "send_payment", "transfer_funds", "wire_transfer",
    "issue_refund", "rm", "rmrf", "destroy", "terminate_instance", "revoke_access",
    "rotate_keys" ]

def defaultExternalSinks : List String :=
  [ "send_email", "email.send", "http_post", "http.post", "http_request", "http.request",
    "webhook", "post_message", "upload", "upload_file", "fetch_url", "curl", "slack.post",
    "sms.send", "publish_message", "dns_lookup" ]

def defaultSelfMutation : List String :=
  [ "set_system_prompt", "update_system_prompt", "modify_prompt", "update_instructions",
    "write_genome", "edit_policy", "update_policy", "self_update", "patch_self",
    "rewrite_instructions" ]

def defaultEffectfulWrite : List String :=
  [ "fs.write", "file.write", "write_file", "edit_file", "edit", "shell", "exec", "bash",
    "run_command", "apply_patch", "fs.append", "fs.move" ]

def defaultProtectedPaths : List String :=
  [ "genome.yaml", "system_prompt", "system-prompt", "/policies/", "\\policies\\", ".rego",
    ".agenomic/", "gate.json", "gate.toml", ".env", ".pem", ".key", "id_rsa", "id_ed25519",
    ".ssh/", "/etc/passwd", "/etc/shadow" ]

namespace GateRuleSet

def default : GateRuleSet where
  allowedTools := []
  allowedScopes := []
  irreversibleTools := defaultIrreversible
  externalSinkTools := defaultExternalSinks
  selfMutationTools := defaultSelfMutation
  effectfulWriteTools := defaultEffectfulWrite
  approvedRecipients := []
  protectedPaths := defaultProtectedPaths

/-- Unite the floor lists with the built-in ones. -/
def enforceFloor (r : GateRuleSet) : GateRuleSet :=
  { r with
    irreversibleTools := r.irreversibleTools ++ defaultIrreversible
    externalSinkTools := r.externalSinkTools ++ defaultExternalSinks
    selfMutationTools := r.selfMutationTools ++ defaultSelfMutation
    effectfulWriteTools := r.effectfulWriteTools ++ defaultEffectfulWrite
    protectedPaths := r.protectedPaths
      ++ defaultProtectedPaths.filter fun p => p ∉ r.protectedPaths }

def hasAllowlist (r : GateRuleSet) : Bool := decide (r.allowedTools ≠ [])

end GateRuleSet

/-! ## Reading -/

/-- A list of texts. -/
def readStrings : Value → Option (List String)
  | .array items => items.mapM asStr
  | _ => none

/-- Lists of texts by name; of two with one name the later one counts. -/
def readStringsByName : Value → Option (List (String × List String))
  | .object members =>
      (members.mapM fun m => (readStrings m.2).map fun texts => (m.1, texts)).map List.reverse
  | _ => none

/-- A member of an object in a text: its default when it is not there, an error when it is there
twice. -/
def readField {α : Type} (read : Value → Option α) (fallback : α) (key : String)
    (members : Members) : Option α :=
  match members.filter fun m => m.1 = key with
  | [] => some fallback
  | [m] => read m.2
  | _ => none

/-- The rules that an object gives. -/
def readRules (members : Members) : Option GateRuleSet := do
  let allowedTools ← readField readStrings [] "allowed_tools" members
  let allowedScopes ← readField readStringsByName [] "allowed_scopes" members
  let irreversibleTools ← readField readStrings defaultIrreversible "irreversible_tools" members
  let externalSinkTools ← readField readStrings defaultExternalSinks "external_sink_tools" members
  let selfMutationTools ← readField readStrings defaultSelfMutation "self_mutation_tools" members
  let effectfulWriteTools ←
    readField readStrings defaultEffectfulWrite "effectful_write_tools" members
  let approvedRecipients ← readField readStrings [] "approved_recipients" members
  let protectedPaths ← readField readStrings defaultProtectedPaths "protected_paths" members
  some
    { allowedTools, allowedScopes, irreversibleTools, externalSinkTools, selfMutationTools,
      effectfulWriteTools, approvedRecipients, protectedPaths }

/-- The names of the members, in the order in which they are declared. -/
def ruleMembers : List String :=
  [ "allowed_tools", "allowed_scopes", "irreversible_tools", "external_sink_tools",
    "self_mutation_tools", "effectful_write_tools", "approved_recipients", "protected_paths" ]

/-- The rules that a document gives: an object, or a list of the members in their order. -/
def GateRuleSet.ofValue : Value → Option GateRuleSet
  | .object members => readRules members
  | .array items =>
      if items.length ≤ ruleMembers.length then readRules (ruleMembers.zip items) else none
  | _ => none

/-- The rules in a text, which `parse` reads as a document with the members of an object in their
order, repeated ones too. -/
def GateRuleSet.fromJson (parse : String → Option Value) (text : String) : Option GateRuleSet := do
  let document ← parse text
  let rules ← GateRuleSet.ofValue document
  some rules.enforceFloor

/-! ## The floor -/

/-- A rule set that has all of the floor. -/
structure GateRuleSet.AboveFloor (r : GateRuleSet) : Prop where
  irreversible : ∀ tool ∈ defaultIrreversible, tool ∈ r.irreversibleTools
  externalSinks : ∀ tool ∈ defaultExternalSinks, tool ∈ r.externalSinkTools
  selfMutation : ∀ tool ∈ defaultSelfMutation, tool ∈ r.selfMutationTools
  effectfulWrite : ∀ tool ∈ defaultEffectfulWrite, tool ∈ r.effectfulWriteTools
  protectedPaths : ∀ path ∈ defaultProtectedPaths, path ∈ r.protectedPaths

theorem GateRuleSet.enforceFloor_aboveFloor (r : GateRuleSet) : r.enforceFloor.AboveFloor := by
  refine ⟨fun tool h => List.mem_append_right _ h, fun tool h => List.mem_append_right _ h,
    fun tool h => List.mem_append_right _ h, fun tool h => List.mem_append_right _ h, ?_⟩
  intro path h
  by_cases hgiven : path ∈ r.protectedPaths
  · exact List.mem_append_left _ hgiven
  · exact List.mem_append_right _ (List.mem_filter.mpr ⟨h, decide_eq_true hgiven⟩)

/-- **No text gives rules below the floor.** -/
theorem GateRuleSet.fromJson_aboveFloor {parse : String → Option Value} {text : String}
    {rules : GateRuleSet} (h : GateRuleSet.fromJson parse text = some rules) :
    rules.AboveFloor := by
  unfold GateRuleSet.fromJson at h
  obtain ⟨document, -, h⟩ := Option.bind_eq_some_iff.mp h
  obtain ⟨given, -, h⟩ := Option.bind_eq_some_iff.mp h
  cases h
  exact given.enforceFloor_aboveFloor

end Agenomic.Gate

namespace Agenomic.Gate

open Lib Prompt

/-! ## Tool calls -/

inductive Provenance where
  | trusted
  | untrusted
  deriving DecidableEq, Repr

def Provenance.label : Provenance → String
  | .trusted => "trusted"
  | .untrusted => "untrusted"

inductive Disposition where
  | approved
  | rejected
  | modified
  deriving DecidableEq, Repr

def Disposition.label : Disposition → String
  | .approved => "approved"
  | .rejected => "rejected"
  | .modified => "modified"

/-- What a reviewer said of a call that was held. -/
structure HumanApproval where
  disposition : Disposition
  role : String
  justification : String
  timestamp : String
  deriving DecidableEq, Repr

def HumanApproval.isApproved (a : HumanApproval) : Bool := decide (a.disposition = .approved)

structure ToolCall where
  tool : String
  arguments : Value
  provenance : Provenance
  scopes : List String
  /-- Where the call would send, as far as the arguments do not say. -/
  destinations : List String
  humanApproval : Option HumanApproval

def destKeys : List String :=
  [ "to", "recipient", "recipients", "url", "endpoint", "host", "hostname", "webhook", "dest",
    "destination", "target_url", "email", "address" ]

def pathKeys : List String :=
  [ "path", "file", "filename", "file_path", "dir", "directory", "target", "target_path",
    "dest_path", "output", "src", "source", "location" ]

namespace ToolCall

def isApproved (call : ToolCall) : Bool := call.humanApproval.any HumanApproval.isApproved

/-- Everywhere a call would send to, in order. -/
def resolvedDestinations (call : ToolCall) : List String :=
  sortDedup (· ≤ ·) (call.destinations ++ underKeys pushStrings destKeys call.arguments)

/-- The texts in the arguments that are checked as paths. A tool that writes may have a path in
any of them. -/
def candidatePaths (call : ToolCall) (r : GateRuleSet) : List String :=
  if call.tool ∈ r.effectfulWriteTools ∨ call.tool ∈ r.selfMutationTools then
    stringLeaves call.arguments
  else underKeys pushString pathKeys call.arguments

end ToolCall

/-! ## Destinations -/

/-- What follows the first `://`. -/
def afterScheme : List Char → Option (List Char)
  | [] => none
  | ':' :: '/' :: '/' :: rest => some rest
  | _ :: rest => afterScheme rest

/-- What follows the last `c`, or all of it. -/
def afterLast (c : Char) (s : List Char) : List Char := (s.reverse.takeWhile (· ≠ c)).reverse

/-- What the gate takes for the host of a destination. -/
def recipientHost (dest : List Char) : List Char :=
  let hostPart := afterLast '@' ((afterScheme dest).getD dest)
  hostPart.takeWhile fun c => c ∉ ['/', '?', '#', ':']

/-- A host is one of the approved domains or below one. -/
def domainApproved (host : List Char) (r : GateRuleSet) : Bool :=
  r.approvedRecipients.any fun entry =>
    let domain := entry.toList.dropWhile (· = '@')
    decide (domain ≠ []) && (decide (host = domain) || ('.' :: domain).isSuffixOf host)

def isApproved (dest : String) (r : GateRuleSet) : Bool :=
  decide (dest ∈ r.approvedRecipients) || domainApproved (recipientHost dest.toList) r

def fmtDests (dests : List String) : String :=
  if dests = [] then "" else " (" ++ String.intercalate ", " dests ++ ")"

/-! ## Reasons -/

inductive ReasonKind where
  | block
  | requireApproval
  | info
  deriving DecidableEq, Repr

/-- The place of a kind in the order of the reasons. -/
def ReasonKind.rank : ReasonKind → Nat
  | .block => 0
  | .requireApproval => 1
  | .info => 2

structure GateReason where
  kind : ReasonKind
  rule : String
  message : String
  deriving DecidableEq, Repr

namespace GateReason

def block (rule message : String) : GateReason := ⟨.block, rule, message⟩

def requireApproval (rule message : String) : GateReason := ⟨.requireApproval, rule, message⟩

def info (rule message : String) : GateReason := ⟨.info, rule, message⟩

/-- By kind, then by rule, then by message. -/
def le (a b : GateReason) : Prop :=
  a.kind.rank < b.kind.rank
    ∨ (a.kind = b.kind ∧ (a.rule < b.rule ∨ (a.rule = b.rule ∧ a.message ≤ b.message)))

instance : DecidableRel le := fun a b => by unfold le; infer_instance

end GateReason

inductive GateDecision where
  | allow
  | block
  | requireHumanApproval
  deriving DecidableEq, Repr

namespace GateDecision

def name : GateDecision → String
  | .allow => "allow"
  | .block => "block"
  | .requireHumanApproval => "require_human_approval"

/-- A block wins over a review, and a review over nothing. -/
def decide (reasons : List GateReason) : GateDecision :=
  if reasons.any fun r => r.kind = .block then .block
  else if reasons.any fun r => r.kind = .requireApproval then .requireHumanApproval
  else .allow

end GateDecision

/-! ## The families of rules -/

/-- A list of allowed tools is closed. -/
def allowlistReasons (r : GateRuleSet) (call : ToolCall) : List GateReason :=
  if r.hasAllowlist = true ∧ call.tool ∉ r.allowedTools then
    [ .block "tool_not_allowlisted" ("tool '" ++ call.tool ++ "' is not in the allowlist") ]
  else []

def scopeReasons (r : GateRuleSet) (call : ToolCall) : List GateReason :=
  match r.allowedScopes.lookup call.tool with
  | none => []
  | some allowed =>
      (call.scopes.filter fun scope => scope ∉ allowed).map fun scope =>
        .block "scope_violation" ("tool '" ++ call.tool ++ "' may not use scope '" ++ scope ++ "'")

/-- By the name of the tool, or by what it writes to. -/
def selfModificationReasons (r : GateRuleSet) (call : ToolCall) : List GateReason :=
  if call.tool ∈ r.selfMutationTools then
    [ .block "self_modification"
        ("tool '" ++ call.tool ++ "' attempts to modify the agent's own instructions/policy") ]
  else
    (call.candidatePaths r).filterMap fun path =>
      (matchesProtected path r.protectedPaths).map fun frag =>
        .block "self_modification"
          ("write to protected target '" ++ path ++ "' (matched '" ++ frag ++ "')")

def traversalReasons (r : GateRuleSet) (call : ToolCall) : List GateReason :=
  ((call.candidatePaths r).filter hasTraversal).map fun path =>
    .block "path_traversal" ("path argument '" ++ path ++ "' escapes the working tree")

/-- The destinations that are not approved. -/
def externalDestinations (r : GateRuleSet) (call : ToolCall) : List String :=
  call.resolvedDestinations.filter fun d => !isApproved d r

/-- A call sends out; one that does not say where to does, too. -/
def anyExternal (r : GateRuleSet) (call : ToolCall) : Bool :=
  decide (externalDestinations r call ≠ [] ∨ call.resolvedDestinations = [])

def egressReasons (r : GateRuleSet) (call : ToolCall) : List GateReason :=
  if call.tool ∈ r.externalSinkTools then
    let external := externalDestinations r call
    let pii := scanPii call.arguments
    (match pii with
      | some kind =>
          if anyExternal r call = true then
            [ .block "pii_external_egress"
                (kind.label ++ " would be sent to an unapproved external recipient"
                  ++ fmtDests external) ]
          else []
      | none => [])
    ++ (if call.provenance = .untrusted ∧ anyExternal r call = true then
          [ .block "untrusted_exfiltration"
              ("untrusted-provenance call would send data to an unapproved external recipient"
                ++ fmtDests external) ]
        else if anyExternal r call = true ∧ pii = none then
          [ .requireApproval "external_egress_review"
              ("egress to an unapproved external recipient requires review"
                ++ fmtDests external) ]
        else [])
  else []

/-- The only family that looks at the approval. -/
def irreversibleReasons (r : GateRuleSet) (call : ToolCall) : List GateReason :=
  if call.tool ∈ r.irreversibleTools then
    if call.provenance = .untrusted ∧ call.isApproved = false then
      [ .block "irreversible_effect"
          ("untrusted-provenance call to irreversible tool '" ++ call.tool ++ "' is blocked") ]
    else if call.isApproved = false then
      [ .requireApproval "irreversible_effect"
          ("irreversible tool '" ++ call.tool ++ "' requires human approval before execution") ]
    else
      [ .info "irreversible_effect"
          ("irreversible tool '" ++ call.tool ++ "' proceeding under recorded approval") ]
  else []

/-- The reasons of all the families. -/
def evaluateInvariants (r : GateRuleSet) (call : ToolCall) : List GateReason :=
  sortDedup GateReason.le
    (allowlistReasons r call ++ scopeReasons r call ++ selfModificationReasons r call
      ++ traversalReasons r call ++ egressReasons r call ++ irreversibleReasons r call)

/-! ## Policies -/

inductive PolicyError where
  | compile (policy reason : String)
  | input (reason : String)
  | eval (reason : String)
  deriving DecidableEq, Repr

structure PolicyDecision where
  allowed : Bool
  denies : List String
  allowRule : Bool
  policies : List String
  deriving DecidableEq

/-- What an engine makes of policies and an input: whether the `allow` rule holds, and the texts of
the `deny` rule. -/
abbrev RegoEngine := List (String × String) → Value → Except PolicyError (Bool × List String)

/-- Policies by the names of their files. -/
structure PolicyBundle where
  sources : List (String × String)

def PolicyBundle.empty : PolicyBundle := ⟨[]⟩

/-- Without policies there is nothing to forbid. -/
def PolicyBundle.evaluate (engine : RegoEngine) (policy : PolicyBundle) (input : Value) :
    Except PolicyError PolicyDecision :=
  if policy.sources = [] then
    .ok { allowed := true, denies := [], allowRule := true, policies := [] }
  else do
    let (allowRule, texts) ← engine policy.sources input
    let denies := sortDedup (· ≤ ·) texts
    .ok
      { allowed := allowRule && decide (denies = []), denies, allowRule,
        policies := policy.sources.map Prod.fst }

def texts (xs : List String) : Value := .array (xs.map .string)

/-- What the policies are given. -/
def policyContext (r : GateRuleSet) (call : ToolCall) : Value :=
  .object
    [ ("tool", .string call.tool),
      ("provenance", .string call.provenance.label),
      ("scopes", texts call.scopes),
      ("arguments", call.arguments),
      ("destinations", texts call.resolvedDestinations),
      ("is_irreversible", .bool (decide (call.tool ∈ r.irreversibleTools))),
      ("is_external_sink", .bool (decide (call.tool ∈ r.externalSinkTools))),
      ("is_self_mutation", .bool (decide (call.tool ∈ r.selfMutationTools))),
      ("has_pii", .bool (scanPii call.arguments).isSome),
      ("human_approval_present", .bool call.isApproved) ]

structure GateOutcome where
  tool : String
  provenance : Provenance
  decision : GateDecision
  reasons : List GateReason
  policy : PolicyDecision

def GateOutcome.isAllowed (outcome : GateOutcome) : Bool := decide (outcome.decision = .allow)

/-- What the policies add to the reasons: a denial is a block. -/
def policyReasons (policy : PolicyDecision) : List GateReason :=
  if policy.allowed = true then []
  else if policy.denies = [] then
    [ .block "rego_policy" "rego policy gate denied the tool call (allow rule not satisfied)" ]
  else
    [ .block "rego_policy" ("rego policy denied: " ++ String.intercalate "; " policy.denies) ]

/-- The outcome under the rules and a decision of the policies. -/
def outcomeOf (r : GateRuleSet) (call : ToolCall) (policy : PolicyDecision) : GateOutcome :=
  let reasons := sortDedup GateReason.le (evaluateInvariants r call ++ policyReasons policy)
  { tool := call.tool
    provenance := call.provenance
    decision := GateDecision.decide reasons
    reasons
    policy }

/-- The rules and the policies together. -/
def evaluate (engine : RegoEngine) (r : GateRuleSet) (call : ToolCall) (policy : PolicyBundle) :
    Except PolicyError GateOutcome :=
  (policy.evaluate engine (policyContext r call)).map (outcomeOf r call)

/-! ## Events -/

inductive GateStream where
  | policy
  | governance
  deriving DecidableEq, Repr

structure GateEventDescriptor where
  stream : GateStream
  eventType : String
  payload : Value
  deriving DecidableEq

/-- The events of a call that a reviewer resolves. It is executed only when the reviewer approved
it and its new outcome allows it. -/
def resolutionDescriptors (call : ToolCall) (approval : HumanApproval) (outcome : GateOutcome)
    (executed : Bool) : List GateEventDescriptor :=
  let review : GateEventDescriptor :=
    { stream := .governance
      eventType := "human.review." ++ approval.disposition.label
      payload := .object
        [ ("tool", .string call.tool), ("disposition", .string approval.disposition.label),
          ("role", .string approval.role), ("justification", .string approval.justification),
          ("timestamp", .string approval.timestamp) ] }
  if approval.isApproved = true ∧ outcome.isAllowed = true then
    [ review,
      ⟨.policy, "tool.call.approved",
        .object [("tool", .string call.tool), ("via", .string "human_review")]⟩ ]
    ++ (if executed = true then
          [ ⟨.policy, "tool.call.executed", .object [("tool", .string call.tool)]⟩ ]
        else [])
  else
    [ review,
      ⟨.policy, "tool.call.blocked",
        .object
          [ ("tool", .string call.tool), ("via", .string "human_review"),
            ("decision", .string outcome.decision.name) ]⟩ ]

end Agenomic.Gate
