import Agenomic.Gate.Gate

/-!
# What the gate decides

For each family of rules, when it blocks and when it asks for a review. From this, when the
invariants block (`blocks_evaluateInvariants`) and when they ask for a review
(`holds_evaluateInvariants`).

A gate file can add to the floor but not take from it, and a call is not treated better
for being less trusted (`floor_and_distrust`).
-/

namespace Agenomic.Gate

open Lib Prompt

/-! ## Decisions -/

/-- Some reason blocks. -/
def Blocks (reasons : List GateReason) : Prop := ∃ x ∈ reasons, x.kind = .block

/-- Some reason asks for a review. -/
def Holds (reasons : List GateReason) : Prop := ∃ x ∈ reasons, x.kind = .requireApproval

@[simp] theorem blocks_nil : ¬Blocks [] := by simp [Blocks]

@[simp] theorem holds_nil : ¬Holds [] := by simp [Holds]

@[simp] theorem blocks_append {xs ys : List GateReason} :
    Blocks (xs ++ ys) ↔ Blocks xs ∨ Blocks ys := by
  simp only [Blocks, List.mem_append, or_and_right, exists_or]

@[simp] theorem holds_append {xs ys : List GateReason} :
    Holds (xs ++ ys) ↔ Holds xs ∨ Holds ys := by
  simp only [Holds, List.mem_append, or_and_right, exists_or]

@[simp] theorem blocks_cons {x : GateReason} {xs : List GateReason} :
    Blocks (x :: xs) ↔ x.kind = .block ∨ Blocks xs := by
  simp [Blocks]

@[simp] theorem holds_cons {x : GateReason} {xs : List GateReason} :
    Holds (x :: xs) ↔ x.kind = .requireApproval ∨ Holds xs := by
  simp [Holds]

@[simp] theorem blocks_sortDedup {xs : List GateReason} :
    Blocks (sortDedup GateReason.le xs) ↔ Blocks xs := by
  simp only [Blocks, mem_sortDedup]

@[simp] theorem holds_sortDedup {xs : List GateReason} :
    Holds (sortDedup GateReason.le xs) ↔ Holds xs := by
  simp only [Holds, mem_sortDedup]

theorem decide_eq_block {xs : List GateReason} : GateDecision.decide xs = .block ↔ Blocks xs := by
  unfold GateDecision.decide Blocks
  by_cases hb : xs.any (fun r => r.kind = .block) = true
  · rw [if_pos hb]
    simpa using hb
  · rw [if_neg hb]
    have hnone : ¬∃ x ∈ xs, x.kind = .block := by simpa using hb
    by_cases hr : xs.any (fun r => r.kind = .requireApproval) = true
    · rw [if_pos hr]
      simpa using hnone
    · rw [if_neg hr]
      simpa using hnone

theorem decide_eq_review {xs : List GateReason} :
    GateDecision.decide xs = .requireHumanApproval ↔ ¬Blocks xs ∧ Holds xs := by
  by_cases hb : Blocks xs
  · simp [decide_eq_block.mpr hb, hb]
  · have hany : ¬xs.any (fun r => r.kind = .block) = true := by simpa [Blocks] using hb
    unfold GateDecision.decide
    rw [if_neg hany]
    by_cases hr : xs.any (fun r => r.kind = .requireApproval) = true
    · rw [if_pos hr]
      have hh : Holds xs := by simpa [Holds] using hr
      simp [hb, hh]
    · rw [if_neg hr]
      have hh : ¬Holds xs := by simpa [Holds] using hr
      simp [hh]

theorem decide_eq_allow {xs : List GateReason} :
    GateDecision.decide xs = .allow ↔ ¬Blocks xs ∧ ¬Holds xs := by
  have hblock := @decide_eq_block xs
  have hreview := @decide_eq_review xs
  cases hd : GateDecision.decide xs with
  | allow =>
      rw [hd] at hblock hreview
      simp only [reduceCtorEq, false_iff, not_and] at hblock hreview
      simp [hblock, hreview hblock]
  | block =>
      rw [hd] at hblock
      simp [hblock.mp rfl]
  | requireHumanApproval =>
      rw [hd] at hreview
      simp [(hreview.mp rfl).2]

/-! ## The families -/

section Families

variable (r : GateRuleSet) (call : ToolCall)

/-- There is an allowlist and the tool is not on it. -/
def ToolForbidden : Prop := r.hasAllowlist = true ∧ call.tool ∉ r.allowedTools

/-- A scope is not among those of the tool. -/
def ScopeForbidden : Prop :=
  ∃ allowed, r.allowedScopes.lookup call.tool = some allowed ∧ ∃ s ∈ call.scopes, s ∉ allowed

/-- The tool is one for the agent's own instructions, or a path is protected. -/
def SelfModifies : Prop :=
  call.tool ∈ r.selfMutationTools
    ∨ ∃ path ∈ call.candidatePaths r, (matchesProtected path r.protectedPaths).isSome = true

def Escapes : Prop := ∃ path ∈ call.candidatePaths r, hasTraversal path = true

/-- The call sends to someone who is not approved. -/
def Egress : Prop := call.tool ∈ r.externalSinkTools ∧ anyExternal r call = true

def HasPii : Prop := (scanPii call.arguments).isSome = true

/-- The tool is irreversible and no reviewer approved the call. -/
def Unapproved : Prop := call.tool ∈ r.irreversibleTools ∧ call.isApproved = false

/-- A block that comes from one of the first five families. -/
def BlockedAnyway : Prop :=
  ToolForbidden r call ∨ ScopeForbidden r call ∨ SelfModifies r call ∨ Escapes r call
    ∨ (Egress r call ∧ (HasPii call ∨ call.provenance = .untrusted))

/-- A trusted call sends something harmless to someone who is not approved. -/
def EgressReview : Prop := Egress r call ∧ ¬HasPii call ∧ call.provenance = .trusted

variable {r call}

theorem trusted_of_ne {p : Provenance} (h : p ≠ .untrusted) : p = .trusted := by
  cases p with
  | trusted => rfl
  | untrusted => exact absurd rfl h

theorem blocks_allowlist : Blocks (allowlistReasons r call) ↔ ToolForbidden r call := by
  unfold allowlistReasons ToolForbidden
  by_cases h : r.hasAllowlist = true ∧ call.tool ∉ r.allowedTools
  · simp [h, GateReason.block]
  · rw [if_neg h]
    simp [h]

theorem not_holds_allowlist : ¬Holds (allowlistReasons r call) := by
  unfold allowlistReasons
  by_cases h : r.hasAllowlist = true ∧ call.tool ∉ r.allowedTools
  · simp [h, GateReason.block]
  · rw [if_neg h]
    exact holds_nil

theorem blocks_scope : Blocks (scopeReasons r call) ↔ ScopeForbidden r call := by
  unfold scopeReasons ScopeForbidden
  cases hlook : r.allowedScopes.lookup call.tool with
  | none => simp
  | some allowed => simp [Blocks, GateReason.block]

theorem not_holds_scope : ¬Holds (scopeReasons r call) := by
  unfold scopeReasons
  cases hlook : r.allowedScopes.lookup call.tool with
  | none => exact holds_nil
  | some allowed => simp [Holds, GateReason.block]

theorem blocks_selfModification :
    Blocks (selfModificationReasons r call) ↔ SelfModifies r call := by
  unfold selfModificationReasons SelfModifies
  by_cases h : call.tool ∈ r.selfMutationTools
  · simp [h, GateReason.block]
  · rw [if_neg h]
    simp only [h, false_or, Blocks, List.mem_filterMap, Option.map_eq_some_iff,
      Option.isSome_iff_exists]
    constructor
    · rintro ⟨x, ⟨path, hpath, frag, hfrag, -⟩, -⟩
      exact ⟨path, hpath, frag, hfrag⟩
    · rintro ⟨path, hpath, frag, hfrag⟩
      exact ⟨_, ⟨path, hpath, frag, hfrag, rfl⟩, rfl⟩

theorem not_holds_selfModification : ¬Holds (selfModificationReasons r call) := by
  unfold selfModificationReasons
  by_cases h : call.tool ∈ r.selfMutationTools
  · simp [h, GateReason.block]
  · rw [if_neg h]
    rintro ⟨x, hx, hkind⟩
    obtain ⟨path, -, hx⟩ := List.mem_filterMap.mp hx
    obtain ⟨frag, -, rfl⟩ := Option.map_eq_some_iff.mp hx
    cases hkind

theorem blocks_traversal : Blocks (traversalReasons r call) ↔ Escapes r call := by
  simp [traversalReasons, Escapes, Blocks, GateReason.block]

theorem not_holds_traversal : ¬Holds (traversalReasons r call) := by
  simp [traversalReasons, Holds, GateReason.block]

theorem blocks_egress : Blocks (egressReasons r call)
    ↔ Egress r call ∧ (HasPii call ∨ call.provenance = .untrusted) := by
  unfold egressReasons Egress HasPii
  by_cases hsink : call.tool ∈ r.externalSinkTools
  · cases hext : anyExternal r call with
    | false => cases scanPii call.arguments <;> simp
    | true =>
        by_cases hun : call.provenance = .untrusted
        · cases scanPii call.arguments <;> simp [hsink, hun, GateReason.block]
        · cases scanPii call.arguments <;>
            simp [hsink, hun, GateReason.block, GateReason.requireApproval]
  · rw [if_neg hsink]
    simp [hsink]

theorem holds_egress : Holds (egressReasons r call) ↔ EgressReview r call := by
  unfold egressReasons EgressReview Egress HasPii
  by_cases hsink : call.tool ∈ r.externalSinkTools
  · cases hext : anyExternal r call with
    | false => cases scanPii call.arguments <;> simp
    | true =>
        by_cases hun : call.provenance = .untrusted
        · cases scanPii call.arguments <;> simp [hsink, hun, GateReason.block]
        · have htr := trusted_of_ne hun
          cases scanPii call.arguments <;>
            simp [hsink, htr, GateReason.block, GateReason.requireApproval]
  · rw [if_neg hsink]
    simp [hsink]

theorem blocks_irreversible : Blocks (irreversibleReasons r call)
    ↔ Unapproved r call ∧ call.provenance = .untrusted := by
  unfold irreversibleReasons Unapproved
  by_cases hirr : call.tool ∈ r.irreversibleTools
  · by_cases hun : call.provenance = .untrusted
    · cases hap : call.isApproved <;> simp [hirr, hun, GateReason.block, GateReason.info]
    · cases hap : call.isApproved <;>
        simp [hirr, hun, GateReason.requireApproval, GateReason.info]
  · rw [if_neg hirr]
    simp [hirr]

theorem holds_irreversible : Holds (irreversibleReasons r call)
    ↔ Unapproved r call ∧ call.provenance = .trusted := by
  unfold irreversibleReasons Unapproved
  by_cases hirr : call.tool ∈ r.irreversibleTools
  · by_cases hun : call.provenance = .untrusted
    · cases hap : call.isApproved <;> simp [hirr, hun, GateReason.block, GateReason.info]
    · have htr := trusted_of_ne hun
      cases hap : call.isApproved <;>
        simp [hirr, htr, GateReason.requireApproval, GateReason.info]
  · rw [if_neg hirr]
    simp [hirr]

/-- **The invariants block** for one of the first five families, or because an irreversible tool
is called without trust and without an approval. -/
theorem blocks_evaluateInvariants : Blocks (evaluateInvariants r call)
    ↔ BlockedAnyway r call ∨ (Unapproved r call ∧ call.provenance = .untrusted) := by
  simp only [evaluateInvariants, blocks_sortDedup, blocks_append, blocks_allowlist, blocks_scope,
    blocks_selfModification, blocks_traversal, blocks_egress, blocks_irreversible, BlockedAnyway,
    or_assoc]

/-- **The invariants ask for a review.** -/
theorem holds_evaluateInvariants : Holds (evaluateInvariants r call)
    ↔ EgressReview r call ∨ (Unapproved r call ∧ call.provenance = .trusted) := by
  simp only [evaluateInvariants, holds_sortDedup, holds_append, not_holds_allowlist,
    not_holds_scope, not_holds_selfModification, not_holds_traversal, holds_egress,
    holds_irreversible, false_or]

end Families

/-! ## Policies -/

/-- The policies allow the call. -/
def PolicyAllows (engine : RegoEngine) (r : GateRuleSet) (call : ToolCall)
    (policy : PolicyBundle) : Prop :=
  ∃ p, policy.evaluate engine (policyContext r call) = .ok p ∧ p.allowed = true

theorem blocks_policyReasons {p : PolicyDecision} :
    Blocks (policyReasons p) ↔ p.allowed = false := by
  unfold policyReasons
  cases hp : p.allowed with
  | true => simp
  | false => by_cases hd : p.denies = [] <;> simp [hd, GateReason.block]

theorem not_holds_policyReasons {p : PolicyDecision} : ¬Holds (policyReasons p) := by
  unfold policyReasons
  cases hp : p.allowed with
  | true => simp
  | false => by_cases hd : p.denies = [] <;> simp [hd, GateReason.block]

/-- A call is allowed when no invariant trips and the policies allow it. -/
theorem outcomeOf_allow {r : GateRuleSet} {call : ToolCall} {p : PolicyDecision} :
    (outcomeOf r call p).decision = .allow
      ↔ ¬Blocks (evaluateInvariants r call) ∧ ¬Holds (evaluateInvariants r call)
        ∧ p.allowed = true := by
  unfold outcomeOf
  dsimp only
  rw [decide_eq_allow, blocks_sortDedup, holds_sortDedup, blocks_append, holds_append,
    blocks_policyReasons]
  have hno := @not_holds_policyReasons p
  cases p.allowed <;> simp [hno]

/-- Without policies the invariants decide. -/
theorem evaluate_empty (engine : RegoEngine) (r : GateRuleSet) (call : ToolCall) :
    ∃ outcome, evaluate engine r call .empty = .ok outcome
      ∧ outcome.decision = GateDecision.decide (evaluateInvariants r call) := by
  refine ⟨_, rfl, ?_⟩
  have hblock : Blocks (sortDedup GateReason.le (evaluateInvariants r call ++ []))
      ↔ Blocks (evaluateInvariants r call) := by simp
  have hhold : Holds (sortDedup GateReason.le (evaluateInvariants r call ++ []))
      ↔ Holds (evaluateInvariants r call) := by simp
  cases hd : GateDecision.decide (evaluateInvariants r call) with
  | allow =>
      obtain ⟨hnb, hnh⟩ := decide_eq_allow.mp hd
      exact decide_eq_allow.mpr ⟨mt hblock.mp hnb, mt hhold.mp hnh⟩
  | block => exact decide_eq_block.mpr (hblock.mpr (decide_eq_block.mp hd))
  | requireHumanApproval =>
      obtain ⟨hnb, hh⟩ := decide_eq_review.mp hd
      exact decide_eq_review.mpr ⟨mt hblock.mp hnb, hhold.mpr hh⟩

/-! ## The floor -/

/-- Allow, then review, then block. -/
def GateDecision.severity : GateDecision → Nat
  | .allow => 0
  | .requireHumanApproval => 1
  | .block => 2

/-- Reasons that block where others block, and hold where others hold, decide no less severely. -/
theorem severity_mono {xs ys : List GateReason} (hblock : Blocks xs → Blocks ys)
    (hhold : Holds xs → Blocks ys ∨ Holds ys) :
    (GateDecision.decide xs).severity ≤ (GateDecision.decide ys).severity := by
  by_cases hb : Blocks ys
  · rw [decide_eq_block.mpr hb]
    cases GateDecision.decide xs <;> simp [GateDecision.severity]
  · have hxb : ¬Blocks xs := fun h => hb (hblock h)
    by_cases hh : Holds xs
    · have hyh : Holds ys := (hhold hh).resolve_left hb
      rw [decide_eq_review.mpr ⟨hxb, hh⟩, decide_eq_review.mpr ⟨hb, hyh⟩]
    · rw [decide_eq_allow.mpr ⟨hxb, hh⟩]
      exact Nat.zero_le _

theorem mem_selfMutation_or_candidatePaths {rules : GateRuleSet} (hfloor : rules.AboveFloor)
    {call : ToolCall} {path : String} (h : path ∈ call.candidatePaths .default) :
    path ∈ call.candidatePaths rules := by
  unfold ToolCall.candidatePaths at h ⊢
  by_cases hscan : call.tool ∈ GateRuleSet.default.effectfulWriteTools
      ∨ call.tool ∈ GateRuleSet.default.selfMutationTools
  · rw [if_pos hscan] at h
    have hscan' : call.tool ∈ rules.effectfulWriteTools ∨ call.tool ∈ rules.selfMutationTools :=
      hscan.imp (hfloor.effectfulWrite _) (hfloor.selfMutation _)
    rw [if_pos hscan']
    exact h
  · rw [if_neg hscan] at h
    by_cases hscan' : call.tool ∈ rules.effectfulWriteTools ∨ call.tool ∈ rules.selfMutationTools
    · -- The rules made the tool one that writes: all texts are scanned.
      rw [if_pos hscan']
      exact underKeys_subset _ _ _ h
    · rw [if_neg hscan']
      exact h

/-- Without approved recipients everything is external. -/
theorem anyExternal_of_approved_nil {rules : GateRuleSet} (hnil : rules.approvedRecipients = [])
    (call : ToolCall) : anyExternal rules call = true := by
  have hno : ∀ d, isApproved d rules = false := by
    intro d
    simp [isApproved, domainApproved, hnil]
  have hall : externalDestinations rules call = call.resolvedDestinations := by
    unfold externalDestinations
    exact List.filter_eq_self.mpr fun d _ => by rw [hno d]; rfl
  unfold anyExternal
  rw [hall]
  by_cases hd : call.resolvedDestinations = [] <;> simp [hd]

section Floor

variable {rules : GateRuleSet} (hfloor : rules.AboveFloor)

include hfloor

theorem selfModifies_of_default {call : ToolCall} (h : SelfModifies .default call) :
    SelfModifies rules call := by
  rcases h with h | ⟨path, hpath, hmatch⟩
  · exact Or.inl (hfloor.selfMutation _ h)
  · exact Or.inr ⟨path, mem_selfMutation_or_candidatePaths hfloor hpath,
      matchesProtected_mono hfloor.protectedPaths hmatch⟩

theorem escapes_of_default {call : ToolCall} (h : Escapes .default call) : Escapes rules call := by
  obtain ⟨path, hpath, hescapes⟩ := h
  exact ⟨path, mem_selfMutation_or_candidatePaths hfloor hpath, hescapes⟩

theorem unapproved_of_default {call : ToolCall} (h : Unapproved .default call) :
    Unapproved rules call :=
  ⟨hfloor.irreversible _ h.1, h.2⟩

theorem egress_of_default (hnil : rules.approvedRecipients = []) {call : ToolCall}
    (h : Egress .default call) : Egress rules call :=
  ⟨hfloor.externalSinks _ h.1, anyExternal_of_approved_nil hnil call⟩

/-- What the built-in rules block is blocked under rules above the floor. -/
theorem blocks_of_default (hnil : rules.approvedRecipients = []) {call : ToolCall}
    (h : Blocks (evaluateInvariants .default call)) : Blocks (evaluateInvariants rules call) := by
  rw [blocks_evaluateInvariants] at h ⊢
  rcases h with (hforbidden | hscope | hself | hescapes | ⟨hegress, hwhy⟩) | ⟨hirr, hun⟩
  · -- The built-in rules have no allowlist and no scopes.
    exact absurd hforbidden.1 (by decide)
  · obtain ⟨allowed, hlook, -⟩ := hscope
    cases hlook
  · exact Or.inl (Or.inr (Or.inr (Or.inl (selfModifies_of_default hfloor hself))))
  · exact Or.inl (Or.inr (Or.inr (Or.inr (Or.inl (escapes_of_default hfloor hescapes)))))
  · exact Or.inl (Or.inr (Or.inr (Or.inr (Or.inr ⟨egress_of_default hfloor hnil hegress, hwhy⟩))))
  · exact Or.inr ⟨unapproved_of_default hfloor hirr, hun⟩

/-- What the built-in rules hold is held under rules above the floor. -/
theorem holds_of_default (hnil : rules.approvedRecipients = []) {call : ToolCall}
    (h : Holds (evaluateInvariants .default call)) : Holds (evaluateInvariants rules call) := by
  rw [holds_evaluateInvariants] at h ⊢
  rcases h with ⟨hegress, hwhy⟩ | ⟨hirr, htr⟩
  · exact Or.inl ⟨egress_of_default hfloor hnil hegress, hwhy⟩
  · exact Or.inr ⟨unapproved_of_default hfloor hirr, htr⟩

end Floor

/-- What holds or blocks a trusted call blocks it when it is not trusted. -/
theorem blocks_untrusted {r : GateRuleSet} {call : ToolCall}
    (h : Blocks (evaluateInvariants r { call with provenance := .trusted })
      ∨ Holds (evaluateInvariants r { call with provenance := .trusted })) :
    Blocks (evaluateInvariants r { call with provenance := .untrusted }) := by
  rw [blocks_evaluateInvariants, holds_evaluateInvariants] at h
  rw [blocks_evaluateInvariants]
  rcases h with ((hforbidden | hscope | hself | hescapes | ⟨hegress, -⟩) | ⟨-, hun⟩)
    | (⟨hegress, -⟩ | ⟨hirr, -⟩)
  · exact Or.inl (Or.inl hforbidden)
  · exact Or.inl (Or.inr (Or.inl hscope))
  · exact Or.inl (Or.inr (Or.inr (Or.inl hself)))
  · exact Or.inl (Or.inr (Or.inr (Or.inr (Or.inl hescapes))))
  · exact Or.inl (Or.inr (Or.inr (Or.inr (Or.inr ⟨hegress, Or.inr rfl⟩))))
  · cases hun
  · exact Or.inl (Or.inr (Or.inr (Or.inr (Or.inr ⟨hegress, Or.inr rfl⟩))))
  · exact Or.inr ⟨hirr, rfl⟩

/-- **No gate file weakens the floor, and distrust never helps.** -/
theorem floor_and_distrust :
    (∀ (parse : String → Option Value) (text : String) (rules : GateRuleSet),
      GateRuleSet.fromJson parse text = some rules → rules.approvedRecipients = [] →
      ∀ call : ToolCall,
        (GateDecision.decide (evaluateInvariants .default call)).severity
          ≤ (GateDecision.decide (evaluateInvariants rules call)).severity)
    ∧ ∀ (rules : GateRuleSet) (call : ToolCall),
        (GateDecision.decide
            (evaluateInvariants rules { call with provenance := .trusted })).severity
          ≤ (GateDecision.decide
              (evaluateInvariants rules { call with provenance := .untrusted })).severity := by
  refine ⟨?_, ?_⟩
  · intro parse text rules hparse hnil call
    have hfloor := GateRuleSet.fromJson_aboveFloor hparse
    exact severity_mono (blocks_of_default hfloor hnil)
      fun h => Or.inr (holds_of_default hfloor hnil h)
  · intro rules call
    exact severity_mono (fun h => blocks_untrusted (Or.inl h))
      fun h => Or.inl (blocks_untrusted (Or.inr h))

/-- A gate file that makes `read_file` a tool that writes. -/
theorem floor_and_distrust_readFile :
    ∃ (parse : String → Option Value) (text : String) (rules : GateRuleSet),
      GateRuleSet.fromJson parse text = some rules ∧ rules.approvedRecipients = []
      ∧ ∀ call : ToolCall,
        (GateDecision.decide (evaluateInvariants .default call)).severity
          ≤ (GateDecision.decide (evaluateInvariants rules call)).severity :=
  let parse : String → Option Value := fun _ =>
    some (.object [("effectful_write_tools", .array [.string "read_file"])])
  ⟨parse, "\x7b\"effectful_write_tools\":[\"read_file\"]\x7d", _, rfl, rfl,
    floor_and_distrust.1 parse "\x7b\"effectful_write_tools\":[\"read_file\"]\x7d" _ rfl rfl⟩

end Agenomic.Gate
