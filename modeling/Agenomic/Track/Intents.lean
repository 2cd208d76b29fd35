import Agenomic.Track.Loops

/-!
# Intent violations

An event has an intent, named by it or guessed by the provider, and an intent may violate the
configuration in six ways. The tracker raises a violation under a key that joins its names,
and never raises a key again. An alert tells its violation whatever the names are
(`AlertFor.unique`); a key tells its kind only (`kind_eq_of_key_eq`).

One intent shows at most one violation of each kind, so what the checks come to is an alert
for each of its violations whose key is new (`raiseEach_eq`, `raises_observeIntent`).
-/

namespace Agenomic.Track

open Lib Prompt

/-! ## Violations -/

/-- The intent that an event names. -/
def named (ev : TrackingEvent) : Option String :=
  if ev.eventType = .intentDetected then ev.intent.filter fun i => !isBlank i else none

/-- The intent that was named last. -/
def namedLast (evs : List TrackingEvent) : Option String := (evs.filterMap named).getLast?

/-- The intent of an event: named, or else guessed from an event that is to name none. -/
def intentOf (provider : TrackingEvent → Option IntentClassification) (ev : TrackingEvent) :
    Option (String × Confidence) :=
  match named ev with
  | some i => some (i, ⟨1, "1.0"⟩)
  | none =>
      if ev.eventType = .intentDetected then none
      else (provider ev).map fun c => (c.intent, c.confidence)

/-- A violation by its issue and its parts. -/
inductive Violation where
  | forbidden (intent : String)
  | notAllowed (intent : String)
  | escalation (intent : String)
  | step (step intent : String)
  | permission (intent tool : String)
  | shift (prev intent : String)
  deriving DecidableEq, Repr

/-- The name has a grant, and this is not in it. -/
def OutsideGrant (grants : List (String × List String)) (name x : String) : Prop :=
  ∃ grant, grants.lookup name = some grant ∧ x ∉ grant

/-- What an event shows after others. -/
def Shows (config : IntentConfig) (provider : TrackingEvent → Option IntentClassification)
    (past : List TrackingEvent) (ev : TrackingEvent) : Violation → Prop
  | .forbidden i => (∃ conf, intentOf provider ev = some (i, conf)) ∧ i ∈ config.forbiddenIntents
  | .notAllowed i =>
      (∃ conf, intentOf provider ev = some (i, conf) ∧ 1 / 2 ≤ conf.value)
        ∧ config.allowedIntents ≠ [] ∧ i ∉ config.allowedIntents ∧ i ∉ config.forbiddenIntents
  | .escalation i =>
      (∃ conf, intentOf provider ev = some (i, conf)) ∧ i ∈ config.escalationIntents
  | .step s i =>
      (∃ conf, intentOf provider ev = some (i, conf)) ∧ ev.workflowStepId = some s
        ∧ OutsideGrant config.stepIntents s i
  | .permission i t =>
      (∃ conf, intentOf provider ev = some (i, conf)) ∧ ev.tool.map (·.name) = some t
        ∧ OutsideGrant config.intentTools i t
  | .shift p i => named ev = some i ∧ namedLast past = some p ∧ p ≠ i

/-- What an event shows, when an intent outside the allowed set counts as such even where it
is forbidden. -/
def ShowsOutside (config : IntentConfig)
    (provider : TrackingEvent → Option IntentClassification) (past : List TrackingEvent)
    (ev : TrackingEvent) : Violation → Prop
  | .notAllowed i =>
      (∃ conf, intentOf provider ev = some (i, conf) ∧ 1 / 2 ≤ conf.value)
        ∧ config.allowedIntents ≠ [] ∧ i ∉ config.allowedIntents
  | v => Shows config provider past ev v

/-- The kinds of violations. -/
inductive ViolationKind where
  | forbidden
  | notAllowed
  | escalation
  | step
  | permission
  | shift
  deriving DecidableEq, Repr

namespace ViolationKind

def issue : ViolationKind → IntentIssue
  | .forbidden => .forbiddenIntent
  | .notAllowed => .intentShift
  | .escalation => .escalationRequired
  | .step => .stepMismatch
  | .permission => .permissionMismatch
  | .shift => .intentShift

def severity : ViolationKind → AlertSeverity
  | .forbidden => .critical
  | .shift => .info
  | _ => .warning

def blocks : ViolationKind → Bool
  | .forbidden => true
  | _ => false

def review : ViolationKind → Bool
  | .step => false
  | .shift => false
  | _ => true

/-- What the keys of a kind start with. -/
def tag : ViolationKind → String
  | .forbidden => "forbidden:"
  | .notAllowed => "not_allowed:"
  | .escalation => "escalate:"
  | .step => "step:"
  | .permission => "perm:"
  | .shift => "shift:"

/-- The title and the severity of an alert tell the kind. -/
theorem eq_of_issue_severity {k l : ViolationKind} :
    k.issue.label = l.issue.label → k.severity = l.severity → k = l := by
  cases k <;> cases l <;> decide

theorem tag_apart {k l : ViolationKind} : k ≠ l → Apart k.tag l.tag := by
  cases k <;> cases l <;> decide

theorem tag_apart_unclear (k : ViolationKind) : Apart k.tag "unclear:" := by
  cases k <;> decide

end ViolationKind

namespace Violation

def kind : Violation → ViolationKind
  | .forbidden _ => .forbidden
  | .notAllowed _ => .notAllowed
  | .escalation _ => .escalation
  | .step _ _ => .step
  | .permission _ _ => .permission
  | .shift _ _ => .shift

def message : Violation → String
  | .forbidden i => "Observed forbidden intent '" ++ i ++ "'."
  | .notAllowed i => "Observed intent '" ++ i ++ "' is outside the declared allowed set."
  | .escalation i => "Intent '" ++ i ++ "' requires human escalation."
  | .step s i => "Intent '" ++ i ++ "' does not match step '" ++ s ++ "' objective."
  | .permission i t => "Intent '" ++ i ++ "' used tool '" ++ t ++ "' outside its grant."
  | .shift p i => "Agent intent shifted from '" ++ p ++ "' to '" ++ i ++ "'."

def observed : Violation → Value
  | .forbidden i => .string i
  | .notAllowed i => .string i
  | .escalation i => .string i
  | .step _ i => .string i
  | .permission _ t => .string t
  | .shift _ i => .string i

def expected (config : IntentConfig) : Violation → Value
  | .forbidden _ => textValues config.forbiddenIntents
  | .notAllowed _ => textValues config.allowedIntents
  | .escalation _ => textValues config.escalationIntents
  | .step s _ => textValues ((config.stepIntents.lookup s).getD [])
  | .permission i _ => textValues ((config.intentTools.lookup i).getD [])
  | .shift p _ => .string p

/-- The names of a violation, joined. -/
def names : Violation → String
  | .forbidden i => i
  | .notAllowed i => i
  | .escalation i => i
  | .step s i => s ++ ":" ++ i
  | .permission i t => i ++ ":" ++ t
  | .shift p i => p ++ "->" ++ i

/-- What the tracker remembers a violation by. -/
def key (v : Violation) : String := v.kind.tag ++ v.names

/-- The alert is about the violation. -/
def AlertFor (v : Violation) (b : AlertBody) : Prop :=
  b.title = "Intent issue: " ++ v.kind.issue.label ∧ b.severity = v.kind.severity
    ∧ b.message = v.message ∧ b.observed = some v.observed

instance (v : Violation) (b : AlertBody) : Decidable (AlertFor v b) :=
  inferInstanceAs (Decidable (_ ∧ _))

/-- **An alert is about one violation, whatever the names are.** -/
theorem AlertFor.unique {v w : Violation} {b : AlertBody} (hv : AlertFor v b)
    (hw : AlertFor w b) : v = w := by
  obtain ⟨htitle, hseverity, hmessage, hobserved⟩ := hv
  have hkind : v.kind = w.kind := ViolationKind.eq_of_issue_severity
    ((String.append_right_inj _).mp (htitle.symm.trans hw.1)) (hseverity.symm.trans hw.2.1)
  have htext : v.message = w.message := hmessage.symm.trans hw.2.2.1
  have hvalue : v.observed = w.observed := Option.some.inj (hobserved.symm.trans hw.2.2.2)
  cases v <;> cases w <;> first | (cases hkind; done) | skip
  case forbidden i j => exact congrArg forbidden (Value.string.inj hvalue)
  case notAllowed i j => exact congrArg notAllowed (Value.string.inj hvalue)
  case escalation i j => exact congrArg escalation (Value.string.inj hvalue)
  case step s i s' i' =>
      have hi : i = i' := Value.string.inj hvalue
      subst hi
      have hs : s = s' := (String.append_right_inj _).mp ((String.append_left_inj _).mp htext)
      exact congrArg (step · i) hs
  case permission i t i' t' =>
      have ht : t = t' := Value.string.inj hvalue
      subst ht
      have hi : i = i' := (String.append_right_inj _).mp ((String.append_left_inj _).mp
        ((String.append_left_inj _).mp ((String.append_left_inj _).mp htext)))
      exact congrArg (permission · t) hi
  case shift p i p' i' =>
      have hi : i = i' := Value.string.inj hvalue
      subst hi
      have hp : p = p' := (String.append_right_inj _).mp ((String.append_left_inj _).mp
        ((String.append_left_inj _).mp ((String.append_left_inj _).mp htext)))
      exact congrArg (shift · i) hp

theorem key_step (s i : String) : (step s i).key = "step:" ++ s ++ ":" ++ i := by
  simp only [key, kind, names, ViolationKind.tag, String.append_assoc]

theorem key_permission (i t : String) : (permission i t).key = "perm:" ++ i ++ ":" ++ t := by
  simp only [key, kind, names, ViolationKind.tag, String.append_assoc]

theorem key_shift (p i : String) : (shift p i).key = "shift:" ++ p ++ "->" ++ i := by
  simp only [key, kind, names, ViolationKind.tag, String.append_assoc]

theorem kind_eq_of_key_eq {v w : Violation} (h : v.key = w.key) : v.kind = w.kind := by
  by_contra hkind
  exact (ViolationKind.tag_apart hkind).append_ne _ _ h

theorem key_ne_unclear (v : Violation) (eid : String) : v.key ≠ "unclear:" ++ eid :=
  (ViolationKind.tag_apart_unclear v.kind).append_ne _ _

end Violation

/-! ## What the checks raise -/

section Checks

variable (config : IntentConfig) (ev : TrackingEvent) (i : String) (conf : Confidence)

def stepViolations : List Violation :=
  match ev.workflowStepId with
  | none => []
  | some s =>
      match config.stepIntents.lookup s with
      | none => []
      | some allowed => if i ∉ allowed then [.step s i] else []

def toolViolations : List Violation :=
  match ev.tool with
  | none => []
  | some tool =>
      match config.intentTools.lookup i with
      | none => []
      | some grant => if tool.name ∉ grant then [.permission i tool.name] else []

def shiftViolations (last : Option String) : List Violation :=
  match last with
  | none => []
  | some prev => if prev ≠ i then [.shift prev i] else []

/-- The violations of an intent, in the order of the checks. -/
def violationsOf (last : Option String) (explicit : Bool) : List Violation :=
  (if i ∈ config.forbiddenIntents then [.forbidden i] else []) ++
    ((if 1 / 2 ≤ conf.value ∧ config.allowedIntents ≠ [] ∧ i ∉ config.allowedIntents
        ∧ i ∉ config.forbiddenIntents then [.notAllowed i] else []) ++
      ((if i ∈ config.escalationIntents then [.escalation i] else []) ++
        (stepViolations config ev i ++
          (toolViolations config ev i ++
            if explicit = true then shiftViolations i last else []))))

variable {config ev i conf} {v : Violation} {last : Option String} {explicit : Bool}

theorem mem_stepViolations : v ∈ stepViolations config ev i ↔
    ∃ s, v = .step s i ∧ ev.workflowStepId = some s ∧ OutsideGrant config.stepIntents s i := by
  unfold stepViolations OutsideGrant
  cases ev.workflowStepId with
  | none => simp
  | some s =>
      dsimp only
      cases hgrant : config.stepIntents.lookup s with
      | none => simp [hgrant]
      | some allowed => by_cases hin : i ∈ allowed <;> simp [hin, hgrant]

theorem mem_toolViolations : v ∈ toolViolations config ev i ↔
    ∃ t, v = .permission i t ∧ ev.tool.map (·.name) = some t
      ∧ OutsideGrant config.intentTools i t := by
  unfold toolViolations OutsideGrant
  cases ev.tool with
  | none => simp
  | some tool =>
      dsimp only
      cases hgrant : config.intentTools.lookup i with
      | none => simp
      | some grant => by_cases hin : tool.name ∈ grant <;> simp [hin]

theorem mem_shiftViolations : v ∈ shiftViolations i last ↔
    ∃ p, v = .shift p i ∧ last = some p ∧ p ≠ i := by
  unfold shiftViolations
  cases last with
  | none => simp
  | some prev => by_cases heq : prev = i <;> simp_all

theorem mem_ite_singleton {p : Prop} [Decidable p] {w : Violation} :
    v ∈ (if p then [w] else []) ↔ v = w ∧ p := by
  by_cases hp : p <;> simp [hp]

variable (config ev i conf) in
/-- The kinds of what one intent shows are among the six, in their order. -/
theorem map_kind_violationsOf (last : Option String) (explicit : Bool) :
    ((violationsOf config ev i conf last explicit).map Violation.kind).Sublist
      [.forbidden, .notAllowed, .escalation, .step, .permission, .shift] := by
  have hif : ∀ (p : Prop) [Decidable p] (w : Violation),
      (((if p then [w] else []) : List Violation).map Violation.kind).Sublist [w.kind] := by
    intro p _ w
    by_cases hp : p <;> simp [hp]
  have hstep : ((stepViolations config ev i).map Violation.kind).Sublist [.step] := by
    unfold stepViolations
    split
    · simp
    split
    · simp
    exact hif _ _
  have htool : ((toolViolations config ev i).map Violation.kind).Sublist [.permission] := by
    unfold toolViolations
    split
    · simp
    split
    · simp
    exact hif _ _
  have hshift : ((if explicit = true then shiftViolations i last else []).map
      Violation.kind).Sublist [.shift] := by
    unfold shiftViolations
    split
    · split
      · simp
      exact hif _ _
    · simp
  unfold violationsOf
  simp only [List.map_append]
  exact (hif _ (.forbidden i)).append ((hif _ (.notAllowed i)).append
    ((hif _ (.escalation i)).append (hstep.append (htool.append hshift))))

variable (config ev i conf) in
/-- One intent shows at most one violation of a key. -/
theorem nodup_key_violationsOf (last : Option String) (explicit : Bool) :
    ((violationsOf config ev i conf last explicit).map Violation.key).Nodup := by
  have hkinds := (map_kind_violationsOf config ev i conf last explicit).nodup (by decide)
  refine List.pairwise_map.mpr ((List.pairwise_map.mp hkinds).imp ?_)
  intro v w hkind hkey
  exact hkind (Violation.kind_eq_of_key_eq hkey)

/-- What an event shows, listed. -/
def violationsAt (config : IntentConfig)
    (provider : TrackingEvent → Option IntentClassification) (past : List TrackingEvent)
    (ev : TrackingEvent) : List Violation :=
  match intentOf provider ev with
  | none => []
  | some (i, conf) => violationsOf config ev i conf (namedLast past) (named ev).isSome

theorem mem_violationsAt {provider : TrackingEvent → Option IntentClassification}
    {past : List TrackingEvent} :
    v ∈ violationsAt config provider past ev ↔ Shows config provider past ev v := by
  unfold violationsAt
  cases hintent : intentOf provider ev with
  | none =>
      have hname : named ev = none := by
        unfold intentOf at hintent
        cases hev : named ev with
        | none => rfl
        | some j => rw [hev] at hintent; cases hintent
      cases v <;> simp [Shows, hintent, hname]
  | some c =>
  obtain ⟨i, conf⟩ := c
  have hname : ∀ j, named ev = some j → j = i := by
    intro j hj
    unfold intentOf at hintent
    rw [hj] at hintent
    exact congrArg Prod.fst (Option.some.inj hintent)
  have hshift : v ∈ (if (named ev).isSome = true then shiftViolations i (namedLast past) else [])
      ↔ named ev = some i ∧ ∃ p, v = .shift p i ∧ namedLast past = some p ∧ p ≠ i := by
    cases hev : named ev with
    | none => simp
    | some j =>
        have := hname j hev
        subst this
        simp [mem_shiftViolations]
  unfold violationsOf
  simp only [List.mem_append, mem_ite_singleton, mem_stepViolations, mem_toolViolations, hshift]
  cases v <;> simp [Shows, hintent] <;> grind

end Checks

namespace IntentTracker

/-- The alert for a violation. -/
def alertBody (sessionId : String) (config : IntentConfig) (conf : Confidence) (eid : String)
    (v : Violation) : AlertBody where
  sessionId
  kind := .intent
  severity := v.kind.severity
  title := "Intent issue: " ++ v.kind.issue.label
  message := v.message
  observed := some v.observed
  expected := some (v.expected config)
  evidenceEventIds := [eid]
  recommendedAction := some v.kind.issue.action
  blocksRelease := v.kind.blocks
  requiresHumanReview := v.kind.review
  details := some
    (.object [("intent_issue", .string v.kind.issue.label),
      ("expected_intent", v.expected config), ("observed_intent", v.observed),
      ("confidence", .number (.float conf.value conf.text))])

theorem alertFor_alertBody {sessionId : String} {config : IntentConfig} {conf : Confidence}
    {eid : String} {v w : Violation} :
    v.AlertFor (alertBody sessionId config conf eid w) ↔ v = w := by
  have hself : w.AlertFor (alertBody sessionId config conf eid w) := ⟨rfl, rfl, rfl, rfl⟩
  constructor
  · intro hv
    exact hv.unique hself
  · intro heq
    exact heq ▸ hself

section Raising

variable (config : IntentConfig) (conf : Confidence) (eid : String)

def raiseFor (v : Violation) : Watch IntentTracker :=
  raise v.key v.kind.issue v.kind.severity v.message (v.expected config) v.observed conf eid
    v.kind.blocks v.kind.review

def raiseEach : List Violation → Watch IntentTracker
  | [] => .skip
  | v :: rest => .seq (raiseFor config conf eid v) (raiseEach rest)

variable {config conf eid}

theorem raiseEach_cons (v : Violation) (rest : List Violation) :
    raiseEach config conf eid (v :: rest) =
      .seq (raiseFor config conf eid v) (raiseEach config conf eid rest) := rfl

theorem raiseFor_eq (v : Violation) (t : IntentTracker) :
    raiseFor config conf eid v t =
      if v.key ∈ t.alerted then (t, [])
      else ({ t with alerted := v.key :: t.alerted },
        [alertBody t.sessionId config conf eid v]) := by
  unfold raiseFor raise raiseOnce
  dsimp only
  by_cases hkey : v.key ∈ t.alerted
  · rw [if_pos hkey, if_pos hkey]
  · rw [if_neg hkey, if_neg hkey]
    rfl

variable (config conf eid) in
/-- Raising changes the keys only. -/
theorem raiseEach_kept : ∀ (vs : List Violation) (t : IntentTracker),
    (raiseEach config conf eid vs t).1.sessionId = t.sessionId
      ∧ (raiseEach config conf eid vs t).1.config = t.config
      ∧ (raiseEach config conf eid vs t).1.provider = t.provider
      ∧ (raiseEach config conf eid vs t).1.currentIntent = t.currentIntent
  | [], _ => ⟨rfl, rfl, rfl, rfl⟩
  | v :: rest, t => by
      rw [raiseEach_cons]
      dsimp only [Watch.seq]
      rw [raiseFor_eq]
      by_cases hkey : v.key ∈ t.alerted
      · rw [if_pos hkey]
        exact raiseEach_kept rest t
      · rw [if_neg hkey]
        exact raiseEach_kept rest { t with alerted := v.key :: t.alerted }

theorem raiseEach_append (xs ys : List Violation) (t : IntentTracker) :
    raiseEach config conf eid (xs ++ ys) t =
      Watch.seq (raiseEach config conf eid xs) (raiseEach config conf eid ys) t := by
  induction xs generalizing t with
  | nil => rfl
  | cons v rest ih =>
      rw [List.cons_append, raiseEach_cons, raiseEach_cons]
      dsimp only [Watch.seq]
      rw [ih]
      dsimp only [Watch.seq]
      rw [List.append_assoc]

variable (config conf eid) in
/-- **What raising violations of different keys comes to**: an alert for each whose key is
new, and all the keys are remembered. -/
theorem raiseEach_eq : ∀ (vs : List Violation) (t : IntentTracker),
    (vs.map Violation.key).Nodup →
    (raiseEach config conf eid vs t).2 =
        (vs.filter (fun v => v.key ∉ t.alerted)).map (alertBody t.sessionId config conf eid)
      ∧ ∀ k, k ∈ (raiseEach config conf eid vs t).1.alerted ↔
        k ∈ t.alerted ∨ k ∈ vs.map Violation.key
  | [], t, _ => ⟨rfl, fun k => by simp [raiseEach, Watch.skip]⟩
  | v :: rest, t, hnodup => by
      rw [List.map_cons, List.nodup_cons] at hnodup
      unfold raiseEach Watch.seq
      dsimp only
      rw [raiseFor_eq]
      by_cases hkey : v.key ∈ t.alerted
      · rw [if_pos hkey]
        obtain ⟨hbodies, hkeys⟩ := raiseEach_eq rest t hnodup.2
        refine ⟨?_, fun k => ?_⟩
        · rw [List.filter_cons_of_neg (by simpa using hkey)]
          exact hbodies
        · rw [hkeys k, List.map_cons, List.mem_cons]
          constructor
          · rintro (h | h)
            · exact Or.inl h
            · exact Or.inr (Or.inr h)
          · rintro (h | rfl | h)
            · exact Or.inl h
            · exact Or.inl hkey
            · exact Or.inr h
      · rw [if_neg hkey]
        obtain ⟨hbodies, hkeys⟩ :=
          raiseEach_eq rest { t with alerted := v.key :: t.alerted } hnodup.2
        refine ⟨?_, fun k => ?_⟩
        · rw [List.filter_cons_of_pos (by simpa using hkey), List.map_cons]
          dsimp only at hbodies ⊢
          rw [hbodies]
          -- the keys of the rest are not this one
          have hsame : rest.filter (fun w => w.key ∉ v.key :: t.alerted) =
              rest.filter (fun w => w.key ∉ t.alerted) := by
            refine List.filter_congr fun w hw => ?_
            have hne : w.key ≠ v.key := fun heq =>
              hnodup.1 (heq ▸ List.mem_map_of_mem hw)
            simp [hne]
          rw [hsame]
          rfl
        · rw [hkeys k, List.map_cons, List.mem_cons, List.mem_cons]
          constructor
          · rintro ((h | h) | h)
            · exact Or.inr (Or.inl h)
            · exact Or.inl h
            · exact Or.inr (Or.inr h)
          · rintro (h | h | h)
            · exact Or.inl (Or.inr h)
            · exact Or.inl (Or.inl h)
            · exact Or.inr h

/-! ## The checks of one intent -/

/-- With this configuration and the intent named last, the step raises these violations and
leaves `next` as the intent named last. -/
def Raises (config : IntentConfig) (conf : Confidence) (eid : String)
    (last next : Option String) (vs : List Violation) (f : Watch IntentTracker) : Prop :=
  ∀ t : IntentTracker, t.config = config → t.currentIntent = last →
    f t = ({ (raiseEach config conf eid vs t).1 with currentIntent := next },
      (raiseEach config conf eid vs t).2)

variable {last next : Option String} {f g : Watch IntentTracker} {vs ws : List Violation}

theorem raises_skip : Raises config conf eid last last [] .skip := by
  intro t _ hlast
  subst hlast
  rfl

theorem raises_each : Raises config conf eid last last vs (raiseEach config conf eid vs) := by
  intro t _ hlast
  have hkept := (raiseEach_kept config conf eid vs t).2.2.2
  rw [← hlast, ← hkept]

variable (config conf eid last) in
theorem raises_one (v : Violation) :
    Raises config conf eid last last [v] (raiseFor config conf eid v) := by
  intro t hconfig hlast
  rw [← raises_each t hconfig hlast]
  show _ = ((raiseFor config conf eid v t).1, (raiseFor config conf eid v t).2 ++ [])
  rw [List.append_nil]

theorem raises_seq (hf : Raises config conf eid last last vs f)
    (hg : Raises config conf eid last next ws g) :
    Raises config conf eid last next (vs ++ ws) (.seq f g) := by
  intro t hconfig hlast
  have hfirst : f t = raiseEach config conf eid vs t := by
    rw [hf t hconfig hlast, ← raises_each t hconfig hlast]
  obtain ⟨-, hconfig', -, hlast'⟩ := raiseEach_kept config conf eid vs t
  rw [raiseEach_append]
  dsimp only [Watch.seq]
  rw [hfirst, hg _ (hconfig'.trans hconfig) (hlast'.trans hlast)]

theorem raises_when {p : Prop} [Decidable p] (hf : Raises config conf eid last last vs f) :
    Raises config conf eid last last (if p then vs else []) (.when p f) := by
  unfold Watch.when
  by_cases hp : p
  · rw [if_pos hp, if_pos hp]
    exact hf
  · rw [if_neg hp, if_neg hp]
    exact raises_skip

theorem raises_read {f : IntentTracker → Watch IntentTracker}
    (hf : ∀ t, t.config = config → t.currentIntent = last →
      Raises config conf eid last next vs (f t)) :
    Raises config conf eid last next vs (.read f) := fun t hconfig hlast =>
  hf t hconfig hlast t hconfig hlast

variable {ev : TrackingEvent} {i : String}

theorem raises_step : Raises config conf ev.eventId last last (stepViolations config ev i)
    (observeStep ev i conf) := by
  refine raises_read fun t hconfig _ => ?_
  subst hconfig
  unfold stepViolations
  cases ev.workflowStepId with
  | none => exact raises_skip
  | some s =>
      dsimp only
      cases hgrant : t.config.stepIntents.lookup s with
      | none => exact raises_skip
      | some allowed =>
          have hone := raises_one t.config conf ev.eventId last (.step s i)
          unfold raiseFor at hone
          rw [Violation.key_step, Violation.expected, hgrant] at hone
          exact raises_when hone

theorem raises_tool : Raises config conf ev.eventId last last (toolViolations config ev i)
    (observeTool ev i conf) := by
  refine raises_read fun t hconfig _ => ?_
  subst hconfig
  unfold toolViolations
  cases ev.tool with
  | none => exact raises_skip
  | some tool =>
      dsimp only
      cases hgrant : t.config.intentTools.lookup i with
      | none => exact raises_skip
      | some grant =>
          have hone := raises_one t.config conf ev.eventId last (.permission i tool.name)
          unfold raiseFor at hone
          rw [Violation.key_permission, Violation.expected, hgrant] at hone
          exact raises_when hone

/-- The check of a named intent is the one that moves on to it. -/
theorem raises_shift : Raises config conf eid last (some i) (shiftViolations i last)
    (observeShift i conf eid) := by
  have hcheck : Raises config conf eid last last (shiftViolations i last) (.read fun t =>
      match t.currentIntent with
      | none => .skip
      | some prev =>
          .when (prev ≠ i) <|
            raise ("shift:" ++ prev ++ "->" ++ i) .intentShift .info
              ("Agent intent shifted from '" ++ prev ++ "' to '" ++ i ++ "'.")
              (.string prev) (.string i) conf eid false false) := by
    refine raises_read fun t _ hlast => ?_
    rw [hlast]
    unfold shiftViolations
    cases last with
    | none => exact raises_skip
    | some prev =>
        have hone := raises_one config conf eid (some prev) (.shift prev i)
        unfold raiseFor at hone
        rw [Violation.key_shift] at hone
        exact raises_when hone
  have hmove : Raises config conf eid last (some i) []
      (.update fun t => { t with currentIntent := some i }) := fun _ _ _ => rfl
  have hboth := raises_seq hcheck hmove
  rwa [List.append_nil] at hboth

/-- **The checks of an intent raise its violations, in order.** -/
theorem raises_observeIntent {explicit : Bool} :
    Raises config conf ev.eventId last (if explicit = true then some i else last)
      (violationsOf config ev i conf last explicit) (observeIntent ev i conf explicit) := by
  have hforbidden : Raises config conf ev.eventId last last
      (if i ∈ config.forbiddenIntents then [.forbidden i] else [])
      (observeForbidden i conf ev.eventId) := by
    refine raises_read fun t hconfig _ => ?_
    subst hconfig
    exact raises_when (raises_one t.config conf ev.eventId last (.forbidden i))
  have hallowed : Raises config conf ev.eventId last last
      (if 1 / 2 ≤ conf.value ∧ config.allowedIntents ≠ [] ∧ i ∉ config.allowedIntents
        ∧ i ∉ config.forbiddenIntents then [.notAllowed i] else [])
      (observeAllowed i conf ev.eventId) := by
    refine raises_read fun t hconfig _ => ?_
    subst hconfig
    exact raises_when (raises_one t.config conf ev.eventId last (.notAllowed i))
  have hescalation : Raises config conf ev.eventId last last
      (if i ∈ config.escalationIntents then [.escalation i] else [])
      (observeEscalation i conf ev.eventId) := by
    refine raises_read fun t hconfig _ => ?_
    subst hconfig
    exact raises_when (raises_one t.config conf ev.eventId last (.escalation i))
  have hshift : Raises config conf ev.eventId last (if explicit = true then some i else last)
      (if explicit = true then shiftViolations i last else [])
      (.when (explicit = true) (observeShift i conf ev.eventId)) := by
    cases explicit with
    | true => exact raises_shift
    | false => exact raises_skip
  exact raises_seq hforbidden (raises_seq hallowed (raises_seq hescalation
    (raises_seq raises_step (raises_seq raises_tool hshift))))

end Raising

end IntentTracker

end Agenomic.Track
