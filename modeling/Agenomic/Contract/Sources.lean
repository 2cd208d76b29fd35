import Agenomic.Contract.Decode
import Agenomic.Prompt.CanonicalText

/-!
# The two sources of traces

Two traces are alike when no check can tell them apart. An object that is accepted on a line has
a trace there and one in the store, and the two are alike unless the output is an integer that
becomes a text.

**`sourcesAgree_iff`**: the two sources lead to one verdict exactly when every line is accepted
and no output is such an integer.
-/

namespace Agenomic.Contract.Sources

open Lib
open Prompt (Members Number)
open Prompt.Value (lookup)

variable (x : JsonLines)

variable {d : Atep.Deps} (payloadOf : d.Value → Atep.Cbor) (ulid : List.Vector UInt8 16 → String)

/-! ## What the checks look at -/

/-- Two outputs are the same to every check. -/
inductive SameOutput : Option Value → Option Value → Prop
  | object {m m' : List (String × Value)} (keys : ∀ key, containsKey key m = containsKey key m')
      (policy : m.any mentionsPolicyIn = m'.any mentionsPolicyIn) :
      SameOutput (some (.object m)) (some (.object m'))
  | array (a b : List Value) : SameOutput (some (.array a)) (some (.array b))
  | string (s : String) : SameOutput (some (.string s)) (some (.string s))
  | scalar {a b : Option Value} (ha : a.all Value.isScalar = true) (hb : b.all Value.isScalar = true) :
      SameOutput a b

/-- Two traces are the same to every check. -/
structure Alike (t u : TraceEnvelope) : Prop where
  traceId : t.traceId = u.traceId
  output : SameOutput t.output u.output
  toolCalls : t.toolCalls = u.toolCalls
  approval : humanApproval t.metadata = humanApproval u.metadata

theorem scalar_cases {a : Option Value} (h : a.all Value.isScalar = true) :
    (∀ m, a ≠ some (.object m)) ∧ (∀ items, a ≠ some (.array items)) ∧ ∀ s, a ≠ some (.string s) := by
  refine ⟨fun m hm => ?_, fun items hm => ?_, fun s hm => ?_⟩
  · rw [hm] at h
    cases h
  · rw [hm] at h
    cases h
  · rw [hm] at h
    cases h

/-- A test of objects does not tell scalars apart. -/
theorem scalar_object {β : Type} {a : Option Value} (f : List (String × Value) → β) (z : β) :
    a.all Value.isScalar = true →
      (match a with
        | some (.object m) => f m
        | _ => z) = z := by
  intro ha
  split
  · exact absurd rfl ((scalar_cases ha).1 _)
  · rfl

theorem check_congr {id : String} {test : TraceEnvelope → ContractRule → Option String}
    {t u : TraceEnvelope} {rule : ContractRule} (h : test t rule = test u rule) :
    (check id test).evaluate t rule = (check id test).evaluate u rule := by
  unfold check
  dsimp only
  rw [h]

/-- **Every check** finds the same in traces that are alike. -/
theorem Alike.evaluate {t u : TraceEnvelope} (h : Alike t u) (isJson : String → Bool)
    (rule : ContractRule) : ∀ c ∈ defaultChecks isJson, c.evaluate t rule = c.evaluate u rule := by
  obtain ⟨tid, tout, tcalls, tmeta⟩ := t
  obtain ⟨uid, uout, ucalls, umeta⟩ := u
  obtain ⟨-, hout, hcalls, happroval⟩ := h
  dsimp only at hout hcalls happroval
  unfold defaultChecks
  simp only [List.forall_mem_cons, List.not_mem_nil, false_imp_iff, implies_true, and_true]
  refine ⟨check_congr ?_, check_congr ?_, check_congr ?_, check_congr ?_, check_congr ?_,
    check_congr ?_, check_congr ?_⟩ <;> dsimp only
  · cases hout with
    | object keys policy => simp only [keys]
    | array a b => rfl
    | string s => rfl
    | scalar ha hb => exact (scalar_object _ _ ha).trans (scalar_object _ _ hb).symm
  · rw [hcalls]
  · rw [hcalls]
  · cases hout with
    | object keys policy => simp only [keys, policy]
    | array a b => rfl
    | string s => rfl
    | scalar ha hb => exact (scalar_object _ _ ha).trans (scalar_object _ _ hb).symm
  · cases hout with
    | object keys policy => simp only [keys]
    | array a b => rfl
    | string s => rfl
    | scalar ha hb => exact (scalar_object _ _ ha).trans (scalar_object _ _ hb).symm
  · cases hout with
    | object keys policy => rfl
    | array a b => rfl
    | string s => rfl
    | scalar ha hb =>
        obtain ⟨hobject, harray, hstring⟩ := scalar_cases ha
        obtain ⟨hobject', harray', hstring'⟩ := scalar_cases hb
        by_cases hformat : rule.outputFormat ≠ some "json"
        · rw [if_pos hformat, if_pos hformat]
        · rw [if_neg hformat, if_neg hformat]
          split
          · exact absurd rfl (hobject _)
          · exact absurd rfl (harray _)
          · exact absurd rfl (hstring _)
          · rfl
  · cases hout with
    | object keys policy => simp only [keys, happroval]
    | array a b => rfl
    | string s => rfl
    | scalar ha hb => exact (scalar_object _ _ ha).trans (scalar_object _ _ hb).symm

/-! ## Outputs through CBOR -/

/-- An output that is an integer of more than 64 bits. -/
def Wide (v : Option Prompt.Value) : Prop := ∃ n, v = some (.number (.int n)) ∧ ¬ Narrow n

/-- The digits of an integer mention nothing. -/
theorem mentionsPolicy_int (n : Int) : mentionsPolicy (toString n) = false := by
  have hdigits : ∀ (m : Nat), ∀ c ∈ (toString m).toList, c.isDigit = true := by
    intro m c hc
    rw [Nat.toString_eq_ofList_toDigits, String.toList_ofList] at hc
    exact Nat.isDigit_of_mem_toDigits (by omega) (by omega) hc
  have hletter : ∀ c ∈ (toString n).toList, c.toLower ≠ 'o' := by
    intro c hc
    have hc : c.isDigit = true ∨ c = '-' := by
      cases n with
      | ofNat m => exact .inl (hdigits m c hc)
      | negSucc m =>
          have htext : (toString (Int.negSucc m)).toList = '-' :: (toString (m + 1)).toList := by
            simp [toString, Int.repr]
          rw [htext] at hc
          rcases List.mem_cons.mp hc with hc | hc
          · exact .inr hc
          · exact .inl (hdigits _ c hc)
    rcases hc with hc | rfl
    · -- a digit is in lower case already
      have hval : c.val ≤ '9'.val := by
        unfold Char.isDigit at hc
        rw [Bool.and_eq_true, decide_eq_true_eq, decide_eq_true_eq] at hc
        exact hc.2
      intro hlower
      unfold Char.toLower at hlower
      rw [dif_neg fun h => absurd (UInt32.le_trans h.1 hval) (by decide)] at hlower
      rw [hlower] at hval
      exact absurd hval (by decide)
    · decide
  have hno : ∀ word : List Char, 'o' ∈ word →
      ¬ word <:+: (toString n).toList.map Char.toLower := by
    intro word ho hword
    obtain ⟨c, hc, hlower⟩ := List.mem_map.mp (hword.subset ho)
    exact hletter c hc hlower
  unfold mentionsPolicy
  simp only [Bool.or_eq_false_iff, decide_eq_false_iff_not]
  exact ⟨hno _ (by simp), hno _ (by simp)⟩

theorem mentionsPolicyIn_viaCbor (key : String) (v : Prompt.Value) :
    mentionsPolicyIn (key, view (viaCbor v)) = mentionsPolicyIn (key, view v) := by
  cases v with
  | number n =>
      cases n with
      | int n =>
          rw [viaCbor]
          by_cases hn : Narrow n
          · rw [if_pos hn]
          · rw [if_neg hn]
            exact mentionsPolicy_int n
      | float value text => rw [viaCbor] <;> simp
  | array items => rw [viaCbor]; rfl
  | object ms => rw [viaCbor]; rfl
  | null => rw [viaCbor] <;> simp
  | bool b => rw [viaCbor] <;> simp
  | string s => rw [viaCbor] <;> simp

theorem containsKey_viaCbor (key : String) (ms : Members) :
    containsKey key (viewMembers (viaCborMembers ms)) = containsKey key (viewMembers ms) := by
  rw [viewMembers_eq, viewMembers_eq, viaCborMembers_eq]
  unfold containsKey
  rw [List.map_map, List.any_map, List.any_map]
  rfl

theorem any_viaCbor (ms : Members) :
    (viewMembers (viaCborMembers ms)).any mentionsPolicyIn
      = (viewMembers ms).any mentionsPolicyIn := by
  rw [viewMembers_eq, viewMembers_eq, viaCborMembers_eq, List.map_map, List.any_map, List.any_map]
  exact congrArg (List.any ms) (funext fun m => mentionsPolicyIn_viaCbor m.1 m.2)

/-- An output that is no wide integer is the same to every check on either way. -/
theorem sameOutput {v : Option Prompt.Value} (h : ¬ Wide v) :
    SameOutput (optional v) ((v.map viaCbor).map view) := by
  cases v with
  | none => exact .scalar rfl rfl
  | some v =>
      rw [Option.map_some, Option.map_some]
      cases v with
      | null => exact .scalar rfl rfl
      | bool b => exact .scalar rfl rfl
      | number n =>
          cases n with
          | int n =>
              have hn : Narrow n := by
                by_contra hn
                exact h ⟨n, rfl, hn⟩
              rw [viaCbor, if_pos hn]
              exact .scalar rfl rfl
          | float value text => exact .scalar rfl rfl
      | string s => exact .string s
      | array items => exact .array _ _
      | object ms =>
          exact .object (fun key => (containsKey_viaCbor key ms).symm) (any_viaCbor ms).symm

theorem get_viewMembers (key : String) (ms : Members) :
    get key (viewMembers ms) = (lookup key ms).map view := by
  induction ms with
  | nil => rfl
  | cons m rest ih =>
      obtain ⟨k, v⟩ := m
      unfold get at ih ⊢
      rw [viewMembers, List.find?_cons, lookup]
      by_cases hk : k = key
      · rw [if_pos hk, decide_eq_true hk]
        rfl
      · rw [if_neg hk, decide_eq_false hk]
        exact ih

/-- A flag of the metadata is the same on either way. -/
theorem humanApproval_viaCbor (v : Option Prompt.Value) :
    humanApproval (optional v) = humanApproval ((v.map viaCbor).map view) := by
  cases v with
  | none => rfl
  | some v =>
      cases v with
      | null => rfl
      | bool b => rfl
      | number n =>
          cases n with
          | int n =>
              rw [Option.map_some, viaCbor]
              by_cases hn : Narrow n
              · rw [if_pos hn]
                rfl
              · rw [if_neg hn]
                rfl
          | float value text => rfl
      | string s => rfl
      | array items => rfl
      | object ms =>
          have hmember : lookup "human_approval" (viaCborMembers ms)
              = (lookup "human_approval" ms).map viaCbor := by
            rw [viaCborMembers_eq]
            exact Prompt.Value.lookup_map (fun _ v => viaCbor v) _ ms
          unfold humanApproval optional
          rw [Option.map_some, Option.map_some, viaCbor]
          dsimp only [view]
          rw [get_viewMembers, get_viewMembers, hmember]
          cases lookup "human_approval" ms with
          | none => rfl
          | some w =>
              cases w with
              | number n =>
                  cases n with
                  | int n =>
                      rw [Option.map_some, Option.map_some, viaCbor]
                      by_cases hn : Narrow n
                      · rw [if_pos hn]
                        rfl
                      · rw [if_neg hn]
                        rfl
                  | float value text => rfl
              | null => rfl
              | bool b => rfl
              | string s => rfl
              | array items => rfl
              | object ms => rfl

/-! ## What the two sources make of an object -/

/-- A flag that is missing, null or a boolean. -/
def IsFlag : Option Prompt.Value → Prop
  | none | some .null | some (.bool _) => True
  | some _ => False

/-- A value is a tool call: its name is a text, and its approval a flag. -/
def IsToolCall : Prompt.Value → Prop
  | .object ms =>
      (∃ s, lookup "name" ms = some (.string s)) ∧ IsFlag (lookup "human_approval_present" ms)
  | .array items => items.length ≤ 4 ∧ (∃ s, items.head? = some (.string s)) ∧ IsFlag items[3]?
  | _ => False

/-- An object has the shape of an interaction, and the reader takes its line. -/
structure Accepted (o : Prompt.Map) : Prop where
  line : x.read (x.write o) ≠ none
  traceId : ∃ s, lookup "trace_id" o.1 = some (.string s)
  agentId : ∃ s, lookup "agent_id" o.1 = some (.string s)
  input : lookup "input" o.1 ≠ none
  toolCalls : ∀ v, lookup "tool_calls" o.1 = some v →
    ∃ items, v = .array items ∧ ∀ c ∈ items, IsToolCall c

theorem optionalBool_iff {v : Option Prompt.Value} :
    (∃ b, optionalBool v = some b) ↔ IsFlag v := by
  cases v with
  | none => simp [optionalBool, IsFlag]
  | some v => cases v <;> simp [optionalBool, IsFlag]

theorem asStr_iff {v : Option Prompt.Value} :
    (∃ s, v.bind Prompt.Value.asStr = some s) ↔ ∃ s, v = some (.string s) := by
  cases v with
  | none => simp
  | some v => cases v <;> simp [Prompt.Value.asStr]

/-- **A value is decoded** exactly when it is a tool call. -/
theorem decodeToolCall_iff {v : Prompt.Value} : (∃ c, decodeToolCall v = some c) ↔ IsToolCall v := by
  have hpair : ∀ name approval : Option Prompt.Value,
      (∃ c, (do
        let name ← name.bind Prompt.Value.asStr
        let approval ← optionalBool approval
        some (ToolCall.mk name approval)) = some c)
      ↔ (∃ s, name = some (.string s)) ∧ IsFlag approval := by
    intro name approval
    rw [← asStr_iff, ← optionalBool_iff]
    constructor
    · rintro ⟨c, h⟩
      obtain ⟨s, hs, h⟩ := Option.bind_eq_some_iff.mp h
      obtain ⟨b, hb, -⟩ := Option.bind_eq_some_iff.mp h
      exact ⟨⟨s, hs⟩, ⟨b, hb⟩⟩
    · rintro ⟨⟨s, hs⟩, ⟨b, hb⟩⟩
      rw [hs, hb]
      exact ⟨_, rfl⟩
  have hnone : ¬ ∃ c : ToolCall, none = some c := by
    rintro ⟨c, h⟩
    cases h
  cases v with
  | object ms => exact hpair _ _
  | array items =>
      rw [decodeToolCall, IsToolCall]
      by_cases hlong : 4 < items.length
      · rw [if_pos hlong]
        exact iff_of_false hnone fun h => absurd h.1 (by omega)
      · rw [if_neg hlong]
        exact (hpair _ _).trans ⟨fun h => ⟨by omega, h⟩, fun h => h.2⟩
  | null => exact iff_of_false hnone id
  | bool b => exact iff_of_false hnone id
  | number n => exact iff_of_false hnone id
  | string s => exact iff_of_false hnone id

/-- Tool calls are decoded exactly when there are none or they are a list of them. -/
theorem decodeToolCalls_iff {v : Option Prompt.Value} :
    (∃ calls, decodeToolCalls v = some calls)
      ↔ ∀ w, v = some w → ∃ items, w = .array items ∧ ∀ c ∈ items, IsToolCall c := by
  have hitems : ∀ items : List Prompt.Value,
      (∃ calls, items.mapM decodeToolCall = some calls) ↔ ∀ c ∈ items, IsToolCall c := by
    intro items
    induction items with
    | nil => exact ⟨fun _ c hc => absurd hc List.not_mem_nil, fun _ => ⟨[], rfl⟩⟩
    | cons v rest ih =>
        rw [List.forall_mem_cons, ← ih, ← decodeToolCall_iff, List.mapM_cons]
        constructor
        · intro h
          obtain ⟨calls, h⟩ := h
          obtain ⟨c, hc, h⟩ := Option.bind_eq_some_iff.mp h
          obtain ⟨more, hmore, -⟩ := Option.bind_eq_some_iff.mp h
          exact ⟨⟨c, hc⟩, ⟨more, hmore⟩⟩
        · intro h
          obtain ⟨⟨c, hc⟩, ⟨more, hmore⟩⟩ := h
          rw [hc, hmore]
          exact ⟨c :: more, rfl⟩
  have hother : ∀ v, (∀ items, v ≠ .array items) → decodeToolCalls (some v) = none →
      ((∃ calls, decodeToolCalls (some v) = some calls)
        ↔ ∀ w, some v = some w → ∃ items, w = .array items ∧ ∀ c ∈ items, IsToolCall c) := by
    intro v hv hnone
    rw [hnone]
    refine ⟨fun h => absurd h.choose_spec nofun, fun h => ?_⟩
    obtain ⟨items, heq, -⟩ := h v rfl
    exact absurd heq (hv items)
  cases v with
  | none => exact ⟨fun _ w hw => absurd hw (by simp), fun _ => ⟨[], rfl⟩⟩
  | some v =>
      cases v with
      | array items =>
          refine (hitems items).trans ⟨fun h w hw => ⟨items, (Option.some.inj hw).symm, h⟩, ?_⟩
          intro h c hc
          obtain ⟨items', heq, hall⟩ := h _ rfl
          exact hall c (Prompt.Value.array.inj heq ▸ hc)
      | null => exact hother _ (fun _ => nofun) rfl
      | bool b => exact hother _ (fun _ => nofun) rfl
      | number n => exact hother _ (fun _ => nofun) rfl
      | string s => exact hother _ (fun _ => nofun) rfl
      | object ms => exact hother _ (fun _ => nofun) rfl

/-- What a source makes of an object, when it keeps what is there. -/
def plainTrace (o : Prompt.Map) : TraceEnvelope where
  traceId := ((lookup "trace_id" o.1).bind Prompt.Value.asStr).getD ""
  output := optional (lookup "output" o.1)
  toolCalls := toolCallsOf (lookup "tool_calls" o.1)
  metadata := optional (lookup "metadata" o.1)

/-- The trace on the line of an object. -/
def onLine (o : Prompt.Map) : Option TraceEnvelope :=
  (x.read (x.write o)).bind decodeTrace

/-- **The line of an object** is decoded to what is there, exactly when it is accepted. -/
theorem onLine_accepted {o : Prompt.Map} (h : Accepted x o) : onLine x o = some (plainTrace o) := by
  obtain ⟨s, htrace⟩ := h.traceId
  obtain ⟨s', hagent⟩ := h.agentId
  obtain ⟨v, hinput⟩ := Option.ne_none_iff_exists'.mp h.input
  obtain ⟨calls, hcalls⟩ := decodeToolCalls_iff.mpr h.toolCalls
  have hread : x.read (x.write o) = some (.object o.1) :=
    (x.back _).resolve_right h.line
  unfold onLine plainTrace
  rw [hread, Option.bind_some, decodeTrace, decodeMembers, htrace, hagent, hinput, hcalls,
    toolCallsOf_decoded hcalls]
  rfl

theorem onLine_refused {o : Prompt.Map} (h : ¬ Accepted x o) : onLine x o = none := by
  by_contra hsome
  obtain ⟨t, ht⟩ := Option.ne_none_iff_exists'.mp hsome
  obtain ⟨v, hread, ht⟩ := Option.bind_eq_some_iff.mp ht
  have hline : x.read (x.write o) ≠ none := hread ▸ Option.some_ne_none v
  rw [(x.back _).resolve_right hline] at hread
  obtain rfl := Option.some.inj hread
  rw [decodeTrace] at ht
  obtain ⟨traceId, htrace, ht⟩ := Option.bind_eq_some_iff.mp ht
  obtain ⟨agentId, hagent, ht⟩ := Option.bind_eq_some_iff.mp ht
  obtain ⟨input, hinput, ht⟩ := Option.bind_eq_some_iff.mp ht
  obtain ⟨calls, hcalls, -⟩ := Option.bind_eq_some_iff.mp ht
  refine h ⟨hline, asStr_iff.mp ⟨_, htrace⟩, asStr_iff.mp ⟨_, hagent⟩, fun hnone => ?_,
    decodeToolCalls_iff.mp ⟨_, hcalls⟩⟩
  dsimp only at hinput
  rw [hnone] at hinput
  cases hinput

/-- The trace of an object in a store. -/
def storedTrace (o : Prompt.Map) : TraceEnvelope := traceOfPayload "" (jsonToCbor (.object o.1))

theorem traceOfPayload_accepted {o : Prompt.Map} (h : Accepted x o) (eventId : String) :
    traceOfPayload eventId (jsonToCbor (.object o.1)) = storedTrace o := by
  obtain ⟨s, htrace⟩ := h.traceId
  have hid : (lookup "trace_id" o.1).map viaCbor = some (.string s) := by
    rw [htrace, Option.map_some, viaCbor] <;> simp
  unfold storedTrace traceOfPayload
  simp only [get_payload, hid]
  rfl

/-- **The two traces of an object** are the same to every check, but for a wide output. -/
theorem alike {o : Prompt.Map} (h : Accepted x o) (hwide : ¬ Wide (lookup "output" o.1)) :
    Alike (plainTrace o) (storedTrace o) := by
  obtain ⟨s, htrace⟩ := h.traceId
  have hid : (lookup "trace_id" o.1).map viaCbor = some (.string s) := by
    rw [htrace, Option.map_some, viaCbor] <;> simp
  unfold storedTrace traceOfPayload plainTrace
  simp only [get_payload]
  refine ⟨?_, sameOutput hwide, ?_, humanApproval_viaCbor _⟩
  · rw [hid, htrace]
  · obtain ⟨calls, hcalls⟩ := decodeToolCalls_iff.mpr h.toolCalls
    rw [toolCallsOf_decoded hcalls, toolCallsOf_decoded (decodeToolCalls_viaCbor hcalls)]

/-! ## The sources -/

theorem lines_jsonl (objects : List Prompt.Map) :
    lines (jsonl x objects) = objects.map x.write := by
  induction objects with
  | nil => rfl
  | cons o rest ih =>
      unfold jsonl at ih ⊢
      rw [List.flatMap_cons, List.append_assoc, List.singleton_append, lines_cons (x.noBreak _), ih,
        List.map_cons]

theorem parse_accepted {objects : List Prompt.Map} (h : ∀ o ∈ objects, Accepted x o) (n : Nat) :
    parseTraceLines x n (objects.map x.write)
      = .ok (objects.map plainTrace) := by
  induction objects generalizing n with
  | nil => rfl
  | cons o rest ih =>
      have hline := onLine_accepted x (h o List.mem_cons_self)
      unfold onLine at hline
      rw [List.map_cons, parseTraceLines, x.trimmed, if_neg (x.nonempty _), hline,
        ih (fun o ho => h o (List.mem_cons_of_mem _ ho))]
      rfl

theorem parse_refused {objects : List Prompt.Map} {o : Prompt.Map} (ho : o ∈ objects)
    (h : ¬ Accepted x o) (n : Nat) :
    ∃ e, parseTraceLines x n (objects.map x.write) = .error e := by
  induction objects generalizing n with
  | nil => cases ho
  | cons first rest ih =>
      rw [List.map_cons, parseTraceLines, x.trimmed, if_neg (x.nonempty _)]
      by_cases hfirst : Accepted x first
      · have hline := onLine_accepted x hfirst
        unfold onLine at hline
        rcases List.mem_cons.mp ho with rfl | ho
        · exact absurd hfirst h
        · obtain ⟨e, he⟩ := ih ho (n + 1)
          rw [hline, he]
          exact ⟨e, rfl⟩
      · have hline := onLine_refused x hfirst
        unfold onLine at hline
        rw [hline]
        exact ⟨_, rfl⟩

theorem traces_accepted {events : List d.Event} {objects : List Prompt.Map}
    (hpayload : List.Forall₂ (fun ev o => payloadOf ev.payload = jsonToCbor (.object o.1)) events
      objects) (h : ∀ o ∈ objects, Accepted x o) :
    (events.map fun ev => traceOfPayload (ulid ev.header.eventId) (payloadOf ev.payload))
      = objects.map storedTrace := by
  induction hpayload with
  | nil => rfl
  | cons hev hrest ih =>
      rw [List.map_cons, List.map_cons, ih fun o ho => h o (List.mem_cons_of_mem _ ho), hev,
        traceOfPayload_accepted x (h _ List.mem_cons_self)]

/-! ## The verdict -/

/-- A replay of the one and of the other traces finds the same and decides the same. -/
def SameVerdict (isJson : String → Bool) (ts us : List TraceEnvelope) : Prop :=
  ∀ (options : ReplayOptions) (inputs : ReplayInputs),
    (runLocalReplay isJson options { inputs with traces := ts }).violations
        = (runLocalReplay isJson options { inputs with traces := us }).violations
      ∧ (runLocalReplay isJson options { inputs with traces := ts }).contractPassed
        = (runLocalReplay isJson options { inputs with traces := us }).contractPassed

/-- Two sources of traces agree: both fail, or both lead to one verdict. -/
def Agree (isJson : String → Bool) : CliResult (List TraceEnvelope) → CliResult (List TraceEnvelope) →
    Prop
  | .ok ts, .ok us => SameVerdict isJson ts us
  | .error _, .error _ => True
  | _, _ => False

variable {isJson : String → Bool}

theorem Alike.violationsAt {t u : TraceEnvelope} (h : Alike t u) (rule : ContractRule) :
    violationsAt (defaultChecks isJson) t rule = violationsAt (defaultChecks isJson) u rule := by
  have heval := h.evaluate isJson rule
  unfold Contract.violationsAt
  have hfilter : ((defaultChecks isJson).filter fun check =>
      check.id = rule.ruleType && !(check.evaluate t rule).passed)
        = (defaultChecks isJson).filter fun check =>
          check.id = rule.ruleType && !(check.evaluate u rule).passed :=
    List.filter_congr fun c hc => by rw [heval c hc]
  rw [hfilter]
  refine List.map_congr_left fun c hc => ?_
  rw [heval c (List.mem_filter.mp hc).1]
  unfold TraceViolation.of
  rw [h.traceId]

theorem Alike.fails {t u : TraceEnvelope} (h : Alike t u) (rule : ContractRule) :
    fails isJson t rule = fails isJson u rule := by
  unfold Contract.fails
  rw [Bool.eq_iff_iff, List.any_eq_true, List.any_eq_true]
  refine exists_congr fun c => and_congr_right fun hc => ?_
  rw [h.evaluate isJson rule c hc]

/-- Traces that are alike lead to one verdict. -/
theorem sameVerdict {objects : List Prompt.Map} {f g : Prompt.Map → TraceEnvelope}
    (h : ∀ o ∈ objects, Alike (f o) (g o)) :
    SameVerdict isJson (objects.map f) (objects.map g) := by
  intro options inputs
  have hall : ∀ rules : List ContractRule,
      ((objects.map f ×ˢ rules).flatMap fun p => violationsAt (defaultChecks isJson) p.1 p.2)
        = (objects.map g ×ˢ rules).flatMap fun p => violationsAt (defaultChecks isJson) p.1 p.2 := by
    intro rules
    simp only [SProd.sprod, List.product, List.flatMap_assoc, List.flatMap_map]
    refine List.flatMap_congr fun o ho => List.flatMap_congr fun rule _ => ?_
    exact (h o ho).violationsAt rule
  have hfound : ∀ s : Found, ((objects.map f).foldl (fun s trace =>
        inputs.contract.rules.foldl (fun s rule =>
          (defaultChecks isJson).foldl (fun s check => s.run trace rule check) s) s) s)
      = (objects.map g).foldl (fun s trace => inputs.contract.rules.foldl (fun s rule =>
          (defaultChecks isJson).foldl (fun s check => s.run trace rule check) s) s) s := by
    intro s
    rw [evaluate_found, evaluate_found]
    exact congrArg (List.foldl Found.record s) (hall _)
  unfold runLocalReplay evaluateContract evaluateContractWith
  dsimp only
  rw [hfound]
  exact ⟨rfl, rfl⟩

/-! ## Wide outputs -/

/-- The rule that wants JSON. -/
def jsonRule : ContractRule := ⟨"json_output_valid", .high, [], [], [], some "json"⟩

theorem fails_jsonRule {t : TraceEnvelope} : fails isJson t jsonRule = true
    ↔ (t.output = none ∨ ∃ s, t.output = some (.string s) ∧ isJson s = false)
      ∨ t.output.any Value.isScalar = true := by
  unfold fails defaultChecks
  simp only [List.any_cons, List.any_nil, Bool.or_false, Bool.or_eq_true, Bool.not_eq_true',
    requiredOutputField_fails, forbiddenToolUsed_fails, toolRequiresHumanApproval_fails,
    policySourceRequired_fails, languageMatchFieldPresent_fails, jsonOutputValid_fails,
    noFinalDecisionWithoutApproval_fails]
  simp [jsonRule]

/-- A wide output is a number on its line, which is not JSON to the check, and a text with JSON in
the store. -/
theorem wide_fails {o : Prompt.Map} (hwide : Wide (lookup "output" o.1))
    (hjson : ∀ n : Int, lookup "output" o.1 = some (.number (.int n)) → isJson (toString n) = true) :
    fails isJson (plainTrace o) jsonRule = true ∧ fails isJson (storedTrace o) jsonRule = false := by
  obtain ⟨n, hn, hnarrow⟩ := hwide
  constructor
  · rw [fails_jsonRule]
    unfold plainTrace
    rw [hn]
    exact .inr rfl
  · have hout : (storedTrace o).output = some (.string (toString n)) := by
      unfold storedTrace traceOfPayload
      simp only [get_payload, hn, Option.map_some, viaCbor, if_neg hnarrow]
      rfl
    rw [← Bool.not_eq_true, fails_jsonRule, hout]
    rintro ((hnone | ⟨s, hs, hno⟩) | hscalar)
    · cases hnone
    · cases hs
      rw [hjson n hn] at hno
      cases hno
    · cases hscalar

/-- Among the traces of accepted objects, the rule finds more on the lines than in the store when
an output is wide. -/
theorem wide_count {objects : List Prompt.Map} (haccepted : ∀ o ∈ objects, Accepted x o)
    (hjson : ∀ o ∈ objects, ∀ n : Int, lookup "output" o.1 = some (.number (.int n)) →
      isJson (toString n) = true) :
    (objects.countP fun o => fails isJson (storedTrace o) jsonRule)
        ≤ (objects.countP fun o => fails isJson (plainTrace o) jsonRule)
      ∧ ((∃ o ∈ objects, Wide (lookup "output" o.1)) →
        (objects.countP fun o => fails isJson (storedTrace o) jsonRule)
          < objects.countP fun o => fails isJson (plainTrace o) jsonRule) := by
  induction objects with
  | nil => exact ⟨le_rfl, fun h => absurd h.choose_spec.1 List.not_mem_nil⟩
  | cons o rest ih =>
      obtain ⟨hle, hlt⟩ := ih (fun o ho => haccepted o (List.mem_cons_of_mem _ ho))
        (fun o ho => hjson o (List.mem_cons_of_mem _ ho))
      rw [List.countP_cons, List.countP_cons, List.exists_mem_cons_iff]
      by_cases hwide : Wide (lookup "output" o.1)
      · obtain ⟨hplain, hstored⟩ := wide_fails hwide (hjson o List.mem_cons_self)
        rw [if_pos hplain, hstored]
        simp only [Bool.false_eq_true, if_false]
        omega
      · rw [(alike x (haccepted o List.mem_cons_self) hwide).fails jsonRule]
        refine ⟨by omega, fun h => ?_⟩
        have hmore := hlt (h.resolve_left hwide)
        omega

/-- The violations of the rule, counted. -/
theorem length_violations (options : ReplayOptions) (ts : List TraceEnvelope) :
    (runLocalReplay isJson options ⟨"", "", ⟨"", [jsonRule]⟩, ts, ""⟩).violations.length
      = ts.countP fun t => fails isJson t jsonRule := by
  have hlen := (report_keys isJson options ⟨"", "", ⟨"", [jsonRule]⟩, ts, ""⟩).length_eq
  rw [List.length_map, List.length_map, ← List.countP_eq_length_filter] at hlen
  rw [hlen]
  unfold occurrences
  simp only [SProd.sprod, List.product, List.map_singleton]
  rw [← List.map_eq_flatMap, List.countP_map]
  rfl

/-! ## When the sources agree -/

/-- **When both sources lead to one verdict**: every object has the shape of an interaction, with
tool calls that can all be decoded, the reader takes its line, and no output is an integer that
needs more than 64 bits with a sign. -/
theorem sourcesAgree_iff {store : Atep.AtepStore} {events : List d.Event}
    {objects : List Prompt.Map} (hread : store.readStream d .interaction = .ok events)
    (hpayload : List.Forall₂ (fun ev o => payloadOf ev.payload = jsonToCbor (.object o.1)) events
      objects)
    (hjson : ∀ o ∈ objects, ∀ n : Int, lookup "output" o.1 = some (.number (.int n)) →
      isJson (toString n) = true) :
    Agree isJson (parseTracesJsonl x (jsonl x objects)) (tracesFromAtep payloadOf ulid store)
      ↔ ∀ o ∈ objects, Accepted x o ∧ ¬ Wide (lookup "output" o.1) := by
  have hstore : tracesFromAtep payloadOf ulid store = .ok (events.map fun ev =>
      traceOfPayload (ulid ev.header.eventId) (payloadOf ev.payload)) := by
    unfold tracesFromAtep
    rw [hread]
    rfl
  unfold parseTracesJsonl
  rw [hstore, lines_jsonl]
  by_cases haccepted : ∀ o ∈ objects, Accepted x o
  · rw [parse_accepted x haccepted, traces_accepted x payloadOf ulid hpayload haccepted]
    constructor
    · intro hagree o ho
      refine ⟨haccepted o ho, fun hwide => ?_⟩
      -- the rule that wants JSON tells them apart
      have hlt := (wide_count x haccepted hjson).2 ⟨o, ho, hwide⟩
      have hsame := (hagree ⟨1, .high⟩ ⟨"", "", ⟨"", [jsonRule]⟩, [], ""⟩).1
      have hlen := congrArg List.length hsame
      rw [length_violations, length_violations, List.countP_map, List.countP_map] at hlen
      exact absurd hlen hlt.ne'
    · intro h
      exact sameVerdict fun o ho => alike x (haccepted o ho) (h o ho).2
  · push Not at haccepted
    obtain ⟨o, ho, hnot⟩ := haccepted
    obtain ⟨e, he⟩ := parse_refused x ho hnot 0
    rw [he]
    exact ⟨False.elim, fun h => hnot (h o ho).1⟩

/-! ## Two interactions -/

mutual

/-- A document without fractions as a value of the ledger. -/
def toJson : Prompt.Value → Option Json
  | .null => some .null
  | .bool b => some (.bool b)
  | .number (.int n) => some (.num n)
  | .number (.float _ _) => none
  | .string s => some (.str s)
  | .array items => (toJsonItems items).map .arr
  | .object ms => (toJsonMembers ms).map .obj

def toJsonItems : List Prompt.Value → Option (List Json)
  | [] => some []
  | v :: rest => do
      let item ← toJson v
      let more ← toJsonItems rest
      some (item :: more)

def toJsonMembers : Members → Option (List (String × Json))
  | [] => some []
  | (k, v) :: rest => do
      let value ← toJson v
      let more ← toJsonMembers rest
      some ((k, value) :: more)

end

mutual

theorem ofJson_toJson : ∀ {v : Prompt.Value} {j : Json}, toJson v = some j → Prompt.ofJson j = v
  | .null, _, h => by cases h; rfl
  | .bool _, _, h => by cases h; rfl
  | .number (.int _), _, h => by cases h; rfl
  | .number (.float _ _), _, h => by cases h
  | .string _, _, h => by cases h; rfl
  | .array items, _, h => by
      obtain ⟨js, hjs, rfl⟩ := Option.map_eq_some_iff.mp h
      rw [Prompt.ofJson, ofJsonItems_toJsonItems hjs]
  | .object ms, _, h => by
      obtain ⟨fs, hfs, rfl⟩ := Option.map_eq_some_iff.mp h
      rw [Prompt.ofJson, ofJsonFields_toJsonMembers hfs]

theorem ofJsonItems_toJsonItems : ∀ {items : List Prompt.Value} {js : List Json},
    toJsonItems items = some js → Prompt.ofJsonItems js = items
  | [], _, h => by cases h; rfl
  | v :: rest, _, h => by
      obtain ⟨item, hitem, h⟩ := Option.bind_eq_some_iff.mp h
      obtain ⟨more, hmore, h⟩ := Option.bind_eq_some_iff.mp h
      cases h
      rw [Prompt.ofJsonItems, ofJson_toJson hitem, ofJsonItems_toJsonItems hmore]

theorem ofJsonFields_toJsonMembers : ∀ {ms : Members} {fs : List (String × Json)},
    toJsonMembers ms = some fs → Prompt.ofJsonFields fs = ms
  | [], _, h => by cases h; rfl
  | (k, v) :: rest, _, h => by
      obtain ⟨value, hvalue, h⟩ := Option.bind_eq_some_iff.mp h
      obtain ⟨more, hmore, h⟩ := Option.bind_eq_some_iff.mp h
      cases h
      rw [Prompt.ofJsonFields, ofJson_toJson hvalue, ofJsonFields_toJsonMembers hmore]

end

mutual

theorem writeFields_last : ∀ fs : List (String × Json), (Json.writeFields fs).getLast? = some '}'
  | [] => rfl
  | (k, v) :: fs => by
      rw [Json.writeFields, List.getLast?_append, List.getLast?_cons, List.getLast?_append,
        writeFieldsTail_last fs]
      rfl

theorem writeFieldsTail_last : ∀ fs : List (String × Json),
    (Json.writeFieldsTail fs).getLast? = some '}'
  | [] => rfl
  | (k, v) :: fs => by
      rw [Json.writeFieldsTail, List.getLast?_cons, List.getLast?_append, List.getLast?_cons,
        List.getLast?_append, writeFieldsTail_last fs]
      rfl

end

/-- A text between characters that are no white space is trimmed. -/
theorem trim_eq {c e : Char} {cs : List Char} (hc : isWhiteSpace c = false)
    (he : isWhiteSpace e = false) (hlast : (c :: cs).getLast? = some e) :
    Fs.trim (c :: cs) = c :: cs := by
  have hfront : (c :: cs).dropWhile isWhiteSpace = c :: cs := by
    rw [List.dropWhile_cons, if_neg (by rw [hc]; exact Bool.false_ne_true)]
  unfold Fs.trim
  rw [hfront, List.rdropWhile_eq_self_iff]
  intro hne hspace
  rw [List.getLast?_eq_getLast_of_ne_nil hne] at hlast
  rw [Option.some.inj hlast, he] at hspace
  cases hspace

/-- A writer and a reader of documents without fractions; what has one is not read. -/
def plainLines : JsonLines where
  write o := match toJsonMembers o.1 with
    | some fs => Json.write (.obj fs)
    | none => ['?']
  read line := (Json.parse line).map Prompt.ofJson
  back o := by
    cases hfs : toJsonMembers o.1 with
    | none => exact .inr rfl
    | some fs =>
        dsimp only
        rw [Json.parse_write, Option.map_some, Prompt.ofJson, ofJsonFields_toJsonMembers hfs]
        exact .inl rfl
  noBreak o c hc := by
    cases hfs : toJsonMembers o.1 with
    | none =>
        rw [hfs] at hc
        rw [List.mem_singleton.mp hc]
        decide
    | some fs =>
        rw [hfs] at hc
        have hprintable := Json.write_printable _ hc
        refine ⟨fun heq => ?_, fun heq => ?_⟩ <;> rw [heq] at hprintable <;>
          exact absurd hprintable (by decide)
  trimmed o := by
    cases hfs : toJsonMembers o.1 with
    | none => rfl
    | some fs =>
        refine trim_eq rfl (e := '}') rfl ?_
        rw [List.getLast?_cons, writeFields_last]
        rfl
  nonempty o := by
    cases hfs : toJsonMembers o.1 with
    | none => exact List.cons_ne_nil _ _
    | some fs => exact List.cons_ne_nil _ _

theorem read_plainLines {o : Prompt.Map} {fs : List (String × Json)}
    (h : toJsonMembers o.1 = some fs) : plainLines.read (plainLines.write o) ≠ none := by
  unfold plainLines
  dsimp only
  rw [h]
  dsimp only
  rw [Json.parse_write]
  exact Option.some_ne_none _

/-- An interaction with one tool call; the name of the tool stands under a key. -/
def interaction (key : String) : Members :=
  [("agent_id", .string "agent://acme/foo"), ("input", .null),
    ("tool_calls", .array [.object [(key, .string "delete_account")]]), ("trace_id", .string "t1")]

theorem interaction_wellFormed (key : String) : (Prompt.Value.object (interaction key)).WellFormed := by
  have hsorted : ["agent_id", "input", "tool_calls", "trace_id"].Pairwise (· < ·) := by decide
  refine ⟨hsorted, trivial, trivial, ⟨by simp, ⟨?_, trivial, trivial⟩, trivial⟩, trivial, trivial⟩
  exact List.pairwise_singleton _ _

/-- The event with a payload. -/
def interactionEvent (payload : UInt8) : Atep.AtepEvent UInt8 :=
  let event := Atep.AtepStore.exerciseEvent payload
  { event with header := { event.header with stream := .interaction } }

/-- Libraries for these events. -/
def interactionDeps : Atep.Deps :=
  { Atep.AtepStore.exerciseDeps with
    decodeEvent := fun
      | [v] => .ok (interactionEvent v)
      | _ => .error "trailing bytes" }

/-- A store with the event. -/
def interactionStore (payload : UInt8) : Atep.AtepStore :=
  (run (Atep.Opened.after (d := interactionDeps))
    (Atep.Opened.init ".atep" "agent://acme/foo" fun _ => .error "")
    [.appendEvent (interactionEvent payload) Atep.Session.calm]).store

set_option maxRecDepth 4000 in
theorem read_interaction : (interactionStore 1).readStream interactionDeps .interaction
    = .ok [interactionEvent 1] := rfl

/-- What the event holds. -/
def interactionPayload (key : String) (_ : UInt8) : Atep.Cbor :=
  jsonToCbor (.object (interaction key))

/-- Whether the reader takes a text. -/
def isPlainJson (s : String) : Bool := (Json.parse s.toList).isSome



theorem sourcesAgree_interaction :
    Agree isPlainJson
      (parseTracesJsonl plainLines
        (jsonl plainLines [⟨interaction "name", interaction_wellFormed "name"⟩]))
      (tracesFromAtep (d := interactionDeps) (interactionPayload "name") (fun _ => "")
        (interactionStore 1)) := by
  have hpayload : List.Forall₂ (fun (ev : interactionDeps.Event) (o : Prompt.Map) =>
      interactionPayload "name" ev.payload = jsonToCbor (.object o.1)) [interactionEvent 1]
      [⟨interaction "name", interaction_wellFormed "name"⟩] := .cons rfl .nil
  have hjson : ∀ o ∈ [(⟨interaction "name", interaction_wellFormed "name"⟩ : Prompt.Map)],
      ∀ n : Int, lookup "output" o.1 = some (.number (.int n)) →
        isPlainJson (toString n) = true := by
    intro o ho n hn
    obtain rfl := List.mem_singleton.mp ho
    cases hn
  have hiff := @sourcesAgree_iff plainLines interactionDeps (interactionPayload "name") (fun _ => "")
    isPlainJson (interactionStore 1) [interactionEvent 1] _ read_interaction
    hpayload hjson
  rw [hiff]
  intro o ho
  obtain rfl := List.mem_singleton.mp ho
  refine ⟨⟨read_plainLines rfl, ⟨"t1", rfl⟩, ⟨"agent://acme/foo", rfl⟩, nofun, fun v hv => ?_⟩,
    fun hwide => ?_⟩
  · obtain rfl := Option.some.inj hv
    refine ⟨_, rfl, fun c hc => ?_⟩
    rw [List.mem_singleton.mp hc]
    exact ⟨⟨"delete_account", rfl⟩, trivial⟩
  · exact absurd hwide.choose_spec.1 nofun
/-- A tool call whose name stands under another key fails the file, and is passed over in the
store. -/
theorem not_sourcesAgree :
    ¬ Agree isPlainJson
      (parseTracesJsonl plainLines
        (jsonl plainLines [⟨interaction "tool", interaction_wellFormed "tool"⟩]))
      (tracesFromAtep (d := interactionDeps) (interactionPayload "tool") (fun _ => "")
        (interactionStore 1)) := by
  have hnot : ¬ Accepted plainLines ⟨interaction "tool", interaction_wellFormed "tool"⟩ := by
    intro h
    obtain ⟨items, hitems, hall⟩ := h.toolCalls _ rfl
    obtain ⟨⟨s, hs⟩, -⟩ := hall _ (Prompt.Value.array.inj hitems ▸ List.mem_cons_self)
    cases hs
  obtain ⟨e, he⟩ := parse_refused plainLines (List.mem_singleton.mpr rfl) hnot 0
  unfold parseTracesJsonl tracesFromAtep
  rw [lines_jsonl, he, read_interaction]
  exact id

end Agenomic.Contract.Sources
