import Agenomic.Atep.Replay
import Agenomic.Contract.Replay
import Agenomic.Fs.Walk

/-!
# Reading traces

A replay takes traces from a file of JSON lines or from the interaction events of a store. A
line is decoded strictly: a member that is missing or of the wrong kind fails the file. The
payload of an event is looked into for its members: what is of the wrong kind counts as
missing, a tool call that cannot be decoded is passed over, and an integer that needs more than
64 bits with a sign has become a text.

What went through CBOR and back is known exactly (`viaCbor`), and **a tool call that can be
decoded is decoded to the same** (`decodeToolCall_viaCbor`).
-/

namespace Agenomic.Contract.Sources

open Lib
open Prompt (Members Number)
open Prompt.Value (lookup)

/-! ## Decoding -/

/-- JSON as the checks look at it. -/
def numberText : Number → String
  | .int n => toString n
  | .float _ text => text

mutual

def view : Prompt.Value → Value
  | .null => .null
  | .bool b => .bool b
  | .number n => .number (numberText n)
  | .string s => .string s
  | .array items => .array (viewItems items)
  | .object ms => .object (viewMembers ms)

def viewItems : List Prompt.Value → List Value
  | [] => []
  | v :: rest => view v :: viewItems rest

def viewMembers : Members → List (String × Value)
  | [] => []
  | (k, v) :: rest => (k, view v) :: viewMembers rest

end

/-- A value that may be missing or null. -/
def optional : Option Prompt.Value → Option Value
  | none | some .null => none
  | some v => some (view v)

/-- A flag that may be missing or null. -/
def optionalBool : Option Prompt.Value → Option (Option Bool)
  | none | some .null => some none
  | some (.bool b) => some (some b)
  | some _ => none

/-- Decode a tool call: an object, or a list of its members in order. -/
def decodeToolCall : Prompt.Value → Option ToolCall
  | .object ms => do
      let name ← (lookup "name" ms).bind Prompt.Value.asStr
      let approval ← optionalBool (lookup "human_approval_present" ms)
      some ⟨name, approval⟩
  | .array items =>
      if 4 < items.length then none
      else do
        let name ← items.head?.bind Prompt.Value.asStr
        let approval ← optionalBool items[3]?
        some ⟨name, approval⟩
  | _ => none

/-- Decode the tool calls of a trace; there are none when the member is missing. -/
def decodeToolCalls : Option Prompt.Value → Option (List ToolCall)
  | none => some []
  | some (.array items) => items.mapM decodeToolCall
  | some _ => none

/-- Decode a trace, given what stands for each of its members. -/
def decodeMembers (member : String → Option Prompt.Value) : Option TraceEnvelope := do
  let traceId ← (member "trace_id").bind Prompt.Value.asStr
  let _agentId ← (member "agent_id").bind Prompt.Value.asStr
  let _input ← member "input"
  let toolCalls ← decodeToolCalls (member "tool_calls")
  some { traceId, output := optional (member "output"), toolCalls
         metadata := optional (member "metadata") }

/-- Decode a trace: an object, or a list of its members in order. -/
def decodeTrace : Prompt.Value → Option TraceEnvelope
  | .object ms => decodeMembers fun key => lookup key ms
  | .array items =>
      if 6 < items.length then none
      else decodeMembers fun key =>
        items[["trace_id", "agent_id", "input", "output", "tool_calls", "metadata"].idxOf key]?
  | _ => none

/-! ## Lines -/

/-- How an object is written on a line, and read: the parser gives back what was written, unless it
refuses the line, as one that is nested too deep. -/
structure JsonLines where
  write : Prompt.Map → List Char
  read : List Char → Option Prompt.Value
  back : ∀ o, read (write o) = some (.object o.1) ∨ read (write o) = none
  noBreak : ∀ o, ∀ c ∈ write o, c ≠ '\n' ∧ c ≠ '\r'
  trimmed : ∀ o, Fs.trim (write o) = write o
  nonempty : ∀ o, write o ≠ []

variable (x : JsonLines)

/-- Parse lines of traces, the first of them numbered one above `n`. -/
def parseTraceLines : Nat → List (List Char) → CliResult (List TraceEnvelope)
  | _, [] => .ok []
  | n, line :: rest =>
      if Fs.trim line = [] then parseTraceLines (n + 1) rest
      else
        match (x.read (Fs.trim line)).bind decodeTrace with
        | none => .error (.schema s!"trace line {n + 1}")
        | some t => do
            let more ← parseTraceLines (n + 1) rest
            .ok (t :: more)

/-- Parse a JSONL file of traces. -/
def parseTracesJsonl (text : List Char) : CliResult (List TraceEnvelope) :=
  parseTraceLines x 0 (lines text)

/-- The file with these objects. -/
def jsonl (objects : List Prompt.Map) : List Char :=
  objects.flatMap fun o => x.write o ++ ['\n']

/-! ## Events -/

mutual

/-- The CBOR of a JSON value. -/
def jsonToCbor : Prompt.Value → Atep.Cbor
  | .null => .null
  | .bool b => .bool b
  | .number (.int n) => .integer n
  | .number (.float value text) => .float (some (value, text))
  | .string s => .text s
  | .array items => .array (jsonToCborItems items)
  | .object ms => .map (jsonToCborMembers ms)

def jsonToCborItems : List Prompt.Value → List Atep.Cbor
  | [] => []
  | v :: rest => jsonToCbor v :: jsonToCborItems rest

def jsonToCborMembers : Members → List (Atep.Cbor × Atep.Cbor)
  | [] => []
  | (k, v) :: rest => (.text k, jsonToCbor v) :: jsonToCborMembers rest

end

/-- The tool calls of a payload: those that can be decoded, of a list. -/
def toolCallsOf : Option Prompt.Value → List ToolCall
  | some (.array items) => items.filterMap decodeToolCall
  | _ => []

/-- The trace of a payload; `eventId` is the name of a trace that does not say its own. -/
def traceOfPayload (eventId : String) (payload : Atep.Cbor) : TraceEnvelope :=
  let json := Atep.cborToJson payload
  { traceId := ((json.get "trace_id").bind Prompt.Value.asStr).getD eventId
    output := (json.get "output").map view
    toolCalls := toolCallsOf (json.get "tool_calls")
    metadata := (json.get "metadata").map view }

variable {d : Atep.Deps} (payloadOf : d.Value → Atep.Cbor) (ulid : List.Vector UInt8 16 → String)

/-- The traces of the interaction events of a store. -/
def tracesFromAtep (store : Atep.AtepStore) : CliResult (List TraceEnvelope) := do
  let interactions ← store.readStream d .interaction
  .ok (interactions.map fun ev => traceOfPayload (ulid ev.header.eventId) (payloadOf ev.payload))

/-! ## Through CBOR and back -/

/-- The integer fits in 64 bits with a sign. -/
def Narrow (n : Int) : Prop := -9223372036854775808 ≤ n ∧ n < 9223372036854775808

instance (n : Int) : Decidable (Narrow n) := inferInstanceAs (Decidable (_ ∧ _))

mutual

/-- What becomes of a JSON value on its way through CBOR. -/
def viaCbor : Prompt.Value → Prompt.Value
  | .number (.int n) => if Narrow n then .number (.int n) else .string (toString n)
  | .array items => .array (viaCborItems items)
  | .object ms => .object (viaCborMembers ms)
  | v => v

def viaCborItems : List Prompt.Value → List Prompt.Value
  | [] => []
  | v :: rest => viaCbor v :: viaCborItems rest

def viaCborMembers : Members → Members
  | [] => []
  | (k, v) :: rest => (k, viaCbor v) :: viaCborMembers rest

end

theorem viaCborItems_eq (items : List Prompt.Value) : viaCborItems items = items.map viaCbor := by
  induction items with
  | nil => rfl
  | cons v rest ih => rw [viaCborItems, ih, List.map_cons]

theorem viaCborMembers_eq (ms : Members) :
    viaCborMembers ms = ms.map fun m => (m.1, viaCbor m.2) := by
  induction ms with
  | nil => rfl
  | cons m rest ih => rw [viaCborMembers, ih, List.map_cons]

theorem viewMembers_eq (ms : Members) : viewMembers ms = ms.map fun m => (m.1, view m.2) := by
  induction ms with
  | nil => rfl
  | cons m rest ih => rw [viewMembers, ih, List.map_cons]

/-- A member behind all others stays there. -/
theorem insertMember_last {key : String} (v : Prompt.Value) : ∀ {done : Members},
    (∀ m ∈ done, m.1 < key) → Prompt.PromptError.insertMember key v done = done ++ [(key, v)]
  | [], _ => rfl
  | (k, w) :: rest, h => by
      have hlt : k < key := h (k, w) List.mem_cons_self
      unfold Prompt.PromptError.insertMember
      rw [if_neg hlt.asymm, if_neg hlt.ne',
        insertMember_last v fun m hm => h m (List.mem_cons_of_mem _ hm)]
      rfl

mutual

theorem cborToJson_jsonToCbor : ∀ {v : Prompt.Value}, v.WellFormed →
    Atep.cborToJson (jsonToCbor v) = viaCbor v
  | .null, _ => by rw [jsonToCbor, Atep.cborToJson, viaCbor] <;> simp
  | .bool b, _ => by rw [jsonToCbor, Atep.cborToJson, viaCbor] <;> simp
  | .number (.int n), _ => by
      rw [jsonToCbor, Atep.cborToJson, viaCbor]
      rfl
  | .number (.float value text), _ => by rw [jsonToCbor, Atep.cborToJson, viaCbor] <;> simp
  | .string s, _ => by rw [jsonToCbor, Atep.cborToJson, viaCbor] <;> simp
  | .array items, h => by
      rw [jsonToCbor, Atep.cborToJson, viaCbor, cborToJsonItems_jsonToCborItems h.2]
  | .object ms, h => by
      rw [jsonToCbor, Atep.cborToJson, viaCbor,
        cborToJsonEntries_jsonToCborMembers h.1 h.2 [] (fun m hm => absurd hm List.not_mem_nil)]
      rfl

theorem cborToJsonItems_jsonToCborItems : ∀ {items : List Prompt.Value},
    Prompt.Value.WellFormedItems items →
      Atep.cborToJsonItems (jsonToCborItems items) = viaCborItems items
  | [], _ => by rw [jsonToCborItems, Atep.cborToJsonItems, viaCborItems]
  | v :: rest, h => by
      rw [jsonToCborItems, Atep.cborToJsonItems, viaCborItems, cborToJson_jsonToCbor h.1,
        cborToJsonItems_jsonToCborItems h.2]

theorem cborToJsonEntries_jsonToCborMembers : ∀ {ms : Members},
    (ms.map Prod.fst).Pairwise (· < ·) → Prompt.Value.WellFormedMembers ms → ∀ done : Members,
      (∀ m ∈ done, ∀ key ∈ ms.map Prod.fst, m.1 < key) →
        Atep.cborToJsonEntries (jsonToCborMembers ms) done = done ++ viaCborMembers ms
  | [], _, _, done, _ => by
      rw [jsonToCborMembers, Atep.cborToJsonEntries, viaCborMembers, List.append_nil]
  | (k, v) :: rest, hsorted, h, done, hdone => by
      obtain ⟨hfirst, hrest⟩ := List.pairwise_cons.mp hsorted
      have hbehind : ∀ m ∈ done ++ [(k, viaCbor v)], ∀ key ∈ rest.map Prod.fst, m.1 < key := by
        intro m hm key hkey
        rcases List.mem_append.mp hm with hm | hm
        · exact hdone m hm key (List.mem_cons_of_mem _ hkey)
        · rw [List.mem_singleton.mp hm]
          exact hfirst key hkey
      have hlast : ∀ m ∈ done, m.1 < k := fun m hm => hdone m hm k List.mem_cons_self
      rw [jsonToCborMembers, Atep.cborToJsonEntries, viaCborMembers]
      simp only [Atep.cborKey]
      rw [cborToJson_jsonToCbor h.1, insertMember_last _ hlast,
        cborToJsonEntries_jsonToCborMembers hrest h.2 _ hbehind, List.append_assoc]
      rfl

end

/-- The members of a payload. -/
theorem get_payload (o : Prompt.Map) (key : String) :
    (Atep.cborToJson (jsonToCbor (.object o.1))).get key = (lookup key o.1).map viaCbor := by
  rw [cborToJson_jsonToCbor o.2, viaCbor, viaCborMembers_eq]
  exact Prompt.Value.lookup_map (fun _ v => viaCbor v) key o.1

/-- What is no integer keeps its kind. -/
theorem asStr_viaCbor {v : Prompt.Value} {s : String} (h : v.asStr = some s) :
    (viaCbor v).asStr = some s := by
  cases v with
  | string t =>
      rw [viaCbor]
      · exact h
      all_goals simp
  | null => cases h
  | bool b => cases h
  | number n => cases h
  | array items => cases h
  | object ms => cases h

/-! ## Tool calls -/

theorem optionalBool_viaCbor {v : Option Prompt.Value} {b : Option Bool}
    (h : optionalBool v = some b) : optionalBool (v.map viaCbor) = some b := by
  cases v with
  | none => exact h
  | some v =>
      cases v with
      | null => rw [Option.map_some, viaCbor] <;> first | exact h | simp
      | bool c => rw [Option.map_some, viaCbor] <;> first | exact h | simp
      | number n => cases h
      | string s => cases h
      | array items => cases h
      | object ms => cases h

/-- **A tool call that can be decoded** is decoded to the same when it went through CBOR. -/
theorem decodeToolCall_viaCbor {v : Prompt.Value} {c : ToolCall} (h : decodeToolCall v = some c) :
    decodeToolCall (viaCbor v) = some c := by
  cases v with
  | object ms =>
      rw [decodeToolCall] at h
      obtain ⟨name, hname, h⟩ := Option.bind_eq_some_iff.mp h
      obtain ⟨w, hw, hname⟩ := Option.bind_eq_some_iff.mp hname
      obtain ⟨approval, happroval, h⟩ := Option.bind_eq_some_iff.mp h
      have hmember : ∀ key, lookup key (ms.map fun m => (m.1, viaCbor m.2))
          = (lookup key ms).map viaCbor := fun key =>
        Prompt.Value.lookup_map (fun _ v => viaCbor v) key ms
      rw [viaCbor, viaCborMembers_eq, decodeToolCall, hmember, hmember, hw, Option.map_some,
        Option.bind_some, asStr_viaCbor hname, optionalBool_viaCbor happroval]
      exact h
  | array items =>
      rw [decodeToolCall] at h
      by_cases hlong : 4 < items.length
      · rw [if_pos hlong] at h
        cases h
      · rw [if_neg hlong] at h
        obtain ⟨name, hname, h⟩ := Option.bind_eq_some_iff.mp h
        obtain ⟨w, hw, hname⟩ := Option.bind_eq_some_iff.mp hname
        obtain ⟨approval, happroval, h⟩ := Option.bind_eq_some_iff.mp h
        rw [viaCbor, viaCborItems_eq, decodeToolCall, List.length_map, if_neg hlong,
          List.head?_map, hw, Option.map_some, List.getElem?_map, optionalBool_viaCbor happroval]
        dsimp only [Option.bind_some]
        rw [asStr_viaCbor hname]
        exact h
  | null => cases h
  | bool b => cases h
  | number n => cases h
  | string s => cases h

/-- Tool calls that can all be decoded are decoded to the same when they went through CBOR. -/
theorem decodeToolCalls_viaCbor {v : Option Prompt.Value} {calls : List ToolCall}
    (h : decodeToolCalls v = some calls) : decodeToolCalls (v.map viaCbor) = some calls := by
  have hitems : ∀ (items : List Prompt.Value) (calls : List ToolCall),
      items.mapM decodeToolCall = some calls →
        (items.map viaCbor).mapM decodeToolCall = some calls := by
    intro items
    induction items with
    | nil => exact fun _ h => h
    | cons v rest ih =>
        intro calls h
        rw [List.mapM_cons] at h
        obtain ⟨c, hc, h⟩ := Option.bind_eq_some_iff.mp h
        obtain ⟨more, hmore, h⟩ := Option.bind_eq_some_iff.mp h
        rw [List.map_cons, List.mapM_cons, decodeToolCall_viaCbor hc, ih more hmore]
        exact h
  cases v with
  | none => exact h
  | some v =>
      cases v with
      | array items =>
          rw [Option.map_some, viaCbor, viaCborItems_eq]
          exact hitems items calls h
      | null => cases h
      | bool b => cases h
      | number n => cases h
      | string s => cases h
      | object ms => cases h

/-- No tool call is passed over when all of them can be decoded. -/
theorem toolCallsOf_decoded {v : Option Prompt.Value} {calls : List ToolCall}
    (h : decodeToolCalls v = some calls) : toolCallsOf v = calls := by
  have hitems : ∀ (items : List Prompt.Value) (calls : List ToolCall),
      items.mapM decodeToolCall = some calls → items.filterMap decodeToolCall = calls := by
    intro items
    induction items with
    | nil => exact fun _ h => Option.some.inj h
    | cons v rest ih =>
        intro calls h
        rw [List.mapM_cons] at h
        obtain ⟨c, hc, h⟩ := Option.bind_eq_some_iff.mp h
        obtain ⟨more, hmore, h⟩ := Option.bind_eq_some_iff.mp h
        rw [List.filterMap_cons_some hc, ih more hmore]
        exact Option.some.inj h
  cases v with
  | none => exact Option.some.inj h
  | some v =>
      cases v with
      | array items => exact hitems items calls h
      | null => cases h
      | bool b => cases h
      | number n => cases h
      | string s => cases h
      | object ms => cases h

end Agenomic.Contract.Sources
