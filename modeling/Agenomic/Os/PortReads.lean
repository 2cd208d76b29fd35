import Agenomic.Os.Port

/-!
# What a port proposal is read as

The rendered block is a document whose arguments are scalars as `yamlScalar` writes them.
Each stands for a text if it comes back (`itemValue_iff`), and for a number, null, a
boolean, an inner sequence or another text if it does not; then the contract is refused
or has other arguments.

The command and all arguments but a part of the entrypoint are fixed texts that every
reader takes as such. So it depends on that part alone: **`says_iff`**.
-/

namespace Agenomic.Os

open Lib Detect
open Diff (Yaml)

/-- A text that is read back from where it was written as an item. -/
def ComesBack (r : Reader) (t : String) : Prop :=
  if needsQuotes t then ∀ c ∈ t.toList, r.accepts c = true ∧ r.isBreak c = false
  else t ≠ "-" ∧ r.resolve t = .text

theorem asStr_plain_iff {r : Reader} {t : String} :
    (r.plain t).asStr = some t ↔ r.resolve t = .text := by
  rw [Reader.plain]
  cases r.resolve t with
  | text => exact ⟨fun _ => rfl, fun _ => rfl⟩
  | null | bool | number =>
      constructor
      · intro h
        cases h
      · intro h
        cases h

theorem asStr_quoted (r : Reader) (inner : String) :
    ((Token.quoted inner).value r).bind Yaml.asStr
      = (Quoted.read r.accepts r.isBreak inner.toList).map String.ofList := by
  rw [Token.value]
  cases Quoted.read r.accepts r.isBreak inner.toList <;> rfl

theorem itemValue_plain {r : Reader} {t : String} (ht : t ≠ "-") :
    (Token.plain t).itemValue r = some (r.plain t) := by
  unfold Token.itemValue
  split
  · rename_i h
    exact absurd (Token.plain.inj h) ht
  · rfl

section

variable {r : Reader} (hr : r.Lawful)

include hr

/-- An item that does not come back is no text, or another one. -/
theorem itemValue_iff (t : String) :
    ((scalarToken t).itemValue r).bind Yaml.asStr = some t ↔ ComesBack r t := by
  unfold scalarToken ComesBack
  by_cases hq : needsQuotes t = true
  · rw [if_pos hq, if_pos hq]
    change ((Token.quoted _).value r).bind Yaml.asStr = some t ↔ _
    rw [asStr_quoted, String.toList_ofList,
      ← Quoted.read_escape_eq_some_iff (hr.accepts '\\' (by decide) (by decide)) hr.breaks,
      Option.map_eq_some_iff]
    constructor
    · intro h
      obtain ⟨cs, hcs, rfl⟩ := h
      rw [String.toList_ofList] at hcs ⊢
      exact hcs
    · intro h
      exact ⟨t.toList, h, String.ofList_toList⟩
  · rw [if_neg hq, if_neg hq]
    by_cases hdash : t = "-"
    · subst hdash
      constructor
      · intro h
        cases h
      · intro h
        exact absurd rfl h.1
    · rw [itemValue_plain hdash, Option.bind_some, asStr_plain_iff]
      exact ⟨fun h => ⟨hdash, h⟩, fun h => h.2⟩

/-- Behind a key it stands for the same. -/
theorem value_of_comesBack {t : String} (h : ComesBack r t) :
    (scalarToken t).value r = some (.string t) := by
  have hitem := (itemValue_iff hr t).mpr h
  unfold scalarToken ComesBack at *
  by_cases hq : needsQuotes t = true
  · rw [if_pos hq] at hitem ⊢
    change ((Token.quoted _).value r).bind Yaml.asStr = some t at hitem
    rw [asStr_quoted, Option.map_eq_some_iff] at hitem
    obtain ⟨cs, hcs, rfl⟩ := hitem
    rw [Token.value, hcs]
    rfl
  · rw [if_neg hq] at h ⊢
    rw [Token.value, Reader.plain, h.2]

/-- Texts that are not read as anything else, whatever the reader. -/
theorem comesBack_word {t : String} (ht : isWord t = true) (hq : needsQuotes t = false) :
    ComesBack r t := by
  unfold ComesBack
  rw [hq, if_neg Bool.false_ne_true]
  refine ⟨?_, hr.word t ht⟩
  rintro rfl
  exact absurd ht (by decide)

theorem comesBack_ascii {t : String} (h : t.toList.all (fun c => ' ' ≤ c && c ≤ '~') = true)
    (hq : needsQuotes t = true) : ComesBack r t := by
  unfold ComesBack
  rw [hq, if_pos rfl]
  intro c hc
  have hrange := List.all_eq_true.mp h c hc
  rw [Bool.and_eq_true, decide_eq_true_iff, decide_eq_true_iff] at hrange
  exact ⟨hr.accepts c hrange.1 hrange.2, hr.breaks.ascii c hrange.1 hrange.2⟩

end

/-! ## The document -/

/-- What the rendered document stands for, by what its arguments do. -/
def executionValue (runtime : Option RuntimeKind) (command : String) (args : List Yaml) : Yaml :=
  let empty := Yaml.sequence []
  .mapping [(.string "execution", .mapping
    [(.string "entrypoint", .mapping
      [(.string "kind", .string "command"), (.string "command", .string command),
       (.string "args", .sequence args)]),
     (.string "runtime", .mapping
      [(.string "kind", .string (runtime.getD .binary).label)]),
     (.string "working_directory", .string "."),
     (.string "env", .mapping [(.string "required", empty), (.string "optional", empty)]),
     (.string "permissions", .mapping
      [(.string "filesystem", .mapping [(.string "read", empty), (.string "write", empty)]),
       (.string "network", .mapping [(.string "allow", empty)])])])]

theorem value_executionDocument {r : Reader} (hr : r.Lawful) (runtime : Option RuntimeKind)
    {command : String} (hcommand : ComesBack r command) (args : List String) :
    (executionDocument runtime command args).value r
      = ((args.map scalarToken).mapM (Token.itemValue r)).map
          (executionValue runtime command) := by
  have hdot : (Token.quoted ".").value r = some (.string ".") := by
    have hread := (Quoted.read_escape_eq_some_iff (hr.accepts '\\' (by decide) (by decide))
      hr.breaks ['.']).mpr fun c hc => by
        rw [List.mem_singleton.mp hc]
        exact ⟨hr.accepts '.' (by decide) (by decide), hr.breaks.ascii '.' (by decide) (by decide)⟩
    rw [Token.value]
    change (Quoted.read r.accepts r.isBreak (Quoted.escape ['.'])).map _ = _
    rw [hread]
    rfl
  have hruntime : (runtimeKindBlock runtime).value r
      = some (.string (runtime.getD .binary).label) := by
    cases runtime with
    | none => rw [runtimeKindBlock, Block.value, Token.value, hr.plain_word (by decide)]; rfl
    | some k =>
        rw [runtimeKindBlock, Block.value, Token.value, hr.plain_word (by cases k <;> decide)]
        rfl
  have hempty : emptyList.value r = some (.sequence []) := rfl
  have hkind : (Token.plain "command").value r = some (.string "command") := by
    rw [Token.value, hr.plain_word (by decide)]
  have hword : ∀ t, isWord t = true → r.plain t = .string t := fun t => hr.plain_word
  unfold executionDocument Document.value
  cases hargs : (args.map scalarToken).mapM (Token.itemValue r) with
  | none =>
      simp only [entryValues, Block.value, hkind, value_of_comesBack hr hcommand, hargs]
      rfl
  | some vs =>
      simp only [entryValues, Block.value, hkind, value_of_comesBack hr hcommand, hargs, hruntime,
        hempty, hdot, hword "execution" (by decide), hword "entrypoint" (by decide),
        hword "kind" (by decide), hword "command" (by decide), hword "args" (by decide),
        hword "runtime" (by decide), hword "working_directory" (by decide),
        hword "env" (by decide), hword "required" (by decide), hword "optional" (by decide),
        hword "permissions" (by decide), hword "filesystem" (by decide),
        hword "read" (by decide), hword "write" (by decide), hword "network" (by decide),
        hword "allow" (by decide)]
      rfl

/-- The contract that was derived. -/
def derivedContract (runtime : Option RuntimeKind) (command : String) (args : List String) :
    ExecutionContract where
  entrypoint := ⟨.command, some command, args, none, none⟩
  runtime := ⟨runtime.getD .binary, none⟩
  workingDirectory := "."
  env := ⟨[], []⟩
  permissions := .closed

theorem decode_executionValue (runtime : Option RuntimeKind) (command : String)
    (args : List Yaml) :
    ((executionValue runtime command args).get "execution").bind decodeContract
      = (args.mapM Yaml.asStr).map (derivedContract runtime command) := by
  have hargs : decodeDefault decodeStrings [] (some (.sequence args)) = args.mapM Yaml.asStr := rfl
  cases h : args.mapM Yaml.asStr with
  | none =>
      rw [h] at hargs
      have hentry : decodeEntrypoint (.mapping [(.string "kind", .string "command"),
          (.string "command", .string command), (.string "args", .sequence args)]) = none := by
        change (decodeDefault decodeStrings [] (some (.sequence args))).bind _ = none
        rw [hargs]
        rfl
      change (decodeEntrypoint _).bind _ = none
      rw [hentry]
      rfl
  | some vs =>
      rw [h] at hargs
      have hentry : decodeEntrypoint (.mapping [(.string "kind", .string "command"),
          (.string "command", .string command), (.string "args", .sequence args)])
            = some ⟨.command, some command, vs, none, none⟩ := by
        change (decodeDefault decodeStrings [] (some (.sequence args))).bind _ = _
        rw [hargs]
        rfl
      have hruntime : decodeRuntimeSpec (.mapping
          [(.string "kind", .string (runtime.getD .binary).label)])
            = some ⟨runtime.getD .binary, none⟩ := by
        cases runtime with
        | none => rfl
        | some k => cases k <;> rfl
      change (decodeEntrypoint _).bind _ = _
      rw [hentry]
      change (decodeRuntimeSpec _).bind _ = _
      rw [hruntime]
      rfl

/-! ## What is read -/

theorem mapM_asStr_iff {r : Reader} (hr : r.Lawful) (args : List String) :
    (∃ vs, (args.map scalarToken).mapM (Token.itemValue r) = some vs
        ∧ vs.mapM Yaml.asStr = some args)
      ↔ ∀ a ∈ args, ComesBack r a := by
  induction args with
  | nil => exact ⟨fun _ a ha => absurd ha List.not_mem_nil, fun _ => ⟨[], rfl, rfl⟩⟩
  | cons a rest ih =>
      rw [List.forall_mem_cons, ← ih, ← itemValue_iff hr a]
      constructor
      · intro h
        obtain ⟨vs, hvs, hback⟩ := h
        rw [List.map_cons, List.mapM_cons] at hvs
        cases hv : (scalarToken a).itemValue r with
        | none =>
            rw [hv] at hvs
            cases hvs
        | some v =>
            cases hrest : (rest.map scalarToken).mapM (Token.itemValue r) with
            | none =>
                rw [hv, hrest] at hvs
                cases hvs
            | some ws =>
                rw [hv, hrest] at hvs
                cases hvs
                rw [List.mapM_cons] at hback
                cases hs : v.asStr with
                | none =>
                    rw [hs] at hback
                    cases hback
                | some s =>
                    cases hss : ws.mapM Yaml.asStr with
                    | none =>
                        rw [hs, hss] at hback
                        cases hback
                    | some ss =>
                        rw [hs, hss] at hback
                        cases hback
                        exact ⟨hs, ws, rfl, hss⟩
      · intro h
        obtain ⟨ha, ws, hws, hback⟩ := h
        obtain ⟨v, hv, hs⟩ := Option.bind_eq_some_iff.mp ha
        refine ⟨v :: ws, ?_, ?_⟩
        · rw [List.map_cons, List.mapM_cons, hv, hws]
          rfl
        · rw [List.mapM_cons, hs, hback]
          rfl

/-- What comes of a rendered block: the arguments are the texts their items stand for. -/
theorem fromGenomeYaml_render {r : Reader} (hr : r.Lawful)
    {fromStr : String → Except String Yaml} {refusal : Yaml → String}
    {runtime : Option RuntimeKind} {command : String} {args : List String}
    (hcommand : ComesBack r command) (hne : command ≠ "")
    (hread : Reads r fromStr (executionDocument runtime command args))
    (contract : ExecutionContract) :
    ExecutionContract.fromGenomeYaml fromStr refusal (renderExecutionYaml runtime command args)
        = .ok contract
      ↔ ∃ vs ss, (args.map scalarToken).mapM (Token.itemValue r) = some vs
        ∧ vs.mapM Yaml.asStr = some ss ∧ contract = derivedContract runtime command ss := by
  rw [Reads, value_executionDocument hr runtime hcommand] at hread
  rw [renderExecutionYaml_eq, ExecutionContract.fromGenomeYaml]
  cases hparse : fromStr (executionDocument runtime command args).text with
  | error e =>
      rw [hparse] at hread
      constructor
      · intro h
        cases h
      · intro h
        obtain ⟨vs, ss, hvs, -, -⟩ := h
        rw [hvs] at hread
        cases hread
  | ok v =>
      rw [hparse] at hread
      obtain ⟨vs, hvs, hv⟩ := Option.map_eq_some_iff.mp hread.symm
      have hdecode := decode_executionValue runtime command vs
      rw [hv] at hdecode
      dsimp only [Except.mapError, bind, Except.bind]
      cases hexec : v.get "execution" with
      | none =>
          rw [hexec] at hdecode
          constructor
          · intro h
            cases h
          · intro h
            obtain ⟨ws, ss, hws, hss, -⟩ := h
            rw [hvs] at hws
            cases hws
            rw [hss] at hdecode
            cases hdecode
      | some exec =>
          rw [hexec, Option.bind_some] at hdecode
          dsimp only
          rw [hdecode]
          cases hss : vs.mapM Yaml.asStr with
          | none =>
              constructor
              · intro h
                cases h
              · intro h
                obtain ⟨ws, ss, hws, hss', -⟩ := h
                rw [hvs] at hws
                cases hws
                rw [hss] at hss'
                cases hss'
          | some ss =>
              have hvalid : (derivedContract runtime command ss).validate = .ok () := if_neg hne
              dsimp only [Option.map_some]
              rw [hvalid]
              constructor
              · intro h
                cases h
                exact ⟨vs, ss, hvs, hss, rfl⟩
              · intro h
                obtain ⟨ws, ss', hws, hss', rfl⟩ := h
                rw [hvs] at hws
                cases hws
                rw [hss] at hss'
                cases hss'
                rfl

/-! ## What was derived -/

/-- The part of the entrypoint that is passed on as an argument. -/
def passedOn (detected : DetectedGenome) : Option String :=
  match detected.runtimeKind, detected.entrypoint with
  | some "python", some ep =>
      some (if ':' ∈ ep.toList then
          String.ofList ((ep.toList.takeWhile (· ≠ ':')).takeWhile (· ≠ '.'))
        else ep)
  | some "node", some ep => some ep
  | _, _ => none

/-- The command and the arguments of a detected genome. -/
def derivedEntrypoint (detected : DetectedGenome) : String × List String × List Gap :=
  deriveEntrypoint detected (mapRuntimeKind detected).1

/-- A contract has what was derived, and nothing is opened. -/
structure Says (contract : ExecutionContract) (detected : DetectedGenome) : Prop where
  kind : contract.entrypoint.kind = .command
  command : contract.entrypoint.command = some (derivedEntrypoint detected).1
  args : contract.entrypoint.args = (derivedEntrypoint detected).2.1
  runtime : contract.runtime.kind = (mapRuntimeKind detected).1.getD .binary
  permissions : contract.permissions = .closed
  env : contract.env = ⟨[], []⟩

theorem pythonEntrypoint_eq (ep : String) :
    (pythonEntrypoint ep).1 = "python"
      ∧ ∀ p : String → Prop, p "-m" → ((∀ a ∈ (pythonEntrypoint ep).2, p a)
        ↔ p (if ':' ∈ ep.toList then
            String.ofList ((ep.toList.takeWhile (· ≠ ':')).takeWhile (· ≠ '.'))
          else ep)) := by
  unfold pythonEntrypoint
  cases h : splitFirst ':' ep.toList with
  | some parts =>
      obtain ⟨module, func⟩ := parts
      obtain ⟨hmodule, hsplit⟩ := splitFirst_eq_some_iff.mp h
      have hcolon : ':' ∈ ep.toList := by
        rw [hsplit]
        exact List.mem_append_right module List.mem_cons_self
      have htake : ep.toList.takeWhile (· ≠ ':') = module := by
        have hkeep : ∀ c ∈ module, decide (c ≠ ':') = true := by
          intro c hc
          rw [decide_eq_true_iff]
          rintro rfl
          exact hmodule hc
        rw [hsplit, List.takeWhile_append_of_pos hkeep]
        simp
      refine ⟨rfl, fun p hm => ?_⟩
      rw [if_pos hcolon, htake]
      simp [hm]
  | none =>
      rw [if_neg (splitFirst_eq_none_iff.mp h)]
      by_cases hpy : (stripSuffix? ".py" ep).isSome = true
      · refine ⟨by rw [if_pos hpy], fun p hm => ?_⟩
        rw [if_pos hpy]
        simp
      · refine ⟨by rw [if_neg hpy], fun p hm => ?_⟩
        rw [if_neg hpy]
        simp [hm]

theorem passedOn_eq_none {detected : DetectedGenome}
    (hpython : detected.runtimeKind ≠ some "python") (hnode : detected.runtimeKind ≠ some "node") :
    passedOn detected = none := by
  unfold passedOn
  split
  · rename_i h _
    exact absurd h hpython
  · rename_i h _
    exact absurd h hnode
  · rfl

section

variable {r : Reader} (hr : r.Lawful)

include hr

theorem comesBack_fixed {t : String}
    (ht : t ∈ ["python", "node", "cargo", "-m", "run", "--release", "<command>", "<package>",
      "<script>.js"]) : ComesBack r t := by
  simp only [List.mem_cons, List.not_mem_nil, or_false] at ht
  rcases ht with rfl | rfl | rfl | rfl | rfl | rfl | rfl | rfl | rfl
  · exact comesBack_word hr (by decide) (by decide)
  · exact comesBack_word hr (by decide) (by decide)
  · exact comesBack_word hr (by decide) (by decide)
  · exact comesBack_word hr (by decide) (by decide)
  · exact comesBack_word hr (by decide) (by decide)
  · exact comesBack_word hr (by decide) (by decide)
  · exact comesBack_ascii hr (by decide) (by decide)
  · exact comesBack_ascii hr (by decide) (by decide)
  · exact comesBack_ascii hr (by decide) (by decide)

/-- The command comes back from any reader, and so does every argument that is not a part of
the entrypoint. -/
theorem derivedEntrypoint_cases (detected : DetectedGenome) :
    ComesBack r (derivedEntrypoint detected).1 ∧ (derivedEntrypoint detected).1 ≠ ""
      ∧ ((∀ a ∈ (derivedEntrypoint detected).2.1, ComesBack r a)
        ↔ ∀ t, passedOn detected = some t → ComesBack r t) := by
  have hfixed := @comesBack_fixed r hr
  unfold derivedEntrypoint mapRuntimeKind
  split <;> rename_i hkind
  · unfold passedOn
    cases hep : detected.entrypoint with
    | none => simp [deriveEntrypoint, hkind, hep, hfixed]
    | some ep =>
        obtain ⟨hcommand, hargs⟩ := pythonEntrypoint_eq ep
        have hpassed := hargs (ComesBack r) (hfixed (by decide))
        simp only [deriveEntrypoint, hep, hkind, hcommand]
        refine ⟨hfixed (by decide), by decide, ?_⟩
        rw [hpassed]
        simp
  · unfold passedOn
    cases hep : detected.entrypoint with
    | none => simp [deriveEntrypoint, hkind, hep, hfixed]
    | some ep => simp [deriveEntrypoint, hkind, hep, hfixed]
  · rw [passedOn_eq_none (by simp [hkind]) (by simp [hkind])]
    simp [deriveEntrypoint, hfixed]
  · rename_i hpython hnode hrust
    rw [passedOn_eq_none (fun h => hpython (Option.some.inj (hkind.symm.trans h)))
      (fun h => hnode (Option.some.inj (hkind.symm.trans h)))]
    simp [deriveEntrypoint, hfixed]
  · rw [passedOn_eq_none (by simp [hkind]) (by simp [hkind])]
    simp [deriveEntrypoint, hfixed]

end

/-- **A proposal is read as what was derived** exactly if the part of the entrypoint that is
passed on comes back: written plain it is resolved to a text and is no dash alone, and
quoted it has only characters that may stand there and no line break. -/
theorem says_iff {r : Reader} (hr : r.Lawful) {fromStr : String → Except String Yaml}
    {refusal : Yaml → String} {path : String} {detected : DetectedGenome}
    (hread : Reads r fromStr (executionDocument (mapRuntimeKind detected).1
      (derivedEntrypoint detected).1 (derivedEntrypoint detected).2.1)) :
    (∃ contract, ExecutionContract.fromGenomeYaml fromStr refusal
          (propose path detected).proposedExecutionYaml = .ok contract
        ∧ Says contract detected)
      ↔ ∀ t, passedOn detected = some t → ComesBack r t := by
  obtain ⟨hcommand, hne, hargs⟩ := derivedEntrypoint_cases hr detected
  have hrender := @fromGenomeYaml_render r hr fromStr refusal _ _ _ hcommand hne hread
  rw [← hargs, ← mapM_asStr_iff hr]
  change (∃ contract, ExecutionContract.fromGenomeYaml fromStr refusal
      (renderExecutionYaml (mapRuntimeKind detected).1 (derivedEntrypoint detected).1
        (derivedEntrypoint detected).2.1) = .ok contract ∧ _) ↔ _
  constructor
  · intro h
    obtain ⟨contract, hok, hsays⟩ := h
    obtain ⟨vs, ss, hvs, hss, rfl⟩ := (hrender contract).mp hok
    refine ⟨vs, hvs, ?_⟩
    rw [hss, ← hsays.args]
    rfl
  · intro h
    obtain ⟨vs, hvs, hss⟩ := h
    exact ⟨_, (hrender _).mpr ⟨vs, _, hvs, hss, rfl⟩, rfl, rfl, rfl, rfl, rfl, rfl⟩

/-! ## A reader -/

/-- Null, the booleans and decimal integers; the other numbers are left out. -/
def coreResolve (t : String) : Resolved :=
  if t ∈ ["", "~", "null", "Null", "NULL"] then .null
  else if t ∈ ["true", "True", "TRUE"] then .bool true
  else if t ∈ ["false", "False", "FALSE"] then .bool false
  else if t.toList.all Char.isDigit then .number (.int (ofDecimal t.toList))
  else .text

def coreReader : Reader where
  resolve := coreResolve
  accepts c := c = '\t' || c = '\n' || c = '\r' || !isControl c
  isBreak c := c = '\r' || c = '\n'

theorem coreResolve_word {t : String} (ht : isWord t = true) : coreResolve t = .text := by
  have hnull : t ∉ ["", "~", "null", "Null", "NULL"] := by
    intro h
    simp only [List.mem_cons, List.not_mem_nil, or_false] at h
    rcases h with rfl | rfl | rfl | rfl | rfl <;> exact absurd ht (by decide)
  have htrue : t ∉ ["true", "True", "TRUE"] := by
    intro h
    simp only [List.mem_cons, List.not_mem_nil, or_false] at h
    rcases h with rfl | rfl | rfl <;> exact absurd ht (by decide)
  have hfalse : t ∉ ["false", "False", "FALSE"] := by
    intro h
    simp only [List.mem_cons, List.not_mem_nil, or_false] at h
    rcases h with rfl | rfl | rfl <;> exact absurd ht (by decide)
  have hdigits : ¬ t.toList.all Char.isDigit = true := by
    intro h
    unfold isWord at ht
    rw [Bool.and_eq_true, Bool.and_eq_true, List.all_eq_true] at ht
    cases hcs : t.toList with
    | nil => exact absurd (String.toList_eq_nil_iff.mp hcs) (by simpa using ht.1.1)
    | cons c cs =>
        have hletter := ht.1.2 c (by rw [hcs]; exact List.mem_cons_self)
        have hdigit := List.all_eq_true.mp h c (by rw [hcs]; exact List.mem_cons_self)
        simp only [Bool.or_eq_true, decide_eq_true_eq] at hletter
        rcases hletter with (halpha | rfl) | rfl
        · simp only [Char.isAlpha, Char.isUpper, Char.isLower, Char.isDigit, Bool.or_eq_true,
            Bool.and_eq_true, decide_eq_true_eq, UInt32.le_iff_toNat_le] at halpha hdigit
          simp at halpha hdigit
          omega
        · exact absurd hdigit (by decide)
        · exact absurd hdigit (by decide)
  rw [coreResolve, if_neg hnull, if_neg htrue, if_neg hfalse, if_neg hdigits]

theorem toNat_of_printable {c : Char} (hlo : ' ' ≤ c) (hhi : c ≤ '~') :
    32 ≤ c.toNat ∧ c.toNat ≤ 126 := ⟨hlo, hhi⟩

theorem lawful_coreReader : coreReader.Lawful where
  word _ ht := coreResolve_word ht
  accepts c hlo hhi := by
    obtain ⟨hlo, hhi⟩ := toNat_of_printable hlo hhi
    have hcontrol : isControl c = false := by
      rw [isControl, Bool.or_eq_false_iff, Bool.and_eq_false_iff, decide_eq_false_iff_not,
        decide_eq_false_iff_not]
      omega
    simp [coreReader, hcontrol]
  breaks :=
    { carriageReturn := rfl
      lineFeed := rfl
      ascii := by
        intro c hlo hhi
        obtain ⟨hlo, hhi⟩ := toNat_of_printable hlo hhi
        have hcr : c ≠ '\r' := by
          rintro rfl
          exact absurd hlo (by decide)
        have hlf : c ≠ '\n' := by
          rintro rfl
          exact absurd hlo (by decide)
        simp [coreReader, hcr, hlf] }

/-- A parser that reads this one document. -/
def readsOnly (r : Reader) (doc : Document) (yaml : String) : Except String Yaml :=
  if yaml = doc.text then
    match doc.value r with
    | some v => .ok v
    | none => .error "control characters are not allowed"
  else .error "another document"

theorem reads_readsOnly (r : Reader) (doc : Document) : Reads r (readsOnly r doc) doc := by
  rw [Reads, readsOnly, if_pos rfl]
  cases doc.value r <;> rfl

/-- A package with a script. -/
def agentPackage : DetectedGenome :=
  { DetectedGenome.defaults with
    runtimeKind := some "python"
    entrypoint := some "codedrift.agent:main" }

/-- A Node package whose main file is in a directory `404`. -/
def numberedPackage : DetectedGenome :=
  { DetectedGenome.defaults with
    runtimeKind := some "node"
    entrypoint := some "404" }

/-- The parser at hand for the proposal of a genome. -/
def coreParser (detected : DetectedGenome) : String → Except String Yaml :=
  readsOnly coreReader (executionDocument (mapRuntimeKind detected).1
    (derivedEntrypoint detected).1 (derivedEntrypoint detected).2.1)

theorem says_iff_agentPackage :
    (∃ contract, ExecutionContract.fromGenomeYaml (coreParser agentPackage) (fun _ => "")
          (propose "." agentPackage).proposedExecutionYaml = .ok contract
        ∧ Says contract agentPackage)
      ↔ ∀ t, passedOn agentPackage = some t → ComesBack coreReader t :=
  says_iff lawful_coreReader (reads_readsOnly _ _)

theorem not_says_numberedPackage :
    ¬ ∃ contract, ExecutionContract.fromGenomeYaml (coreParser numberedPackage) (fun _ => "")
          (propose "." numberedPackage).proposedExecutionYaml = .ok contract
        ∧ Says contract numberedPackage := by
  intro h
  obtain ⟨contract, hok, hsays⟩ := h
  obtain ⟨hcommand, hne, -⟩ := derivedEntrypoint_cases lawful_coreReader numberedPackage
  obtain ⟨vs, ss, hvs, hss, rfl⟩ := (fromGenomeYaml_render lawful_coreReader hcommand hne
    (reads_readsOnly _ _) contract).mp hok
  have hback := (mapM_asStr_iff lawful_coreReader ["404"]).mp
    ⟨vs, hvs, hss.trans (congrArg some hsays.args)⟩ "404" List.mem_cons_self
  unfold ComesBack at hback
  rw [if_neg (by decide)] at hback
  exact absurd hback.2 (by decide)

end Agenomic.Os
