import Agenomic.Prompt.Closure

/-!
# What an accepted bundle resolves

A pin is resolved by its prompt id and its version, which has to be an integer; the
closure of a bundle is checked by references, which are texts. A pin of an accepted
bundle resolves to an entry of its digest when it can be read as an id and a version
and no other pin of its reference has another digest.
-/

namespace Agenomic.Prompt

open Lib Value

/-! ## Pins and their references -/

/-- A pin that can be resolved: it names a prompt and a version. -/
def NamesVersion (pin : Value) (promptId : String) (version : Nat) : Prop :=
  (pin.get "prompt_id").bind asStr = some promptId ∧ PromptBundle.pinVersion pin = some version

theorem parseVersion_decimal {n version : Nat}
    (h : parseVersion (String.ofList (decimal n)) = some version) : version = n := by
  unfold parseVersion at h
  dsimp only at h
  rw [String.toList_ofList, ofDecimal_decimal] at h
  by_cases hok : 1 ≤ (decimal n).length ∧ (decimal n).length ≤ 10
      ∧ (decimal n).head? ≠ some '0' ∧ (decimal n).all Char.isDigit = true ∧ n ≤ maxVersion
  · rw [if_pos hok] at h
    cases h
    rfl
  · rw [if_neg hok] at h
    cases h

/-- The text of a version that is an integer is its decimal. -/
theorem numberText_of_asU64 {v : Value} {n : Nat} (h : v.asU64 = some n) :
    numberText v = String.ofList (decimal n) := by
  cases v with
  | number num =>
      cases num with
      | int i =>
          unfold asU64 at h
          dsimp only at h
          by_cases hi : 0 ≤ i ∧ i < 18446744073709551616
          · rw [if_pos hi] at h
            cases h
            obtain ⟨k, rfl⟩ := Int.eq_ofNat_of_zero_le hi.1
            rfl
          · rw [if_neg hi] at h
            cases h
      | float value text => cases h
  | null => cases h
  | bool b => cases h
  | string s => cases h
  | array items => cases h
  | object members => cases h

/-- The reference of such a pin is the key of its entry. -/
theorem NamesVersion.pinRef_eq {pin : Value} {promptId : String} {version : Nat}
    (h : NamesVersion pin promptId version) : pinRef pin = versionKey promptId version := by
  obtain ⟨hid, hversion⟩ := h
  unfold PromptBundle.pinVersion at hversion
  obtain ⟨n, hn, hparse⟩ := Option.bind_eq_some_iff.mp hversion
  obtain ⟨v, hv, hu⟩ := Option.bind_eq_some_iff.mp hn
  cases parseVersion_decimal hparse
  unfold pinRef versionKey
  rw [hid, hv, Option.map_some, numberText_of_asU64 hu]
  rfl

theorem NamesVersion.isObject {pin : Value} {promptId : String} {version : Nat}
    (h : NamesVersion pin promptId version) : pin.isObject = true := by
  obtain ⟨v, hv, -⟩ := Option.bind_eq_some_iff.mp h.1
  cases pin with
  | object members => rfl
  | null => cases hv
  | bool b => cases hv
  | number n => cases hv
  | string s => cases hv
  | array items => cases hv

/-! ## What the checks of `load` leave -/

variable {p : Primitives}

/-- A document that is loaded passed the checks of its prompts and of its closure. -/
theorem load_ok {document : Value} {o : LoadOptions p} {b : PromptBundle}
    (h : load document o = .ok b) :
    b.document = document ∧ checkPrompts p document = .ok ()
      ∧ checkClosure document = .ok () := by
  unfold load at h
  obtain ⟨_, -, h⟩ := bind_eq_ok.mp h
  obtain ⟨_, -, h⟩ := bind_eq_ok.mp h
  obtain ⟨_, hintegrity, h⟩ := bind_eq_ok.mp h
  obtain ⟨_, -, h⟩ := bind_eq_ok.mp h
  cases h
  unfold checkIntegrity at hintegrity
  obtain ⟨_, -, hintegrity⟩ := bind_eq_ok.mp hintegrity
  obtain ⟨_, hprompts, hintegrity⟩ := bind_eq_ok.mp hintegrity
  obtain ⟨_, -, hintegrity⟩ := bind_eq_ok.mp hintegrity
  obtain ⟨_, -, hintegrity⟩ := bind_eq_ok.mp hintegrity
  obtain ⟨_, hclosure, -⟩ := bind_eq_ok.mp hintegrity
  exact ⟨rfl, hprompts, hclosure⟩

/-- The digest of an entry that was checked is a text. -/
theorem checkPrompt_digest {reference : String} {entry : Value}
    (h : checkPrompt p reference entry = .ok ()) :
    ∃ digest, entry.get "content_digest" = some (.string digest) := by
  unfold checkPrompt at h
  dsimp only at h
  cases hcontent : (entry.get "content").filter isObject with
  | none =>
      rw [hcontent] at h
      cases h
  | some content =>
      rw [hcontent] at h
      dsimp only at h
      cases hactual : promptDigest p content with
      | error e =>
          rw [hactual] at h
          cases h
      | ok actual =>
          rw [hactual] at h
          dsimp only at h
          by_cases hne : actual ≠ ((entry.get "content_digest").bind asStr).getD ""
          · rw [if_pos hne] at h
            cases h
          · -- A digest is not empty, so the text of the entry is not the default.
            have heq := (not_not.mp hne).symm
            cases hdigest : entry.get "content_digest" with
            | none =>
                rw [hdigest] at heq
                exact absurd heq.symm (promptDigest_ne_empty p hactual)
            | some v =>
                rw [hdigest] at heq
                cases v with
                | string s => exact ⟨s, rfl⟩
                | null => exact absurd heq.symm (promptDigest_ne_empty p hactual)
                | bool b => exact absurd heq.symm (promptDigest_ne_empty p hactual)
                | number n => exact absurd heq.symm (promptDigest_ne_empty p hactual)
                | array items => exact absurd heq.symm (promptDigest_ne_empty p hactual)
                | object members => exact absurd heq.symm (promptDigest_ne_empty p hactual)

theorem checkEntries_digest {entries : Members} (h : checkEntries p entries = .ok ()) :
    ∀ e ∈ entries, ∃ digest, e.2.get "content_digest" = some (.string digest) := by
  induction entries with
  | nil => exact fun _ hmem => absurd hmem List.not_mem_nil
  | cons entry rest ih =>
      obtain ⟨reference, v⟩ := entry
      unfold checkEntries at h
      obtain ⟨_, hentry, hrest⟩ := bind_eq_ok.mp h
      intro e he
      rcases List.mem_cons.mp he with rfl | he
      · exact checkPrompt_digest hentry
      · exact ih hrest e he

theorem checkPrompts_digest {document : Value} (h : checkPrompts p document = .ok ()) :
    ∀ e ∈ membersAt document "prompts",
      ∃ digest, e.2.get "content_digest" = some (.string digest) := by
  unfold checkPrompts at h
  unfold membersAt
  cases hprompts : document.objectAt "prompts" with
  | none => exact fun _ hmem => absurd hmem List.not_mem_nil
  | some prompts =>
      rw [hprompts] at h
      intro e he
      exact checkEntries_digest h e ((List.perm_insertionSort _ prompts).mem_iff.mpr he)

/-! ## Resolution -/

/-- The entry that a pin resolves to has the digest of the pin. -/
def Resolves (document pin : Value) : Prop :=
  ∃ promptId version entry, NamesVersion pin promptId version
    ∧ lookup (versionKey promptId version) (membersAt document "prompts") = some entry
    ∧ entry.get "content_digest" = pin.get "content_digest"

/-- A slot of the agent can be looked up, and has the digest of its pin. -/
def SlotResolves (b : PromptBundle) (path : String) : Prop :=
  ∃ pin promptId version versionEntry entry,
    ((b.document.get "manifest").bind fun m => m.objectAt "slots").bind (lookup path) = some pin
    ∧ b.slot path = .ok (promptId, version, versionEntry)
    ∧ lookup (versionKey promptId version) (membersAt b.document "prompts") = some entry
    ∧ entry.get "content_digest" = pin.get "content_digest"

/-- The document of a child is the release that a pin names. -/
def ChildResolves (document : Value) (childId : String) (pin : Value) : Prop :=
  ∃ child, lookup childId (membersAt document "children") = some child
    ∧ same (child.get "release_id") (pin.get "release_id") = true
    ∧ same (child.get "genome_version") (pin.get "genome_version") = true

/-- Every pin of a bundle resolves, and nothing else is in it. -/
structure ResolvesEveryPin (b : PromptBundle) : Prop where
  slots : ∀ path ∈ b.managedSlots, SlotResolves b path
  pins : ∀ pin, ReachPin b.document pin → Resolves b.document pin
  childPins : ∀ childId pin, ChildPin b.document childId pin →
    ChildResolves b.document childId pin
  prompts : ∀ entry ∈ membersAt b.document "prompts",
    ∃ pin, ReachPin b.document pin ∧ pinRef pin = entry.1
  children : ∀ child ∈ membersAt b.document "children", ∃ pin, ChildPin b.document child.1 pin

/-- Every pin of a document names a version, and pins of one reference or of one child agree. -/
structure PinsAgree (document : Value) : Prop where
  named : ∀ pin, ReachPin document pin → ∃ promptId version, NamesVersion pin promptId version
  digests : ∀ pin pin', ReachPin document pin → ReachPin document pin' →
    pinRef pin = pinRef pin' → pin.get "content_digest" = pin'.get "content_digest"
  releases : ∀ childId pin pin', ChildPin document childId pin → ChildPin document childId pin' →
    same (pin.get "release_id") (pin'.get "release_id") = true
      ∧ same (pin.get "genome_version") (pin'.get "genome_version") = true

theorem same_comm {v w : Option Value} (h : same v w = true) : same w v = true :=
  same_iff.mpr (same_iff.mp h).symm

theorem same_trans {u v w : Option Value} (h : same u v = true) (h' : same v w = true) :
    same u w = true :=
  same_iff.mpr ((same_iff.mp h).trans (same_iff.mp h'))

/-- What was compared with its entry has the digest of the entry. -/
theorem digestMatches_eq {entry pin : Value} {digest : String}
    (hdigest : entry.get "content_digest" = some (.string digest))
    (h : digestMatches entry pin = true) :
    entry.get "content_digest" = pin.get "content_digest" := by
  unfold digestMatches at h
  rw [hdigest] at h
  rw [hdigest, same_string.mp h]

/-- The paths of the slots are those of the manifest. -/
theorem mem_managedSlots {b : PromptBundle} {path : String} (h : path ∈ b.managedSlots) :
    ∃ manifest slots pin, b.document.get "manifest" = some manifest
      ∧ manifest.objectAt "slots" = some slots ∧ lookup path slots = some pin := by
  unfold PromptBundle.managedSlots at h
  cases hmanifest : b.document.get "manifest" with
  | none =>
      rw [hmanifest] at h
      exact absurd h List.not_mem_nil
  | some manifest =>
      rw [hmanifest, Option.bind_some] at h
      cases hslots : manifest.objectAt "slots" with
      | none =>
          rw [hslots] at h
          exact absurd h List.not_mem_nil
      | some slots =>
          rw [hslots] at h
          obtain ⟨⟨_, v⟩, hmem, rfl⟩ := List.mem_map.mp h
          obtain ⟨pin, hpin⟩ := lookup_isSome ((List.perm_insertionSort _ slots).mem_iff.mp hmem)
          exact ⟨manifest, slots, pin, rfl, hslots, hpin⟩

/-- A slot whose pin resolves can be looked up. -/
theorem slotResolves_of_resolves {b : PromptBundle} {path : String} {pin : Value}
    (hpin : ((b.document.get "manifest").bind fun m => m.objectAt "slots").bind (lookup path)
      = some pin)
    (h : Resolves b.document pin) : SlotResolves b path := by
  obtain ⟨promptId, version, entry, ⟨hid, hversion⟩, hentry, hdigest⟩ := h
  have hget : b.getEntry promptId version
      = some ⟨(entry.get "prompt_kind").bind asStr, orNull (entry.get "content")⟩ := by
    unfold membersAt at hentry
    unfold PromptBundle.getEntry
    cases hprompts : b.document.objectAt "prompts" with
    | none =>
        rw [hprompts] at hentry
        cases hentry
    | some prompts =>
        rw [hprompts, Option.getD_some] at hentry
        rw [Option.bind_some, hentry]
        rfl
  refine ⟨pin, promptId, version, ⟨(entry.get "prompt_kind").bind asStr,
    orNull (entry.get "content")⟩, entry, hpin, ?_, hentry, hdigest⟩
  unfold PromptBundle.slot
  dsimp only
  rw [hpin]
  dsimp only
  rw [hid, hversion]
  dsimp only
  rw [hget]

/-- **An accepted bundle resolves every pin exactly when its pins agree with one another.** -/
theorem load_resolves_iff {document : Value} {o : LoadOptions p} {b : PromptBundle}
    (h : load document o = .ok b) : ResolvesEveryPin b ↔ PinsAgree document := by
  obtain ⟨hdoc, hprompts, hclosure⟩ := load_ok h
  subst hdoc
  have hdigests := checkPrompts_digest hprompts
  have hexact := checkClosure_exact hclosure
  constructor
  · intro hres
    refine ⟨?_, ?_, ?_⟩
    · intro pin hpin
      obtain ⟨promptId, version, _, hnames, -, -⟩ := hres.pins pin hpin
      exact ⟨promptId, version, hnames⟩
    · intro pin pin' hpin hpin' href
      obtain ⟨_, _, entry, hnames, hentry, hdigest⟩ := hres.pins pin hpin
      obtain ⟨_, _, entry', hnames', hentry', hdigest'⟩ := hres.pins pin' hpin'
      -- Pins of one reference resolve to one entry.
      rw [← hnames.pinRef_eq, href, hnames'.pinRef_eq, hentry'] at hentry
      cases hentry
      exact hdigest.symm.trans hdigest'
    · intro childId pin pin' hpin hpin'
      obtain ⟨child, hchild, hrelease, hgenome⟩ := hres.childPins childId pin hpin
      obtain ⟨child', hchild', hrelease', hgenome'⟩ := hres.childPins childId pin' hpin'
      rw [hchild] at hchild'
      cases hchild'
      exact ⟨same_trans (same_comm hrelease) hrelease', same_trans (same_comm hgenome) hgenome'⟩
  · intro hagree
    have hpins : ∀ pin, ReachPin b.document pin → Resolves b.document pin := by
      intro pin hpin
      obtain ⟨promptId, version, hnames⟩ := hagree.named pin hpin
      -- The reference was compared with the entry for some pin, and all its pins agree.
      obtain ⟨first, entry, hfirst, href, hentry, hmatch, -⟩ :=
        hexact.wanted _ (hexact.pinRef_mem hpin hnames.isObject)
      obtain ⟨digest, hdigest⟩ := hdigests _ (lookup_mem hentry)
      refine ⟨promptId, version, entry, hnames, ?_, ?_⟩
      · rw [← hnames.pinRef_eq]
        exact hentry
      · exact (digestMatches_eq hdigest hmatch).trans (hagree.digests first pin hfirst hpin href)
    refine ⟨?_, hpins, ?_, ?_, ?_⟩
    · intro path hpath
      obtain ⟨manifest, slots, pin, hmanifest, hslots, hpin⟩ := mem_managedSlots hpath
      have hmem : (path, pin) ∈ membersAt manifest "slots" := by
        unfold membersAt
        rw [hslots]
        exact lookup_mem hpin
      refine slotResolves_of_resolves ?_ (hpins pin (.slot (.root hmanifest) hmem))
      rw [hmanifest, Option.bind_some, hslots, Option.bind_some, hpin]
    · intro childId pin hpin
      obtain ⟨manifest, hm, hmem⟩ := hpin
      obtain ⟨first, child, _, hfirst, hchild, -, hok⟩ :=
        hexact.reached childId ((hexact.processed manifest hm).2 _ hmem)
      obtain ⟨hrelease, hgenome⟩ := hagree.releases childId first pin hfirst ⟨manifest, hm, hmem⟩
      unfold consistent at hok
      simp only [Bool.and_eq_true] at hok
      exact ⟨child, hchild, same_trans hok.1.1.2 hrelease, same_trans hok.1.2 hgenome⟩
    · intro entry hentry
      obtain ⟨pin, _, hreach, href, -, -⟩ := hexact.wanted _ (hexact.prompts entry hentry)
      exact ⟨pin, hreach, href⟩
    · intro child hchild
      obtain ⟨pin, _, _, hpin, -, -, -⟩ := hexact.reached _ (hexact.children child hchild)
      exact ⟨pin, hpin⟩

/-! ## Pins of one reference with different digests -/

/-- The digests of a few messages, told apart by their lengths. -/
def exerciseSha256 (message : Bytes) : Bytes :=
  (hexDecode (match message.length with
    | 2 => "44136fa355b3678a1146ad16f7e8649e94fb4fc21fe77e8310c060f61caaff8a"
    | 212 => "e598eb708e42e47f05587e78d0f7b591ea66274641ef052d82a8ee426013adb4"
    | 541 => "b39852bf37e0d64a84e060c1ebe8e9776fc22085c09543eb2ad26ad0aba31e7b"
    | 281 => "d4ad18f73af76a368980d8ec9f8b3b6ace0611597e05359101d6869048947bdf"
    | 610 => "bcee698e917d7072b20b40c4b9edddb10306f4542e8b6e01115d57dac17f2f2c"
    | _ => "").toList).getD []

def exercisePrimitives : Primitives where
  sha256 := exerciseSha256
  blake3 := fun _ => []
  VerifyingKey := Unit
  verifyStrict := fun _ _ _ => false
  base64Decode := fun _ => none
  parseTimestamp := fun _ => none
  findIter := fun _ _ => []

def contentDigest : String :=
  "sha256:44136fa355b3678a1146ad16f7e8649e94fb4fc21fe77e8310c060f61caaff8a"

/-- A pin of the one prompt of the exercise. -/
def exercisePin (digest : String) : Value :=
  .object [("content_digest", .string digest), ("prompt_id", .string "prm_a"),
    ("version", .number (.int 1))]

/-- A bundle with one prompt, for an agent with these slots. -/
def exerciseBundle (slots : Members) (manifestDigest bundleDigest : String) : Value :=
  .object
    [ ("agent_id", .string "agt"), ("children", .object []),
      ("manifest", .object
        [ ("agent_id", .string "agt"), ("children", .object []),
          ("schema", .string manifestSchema), ("slots", .object slots) ]),
      ("prompt_bundle_digest", .string bundleDigest),
      ("prompt_manifest_digest", .string manifestDigest),
      ("prompts", .object [("prm_a:1", .object
        [ ("content", .object []), ("content_digest", .string contentDigest),
          ("prompt_id", .string "prm_a"), ("version", .number (.int 1)) ])]),
      ("release", .object []), ("schema", .string bundleSchema), ("source", .object []),
      ("workspace_id", .string "wsp") ]

def exerciseOptions (bundleDigest : String) : LoadOptions exercisePrimitives where
  expectedWorkspaceId := "wsp"
  expectedAgentId := "agt"
  expectedBundleDigest := some bundleDigest
  expectedManifestDigest := none
  trustKey := none
  allowUngovernedBundle := false
  now := 0

def exerciseDigest : String :=
  "sha256:b39852bf37e0d64a84e060c1ebe8e9776fc22085c09543eb2ad26ad0aba31e7b"

/-- The slot pins the prompt. -/
def exerciseDocument : Value :=
  exerciseBundle [("a.b", exercisePin contentDigest)]
    "sha256:e598eb708e42e47f05587e78d0f7b591ea66274641ef052d82a8ee426013adb4" exerciseDigest

theorem load_exerciseDocument :
    load exerciseDocument (exerciseOptions exerciseDigest) = .ok ⟨exerciseDocument, false⟩ := by
  decide +kernel

theorem load_resolves_iff_exercise :
    ResolvesEveryPin ⟨exerciseDocument, false⟩ ↔ PinsAgree exerciseDocument :=
  load_resolves_iff load_exerciseDocument

def conflictDigest : String :=
  "sha256:bcee698e917d7072b20b40c4b9edddb10306f4542e8b6e01115d57dac17f2f2c"

/-- A second slot pins the prompt with another digest. -/
def conflictDocument : Value :=
  exerciseBundle [("a.b", exercisePin "sha256:00"), ("a.c", exercisePin contentDigest)]
    "sha256:d4ad18f73af76a368980d8ec9f8b3b6ace0611597e05359101d6869048947bdf" conflictDigest

theorem load_conflictDocument :
    load conflictDocument (exerciseOptions conflictDigest) = .ok ⟨conflictDocument, false⟩ := by
  decide +kernel

/-- Only the pin that was reached first is compared with the entry. -/
theorem not_load_resolves :
    ¬ ∀ (p : Primitives) (document : Value) (o : LoadOptions p) (b : PromptBundle),
      load document o = .ok b → ResolvesEveryPin b := by
  intro h
  have hres := h _ _ _ _ load_conflictDocument
  have hpin : ReachPin conflictDocument (exercisePin "sha256:00") :=
    .slot (.root rfl) List.mem_cons_self
  obtain ⟨promptId, version, entry, ⟨hid, hversion⟩, hentry, hdigest⟩ := hres.pins _ hpin
  have hid' : some "prm_a" = some promptId := hid
  have hversion' : some 1 = some version := hversion
  cases hid'
  cases hversion'
  cases hentry
  have heq : some (Value.string contentDigest) = some (.string "sha256:00") := hdigest
  exact absurd heq (by decide)

end Agenomic.Prompt
