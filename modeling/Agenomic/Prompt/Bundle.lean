import Agenomic.Prompt.Refs
import Agenomic.Lib.Worklist

/-!
# Loading a prompt bundle

A bundle holds a manifest whose slots pin prompts, the manifests of child agents, and
the prompts themselves, whose contents pin fragments. `load` checks its shape, its
signature, its digests, and that its closure is exact: what is pinned is there, and
nothing else is. The closure is walked with two sets of what was seen, references of
prompts and ids of children; of the pins that share a reference or an id only the
first one that is reached is compared with what it pins.
-/

namespace Agenomic.Prompt

open Lib Value

structure PromptError where
  code : String
  reason : Option String
  message : String
  details : Members
  deriving DecidableEq

namespace PromptError

/-- Put a member at its place. -/
def insertMember (key : String) (v : Value) : Members → Members
  | [] => [(key, v)]
  | (k, w) :: rest =>
      if key < k then (key, v) :: (k, w) :: rest
      else if key = k then (key, v) :: rest
      else (k, w) :: insertMember key v rest

def new (code message : String) : PromptError := ⟨code, none, message, []⟩

def withDetail (e : PromptError) (key : String) (value : Value) : PromptError :=
  { e with details := insertMember key value e.details }

def withReason (e : PromptError) (reason : String) : PromptError :=
  { e.withDetail "reason" (.string reason) with reason := some reason }

end PromptError

open PromptError (new)

/-- The result of a fallible call. -/
abbrev PromptResult (α : Type) := Except PromptError α

def incomplete (message reason : String) : PromptError :=
  (new "bundle_incomplete" message).withReason reason

/-! ## References -/

/-- The text of a version in a pin. -/
def numberText : Value → String
  | .number n => String.ofList (numberString n)
  | .string s => s
  | other => String.ofList other.write

/-- The reference a pin is known by. -/
def pinRef (pin : Value) : String :=
  ((pin.get "prompt_id").bind asStr).getD "" ++ ":" ++ ((pin.get "version").map numberText).getD ""

/-! ## Shape -/

def bundleSchema : String := "agenomic.prompt_bundle/v1"

def manifestSchema : String := "agenomic.prompt_manifest/v1"

def artifactSetSchema : String := "agenomic.prompt_artifact_set/v1"

inductive Kind where
  | string
  | object
  deriving DecidableEq, Repr

def Kind.matches (k : Kind) (v : Value) : Bool :=
  match k with
  | .string => v.isString
  | .object => v.isObject

def requiredMembers : List (String × Kind) :=
  [ ("workspace_id", .string), ("agent_id", .string), ("source", .object), ("release", .object),
    ("prompt_manifest_digest", .string), ("manifest", .object), ("children", .object),
    ("prompts", .object), ("prompt_bundle_digest", .string) ]

/-- The required members, one by one. -/
def checkMembers (members : Members) : List (String × Kind) → PromptResult Unit
  | [] => .ok ()
  | (member, kind) :: rest =>
      match lookup member members with
      | none => .error ((incomplete s!"missing member {member}" "missing_field").withDetail
          "path" (.string s!"/{member}"))
      | some value =>
          if kind.matches value then checkMembers members rest
          else .error ((incomplete s!"member {member} has the wrong type"
            "invalid_field_type").withDetail "path" (.string s!"/{member}"))

def checkShape (document : Value) : PromptResult Unit :=
  match ensureAjs document with
  | .error e => .error ((incomplete "the bundle is outside the JSON subset" e.reason).withDetail
      "value_path" (.string e.valuePath))
  | .ok () =>
      match document.asObject with
      | none => .error (incomplete "the bundle is not an object" "invalid_field_type")
      | some members =>
          if (lookup "schema" members).bind asStr ≠ some bundleSchema then
            .error (incomplete "unsupported bundle schema" "unsupported_schema")
          else do
            checkMembers members requiredMembers
            let expires := lookup "expires_at" members
            if (lookup "signature" members).isSome ∧ (expires = none ∨ expires = some .null) then
              .error ((incomplete "a signed bundle carries no expires_at" "missing_field").withDetail
                "path" (.string "/expires_at"))
            else .ok ()

/-! ## Signature, prompts and manifests -/

variable (p : Primitives)

/-- The document without its signature. -/
def unsignedDocument : Value → Value
  | .object members => .object (members.filter fun m => m.1 ≠ "signature")
  | v => v

def signingDigest (document : Value) : Bytes :=
  p.blake3 (utf8Encode (canonicalChars (unsignedDocument document)))

def verifySignature (document : Value) (key : p.VerifyingKey) : PromptResult Unit :=
  let invalid := new "bundle_signature_invalid"
  let issuer := document.get "issuer"
  let signature := document.get "signature"
  let wellFormed := issuer.bind (·.get "algorithm") = some (.string "ed25519")
    ∧ signature.bind (·.get "algorithm") = some (.string "ed25519")
  match (signature.bind (·.get "value")).bind asStr with
  | none => .error (invalid "the bundle signature block is malformed")
  | some value =>
      if ¬ wellFormed then .error (invalid "the bundle signature block is malformed")
      else match p.base64Decode value with
        | none => .error (invalid "the bundle signature is not base64")
        | some raw =>
            if raw.length ≠ 64 then .error (invalid "the bundle signature is not 64 bytes")
            else if p.verifyStrict key (signingDigest p document) raw then .ok ()
            else .error (invalid "the bundle signature does not verify")

def parseTimestamp (value : String) : Option Int :=
  if (utf8Encode value.toList).length ≠ 20 then none else p.parseTimestamp value

def checkExpiry (document : Value) (now : Int) : PromptResult Unit :=
  match document.get "expires_at" with
  | none => .ok ()
  | some .null => .ok ()
  | some value =>
      match value.asStr.bind (parseTimestamp p) with
      | none => .error (incomplete "expires_at is not a timestamp" "invalid_field_type")
      | some expiresAt =>
          if expiresAt ≤ now then
            .error ((new "bundle_expired" "the bundle has expired").withDetail "expires_at" value)
          else .ok ()

/-- The digest of one prompt entry. -/
def checkPrompt (reference : String) (entry : Value) : PromptResult Unit :=
  match (entry.get "content").filter isObject with
  | none => .error (incomplete s!"prompt entry {reference} is malformed" "invalid_field_type")
  | some content =>
      let expected := ((entry.get "content_digest").bind asStr).getD ""
      match promptDigest p content with
      | .error e => .error
          (incomplete s!"prompt entry {reference} is outside the JSON subset" e.reason)
      | .ok actual =>
          if actual ≠ expected then
            .error ((((new "prompt_digest_mismatch"
              s!"the content digest of {reference} does not match").withDetail
              "ref" (.string reference)).withDetail
              "expected" (.string expected)).withDetail "actual" (.string actual))
          else .ok ()

/-- The prompt entries, one by one. -/
def checkEntries : Members → PromptResult Unit
  | [] => .ok ()
  | (reference, entry) :: rest => do
      checkPrompt p reference entry
      checkEntries rest

def checkPrompts (document : Value) : PromptResult Unit :=
  match document.objectAt "prompts" with
  | none => .ok ()
  | some prompts => checkEntries p (sortByName prompts)

/-- What the bundle digest covers. -/
def artifactSet (document : Value) : Value :=
  .object
    [ ("children", orNull (document.get "children")), ("manifest", orNull (document.get "manifest")),
      ("prompt_manifest_digest", orNull (document.get "prompt_manifest_digest")),
      ("prompts", orNull (document.get "prompts")), ("schema", .string artifactSetSchema) ]

/-- The pins of the bundle digest, one by one. -/
def checkDigestPins (actual : String) : List String → PromptResult Unit
  | [] => .ok ()
  | pinned :: rest =>
      if actual ≠ pinned then
        .error ((((new "prompt_digest_mismatch"
          "the prompt artifact set digest does not match").withDetail
          "document" (.string "artifact_set")).withDetail
          "expected" (.string pinned)).withDetail "actual" (.string actual))
      else checkDigestPins actual rest

def checkArtifactSet (document : Value) (expected : Option String) : PromptResult Unit :=
  match promptDigest p (artifactSet document) with
  | .error e => .error (incomplete "the artifact set is outside the JSON subset" e.reason)
  | .ok actual =>
      checkDigestPins actual
        (((document.get "prompt_bundle_digest").bind asStr).toList ++ expected.toList)

/-- A manifest with its slots and children. -/
def manifestOk (manifest : Option Value) : Bool :=
  match manifest with
  | none => false
  | some m => decide ((m.get "schema").bind asStr = some manifestSchema)
      && (m.objectAt "slots").isSome && (m.objectAt "children").isSome

/-- A manifest, whose it is and the digest it is pinned with. -/
structure PinnedManifest where
  owner : Option String
  manifest : Option Value
  pinned : Option Value

/-- The manifests of the children. -/
def childManifests : Members → PromptResult (List PinnedManifest)
  | [] => .ok []
  | (childId, child) :: rest =>
      if child.isObject then do
        let more ← childManifests rest
        .ok (⟨some childId, child.get "manifest", child.get "prompt_manifest_digest"⟩ :: more)
      else .error (incomplete s!"child {childId} is malformed" "invalid_field_type")

/-- The digests of the manifests, one by one. -/
def checkManifestDigests : List PinnedManifest → PromptResult Unit
  | [] => .ok ()
  | m :: rest =>
      if manifestOk m.manifest then
        match m.manifest.mapM (promptDigest p) with
        | .error e => .error (incomplete "a manifest is outside the JSON subset" e.reason)
        | .ok actual =>
            if actual.map Value.string ≠ m.pinned then
              .error ((((new "manifest_digest_mismatch" "a manifest digest does not match").withDetail
                "child_agent_id" (optString m.owner)).withDetail
                "expected" (orNull m.pinned)).withDetail "actual" (optString actual))
            else checkManifestDigests rest
      else .error (incomplete "a manifest is malformed" "invalid_field_type")

def checkManifests (document : Value) (expected : Option String) : PromptResult Unit := do
  let children ← childManifests (sortByName (membersAt document "children"))
  checkManifestDigests p
    (⟨none, document.get "manifest", document.get "prompt_manifest_digest"⟩ :: children)
  match expected with
  | none => .ok ()
  | some expected =>
      let actual := (document.get "prompt_manifest_digest").bind asStr
      if actual ≠ some expected then
        .error (((new "manifest_digest_mismatch"
          "the manifest digest differs from the expected digest").withDetail
          "expected" (.string expected)).withDetail "actual" (optString actual))
      else .ok ()

/-! ## The closure -/

/-- The fragments of an entry. -/
def fragmentMembers (entry : Value) : Members :=
  ((entry.get "content").bind fun content => content.objectAt "fragments").getD []

/-- The pins of a manifest's slots that are objects. -/
def slotPins (manifest : Value) : List Value :=
  ((membersAt manifest "slots").map Prod.snd).filter isObject

/-- The pins of an entry's fragments that are objects. -/
def fragmentPins (entry : Value) : List Value :=
  ((fragmentMembers entry).map Prod.snd).filter isObject

/-- The entry has the digest of the pin. -/
def digestMatches (entry pin : Value) : Bool :=
  match entry.get "content_digest" with
  | none => false
  | some digest => same (some digest) (pin.get "content_digest")

/-- The pins behind a pin, on top the last one; none when what it pins is not there. -/
def expandPin (prompts : Members) (pin : Value) : Option (List Value) :=
  match lookup (pinRef pin) prompts with
  | none => none
  | some entry =>
      if entry.isObject && digestMatches entry pin then some (fragmentPins entry).reverse else none

/-- How many pins stand behind a reference. -/
def fragmentCount (prompts : Members) (reference : String) : Nat :=
  ((lookup reference prompts).map fun entry => (fragmentPins entry).length).getD 0

/-- Walk the pins of a manifest: the references that are wanted, and those that are missing. -/
def closureGaps (manifest : Value) (prompts : Members) (wanted missing : List String) :
    List String × List String :=
  let pins := slotPins manifest
  let fuel := pins.length + ((prompts.map Prod.fst).map (fragmentCount prompts)).sum
  let s := Worklist.run pinRef (expandPin prompts) fuel ⟨pins.reverse, wanted, missing⟩
  (s.seen, s.gaps)

/-- The walk over the manifests; the top of the stack is the head of the list. -/
structure Closure where
  pending : List Value
  wanted : List String
  missing : List String
  reached : List String

/-- The child document is what the pin says, and its manifest is the child's own. -/
def consistent (childId : String) (pin child : Value) : Bool :=
  pin.isObject && same (child.get "release_id") (pin.get "release_id")
    && same (child.get "genome_version") (pin.get "genome_version")
    && decide (((child.get "manifest").bind fun m => (m.get "agent_id").bind asStr) = some childId)

/-- Visit one pin of a child. -/
def visitChild (children : Members) (s : Closure) (pinned : String × Value) : Closure :=
  if pinned.1 ∈ s.reached then s
  else
    let s := { s with reached := pinned.1 :: s.reached }
    match lookup pinned.1 children with
    | none => { s with missing := pinned.1 :: s.missing }
    | some child =>
        match child.get "manifest" with
        | none => { s with missing := pinned.1 :: s.missing }
        | some manifest =>
            if consistent pinned.1 pinned.2 child then { s with pending := manifest :: s.pending }
            else { s with missing := pinned.1 :: s.missing }

/-- Visit the manifest on top. -/
def visitManifest (prompts children : Members) (s : Closure) : Closure :=
  match s.pending with
  | [] => s
  | manifest :: rest =>
      let (wanted, missing) := closureGaps manifest prompts s.wanted s.missing
      (membersAt manifest "children").foldl (visitChild children) ⟨rest, wanted, missing, s.reached⟩

def walkManifests (prompts children : Members) : Nat → Closure → Closure
  | 0, s => s
  | fuel + 1, s => walkManifests prompts children fuel (visitManifest prompts children s)

/-- A set of texts in order. -/
def sortedSet (s : List String) : Value :=
  .array ((s.dedup.insertionSort (· ≤ ·)).map .string)

/-- The walk over a whole document. -/
def closureOf (document : Value) : Closure :=
  let children := membersAt document "children"
  walkManifests (membersAt document "prompts") children (children.length + 1)
    ⟨(document.get "manifest").toList, [], [], []⟩

/-- What is there and not wanted, or not under its own reference. -/
def extraEntries (document : Value) : List String :=
  let s := closureOf document
  (((membersAt document "prompts").filter fun e => e.1 ∉ s.wanted ∨ e.1 ≠ pinRef e.2).map Prod.fst)
    ++ ((membersAt document "children").map Prod.fst).filter (· ∉ s.reached)

def checkClosure (document : Value) : PromptResult Unit :=
  let missing := (closureOf document).missing
  let extra := extraEntries document
  if missing = [] ∧ extra = [] then .ok ()
  else .error (((new "bundle_incomplete" "the bundle closure is not exact").withDetail
    "missing" (sortedSet missing)).withDetail "extra" (sortedSet extra))

/-! ## Loading -/

structure LoadOptions where
  expectedWorkspaceId : String
  expectedAgentId : String
  expectedBundleDigest : Option String
  expectedManifestDigest : Option String
  trustKey : Option p.VerifyingKey
  allowUngovernedBundle : Bool
  now : Int

structure PromptBundle where
  document : Value
  signatureVerified : Bool
  deriving DecidableEq

variable {p}

def checkScope (document : Value) (workspaceId agentId : String) : PromptResult Unit :=
  let manifestAgent := ((document.get "manifest").bind (·.get "agent_id")).bind asStr
  if (document.get "workspace_id").bind asStr ≠ some workspaceId
      ∨ (document.get "agent_id").bind asStr ≠ some agentId ∨ manifestAgent ≠ some agentId then
    .error (new "bundle_scope_mismatch" "the bundle belongs to another workspace or agent")
  else .ok ()

def checkIntegrity (document : Value) (o : LoadOptions p) : PromptResult Unit := do
  checkExpiry p document o.now
  checkPrompts p document
  checkArtifactSet p document o.expectedBundleDigest
  checkManifests p document o.expectedManifestDigest
  checkClosure document
  checkScope document o.expectedWorkspaceId o.expectedAgentId

/-- The signature, where one can be checked; without it the digest has to be pinned. -/
def checkAuthenticity (document : Value) (o : LoadOptions p) : PromptResult Bool :=
  match o.trustKey, document.get "signature" with
  | some key, some _ => do
      verifySignature p document key
      .ok true
  | _, _ =>
      if o.expectedBundleDigest = none then
        .error (new "bundle_untrusted_key"
          "the bundle is neither signed by a trusted key nor pinned by digest")
      else .ok false

/-- A signed bundle that is not pinned has to be approved. -/
def checkGovernance (document : Value) (o : LoadOptions p) : PromptResult Unit :=
  if o.expectedBundleDigest = none ∧ o.allowUngovernedBundle = false then
    let governance := document.get "governance"
    if governance.bind (·.get "approved") ≠ some (.bool true) then
      .error ((new "bundle_ungoverned"
        "the signed bundle pins a release that is not approved").withDetail
        "release_status" (orNull (governance.bind (·.get "release_status"))))
    else .ok ()
  else .ok ()

def load (document : Value) (o : LoadOptions p) : PromptResult PromptBundle := do
  checkShape document
  let signatureVerified ← checkAuthenticity document o
  checkIntegrity document o
  checkGovernance document o
  .ok ⟨document, signatureVerified⟩

namespace PromptBundle

/-- The paths of the slots. -/
def managedSlots (b : PromptBundle) : List String :=
  (((b.document.get "manifest").bind fun m => m.objectAt "slots").map sortedKeys).getD []

/-- An entry of the bundle, as the source of fragments. -/
def getEntry (b : PromptBundle) (promptId : String) (version : Nat) : Option VersionEntry :=
  ((b.document.objectAt "prompts").bind (lookup (versionKey promptId version))).map fun entry =>
    ⟨(entry.get "prompt_kind").bind asStr, orNull (entry.get "content")⟩

/-- The version of a pin. -/
def pinVersion (pin : Value) : Option Nat :=
  ((pin.get "version").bind asU64).bind fun version => parseVersion (String.ofList (decimal version))

/-- What a slot resolves to. -/
def slot (b : PromptBundle) (slotPath : String) : PromptResult (String × Nat × VersionEntry) :=
  let missing := (new "slot_not_in_manifest"
    s!"slot {slotPath} is not in the pinned manifest").withDetail "slot_path" (.string slotPath)
  match ((b.document.get "manifest").bind fun m => m.objectAt "slots").bind (lookup slotPath) with
  | none => .error missing
  | some pin =>
      match (pin.get "prompt_id").bind asStr, pinVersion pin with
      | some promptId, some version =>
          match b.getEntry promptId version with
          | some entry => .ok (promptId, version, entry)
          | none => .error missing
      | _, _ => .error missing

end PromptBundle

end Agenomic.Prompt
