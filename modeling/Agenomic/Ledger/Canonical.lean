import Agenomic.Core
import Agenomic.Lib.JsonObject

/-!
# Canonical JSON and the digests over it

What the ledger hashes is the canonical text of a value: fields sorted by the
UTF-16 code units of their names, no white space. `canonicalJson` is the encoder
as the code has it, writing text directly; `canonicalJson_eq` says that text is
the compact text of the value with its fields sorted, so reading canonical JSON
back gives the sorted value.

BLAKE3 and Ed25519 are the parameters of `Crypto`.
-/

namespace Agenomic.Ledger

open Lib

/-- The primitives the ledger is built on, and how public keys are written down. -/
structure Crypto where
  blake3 : Bytes → Bytes
  SigningKey : Type
  VerifyingKey : Type
  verifyingKey : SigningKey → VerifyingKey
  sign : SigningKey → Bytes → Bytes
  verifyStrict : VerifyingKey → Bytes → Bytes → Bool
  keyBytes : VerifyingKey → Bytes
  toPublicKeyPem : VerifyingKey → String
  fromPublicKeyPem : String → Option VerifyingKey

/-- BLAKE3 yields 32 bytes; a signature has 64 and verifies under the key that made it;
a public key is read back from its PEM form. -/
structure Crypto.Correct (c : Crypto) : Prop where
  blake3_length : ∀ m, (c.blake3 m).length = 32
  sign_length : ∀ sk m, (c.sign sk m).length = 64
  verify_sign : ∀ sk m, c.verifyStrict (c.verifyingKey sk) m (c.sign sk m) = true
  pem : ∀ vk, c.fromPublicKeyPem (c.toPublicKeyPem vk) = some vk

/-- BLAKE3 idealised: no two messages share a hash, and none hashes to the genesis constant. -/
structure Crypto.Ideal (c : Crypto) : Prop where
  injective : Function.Injective c.blake3
  ne_genesis : ∀ m, c.blake3 m ≠ List.replicate 32 0

/-- Primitives to exercise the ledger with, over a given hash: keys are names, and a
signature is the start of its key and its message. -/
def Crypto.exercise (blake3 : Bytes → Bytes) : Crypto where
  blake3 := blake3
  SigningKey := String
  VerifyingKey := String
  verifyingKey k := k
  sign k m := (utf8Encode k.toList ++ m ++ List.replicate 64 0).take 64
  verifyStrict k m s := decide (s = (utf8Encode k.toList ++ m ++ List.replicate 64 0).take 64)
  keyBytes k := utf8Encode k.toList
  toPublicKeyPem k := k
  fromPublicKeyPem := some

/-! ## The canonical encoder -/

/-- The UTF-16 code units of a string. -/
def encodeUtf16 (s : String) : List Nat :=
  s.toList.flatMap fun c =>
    if c.toNat < 65536 then [c.toNat]
    else [55296 + (c.toNat - 65536) / 1024, 56320 + (c.toNat - 65536) % 1024]

/-- One name does not come after another in UTF-16 order. -/
def utf16Le (a b : String) : Bool := decide (encodeUtf16 a ≤ encodeUtf16 b)

/-- Texts separated by commas. -/
def joinComma : List (List Char) → List Char
  | [] => []
  | x :: xs => x ++ xs.flatMap fun y => ',' :: y

/-- The texts of the fields of an object, in the order of their names. -/
def sortPieces (ps : List (String × List Char)) : List (String × List Char) :=
  ps.mergeSort fun a b => utf16Le a.1 b.1

mutual

/-- The canonical text of a value. -/
def writeCanonical : Json → List Char
  | .null => ['n', 'u', 'l', 'l']
  | .bool true => ['t', 'r', 'u', 'e']
  | .bool false => ['f', 'a', 'l', 's', 'e']
  | .num n => Json.writeNumber n
  | .str s => Json.writeString s
  | .arr items => '[' :: (joinComma (writeCanonicalItems items) ++ [']'])
  | .obj fields =>
      '{' :: (joinComma ((sortPieces (writeCanonicalFields fields)).map fun p =>
        Json.writeString p.1 ++ ':' :: p.2) ++ ['}'])

/-- The canonical texts of the items of an array. -/
def writeCanonicalItems : List Json → List (List Char)
  | [] => []
  | x :: xs => writeCanonical x :: writeCanonicalItems xs

/-- The canonical texts of the members of an object, each under its name. -/
def writeCanonicalFields : List (String × Json) → List (String × List Char)
  | [] => []
  | (k, v) :: fs => (k, writeCanonical v) :: writeCanonicalFields fs

end

/-- The canonical JSON string used for hashing. -/
def canonicalJson (value : Json) : List Char := writeCanonical value

/-! ## Digests -/

/-- The bytes of an ASCII constant. -/
def asciiBytes (s : String) : Bytes := utf8Encode s.toList

/-- Domain separator for a ledger entry digest. -/
def ledgerEntryDomain : Bytes := asciiBytes "AGENOMIC-LEDGER-ENTRY-v1" ++ [0]

def blake3Tag : String := "blake3:"

def merkleTag : String := "blake3-merkle-v1:"

/-- What the first entry of a chain has for a previous hash. -/
def genesisEntryHash : String := String.ofList (blake3Tag.toList ++ List.replicate 64 '0')

variable (c : Crypto)

/-- Lower-case hex of a digest. -/
def blake3Hex (input : Bytes) : List Char := hexEncode (c.blake3 input)

/-- The content hash of a byte string. -/
def prefixedBlake3 (input : Bytes) : String :=
  String.ofList (blake3Tag.toList ++ blake3Hex c input)

/-- The domain-separated digest of a canonical entry core: what is hashed and signed. -/
def entryDigest (canonicalCore : List Char) : Bytes :=
  c.blake3 (ledgerEntryDomain ++ utf8Encode canonicalCore)

/-- The entry hash of a digest. -/
def entryHashFromDigest (digest : Bytes) : String :=
  String.ofList (blake3Tag.toList ++ hexEncode digest)

/-- The raw bytes of a 32-byte hash, with either tag or none. -/
def hashToBytes (h : String) : CliResult Bytes :=
  let hexstr := ((stripPrefix? blake3Tag h).or (stripPrefix? merkleTag h)).getD h
  match hexDecode hexstr.toList with
  | none => .error (.internal s!"invalid hash hex {h}")
  | some raw => if raw.length = 32 then .ok raw else .error (.internal s!"hash {h} is not 32 bytes")

/-- The leaf at an index: its position and its hash, domain-separated. -/
def merkleLeaf (i : Nat) (raw : Bytes) : Bytes :=
  c.blake3 (asciiBytes "AGENTLOCK-LEAF-v1" ++ [0] ++ utf8Encode (padded 16 i) ++ [0] ++ raw)

/-- The leaves of the tree, from an index on. -/
def merkleLeaves : Nat → List String → CliResult (List Bytes)
  | _, [] => .ok []
  | i, h :: hs => do
      let raw ← hashToBytes h
      let rest ← merkleLeaves (i + 1) hs
      .ok (merkleLeaf c i raw :: rest)

/-- An inner node. -/
def merkleNode (left right : Bytes) : Bytes :=
  c.blake3 (asciiBytes "AGENTLOCK-NODE-v1" ++ [0] ++ left ++ right)

/-- The level above: nodes pairwise, an odd one paired with itself. -/
def merkleLevel : List Bytes → List Bytes
  | [] => []
  | [x] => [merkleNode c x x]
  | x :: y :: rest => merkleNode c x y :: merkleLevel rest

/-- Climb until one node is left. -/
def merkleClimb : Nat → List Bytes → List Bytes
  | 0, nodes => nodes
  | fuel + 1, nodes => if nodes.length ≤ 1 then nodes else merkleClimb fuel (merkleLevel c nodes)

/-- The Merkle root over an ordered list of entry hashes. -/
def merkleRoot (entryHashes : List String) : CliResult String :=
  if entryHashes = [] then
    .ok (String.ofList (merkleTag.toList ++ blake3Hex c (asciiBytes "AGENOMIC-EMPTY-v1" ++ [0])))
  else do
    let nodes ← merkleLeaves c 0 entryHashes
    let root := (merkleClimb c nodes.length nodes).headD []
    .ok (String.ofList (merkleTag.toList ++ hexEncode root))

/-- The hash that commits a JSON payload. -/
def payloadHash (payload : Json) : String :=
  prefixedBlake3 c (utf8Encode (canonicalJson payload))

/-! ## Canonical text is the text of the sorted value -/

mutual

/-- The value with the fields of every object in the order of their names. -/
def sortKeys : Json → Json
  | .arr items => .arr (sortKeysItems items)
  | .obj fields => .obj ((sortKeysFields fields).mergeSort fun a b => utf16Le a.1 b.1)
  | .null => .null
  | .bool b => .bool b
  | .num n => .num n
  | .str s => .str s

def sortKeysItems : List Json → List Json
  | [] => []
  | x :: xs => sortKeys x :: sortKeysItems xs

def sortKeysFields : List (String × Json) → List (String × Json)
  | [] => []
  | (k, v) :: fs => (k, sortKeys v) :: sortKeysFields fs

end

/-- Fields whose values hold no object stay as they are. -/
theorem sortKeysFields_eq_self {fs : List (String × Json)} (h : ∀ f ∈ fs, sortKeys f.2 = f.2) :
    sortKeysFields fs = fs := by
  induction fs with
  | nil => rfl
  | cons f fs ih =>
      obtain ⟨k, v⟩ := f
      have hv : sortKeys v = v := h (k, v) List.mem_cons_self
      rw [sortKeysFields, hv, ih fun g hg => h g (List.mem_cons_of_mem _ hg)]

theorem writeItemsTail_eq (xs : List Json) :
    Json.writeItemsTail xs = (xs.flatMap fun x => ',' :: x.write) ++ [']'] := by
  induction xs with
  | nil => rfl
  | cons x xs ih => rw [Json.writeItemsTail, ih]; simp

theorem writeItems_eq (xs : List Json) :
    Json.writeItems xs = joinComma (xs.map Json.write) ++ [']'] := by
  cases xs with
  | nil => rfl
  | cons x xs =>
      rw [Json.writeItems, writeItemsTail_eq, List.map_cons, joinComma, List.flatMap_map]
      simp

/-- One field of an object as it is written. -/
def fieldText (f : String × Json) : List Char := Json.writeString f.1 ++ ':' :: f.2.write

theorem writeFieldsTail_eq (fs : List (String × Json)) :
    Json.writeFieldsTail fs = (fs.flatMap fun f => ',' :: fieldText f) ++ ['}'] := by
  induction fs with
  | nil => rfl
  | cons f fs ih =>
      obtain ⟨k, v⟩ := f
      rw [Json.writeFieldsTail, ih]
      simp [fieldText]

theorem writeFields_eq (fs : List (String × Json)) :
    Json.writeFields fs = joinComma (fs.map fieldText) ++ ['}'] := by
  cases fs with
  | nil => rfl
  | cons f fs =>
      obtain ⟨k, v⟩ := f
      rw [Json.writeFields, writeFieldsTail_eq, List.map_cons, joinComma, List.flatMap_map]
      simp [fieldText]

theorem sortPieces_map (fs : List (String × Json)) :
    sortPieces (fs.map fun f => (f.1, f.2.write))
      = (fs.mergeSort fun a b => utf16Le a.1 b.1).map fun f => (f.1, f.2.write) := by
  rw [sortPieces, List.map_mergeSort (f := fun f : String × Json => (f.1, f.2.write))
    (s := fun p q : String × List Char => utf16Le p.1 q.1)]
  exact fun _ _ _ _ => rfl

mutual

theorem writeCanonical_eq : ∀ v : Json, writeCanonical v = (sortKeys v).write
  | .null => rfl
  | .bool true => rfl
  | .bool false => rfl
  | .num _ => rfl
  | .str _ => rfl
  | .arr items => by
      rw [writeCanonical, sortKeys, Json.write, writeCanonicalItems_eq items, writeItems_eq]
  | .obj fields => by
      rw [writeCanonical, sortKeys, Json.write, writeCanonicalFields_eq fields, sortPieces_map,
        writeFields_eq, List.map_map]
      rfl

theorem writeCanonicalItems_eq : ∀ xs : List Json,
    writeCanonicalItems xs = (sortKeysItems xs).map Json.write
  | [] => rfl
  | x :: xs => by
      rw [writeCanonicalItems, sortKeysItems, List.map_cons, writeCanonical_eq x,
        writeCanonicalItems_eq xs]

theorem writeCanonicalFields_eq : ∀ fs : List (String × Json),
    writeCanonicalFields fs = (sortKeysFields fs).map fun f => (f.1, f.2.write)
  | [] => rfl
  | (k, v) :: fs => by
      rw [writeCanonicalFields, sortKeysFields, List.map_cons, writeCanonical_eq v,
        writeCanonicalFields_eq fs]

end

/-- **The canonical text of a value is the compact text of the value with its fields sorted.** -/
theorem canonicalJson_eq (v : Json) : canonicalJson v = (sortKeys v).write := writeCanonical_eq v

/-- Values with the same canonical text are the same up to the order of fields. -/
theorem sortKeys_eq_of_canonicalJson_eq {v w : Json} (h : canonicalJson v = canonicalJson w) :
    sortKeys v = sortKeys w := by
  rw [canonicalJson_eq, canonicalJson_eq] at h
  exact Json.write_injective h

end Agenomic.Ledger
