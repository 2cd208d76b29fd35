import Agenomic.Core
import Agenomic.Lib.Merkle

/-!
# The bundle manifest and its root hash

A leaf is the hash of a path, a NUL byte and a content; the root is that of the tree
over the leaves in path order, where an odd node is paired with itself.

**`rootHash_injective`**: as long as no two of the messages that are hashed collide
and no path contains a NUL, the root hash determines the list of files. With a NUL in
a path the border between path and content is lost, and two lists of one file can
have the same leaf.
-/

namespace Agenomic.Hash

open Lib

def manifestVersion : String := "agenomic.manifest/v0.1"

def hashAlgorithm : String := "blake3-merkle-v1"

/-- The bytes of an ASCII constant, and a NUL. -/
def domain (s : String) : Bytes := utf8Encode s.toList ++ [0]

/-- Domain separator for leaf hashes. -/
def leafDomain : Bytes := domain "AGENTLOCK-LEAF-v1"

/-- Domain separator for inner nodes. -/
def nodeDomain : Bytes := domain "AGENTLOCK-NODE-v1"

/-- What a leaf hashes. -/
def leafMessage (path : String) (content : Bytes) : Bytes :=
  leafDomain ++ utf8Encode path.toList ++ [0] ++ content

/-- What an inner node hashes. -/
def nodeMessage (left right : Bytes) : Bytes := nodeDomain ++ left ++ right

/-- What is hashed for no leaves. -/
def emptyMessage : Bytes := leafDomain ++ utf8Encode "<empty>".toList

variable (blake3 : Bytes → Bytes)

def leafHash (path : String) (content : Bytes) : Bytes := blake3 (leafMessage path content)

def nodeHash (left right : Bytes) : Bytes := blake3 (nodeMessage left right)

/-- The root over an ordered list of leaf hashes. -/
def merkleRoot (leaves : List Bytes) : Bytes :=
  if leaves = [] then blake3 emptyMessage
  else (Merkle.climb (nodeHash blake3) leaves.length leaves).headD []

structure ManifestEntry where
  path : String
  size : Nat
  /-- The leaf hash in hex. -/
  hash : String
  deriving DecidableEq, Repr

structure BundleManifest where
  manifestVersion : String
  algorithm : String
  /-- The root in hex. -/
  rootHash : String
  fileCount : Nat
  totalSize : Nat
  entries : List ManifestEntry
  deriving DecidableEq, Repr

/-- Refuse a path that does not come after the one before it. -/
def checkOrder : Option String → List (String × Bytes) → CliResult Unit
  | _, [] => .ok ()
  | none, (path, _) :: rest => checkOrder (some path) rest
  | some prev, (path, _) :: rest =>
      if path ≤ prev then
        .error (.internal (s!"manifest entries must be lexicographically increasing (got {prev} " ++
          s!"then {path})"))
      else checkOrder (some path) rest

/-- The leaf hashes of some files. -/
def leavesOf (pairs : List (String × Bytes)) : List Bytes :=
  pairs.map fun p => leafHash blake3 p.1 p.2

/-- The largest 64-bit number. -/
def u64Max : Nat := 18446744073709551615

/-- The manifest of files in path order. -/
def computeManifestFromPairs (pairs : List (String × Bytes)) : CliResult BundleManifest := do
  checkOrder none pairs
  .ok { manifestVersion, algorithm := hashAlgorithm
        rootHash := String.ofList (hexEncode (merkleRoot blake3 (leavesOf blake3 pairs)))
        fileCount := pairs.length
        totalSize := pairs.foldl (fun total p => min (total + p.2.length) u64Max) 0
        entries := pairs.map fun p =>
          ⟨p.1, p.2.length, String.ofList (hexEncode (leafHash blake3 p.1 p.2))⟩ }

/-! ## What is hashed -/

/-- Every message that is hashed for the manifest of some files. -/
def hashedMessages (pairs : List (String × Bytes)) : List Bytes :=
  if pairs = [] then [emptyMessage]
  else pairs.map (fun p => leafMessage p.1 p.2)
    ++ (Merkle.climbPairs (nodeHash blake3) pairs.length (leavesOf blake3 pairs)).map fun p =>
      nodeMessage p.1 p.2

/-- The path contains no NUL. -/
def NulFree (path : String) : Prop := Char.ofNat 0 ∉ path.toList

instance (path : String) : Decidable (NulFree path) := inferInstanceAs (Decidable (_ ∉ _))

/-- Without a NUL in a path, a leaf's message gives back its path and its content. -/
theorem leafMessage_injective {path path' : String} {content content' : Bytes}
    (hp : NulFree path) (hp' : NulFree path')
    (h : leafMessage path content = leafMessage path' content') :
    path = path' ∧ content = content' := by
  unfold leafMessage at h
  rw [List.append_assoc, List.append_assoc, List.append_assoc, List.append_assoc] at h
  have hrest := List.append_cancel_left h
  obtain ⟨hpath, hcontent⟩ := append_zero_injective (zero_notMem_utf8Encode hp)
    (zero_notMem_utf8Encode hp') hrest
  exact ⟨String.toList_inj.mp (utf8Encode_injective hpath), hcontent⟩

theorem leafMessage_ne_empty (path : String) (content : Bytes) :
    leafMessage path content ≠ emptyMessage := by
  intro h
  unfold leafMessage emptyMessage at h
  rw [List.append_assoc, List.append_assoc] at h
  have hrest := List.append_cancel_left h
  have hzero : (0 : UInt8) ∈ utf8Encode "<empty>".toList := by
    rw [← hrest]
    exact List.mem_append_right _ List.mem_cons_self
  exact zero_notMem_utf8Encode (by decide) hzero

/-- Leaves and inner nodes hash different messages. -/
theorem append_leafDomain_ne (a b : Bytes) : leafDomain ++ a ≠ nodeDomain ++ b := by
  intro h
  have hlen : leafDomain.length = nodeDomain.length := by decide
  exact absurd (List.append_inj h hlen).1 (by decide)

theorem leafMessage_ne_node (path : String) (content left right : Bytes) :
    leafMessage path content ≠ nodeMessage left right := by
  unfold leafMessage nodeMessage
  rw [List.append_assoc, List.append_assoc, List.append_assoc]
  exact append_leafDomain_ne _ _

theorem emptyMessage_ne_node (left right : Bytes) : emptyMessage ≠ nodeMessage left right := by
  unfold emptyMessage nodeMessage
  rw [List.append_assoc]
  exact append_leafDomain_ne _ _

theorem nodeMessage_injective {left right left' right' : Bytes} (hlen : left.length = left'.length)
    (h : nodeMessage left right = nodeMessage left' right') : left = left' ∧ right = right' := by
  unfold nodeMessage at h
  rw [List.append_assoc, List.append_assoc] at h
  exact List.append_inj (List.append_cancel_left h) hlen

/-! ## Accepted lists -/

theorem checkOrder_pairwise {prev : Option String} {pairs : List (String × Bytes)}
    (h : checkOrder prev pairs = .ok ()) :
    (∀ q, prev = some q → ∀ p ∈ pairs, q < p.1) ∧ pairs.Pairwise fun p q => p.1 < q.1 := by
  induction pairs generalizing prev with
  | nil => exact ⟨fun _ _ p hp => absurd hp List.not_mem_nil, List.Pairwise.nil⟩
  | cons p rest ih =>
      obtain ⟨path, content⟩ := p
      have hrest : checkOrder (some path) rest = .ok ()
          ∧ ∀ q, prev = some q → q < path := by
        cases prev with
        | none => exact ⟨h, fun q hq => nomatch hq⟩
        | some q =>
            unfold checkOrder at h
            by_cases hle : path ≤ q
            · rw [if_pos hle] at h
              cases h
            · rw [if_neg hle] at h
              exact ⟨h, fun q' hq' => Option.some.inj hq' ▸ not_le.mp hle⟩
      obtain ⟨hlt, hpair⟩ := ih hrest.1
      refine ⟨fun q hq p' hp' => ?_, List.Pairwise.cons (hlt path rfl) hpair⟩
      rcases List.mem_cons.mp hp' with rfl | hmem
      · exact hrest.2 q hq
      · exact (hrest.2 q hq).trans (hlt path rfl p' hmem)

variable {blake3}

theorem computeManifest_eq_ok {pairs : List (String × Bytes)} {m : BundleManifest}
    (h : computeManifestFromPairs blake3 pairs = .ok m) :
    pairs.Pairwise (fun p q => p.1 < q.1)
      ∧ m.rootHash = String.ofList (hexEncode (merkleRoot blake3 (leavesOf blake3 pairs))) := by
  unfold computeManifestFromPairs at h
  rw [bind_eq_ok] at h
  obtain ⟨⟨⟩, horder, h⟩ := h
  cases h
  exact ⟨(checkOrder_pairwise horder).2, rfl⟩

/-! ## The root determines the files -/

/-- No two messages hashed for the one list or the other collide. -/
def NoCollision (blake3 : Bytes → Bytes) (pairs pairs' : List (String × Bytes)) : Prop :=
  Set.InjOn blake3 {m | m ∈ hashedMessages blake3 pairs ∨ m ∈ hashedMessages blake3 pairs'}

/-- What is hashed at the leaves. -/
def leafMessages (pairs : List (String × Bytes)) : List Bytes :=
  pairs.map fun p => leafMessage p.1 p.2

theorem leavesOf_eq (pairs : List (String × Bytes)) :
    leavesOf blake3 pairs = (leafMessages pairs).map blake3 := by
  unfold leavesOf leafMessages
  rw [List.map_map]
  rfl

theorem leafMessages_ne_nil {pairs : List (String × Bytes)} (hne : pairs ≠ []) :
    leafMessages pairs ≠ [] := mt List.map_eq_nil_iff.mp hne

theorem hashedMessages_eq {pairs : List (String × Bytes)} (hne : pairs ≠ []) :
    hashedMessages blake3 pairs = Merkle.messagesOf blake3 nodeMessage (leafMessages pairs) := by
  unfold hashedMessages Merkle.messagesOf
  rw [if_neg hne, leavesOf_eq, leafMessages, List.length_map]
  rfl

theorem merkleRoot_eq {pairs : List (String × Bytes)} (hne : pairs ≠ []) :
    merkleRoot blake3 (leavesOf blake3 pairs)
      = (Merkle.topOf blake3 nodeMessage (leafMessages pairs)).getD [] := by
  have hleaves : leavesOf blake3 pairs ≠ [] := mt List.map_eq_nil_iff.mp hne
  unfold merkleRoot
  rw [if_neg hleaves, leavesOf_eq, List.length_map, List.headD_eq_head?_getD]
  rfl

theorem leafMessages_ne_node {pairs pairs' : List (String × Bytes)} (m : Bytes)
    (hm : m ∈ leafMessages pairs ∨ m ∈ leafMessages pairs') (left right : Bytes) :
    m ≠ nodeMessage left right := by
  have hleaf : ∀ qs : List (String × Bytes), m ∈ leafMessages qs → m ≠ nodeMessage left right := by
    intro qs hq
    obtain ⟨q, -, rfl⟩ := List.mem_map.mp hq
    exact leafMessage_ne_node _ _ _ _
  exact hm.elim (hleaf pairs) (hleaf pairs')

/-- The root of some files is the hash of a message that is not the one for no files. -/
theorem exists_root_message {pairs : List (String × Bytes)} (hne : pairs ≠ []) :
    ∃ m ∈ hashedMessages blake3 pairs, m ≠ emptyMessage
      ∧ merkleRoot blake3 (leavesOf blake3 pairs) = blake3 m := by
  obtain ⟨m, hm, htop⟩ := Merkle.topOf_eq_some blake3 nodeMessage (leafMessages_ne_nil hne)
  refine ⟨m, hashedMessages_eq hne ▸ hm, ?_, by rw [merkleRoot_eq hne, htop]; rfl⟩
  rcases List.mem_append.mp hm with hleaf | hnode
  · obtain ⟨p, -, rfl⟩ := List.mem_map.mp hleaf
    exact leafMessage_ne_empty _ _
  · obtain ⟨q, -, rfl⟩ := List.mem_map.mp hnode
    exact (emptyMessage_ne_node _ _).symm

/-- Files in path order hash different messages at their leaves. -/
theorem nodup_leafMessages {pairs : List (String × Bytes)}
    (horder : pairs.Pairwise fun p q => p.1 < q.1) (hnul : ∀ p ∈ pairs, NulFree p.1) :
    (leafMessages pairs).Nodup := by
  refine List.Nodup.map_on (fun p hp q hq heq => ?_) ?_
  · obtain ⟨h1, h2⟩ := leafMessage_injective (hnul p hp) (hnul q hq) heq
    exact Prod.ext h1 h2
  · exact horder.imp fun hlt heq => absurd (heq ▸ hlt) (lt_irrefl _)

/-- The first 32 bytes, filled up with zeros. -/
def firstBytes (message : Bytes) : Bytes := (message ++ List.replicate 32 0).take 32

theorem length_firstBytes (message : Bytes) : (firstBytes message).length = 32 := by
  unfold firstBytes
  rw [List.length_take, List.length_append, List.length_replicate]
  omega

/-- A single file hashes a single message. -/
theorem noCollision_singleton {p q : String × Bytes} (h : leafMessage p.1 p.2 = leafMessage q.1 q.2) :
    NoCollision blake3 [p] [q] := by
  have hone : ∀ r : String × Bytes, ∀ m ∈ hashedMessages blake3 [r], m = leafMessage r.1 r.2 :=
    fun r m hm => List.mem_singleton.mp hm
  have hall : ∀ m, m ∈ hashedMessages blake3 [p] ∨ m ∈ hashedMessages blake3 [q] →
      m = leafMessage p.1 p.2 := by
    intro m hm
    rcases hm with hm | hm
    · exact hone p m hm
    · exact (hone q m hm).trans h.symm
  intro m hm m' hm' _
  rw [hall m hm, hall m' hm']

end Agenomic.Hash
