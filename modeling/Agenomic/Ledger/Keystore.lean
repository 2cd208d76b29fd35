import Agenomic.Ledger.Canonical

/-!
# The signing-key store

Keys come and go: the first is generated, later ones supersede it by rotation, and
any key but the active one can be revoked. A superseded or revoked key stays in
the manifest, so what it signed can always be checked.

`SigningKeyStore` is what the ledger sees of a keystore; `FileKeyStore` is the one
it ships with. Where the code draws a key from the system's generator, the key is
an argument.

**`Sound`** ties the manifest to the key files; every operation keeps it, and none
takes a public key away (`rotate_spec`, `revoke_spec`).
-/

namespace Agenomic.Ledger

open Lib

/-- The lifecycle of a key. -/
inductive KeyStatus where
  | active | rotated | revoked
  deriving DecidableEq, Repr

/-- The manifest record of a key. -/
structure KeyRecord where
  keyId : String
  pemFile : String
  publicKeyPem : String
  status : KeyStatus
  createdAt : String
  rotatedAt : Option String
  revokedAt : Option String
  deriving DecidableEq, Repr

/-- Signing and key resolution, as the ledger uses them. -/
structure SigningKeyStore (c : Crypto) where
  activeKeyId : CliResult String
  /-- Sign a digest with the active key: its id and the signature in hex. -/
  sign : Bytes → CliResult (String × String)
  verifyingKey : String → CliResult c.VerifyingKey
  keyStatus : String → CliResult KeyStatus

/-- The record once its key is superseded. -/
def KeyRecord.rotate (r : KeyRecord) (now : String) : KeyRecord :=
  { r with status := .rotated, rotatedAt := some now }

/-- The record once its key is no longer trusted. -/
def KeyRecord.revoke (r : KeyRecord) (now : String) : KeyRecord :=
  { r with status := .revoked, revokedAt := some now }

/-- A keystore: its manifest, and the private keys by file name. -/
structure FileKeyStore (c : Crypto) where
  activeKeyId : Option String
  keys : Std.ExtTreeMap String KeyRecord
  pemFiles : Std.ExtTreeMap String c.SigningKey

def ed25519Tag : String := "ed25519:"

variable {c : Crypto}

/-- The short id of a public key: the first eight bytes of its hash. -/
def shortKeyId (vk : c.VerifyingKey) : String :=
  String.ofList (ed25519Tag.toList ++ hexEncode ((c.blake3 (c.keyBytes vk)).take 8))

/-- The file name for a short hex. -/
def pemFileName (shortHex : List Char) : String :=
  String.ofList ("ledger-".toList ++ (shortHex ++ ".pem".toList))

/-- The file a private key is kept in. -/
def keyFileName (keyId : String) : String :=
  pemFileName ((stripPrefix? ed25519Tag keyId).getD keyId).toList

namespace FileKeyStore

/-- No key yet. -/
def empty : FileKeyStore c := ⟨none, ∅, ∅⟩

def record (ks : FileKeyStore c) (keyId : String) : CliResult KeyRecord :=
  match ks.keys[keyId]? with
  | some r => .ok r
  | none => .error (.ledgerKeyStore s!"unknown key {keyId}")

/-- The record of a fresh key. -/
def freshRecord (sk : c.SigningKey) (now : String) : KeyRecord where
  keyId := shortKeyId (c.verifyingKey sk)
  pemFile := keyFileName (shortKeyId (c.verifyingKey sk))
  publicKeyPem := c.toPublicKeyPem (c.verifyingKey sk)
  status := .active
  createdAt := now
  rotatedAt := none
  revokedAt := none

/-- Keep a fresh key and register it. -/
def createKeyFiles (ks : FileKeyStore c) (sk : c.SigningKey) (now : String) :
    FileKeyStore c × String :=
  let keyId := shortKeyId (c.verifyingKey sk)
  ({ ks with
      pemFiles := ks.pemFiles.insert (keyFileName keyId) sk
      keys := ks.keys.insert keyId (freshRecord sk now) }, keyId)

/-- The first key becomes active. -/
def generate (ks : FileKeyStore c) (sk : c.SigningKey) (now : String) :
    CliResult (FileKeyStore c × String) :=
  if ks.activeKeyId.isSome then
    .error (.ledgerKeyStore "an active key already exists; use rotate to supersede it")
  else
    let (ks, keyId) := ks.createKeyFiles sk now
    .ok ({ ks with activeKeyId := some keyId }, keyId)

/-- Replace the record of a known key. -/
def modify (ks : FileKeyStore c) (keyId : String) (f : KeyRecord → KeyRecord) : FileKeyStore c :=
  match ks.keys[keyId]? with
  | some r => { ks with keys := ks.keys.insert keyId (f r) }
  | none => ks

/-- A fresh key becomes active, the one before it stays for what it signed. -/
def rotate (ks : FileKeyStore c) (sk : c.SigningKey) (now : String) :
    CliResult (FileKeyStore c × String) :=
  match ks.activeKeyId with
  | none => .error (.ledgerKeyStore "no active key to rotate; generate one first")
  | some previous =>
      let (ks, keyId) := ks.createKeyFiles sk now
      let ks := ks.modify previous (·.rotate now)
      .ok ({ ks with activeKeyId := some keyId }, keyId)

/-- Mark a key that is not active as untrusted. -/
def revoke (ks : FileKeyStore c) (keyId : String) (now : String) : CliResult (FileKeyStore c) :=
  if ks.activeKeyId = some keyId then
    .error (.ledgerKeyStore s!"{keyId} is the active key; rotate before revoking")
  else do
    let record ← ks.record keyId
    if record.status = .revoked then .error (.ledgerKeyStore s!"{keyId} is already revoked")
    else .ok (ks.modify keyId (·.revoke now))

/-- What the ledger sees of the keystore. -/
def toSigningKeyStore (ks : FileKeyStore c) : SigningKeyStore c where
  activeKeyId :=
    match ks.activeKeyId with
    | some id => .ok id
    | none => .error (.ledgerKeyStore "keystore has no active key")
  sign digest :=
    match ks.activeKeyId with
    | none => .error (.ledgerKeyStore "keystore has no active key")
    | some keyId => do
        let record ← ks.record keyId
        match ks.pemFiles[record.pemFile]? with
        | none => .error (.io record.pemFile "no such file")
        | some sk => .ok (keyId, String.ofList (hexEncode (c.sign sk digest)))
  verifyingKey keyId := do
    let record ← ks.record keyId
    match c.fromPublicKeyPem record.publicKeyPem with
    | some vk => .ok vk
    | none => .error (.ledgerKeyStore s!"parse public key {keyId}")
  keyStatus keyId := do
    let record ← ks.record keyId
    .ok record.status

/-! ## What the operations keep -/

/-- A key id stands for a public key. -/
def Resolves (ks : FileKeyStore c) (keyId : String) (vk : c.VerifyingKey) : Prop :=
  ∃ r, ks.keys[keyId]? = some r ∧ c.fromPublicKeyPem r.publicKeyPem = some vk

/-- The manifest record of a key and its private key belong together. -/
def Holds (ks : FileKeyStore c) (keyId : String) (sk : c.SigningKey) : Prop :=
  ∃ r, ks.keys[keyId]? = some r ∧ keyId = shortKeyId (c.verifyingKey sk)
    ∧ r.pemFile = keyFileName keyId ∧ r.publicKeyPem = c.toPublicKeyPem (c.verifyingKey sk)
    ∧ ks.pemFiles[keyFileName keyId]? = some sk

/-- There is an active key, and every manifest record has its private key. -/
structure Sound (ks : FileKeyStore c) : Prop where
  active : ∃ id sk, ks.activeKeyId = some id ∧ ks.Holds id sk
  holds : ∀ id, id ∈ ks.keys → ∃ sk, ks.Holds id sk

theorem Holds.resolves (hc : c.Correct) {ks : FileKeyStore c} {id : String} {sk : c.SigningKey}
    (h : ks.Holds id sk) : ks.Resolves id (c.verifyingKey sk) := by
  obtain ⟨r, hr, -, -, hpem, -⟩ := h
  exact ⟨r, hr, by rw [hpem, hc.pem]⟩

theorem Resolves.verifyingKey {ks : FileKeyStore c} {id : String} {vk : c.VerifyingKey}
    (h : ks.Resolves id vk) : ks.toSigningKeyStore.verifyingKey id = .ok vk := by
  obtain ⟨r, hr, hvk⟩ := h
  simp only [toSigningKeyStore, record, hr, bind, Except.bind, hvk]

theorem Resolves.keyStatus {ks : FileKeyStore c} {id : String} {vk : c.VerifyingKey}
    (h : ks.Resolves id vk) : ∃ st, ks.toSigningKeyStore.keyStatus id = .ok st := by
  obtain ⟨r, hr, -⟩ := h
  exact ⟨r.status, by simp only [toSigningKeyStore, record, hr, bind, Except.bind]⟩

/-- A sound keystore signs with its active key. -/
theorem Sound.signs {ks : FileKeyStore c} (h : ks.Sound) : ∃ id sk, ks.Holds id sk
    ∧ ks.toSigningKeyStore.activeKeyId = .ok id
    ∧ ∀ m, ks.toSigningKeyStore.sign m = .ok (id, String.ofList (hexEncode (c.sign sk m))) := by
  obtain ⟨id, sk, hid, hholds⟩ := h.active
  refine ⟨id, sk, hholds, by simp only [toSigningKeyStore, hid], fun m => ?_⟩
  obtain ⟨r, hr, -, hfile, -, hsk⟩ := hholds
  simp only [toSigningKeyStore, hid, record, hr, bind, Except.bind, hfile, hsk]

theorem keyFileName_shortKeyId (vk : c.VerifyingKey) :
    keyFileName (shortKeyId vk)
      = pemFileName (hexEncode ((c.blake3 (c.keyBytes vk)).take 8)) := by
  have hstrip := stripPrefix?_append ed25519Tag (hexEncode ((c.blake3 (c.keyBytes vk)).take 8))
  rw [keyFileName, shortKeyId, hstrip]
  exact congrArg pemFileName String.toList_ofList

theorem pemFileName_injective {a b : List Char} (h : pemFileName a = pemFileName b) : a = b :=
  List.append_cancel_right (List.append_cancel_left (String.ofList_injective h))

/-- Key ids name different files. -/
theorem keyFileName_injective {vk vk' : c.VerifyingKey}
    (h : keyFileName (shortKeyId vk) = keyFileName (shortKeyId vk')) :
    shortKeyId vk = shortKeyId vk' := by
  rw [keyFileName_shortKeyId, keyFileName_shortKeyId] at h
  rw [shortKeyId, pemFileName_injective h, shortKeyId]

/-- Replacing a record by one for the same key changes no key. -/
theorem holds_modify {ks : FileKeyStore c} {id : String} (f : KeyRecord → KeyRecord)
    (hf : ∀ r, (f r).pemFile = r.pemFile ∧ (f r).publicKeyPem = r.publicKeyPem) {id' : String}
    {sk : c.SigningKey} (h : ks.Holds id' sk) : (ks.modify id f).Holds id' sk := by
  obtain ⟨r, hr, hid, hfile, hpem, hsk⟩ := h
  rw [modify]
  cases hk : ks.keys[id]? with
  | none => exact ⟨r, hr, hid, hfile, hpem, hsk⟩
  | some r₀ =>
      by_cases he : id = id'
      · subst he
        rw [hr] at hk
        cases hk
        exact ⟨f r, Std.ExtTreeMap.getElem?_insert_self, hid, by rw [(hf r).1, hfile],
          by rw [(hf r).2, hpem], hsk⟩
      · refine ⟨r, ?_, hid, hfile, hpem, hsk⟩
        dsimp only
        rw [Std.ExtTreeMap.getElem?_insert, if_neg (by rw [compare_eq_iff_eq]; exact he), hr]

theorem mem_modify {ks : FileKeyStore c} {id id' : String} {f : KeyRecord → KeyRecord} :
    id' ∈ (ks.modify id f).keys ↔ id' ∈ ks.keys := by
  rw [modify]
  cases hk : ks.keys[id]? with
  | none => rfl
  | some r =>
      dsimp only
      rw [Std.ExtTreeMap.mem_insert, compare_eq_iff_eq]
      constructor
      · rintro (rfl | h)
        · rw [← Std.ExtTreeMap.isSome_getElem?_iff_mem, hk]; rfl
        · exact h
      · exact Or.inr

theorem holds_createKeyFiles_self (ks : FileKeyStore c) (sk : c.SigningKey) (now : String) :
    (ks.createKeyFiles sk now).1.Holds (shortKeyId (c.verifyingKey sk)) sk :=
  ⟨freshRecord sk now, Std.ExtTreeMap.getElem?_insert_self, rfl, rfl, rfl,
    Std.ExtTreeMap.getElem?_insert_self⟩

/-- A key with a fresh id takes the place of no other. -/
theorem holds_createKeyFiles {ks : FileKeyStore c} {sk : c.SigningKey} (now : String)
    (hfresh : shortKeyId (c.verifyingKey sk) ∉ ks.keys) {id : String} {sk' : c.SigningKey}
    (h : ks.Holds id sk') : (ks.createKeyFiles sk now).1.Holds id sk' := by
  obtain ⟨r, hr, hid, hfile, hpem, hsk⟩ := h
  have hne : shortKeyId (c.verifyingKey sk) ≠ id := by
    rintro rfl
    rw [← Std.ExtTreeMap.isSome_getElem?_iff_mem, hr] at hfresh
    exact hfresh rfl
  have hfiles : keyFileName (shortKeyId (c.verifyingKey sk)) ≠ keyFileName id := fun he =>
    hne (by rw [hid] at he ⊢; exact keyFileName_injective he)
  refine ⟨r, ?_, hid, hfile, hpem, ?_⟩
  · simp only [createKeyFiles]
    rw [Std.ExtTreeMap.getElem?_insert, if_neg (by rw [compare_eq_iff_eq]; exact hne), hr]
  · simp only [createKeyFiles]
    rw [Std.ExtTreeMap.getElem?_insert, if_neg (by rw [compare_eq_iff_eq]; exact hfiles), hsk]

theorem mem_createKeyFiles {ks : FileKeyStore c} {sk : c.SigningKey} {now keyId : String}
    (h : keyId ∈ (ks.createKeyFiles sk now).1.keys) :
    keyId = shortKeyId (c.verifyingKey sk) ∨ keyId ∈ ks.keys := by
  rw [createKeyFiles, Std.ExtTreeMap.mem_insert, compare_eq_iff_eq] at h
  exact h.imp Eq.symm fun h => h

/-- The first key makes an empty keystore sound. -/
theorem generate_spec {ks ks' : FileKeyStore c} {sk : c.SigningKey} {now id : String}
    (hempty : ks.keys = ∅) (h : ks.generate sk now = .ok (ks', id)) : ks'.Sound := by
  rw [generate] at h
  split at h
  · cases h
  · cases h
    refine ⟨⟨_, sk, rfl, holds_createKeyFiles_self ks sk now⟩, fun id hid => ?_⟩
    rcases mem_createKeyFiles hid with rfl | hid
    · exact ⟨sk, holds_createKeyFiles_self ks sk now⟩
    · rw [hempty] at hid
      exact absurd hid Std.ExtTreeMap.not_mem_empty

/-- **Rotation to a key with a fresh id keeps the keystore sound and every key in it.** -/
theorem rotate_spec {ks ks' : FileKeyStore c} {sk : c.SigningKey} {now id : String}
    (hs : ks.Sound) (hfresh : shortKeyId (c.verifyingKey sk) ∉ ks.keys)
    (h : ks.rotate sk now = .ok (ks', id)) :
    ks'.Sound ∧ ∀ id sk', ks.Holds id sk' → ks'.Holds id sk' := by
  rw [rotate] at h
  cases hact : ks.activeKeyId with
  | none => rw [hact] at h; cases h
  | some previous =>
      rw [hact] at h
      cases h
      have hkept : ∀ id sk', ks.Holds id sk' →
          ((ks.createKeyFiles sk now).1.modify previous (·.rotate now)).Holds id sk' := fun id sk' h =>
        holds_modify (·.rotate now) (fun _ => ⟨rfl, rfl⟩) (holds_createKeyFiles now hfresh h)
      have hself : ((ks.createKeyFiles sk now).1.modify previous (·.rotate now)).Holds
          (shortKeyId (c.verifyingKey sk)) sk :=
        holds_modify (·.rotate now) (fun _ => ⟨rfl, rfl⟩) (holds_createKeyFiles_self ks sk now)
      refine ⟨⟨⟨_, sk, rfl, hself⟩, fun id hid => ?_⟩, hkept⟩
      rcases mem_createKeyFiles (mem_modify.mp hid) with rfl | hid
      · exact ⟨sk, hself⟩
      · obtain ⟨sk', hsk'⟩ := hs.holds id hid
        exact ⟨sk', hkept id sk' hsk'⟩

/-- **Revocation keeps the keystore sound and every key in it.** -/
theorem revoke_spec {ks ks' : FileKeyStore c} {keyId now : String} (hs : ks.Sound)
    (h : ks.revoke keyId now = .ok ks') :
    ks'.Sound ∧ ∀ id sk, ks.Holds id sk → ks'.Holds id sk := by
  rw [revoke] at h
  split at h
  · cases h
  · rw [bind_eq_ok] at h
    obtain ⟨r, -, h⟩ := h
    split at h
    · cases h
    · cases h
      have hkept : ∀ id sk, ks.Holds id sk →
          (ks.modify keyId (·.revoke now)).Holds id sk :=
        fun id sk h => holds_modify (·.revoke now) (fun _ => ⟨rfl, rfl⟩) h
      have hactive : (ks.modify keyId (·.revoke now)).activeKeyId = ks.activeKeyId := by
        rw [modify]; split <;> rfl
      obtain ⟨id, sk, hid, hholds⟩ := hs.active
      refine ⟨⟨⟨id, sk, by rw [hactive, hid], hkept id sk hholds⟩, fun id hid => ?_⟩, hkept⟩
      obtain ⟨sk, hsk⟩ := hs.holds id (mem_modify.mp hid)
      exact ⟨sk, hkept id sk hsk⟩

end FileKeyStore

end Agenomic.Ledger
