import Agenomic.Ledger.Keystore
import Agenomic.Lib.Effects
import Agenomic.Lib.Run

/-!
# The life of keys, when files fail

A call on the keystore changes the manifest in memory in steps and saves it at the end.
Where the save fails nothing is taken back: the key that was drawn signs from memory, and
is unknown after the next start.

**`good_iff`** says when the keystore keeps its word all the same: exactly when no manifest
that a call has changed fails to be saved, and no rotation draws the id it is to supersede.
A file operation that fails before the save does no harm.
-/

namespace Agenomic.Ledger

open Lib

variable {c : Crypto}

/-! ## Memory and files -/

/-- What the key manifest says. -/
structure KeysManifest where
  activeKeyId : Option String
  keys : Std.ExtTreeMap String KeyRecord

/-- The files of a keystore. A manifest that is there is one this code wrote. -/
structure KeyDir (c : Crypto) where
  manifest : Option KeysManifest
  pemFiles : Std.ExtTreeMap String c.SigningKey
  pubFiles : Std.ExtTreeMap String String

/-- A keystore that is open: its manifest in memory, over its files. -/
structure OpenKeyStore (c : Crypto) where
  memory : KeysManifest
  dir : KeyDir c

/-- The file operations of the calls. -/
inductive KeyFileOp where
  | writePem | secretMode | writePub | loadPem | renamePem | renamePub | readPub | saveManifest
  deriving DecidableEq, Repr

/-- How the file operations of a call end: what the system says of one that fails. -/
abbrev KeyIo := KeyFileOp → Option String

/-- A call on an open keystore. -/
abbrev KeyProg (c : Crypto) (α : Type) := Prog (OpenKeyStore c) CliError α

def keysManifestFile : String := "keys-manifest.json"

/-- The name a key is drawn under, before its id is known. -/
def keygenPem : String := ".ledger-keygen.pem"

def keygenPub : String := ".ledger-keygen.pem.pub"

/-- Every file operation before the save takes effect. -/
def KeyIo.Creates (io : KeyIo) : Prop := ∀ op, op ≠ .saveManifest → io op = none

namespace KeysManifest

def empty : KeysManifest := ⟨none, ∅⟩

def record (m : KeysManifest) (keyId : String) : CliResult KeyRecord :=
  match m.keys[keyId]? with
  | some r => .ok r
  | none => .error (.ledgerKeyStore s!"unknown key {keyId}")

/-- Register a record. -/
def insert (m : KeysManifest) (r : KeyRecord) : KeysManifest :=
  { m with keys := m.keys.insert r.keyId r }

/-- Replace the record of a known key. -/
def modify (m : KeysManifest) (keyId : String) (f : KeyRecord → KeyRecord) : KeysManifest :=
  match m.keys[keyId]? with
  | some r => { m with keys := m.keys.insert keyId (f r) }
  | none => m

end KeysManifest

/-- The manifest a start finds. -/
def KeyDir.saved (d : KeyDir c) : KeysManifest := d.manifest.getD .empty

namespace OpenKeyStore

/-- Open the keystore in a directory. -/
def «open» (d : KeyDir c) : OpenKeyStore c := ⟨d.saved, d⟩

/-- What the ledger sees of it. -/
def toFileKeyStore (s : OpenKeyStore c) : FileKeyStore c :=
  ⟨s.memory.activeKeyId, s.memory.keys, s.dir.pemFiles⟩

/-- One file operation, which takes effect or fails. -/
def fileOp (io : KeyIo) (op : KeyFileOp) (path : String) (f : KeyDir c → KeyDir c) : KeyProg c Unit :=
  match io op with
  | some e => Prog.throw (.io path e)
  | none => Prog.modify fun s => { s with dir := f s.dir }

/-- What a file holds, for an operation on a path. -/
def found {α : Type} (path name : String) (files : KeyDir c → Std.ExtTreeMap String α) :
    KeyProg c α := do
  let s ← Prog.get
  match (files s.dir)[name]? with
  | some a => pure a
  | none => Prog.throw (.io path "no such file")

/-- Write a fresh key and its public half. -/
def generateSigningKey (io : KeyIo) (sk : c.SigningKey) : KeyProg c Unit := do
  fileOp io .writePem keygenPem fun d => { d with pemFiles := d.pemFiles.insert keygenPem sk }
  fileOp io .secretMode keygenPem id
  fileOp io .writePub keygenPub fun d =>
    { d with pubFiles := d.pubFiles.insert keygenPub (c.toPublicKeyPem (c.verifyingKey sk)) }

def loadSigningKey (io : KeyIo) (path : String) : KeyProg c c.SigningKey := do
  fileOp io .loadPem path id
  found path path KeyDir.pemFiles

/-- Key files under their own name, and the manifest record. -/
def createKeyFiles (io : KeyIo) (sk : c.SigningKey) (now : String) : KeyProg c String := do
  generateSigningKey io sk
  let sk ← loadSigningKey io keygenPem
  let keyId := shortKeyId (c.verifyingKey sk)
  let pemFile := keyFileName keyId
  let sk ← found pemFile keygenPem KeyDir.pemFiles
  fileOp io .renamePem pemFile fun d =>
    { d with pemFiles := (d.pemFiles.erase keygenPem).insert pemFile sk }
  let finalPub := pemFile ++ ".pub"
  let pub ← found finalPub keygenPub KeyDir.pubFiles
  fileOp io .renamePub finalPub fun d =>
    { d with pubFiles := (d.pubFiles.erase keygenPub).insert finalPub pub }
  fileOp io .readPub finalPub id
  let publicKeyPem ← found finalPub finalPub KeyDir.pubFiles
  let record : KeyRecord := ⟨keyId, pemFile, publicKeyPem, .active, now, none, none⟩
  Prog.modify fun s => { s with memory := s.memory.insert record }
  pure keyId

/-- Write the manifest, all of it or nothing. -/
def save (io : KeyIo) : KeyProg c Unit := do
  let s ← Prog.get
  fileOp io .saveManifest keysManifestFile fun d => { d with manifest := some s.memory }

def setActive (keyId : String) : KeyProg c Unit :=
  Prog.modify fun s => { s with memory := { s.memory with activeKeyId := some keyId } }

/-- The first key becomes active. -/
def generate (io : KeyIo) (sk : c.SigningKey) (now : String) : KeyProg c String := do
  let s ← Prog.get
  if s.memory.activeKeyId.isSome then
    Prog.throw (.ledgerKeyStore "an active key already exists; use rotate to supersede it")
  else
    let keyId ← createKeyFiles io sk now
    setActive keyId
    save io
    pure keyId

/-- A fresh key becomes active, the one before it stays for what it signed. -/
def rotate (io : KeyIo) (sk : c.SigningKey) (now : String) : KeyProg c String := do
  let s ← Prog.get
  match s.memory.activeKeyId with
  | none => Prog.throw (.ledgerKeyStore "no active key to rotate; generate one first")
  | some previous =>
      let keyId ← createKeyFiles io sk now
      Prog.modify fun s => { s with memory := s.memory.modify previous (·.rotate now) }
      setActive keyId
      save io
      pure keyId

/-- Mark a key that is not active as untrusted. -/
def revoke (io : KeyIo) (keyId : String) (now : String) : KeyProg c Unit := do
  let s ← Prog.get
  if s.memory.activeKeyId = some keyId then
    Prog.throw (.ledgerKeyStore s!"{keyId} is the active key; rotate before revoking")
  else
    let record ← Prog.ofExcept (s.memory.record keyId)
    if record.status = .revoked then
      Prog.throw (.ledgerKeyStore s!"{keyId} is already revoked")
    else
      Prog.modify fun s => { s with memory := s.memory.modify keyId (·.revoke now) }
      save io

/-- Sign a digest with the active key. -/
def sign (io : KeyIo) (digest : Bytes) : KeyProg c (String × String) := do
  let s ← Prog.get
  match s.memory.activeKeyId with
  | none => Prog.throw (.ledgerKeyStore "keystore has no active key")
  | some keyId =>
      let record ← Prog.ofExcept (s.memory.record keyId)
      let sk ← loadSigningKey io record.pemFile
      pure (keyId, String.ofList (hexEncode (c.sign sk digest)))

/-! ## What each call comes to -/

variable {io : KeyIo} {s s' : OpenKeyStore c}

theorem ends_fileOp {op : KeyFileOp} {path : String} {f : KeyDir c → KeyDir c}
    {post : Post (OpenKeyStore c) CliError Unit} : Prog.Ends (fileOp io op path f) post s
      ↔ (∀ e, io op = some e → post.error (.io path e) s)
        ∧ (io op = none → post.ok () { s with dir := f s.dir }) := by
  unfold fileOp
  cases hio : io op with
  | none => simp
  | some e => simp

/-- An operation before the save fails only where not all of them take effect. -/
theorem ends_create {op : KeyFileOp} {path : String} {f : KeyDir c → KeyDir c}
    {post : Post (OpenKeyStore c) CliError Unit} (hop : op ≠ .saveManifest)
    (herror : ∀ e, ¬io.Creates → post.error e s)
    (hok : io op = none → post.ok () { s with dir := f s.dir }) :
    Prog.Ends (fileOp io op path f) post s := by
  rw [ends_fileOp]
  refine ⟨fun e he => herror _ fun hall => ?_, hok⟩
  rw [hall op hop] at he
  cases he

theorem ends_found {α : Type} {path name : String} {files : KeyDir c → Std.ExtTreeMap String α}
    {post : Post (OpenKeyStore c) CliError α} (a : α) (h : (files s.dir)[name]? = some a)
    (hok : post.ok a s) : Prog.Ends (found path name files) post s := by
  unfold found
  rw [Prog.ends_bind, Prog.ends_get]
  dsimp only
  rw [h]
  exact hok

/-- Neither the manifest in memory nor the one on disk has changed. -/
def SameManifests (s s' : OpenKeyStore c) : Prop :=
  s'.memory = s.memory ∧ s'.dir.manifest = s.dir.manifest

theorem generateSigningKey_ends (io : KeyIo) (sk : c.SigningKey) (s : OpenKeyStore c) :
    Prog.Ends (generateSigningKey io sk)
      ⟨fun _ s' => (io .writePem = none ∧ io .secretMode = none ∧ io .writePub = none)
          ∧ s'.dir.pemFiles[keygenPem]? = some sk
          ∧ s'.dir.pubFiles[keygenPub]? = some (c.toPublicKeyPem (c.verifyingKey sk))
          ∧ SameManifests s s',
        fun _ s' => ¬io.Creates ∧ SameManifests s s', fun _ => False⟩ s := by
  unfold generateSigningKey
  rw [Prog.ends_bind]
  refine ends_create (by decide) (fun _ h => ⟨h, rfl, rfl⟩) fun hwrite => ?_
  dsimp only
  rw [Prog.ends_bind]
  refine ends_create (by decide) (fun _ h => ⟨h, rfl, rfl⟩) fun hmode => ?_
  refine ends_create (by decide) (fun _ h => ⟨h, rfl, rfl⟩) fun hpub => ?_
  exact ⟨⟨hwrite, hmode, hpub⟩, Std.ExtTreeMap.getElem?_insert_self,
    Std.ExtTreeMap.getElem?_insert_self, rfl, rfl⟩

/-- A key that is there is loaded, unless the system fails. -/
theorem loadSigningKey_ends {path : String} {sk : c.SigningKey} (io : KeyIo)
    (h : s.dir.pemFiles[path]? = some sk) :
    Prog.Ends (loadSigningKey io path)
      ⟨fun sk' s' => io .loadPem = none ∧ sk' = sk ∧ s' = s,
        fun _ s' => ¬io.Creates ∧ s' = s, fun _ => False⟩ s := by
  unfold loadSigningKey
  rw [Prog.ends_bind]
  refine ends_create (by decide) (fun _ h => ⟨h, rfl⟩) fun hload => ?_
  exact ends_found sk h ⟨hload, rfl, rfl⟩

/-- **A key is created whole, or no manifest knows of it.** -/
theorem createKeyFiles_ends (io : KeyIo) (sk : c.SigningKey) (now : String) (s : OpenKeyStore c) :
    Prog.Ends (createKeyFiles io sk now)
      ⟨fun keyId s' => keyId = shortKeyId (c.verifyingKey sk) ∧ io.Creates
          ∧ s'.memory = s.memory.insert (FileKeyStore.freshRecord sk now)
          ∧ s'.dir.manifest = s.dir.manifest,
        fun _ s' => ¬io.Creates ∧ SameManifests s s', fun _ => False⟩ s := by
  unfold createKeyFiles
  rw [Prog.ends_bind]
  refine (generateSigningKey_ends io sk s).mono ?_ (fun _ _ h => h) (fun _ h => h)
  rintro - s₁ ⟨⟨hwrite, hmode, hwritePub⟩, hpem, hpub, hsame⟩
  dsimp only
  rw [Prog.ends_bind]
  refine (loadSigningKey_ends io hpem).mono ?_ (fun _ _ h => ⟨h.1, h.2 ▸ hsame⟩) (fun _ h => h)
  -- the key that is read is the one that was drawn
  rintro sk s₁ ⟨hload, rfl, rfl⟩
  dsimp only
  rw [Prog.ends_bind]
  refine ends_found sk hpem ?_
  dsimp only
  rw [Prog.ends_bind]
  refine ends_create (by decide) (fun _ h => ⟨h, hsame⟩) fun hrename => ?_
  dsimp only
  rw [Prog.ends_bind]
  refine ends_found (c.toPublicKeyPem (c.verifyingKey sk)) hpub ?_
  dsimp only
  rw [Prog.ends_bind]
  refine ends_create (by decide) (fun _ h => ⟨h, hsame⟩) fun hrenamePub => ?_
  dsimp only
  rw [Prog.ends_bind]
  refine ends_create (by decide) (fun _ h => ⟨h, hsame⟩) fun hread => ?_
  dsimp only
  rw [Prog.ends_bind]
  refine ends_found _ Std.ExtTreeMap.getElem?_insert_self ?_
  have hmemory : s₁.memory.insert (FileKeyStore.freshRecord sk now)
      = s.memory.insert (FileKeyStore.freshRecord sk now) := by rw [hsame.1]
  refine ⟨rfl, fun op hop => ?_, hmemory, hsame.2⟩
  cases op with
  | writePem => exact hwrite
  | secretMode => exact hmode
  | writePub => exact hwritePub
  | loadPem => exact hload
  | renamePem => exact hrename
  | renamePub => exact hrenamePub
  | readPub => exact hread
  | saveManifest => exact absurd rfl hop

theorem save_ends (io : KeyIo) (s : OpenKeyStore c) :
    Prog.Ends (save io)
      ⟨fun _ s' => io .saveManifest = none ∧ s'.memory = s.memory ∧ s'.dir.saved = s.memory,
        fun _ s' => io .saveManifest ≠ none ∧ SameManifests s s', fun _ => False⟩ s := by
  unfold save
  rw [Prog.ends_bind, Prog.ends_get]
  dsimp only
  rw [ends_fileOp]
  refine ⟨fun e he => ⟨?_, rfl, rfl⟩, fun hio => ⟨hio, rfl, rfl⟩⟩
  rw [he]
  exact Option.some_ne_none e

/-- How a call ends that changes the manifest to another and saves it: it is turned away before
anything changes, or the save fails and memory is ahead, or both are changed. -/
def Saving {α : Type} (io : KeyIo) (saves : Prop) (edited : KeysManifest) (s : OpenKeyStore c) :
    Post (OpenKeyStore c) CliError α where
  ok _ s' := saves ∧ io .saveManifest = none ∧ s'.memory = edited ∧ s'.dir.saved = edited
  error _ s' := (¬saves ∧ SameManifests s s')
    ∨ (saves ∧ io .saveManifest ≠ none ∧ s'.memory = edited ∧ s'.dir.saved = s.dir.saved)
  crash _ := False

/-- The save at the end of a call. -/
theorem save_saving {α : Type} {io : KeyIo} {saves : Prop} {s₀ s : OpenKeyStore c} (a : α)
    (hsaves : saves) (hsaved : s.dir.manifest = s₀.dir.manifest) :
    Prog.Ends (do save io; pure a) (Saving io saves s.memory s₀) s := by
  rw [Prog.ends_bind]
  refine (save_ends io s).mono ?_ ?_ fun _ h => h
  · rintro - s' ⟨hio, hmem, hdir⟩
    exact ⟨hsaves, hio, hmem, hdir⟩
  · rintro - s' ⟨hio, hmem, hdir⟩
    refine .inr ⟨hsaves, hio, hmem, ?_⟩
    rw [KeyDir.saved, KeyDir.saved, hdir, hsaved]

/-- The manifest a generation saves. -/
def generated (m : KeysManifest) (sk : c.SigningKey) (now : String) : KeysManifest :=
  { m.insert (FileKeyStore.freshRecord sk now) with
    activeKeyId := some (shortKeyId (c.verifyingKey sk)) }

/-- The manifest a rotation saves. -/
def rotated (m : KeysManifest) (sk : c.SigningKey) (now : String) : KeysManifest :=
  match m.activeKeyId with
  | none => m
  | some previous =>
      { (m.insert (FileKeyStore.freshRecord sk now)).modify previous (·.rotate now) with
        activeKeyId := some (shortKeyId (c.verifyingKey sk)) }

theorem generate_ends (io : KeyIo) (sk : c.SigningKey) (now : String) (s : OpenKeyStore c) :
    Prog.Ends (generate io sk now)
      (Saving io (s.memory.activeKeyId = none ∧ io.Creates) (generated s.memory sk now) s) s := by
  unfold generate
  rw [Prog.ends_bind, Prog.ends_get]
  dsimp only
  cases hactive : s.memory.activeKeyId with
  | some previous => exact .inl ⟨fun h => (nomatch h.1), rfl, rfl⟩
  | none =>
      rw [if_neg (by decide), Prog.ends_bind]
      refine (createKeyFiles_ends io sk now s).mono ?_ ?_ fun _ h => h
      · rintro _ s' ⟨rfl, hall, hmem, hdir⟩
        dsimp only
        rw [Prog.ends_bind]
        unfold setActive
        rw [Prog.ends_modify]
        dsimp only
        rw [hmem]
        exact save_saving _ ⟨rfl, hall⟩ hdir
      · rintro e s' ⟨hnot, hsame⟩
        exact .inl ⟨fun h => hnot h.2, hsame⟩

theorem rotate_ends (io : KeyIo) (sk : c.SigningKey) (now : String) (s : OpenKeyStore c) :
    Prog.Ends (rotate io sk now)
      (Saving io (s.memory.activeKeyId ≠ none ∧ io.Creates) (rotated s.memory sk now) s) s := by
  unfold rotate rotated
  rw [Prog.ends_bind, Prog.ends_get]
  dsimp only
  cases hactive : s.memory.activeKeyId with
  | none => exact .inl ⟨fun h => h.1 rfl, rfl, rfl⟩
  | some previous =>
      dsimp only
      rw [Prog.ends_bind]
      refine (createKeyFiles_ends io sk now s).mono ?_ ?_ fun _ h => h
      · rintro _ s' ⟨rfl, hall, hmem, hdir⟩
        dsimp only
        rw [Prog.ends_bind, Prog.ends_modify]
        dsimp only
        rw [Prog.ends_bind]
        unfold setActive
        rw [Prog.ends_modify]
        dsimp only
        rw [hmem]
        exact save_saving _ ⟨Option.some_ne_none previous, hall⟩ hdir
      · rintro e s' ⟨hnot, hsame⟩
        exact .inl ⟨fun h => hnot h.2, hsame⟩

/-- A known key that is neither active nor revoked yet. -/
def Revocable (m : KeysManifest) (keyId : String) : Prop :=
  m.activeKeyId ≠ some keyId ∧ ∃ r, m.keys[keyId]? = some r ∧ r.status ≠ .revoked

theorem revoke_ends (io : KeyIo) (keyId now : String) (s : OpenKeyStore c) :
    Prog.Ends (revoke io keyId now)
      (Saving io (Revocable s.memory keyId) (s.memory.modify keyId (·.revoke now)) s) s := by
  unfold revoke
  rw [Prog.ends_bind, Prog.ends_get]
  dsimp only
  by_cases hactive : s.memory.activeKeyId = some keyId
  · rw [if_pos hactive]
    exact .inl ⟨fun h => h.1 hactive, rfl, rfl⟩
  · rw [if_neg hactive, Prog.ends_bind]
    unfold KeysManifest.record
    cases hr : s.memory.keys[keyId]? with
    | none => exact .inl ⟨fun ⟨_, r, hr', _⟩ => (nomatch hr.symm.trans hr'), rfl, rfl⟩
    | some r =>
        rw [Prog.ends_ofExcept_ok]
        dsimp only
        by_cases hrevoked : r.status = .revoked
        · rw [if_pos hrevoked]
          refine .inl ⟨fun ⟨_, r', hr', hstatus⟩ => ?_, rfl, rfl⟩
          rw [hr] at hr'
          cases hr'
          exact hstatus hrevoked
        · rw [if_neg hrevoked, Prog.ends_bind, Prog.ends_modify]
          dsimp only
          refine (save_ends io _).mono ?_ ?_ fun _ h => h
          · rintro - s' ⟨hio, hmem, hdir⟩
            exact ⟨⟨hactive, r, hr, hrevoked⟩, hio, hmem, hdir⟩
          · rintro - s' ⟨hio, hmem, hdir⟩
            refine .inr ⟨⟨hactive, r, hr, hrevoked⟩, hio, hmem, ?_⟩
            rw [KeyDir.saved, KeyDir.saved, hdir]

/-- Signing changes nothing, and the id it returns is the active one. -/
theorem sign_ends (io : KeyIo) (digest : Bytes) (s : OpenKeyStore c) :
    Prog.Ends (sign io digest)
      ⟨fun signed s' => s' = s ∧ s.memory.activeKeyId = some signed.1, fun _ s' => s' = s,
        fun _ => False⟩ s := by
  unfold sign
  rw [Prog.ends_bind, Prog.ends_get]
  dsimp only
  cases hactive : s.memory.activeKeyId with
  | none => exact rfl
  | some keyId =>
      dsimp only
      rw [Prog.ends_bind]
      unfold KeysManifest.record
      cases hr : s.memory.keys[keyId]? with
      | none => exact rfl
      | some r =>
          rw [Prog.ends_ofExcept_ok]
          dsimp only
          rw [Prog.ends_bind]
          unfold loadSigningKey
          rw [Prog.ends_bind, ends_fileOp]
          refine ⟨fun e _ => rfl, fun _ => ?_⟩
          dsimp only
          unfold found
          rw [Prog.ends_bind, Prog.ends_get]
          dsimp only
          split
          · exact ⟨rfl, rfl⟩
          · exact rfl

end OpenKeyStore

/-! ## The same manifests as without failures -/

namespace FileKeyStore

/-- The manifest of a keystore whose files never fail. -/
def manifest (ks : FileKeyStore c) : KeysManifest := ⟨ks.activeKeyId, ks.keys⟩

theorem manifest_modify (ks : FileKeyStore c) (keyId : String) (f : KeyRecord → KeyRecord) :
    (ks.modify keyId f).manifest = ks.manifest.modify keyId f := by
  unfold modify KeysManifest.modify manifest
  cases ks.keys[keyId]? with
  | some r => rfl
  | none => rfl

theorem generate_manifest {ks ks' : FileKeyStore c} {sk : c.SigningKey} {now id : String}
    (h : ks.generate sk now = .ok (ks', id)) :
    ks'.manifest = OpenKeyStore.generated ks.manifest sk now := by
  unfold generate at h
  split at h
  · cases h
  · cases h
    rfl

theorem rotate_manifest {ks ks' : FileKeyStore c} {sk : c.SigningKey} {now id : String}
    (h : ks.rotate sk now = .ok (ks', id)) :
    ks'.manifest = OpenKeyStore.rotated ks.manifest sk now := by
  unfold rotate at h
  split at h
  · cases h
  · rename_i previous hprevious
    cases h
    have hactive : ks.manifest.activeKeyId = some previous := hprevious
    unfold OpenKeyStore.rotated
    rw [hactive]
    exact congrArg (fun m : KeysManifest =>
      { m with activeKeyId := some (shortKeyId (c.verifyingKey sk)) })
      (manifest_modify (ks.createKeyFiles sk now).1 previous (·.rotate now))

theorem revoke_manifest {ks ks' : FileKeyStore c} {keyId now : String}
    (h : ks.revoke keyId now = .ok ks') :
    ks'.manifest = ks.manifest.modify keyId (·.revoke now) := by
  unfold revoke at h
  split at h
  · cases h
  · obtain ⟨r, -, h⟩ := bind_eq_ok.mp h
    split at h
    · cases h
    · cases h
      exact manifest_modify ks keyId (·.revoke now)

end FileKeyStore

/-! ## Runs -/

/-- What may be asked of a keystore, with how the file operations end and what is drawn. -/
inductive KeyCall (c : Crypto) where
  | generate (io : KeyIo) (sk : c.SigningKey) (now : String)
  | rotate (io : KeyIo) (sk : c.SigningKey) (now : String)
  | revoke (io : KeyIo) (keyId now : String)
  | sign (io : KeyIo) (digest : Bytes)
  | reopen

namespace KeyCall

/-- Make the call; what is returned is the id that `sign` names. -/
def perform : KeyCall c → KeyProg c (Option String)
  | .generate io sk now => do
      let _ ← OpenKeyStore.generate io sk now
      pure none
  | .rotate io sk now => do
      let _ ← OpenKeyStore.rotate io sk now
      pure none
  | .revoke io keyId now => do
      OpenKeyStore.revoke io keyId now
      pure none
  | .sign io digest => do
      let (keyId, _) ← OpenKeyStore.sign io digest
      pure (some keyId)
  | .reopen => do
      Prog.modify fun s => OpenKeyStore.open s.dir
      pure none

/-- The save of the call takes effect. -/
def SaveTakes : KeyCall c → Prop
  | .generate io _ _ | .rotate io _ _ | .revoke io _ _ => io .saveManifest = none
  | .sign _ _ | .reopen => True

/-- The call gets as far as its save. -/
def Saves (m : KeysManifest) : KeyCall c → Prop
  | .generate io _ _ => m.activeKeyId = none ∧ io.Creates
  | .rotate io _ _ => m.activeKeyId ≠ none ∧ io.Creates
  | .revoke _ keyId _ => OpenKeyStore.Revocable m keyId
  | .sign _ _ | .reopen => False

/-- The manifest it saves. -/
def edited (m : KeysManifest) : KeyCall c → KeysManifest
  | .generate _ sk now => OpenKeyStore.generated m sk now
  | .rotate _ sk now => OpenKeyStore.rotated m sk now
  | .revoke _ keyId now => m.modify keyId (·.revoke now)
  | .sign _ _ | .reopen => m

/-- A rotation does not draw the id it is to supersede. -/
def DrawsFresh (m : KeysManifest) : KeyCall c → Prop
  | .rotate io sk _ => io.Creates → m.activeKeyId ≠ some (shortKeyId (c.verifyingKey sk))
  | _ => True

end KeyCall

/-- A keystore in use: whether the last call returned an error, and every id `sign` returned. -/
structure KeyRun (c : Crypto) where
  store : OpenKeyStore c
  failed : Bool
  signed : List String

namespace KeyRun

/-- A keystore opened in an empty directory. -/
def start : KeyRun c := ⟨OpenKeyStore.open ⟨none, ∅, ∅⟩, false, []⟩

def step (s : KeyRun c) (call : KeyCall c) : KeyRun c :=
  match call.perform s.store with
  | .ok keyId store => ⟨store, false, s.signed ++ keyId.toList⟩
  | .error _ store | .crash store => ⟨store, true, s.signed⟩

/-- The manifest in memory, and the one a start would find. -/
def memory (s : KeyRun c) : KeysManifest := s.store.memory

def saved (s : KeyRun c) : KeysManifest := s.store.dir.saved

end KeyRun

/-- A key the manifest calls active. -/
def KeysManifest.Active (m : KeysManifest) (keyId : String) : Prop :=
  ∃ r, m.keys[keyId]? = some r ∧ r.status = .active

/-- Exactly one key is active where one signs, and it is the one that signs. -/
structure KeysManifest.OneSigner (m : KeysManifest) : Prop where
  one : (∃! keyId, m.Active keyId) ↔ m.activeKeyId.isSome = true
  signer : ∀ keyId, m.activeKeyId = some keyId → m.Active keyId

namespace KeyRun

/-- One key signs, what signed is known to the next start, and an error has left nothing behind. -/
structure Good (s : KeyRun c) : Prop where
  signer : s.memory.OneSigner
  resolves : ∀ keyId ∈ s.signed, ∃ vk,
    (OpenKeyStore.open s.store.dir).toFileKeyStore.toSigningKeyStore.verifyingKey keyId = .ok vk
  saved : s.failed = true → s.memory = s.saved

/-- A call that gets as far as its save succeeds in it, and a rotation draws another id. -/
def Kept (s : KeyRun c) (call : KeyCall c) : Prop :=
  (call.Saves s.memory → call.SaveTakes) ∧ call.DrawsFresh s.memory

end KeyRun

/-! ## Manifests -/

namespace KeysManifest

theorem getElem?_insert (m : KeysManifest) (r : KeyRecord) (id : String) :
    (m.insert r).keys[id]? = if r.keyId = id then some r else m.keys[id]? := by
  unfold insert
  simp only [Std.ExtTreeMap.getElem?_insert, compare_eq_iff_eq]

theorem getElem?_fresh (m : KeysManifest) (sk : c.SigningKey) (now id : String) :
    (m.insert (FileKeyStore.freshRecord sk now)).keys[id]?
      = if shortKeyId (c.verifyingKey sk) = id then some (FileKeyStore.freshRecord sk now)
        else m.keys[id]? := getElem?_insert m _ id

theorem getElem?_modify (m : KeysManifest) (keyId : String) (f : KeyRecord → KeyRecord)
    (id : String) :
    (m.modify keyId f).keys[id]? = if keyId = id then m.keys[id]?.map f else m.keys[id]? := by
  unfold modify
  by_cases he : keyId = id
  · subst he
    rw [if_pos rfl]
    cases hr : m.keys[keyId]? with
    | none => exact hr
    | some r => exact Std.ExtTreeMap.getElem?_insert_self
  · rw [if_neg he]
    cases hr : m.keys[keyId]? with
    | none => rfl
    | some r =>
        dsimp only
        rw [Std.ExtTreeMap.getElem?_insert, if_neg (by rw [compare_eq_iff_eq]; exact he)]

theorem activeKeyId_modify (m : KeysManifest) (keyId : String) (f : KeyRecord → KeyRecord) :
    (m.modify keyId f).activeKeyId = m.activeKeyId := by
  unfold modify
  split <;> rfl

/-- The manifest knows a key. -/
def Knows (m : KeysManifest) (keyId : String) : Prop := ∃ r, m.keys[keyId]? = some r

/-- Every public key can be read. -/
def Parses (c : Crypto) (m : KeysManifest) : Prop := ∀ (keyId : String) (r : KeyRecord),
  m.keys[keyId]? = some r → ∃ vk, c.fromPublicKeyPem r.publicKeyPem = some vk

/-- The active key is the one that signs, and every public key can be read. -/
structure Lawful (c : Crypto) (m : KeysManifest) : Prop where
  signer : ∀ keyId, m.Active keyId ↔ m.activeKeyId = some keyId
  parses : m.Parses c

theorem Lawful.oneSigner {m : KeysManifest} (h : m.Lawful c) : m.OneSigner := by
  refine ⟨?_, fun keyId hactive => (h.signer keyId).mpr hactive⟩
  constructor
  · rintro ⟨keyId, hactive, -⟩
    rw [(h.signer keyId).mp hactive]
    rfl
  · intro hsome
    obtain ⟨keyId, hid⟩ := Option.isSome_iff_exists.mp hsome
    refine ⟨keyId, (h.signer keyId).mpr hid, fun other hother => ?_⟩
    exact Option.some.inj (((h.signer other).mp hother).symm.trans hid)

theorem lawful_empty : Lawful c .empty where
  signer _ := ⟨fun ⟨_, hr, _⟩ => (nomatch (Std.ExtTreeMap.getElem?_empty).symm.trans hr),
    (nomatch ·)⟩
  parses _ _ hr := nomatch (Std.ExtTreeMap.getElem?_empty).symm.trans hr

variable {m : KeysManifest} {sk : c.SigningKey} {now keyId : String}

/-- A fresh key can be read. -/
theorem Parses.insert (hpem : ∀ vk, c.fromPublicKeyPem (c.toPublicKeyPem vk) = some vk)
    (h : m.Parses c) : (m.insert (FileKeyStore.freshRecord sk now)).Parses c := by
  intro id r hr
  rw [getElem?_insert] at hr
  split at hr
  · cases hr
    exact ⟨_, hpem _⟩
  · exact h id r hr

/-- What is done to a record leaves its public key readable. -/
theorem Parses.modify {f : KeyRecord → KeyRecord}
    (hf : ∀ r, (f r).publicKeyPem = r.publicKeyPem) (h : m.Parses c) :
    (m.modify keyId f).Parses c := by
  intro id r hr
  rw [getElem?_modify] at hr
  split at hr
  · obtain ⟨r', hr', rfl⟩ := Option.map_eq_some_iff.mp hr
    rw [hf]
    exact h id r' hr'
  · exact h id r hr

/-- The first key signs. -/
theorem Lawful.generated (hpem : ∀ vk, c.fromPublicKeyPem (c.toPublicKeyPem vk) = some vk)
    (h : m.Lawful c) (hnone : m.activeKeyId = none) :
    (OpenKeyStore.generated m sk now).Lawful c := by
  refine ⟨fun id => ?_, h.parses.insert hpem⟩
  show (∃ r, (m.insert (FileKeyStore.freshRecord sk now)).keys[id]? = some r ∧ _)
    ↔ some (shortKeyId (c.verifyingKey sk)) = some id
  rw [getElem?_fresh]
  by_cases he : shortKeyId (c.verifyingKey sk) = id
  · rw [if_pos he, he]
    exact iff_of_true ⟨_, rfl, rfl⟩ rfl
  · rw [if_neg he]
    refine iff_of_false (fun hactive => ?_) fun heq => he (Option.some.inj heq)
    have hsome := (h.signer id).mp hactive
    rw [hnone] at hsome
    cases hsome

/-- A fresh key takes over. -/
theorem Lawful.rotated (hpem : ∀ vk, c.fromPublicKeyPem (c.toPublicKeyPem vk) = some vk)
    (h : m.Lawful c) (hfresh : m.activeKeyId ≠ some (shortKeyId (c.verifyingKey sk))) :
    (OpenKeyStore.rotated m sk now).Lawful c := by
  unfold OpenKeyStore.rotated
  cases hprevious : m.activeKeyId with
  | none => exact h
  | some previous =>
      refine ⟨fun id => ?_, (h.parses.insert hpem).modify fun _ => rfl⟩
      show (∃ r, ((m.insert (FileKeyStore.freshRecord sk now)).modify previous
          (·.rotate now)).keys[id]? = some r ∧ _)
        ↔ some (shortKeyId (c.verifyingKey sk)) = some id
      have hne : previous ≠ shortKeyId (c.verifyingKey sk) := fun he => hfresh (he ▸ hprevious)
      rw [getElem?_modify, getElem?_fresh]
      by_cases hold : previous = id
      · -- the key that is superseded
        rw [if_pos hold]
        refine iff_of_false ?_ fun heq => hne (hold.trans (Option.some.inj heq).symm)
        rintro ⟨r, hr, hstatus⟩
        obtain ⟨r', -, rfl⟩ := Option.map_eq_some_iff.mp hr
        cases hstatus
      · rw [if_neg hold]
        by_cases he : shortKeyId (c.verifyingKey sk) = id
        · rw [if_pos he, he]
          exact iff_of_true ⟨_, rfl, rfl⟩ rfl
        · rw [if_neg he]
          refine iff_of_false (fun hactive => ?_) fun heq => he (Option.some.inj heq)
          have hsome := (h.signer id).mp hactive
          rw [hprevious] at hsome
          exact hold (Option.some.inj hsome)

/-- A key that does not sign is taken out of trust. -/
theorem Lawful.revoked (h : m.Lawful c) (hother : m.activeKeyId ≠ some keyId) :
    (m.modify keyId (·.revoke now)).Lawful c := by
  refine ⟨fun id => ?_, h.parses.modify fun _ => rfl⟩
  rw [activeKeyId_modify]
  unfold Active
  rw [getElem?_modify]
  by_cases he : keyId = id
  · rw [if_pos he]
    refine iff_of_false ?_ fun hid => hother (he ▸ hid)
    rintro ⟨r, hr, hstatus⟩
    obtain ⟨r', -, rfl⟩ := Option.map_eq_some_iff.mp hr
    cases hstatus
  · rw [if_neg he]
    exact h.signer id

end KeysManifest

namespace KeyCall

variable {m : KeysManifest}

theorem edited_lawful (hpem : ∀ vk, c.fromPublicKeyPem (c.toPublicKeyPem vk) = some vk)
    (h : m.Lawful c) {call : KeyCall c} (hsaves : call.Saves m) (hfresh : call.DrawsFresh m) :
    (call.edited m).Lawful c := by
  cases call with
  | generate io sk now => exact h.generated hpem hsaves.1
  | rotate io sk now => exact h.rotated hpem (hfresh hsaves.2)
  | revoke io keyId now => exact h.revoked hsaves.1
  | sign io digest => exact h
  | reopen => exact h

/-- No call makes a key unknown. -/
theorem edited_knows (call : KeyCall c) {id : String} (h : m.Knows id) :
    (call.edited m).Knows id := by
  have hinsert : ∀ (sk : c.SigningKey) now,
      (m.insert (FileKeyStore.freshRecord sk now)).Knows id := by
    intro sk now
    unfold KeysManifest.Knows
    rw [KeysManifest.getElem?_fresh]
    split
    · exact ⟨_, rfl⟩
    · exact h
  have hmodify : ∀ (m : KeysManifest) keyId f, m.Knows id → (m.modify keyId f).Knows id := by
    rintro m keyId f ⟨r, hr⟩
    unfold KeysManifest.Knows
    rw [KeysManifest.getElem?_modify, hr]
    split
    · exact ⟨_, rfl⟩
    · exact ⟨_, rfl⟩
  cases call with
  | generate io sk now => exact hinsert sk now
  | rotate io sk now =>
      unfold edited OpenKeyStore.rotated
      dsimp only
      split
      · exact h
      · exact hmodify _ _ _ (hinsert sk now)
  | revoke io keyId now => exact hmodify m keyId _ h
  | sign io digest => exact h
  | reopen => exact h

/-- What a call saves is not what it found. -/
theorem edited_ne (h : m.Lawful c) {call : KeyCall c} (hsaves : call.Saves m) :
    call.edited m ≠ m := by
  intro heq
  cases call with
  | generate io sk now =>
      have hactive := congrArg KeysManifest.activeKeyId heq
      rw [hsaves.1] at hactive
      cases hactive
  | rotate io sk now =>
      obtain ⟨previous, hprevious⟩ := Option.ne_none_iff_exists'.mp hsaves.1
      -- the record of the key that is superseded is no longer active
      obtain ⟨r, hr, hstatus⟩ := (h.signer previous).mpr hprevious
      have hkeys := congrArg (fun m => m.keys[previous]?) heq
      unfold edited OpenKeyStore.rotated at hkeys
      simp only [hprevious] at hkeys
      rw [KeysManifest.getElem?_modify, if_pos rfl, hr] at hkeys
      obtain ⟨r', -, hrotated⟩ := Option.map_eq_some_iff.mp hkeys
      rw [← hrotated] at hstatus
      cases hstatus
  | revoke io keyId now =>
      obtain ⟨-, r, hr, hstatus⟩ := hsaves
      have hkeys := congrArg (fun m => m.keys[keyId]?) heq
      dsimp only [edited] at hkeys
      rw [KeysManifest.getElem?_modify, if_pos rfl, hr] at hkeys
      exact hstatus (congrArg KeyRecord.status (Option.some.inj hkeys)).symm
  | sign io digest => exact hsaves
  | reopen => exact hsaves

/-- A rotation that draws the id it supersedes leaves no active key. -/
theorem not_oneSigner {call : KeyCall c} (hsaves : call.Saves m) (hsame : ¬call.DrawsFresh m) :
    ¬(call.edited m).OneSigner := by
  cases call with
  | rotate io sk now =>
      obtain ⟨-, hactive⟩ := Classical.not_imp.mp hsame
      have hactive := not_not.mp hactive
      intro hone
      have hsigns : (OpenKeyStore.rotated m sk now).Active (shortKeyId (c.verifyingKey sk)) := by
        refine hone.signer _ ?_
        unfold edited OpenKeyStore.rotated
        rw [hactive]
      obtain ⟨r, hr, hstatus⟩ := hsigns
      unfold OpenKeyStore.rotated at hr
      simp only [hactive] at hr
      rw [KeysManifest.getElem?_modify, if_pos rfl] at hr
      obtain ⟨r', -, rfl⟩ := Option.map_eq_some_iff.mp hr
      cases hstatus
  | generate io sk now => exact absurd trivial hsame
  | revoke io keyId now => exact absurd trivial hsame
  | sign io digest => exact absurd trivial hsame
  | reopen => exact absurd trivial hsame

end KeyCall

namespace KeyRun

/-- What a call comes to. -/
inductive Comes (s : KeyRun c) (call : KeyCall c) (s' : KeyRun c) : Prop where
  /-- A manifest is changed, and saved. -/
  | saved (saves : call.Saves s.memory) (takes : call.SaveTakes)
      (memory : s'.memory = call.edited s.memory) (disk : s'.saved = call.edited s.memory)
      (signed : s'.signed = s.signed)
  /-- A manifest is changed, and not saved. -/
  | ahead (saves : call.Saves s.memory) (fails : ¬call.SaveTakes)
      (memory : s'.memory = call.edited s.memory) (disk : s'.saved = s.memory)
      (failed : s'.failed = true)
  /-- Nothing is changed; an id that is returned is the one that signs. -/
  | nothing (saves : ¬call.Saves s.memory) (memory : s'.memory = s.memory)
      (disk : s'.saved = s.memory)
      (signed : ∀ id ∈ s'.signed, id ∈ s.signed ∨ s.memory.activeKeyId = some id)

/-- A call that ends with a save. -/
theorem comes_saving {α : Type} {io : KeyIo} {s : KeyRun c} (hsaved : s.memory = s.saved)
    {call : KeyCall c} {prog : KeyProg c α} {next : α → KeyProg c (Option String)}
    (hnext : ∀ a store, next a store = .ok none store) (hperform : call.perform = (prog >>= next))
    (hends : Prog.Ends prog
      (OpenKeyStore.Saving io (call.Saves s.memory) (call.edited s.memory) s.store) s.store)
    (htakes : call.SaveTakes ↔ io .saveManifest = none) : s.Comes call (s.step call) := by
  have hdir : s.store.dir.saved = s.memory := hsaved.symm
  unfold step
  rw [hperform, Prog.bind_def]
  unfold Prog.Ends at hends
  cases hp : prog s.store with
  | ok a store =>
      rw [hp] at hends
      obtain ⟨hsaves, hio, hmem, hdisk⟩ := hends
      dsimp only
      rw [hnext]
      exact .saved hsaves (htakes.mpr hio) hmem hdisk (List.append_nil _)
  | error e store =>
      rw [hp] at hends
      rcases hends with ⟨hnot, hmem, hman⟩ | ⟨hsaves, hio, hmem, hdisk⟩
      · refine .nothing hnot hmem ?_ fun id hid => .inl hid
        show store.dir.saved = s.memory
        rw [KeyDir.saved, hman, ← KeyDir.saved, hdir]
      · exact .ahead hsaves (fun h => hio (htakes.mp h)) hmem (hdisk.trans hdir) rfl
  | crash store =>
      rw [hp] at hends
      exact hends.elim

theorem comes_step {s : KeyRun c} (hsaved : s.memory = s.saved) (call : KeyCall c) :
    s.Comes call (s.step call) := by
  have hdir : s.store.dir.saved = s.memory := hsaved.symm
  cases call with
  | generate io sk now =>
      exact comes_saving hsaved (fun _ _ => rfl) rfl
        (OpenKeyStore.generate_ends io sk now s.store) Iff.rfl
  | rotate io sk now =>
      exact comes_saving hsaved (fun _ _ => rfl) rfl
        (OpenKeyStore.rotate_ends io sk now s.store) Iff.rfl
  | revoke io keyId now =>
      exact comes_saving hsaved (fun _ _ => rfl) rfl
        (OpenKeyStore.revoke_ends io keyId now s.store) Iff.rfl
  | sign io digest =>
      have hends := OpenKeyStore.sign_ends io digest s.store
      unfold step KeyCall.perform
      dsimp only
      rw [Prog.bind_def]
      unfold Prog.Ends at hends
      cases hp : OpenKeyStore.sign io digest s.store with
      | ok a store =>
          rw [hp] at hends
          obtain ⟨rfl, hactive⟩ := hends
          refine .nothing (fun h => h) rfl hdir fun id hid => ?_
          rcases List.mem_append.mp hid with hid | hid
          · exact .inl hid
          · rw [List.mem_singleton.mp hid]
            exact .inr hactive
      | error e store =>
          rw [hp] at hends
          obtain rfl := hends
          exact .nothing (fun h => h) rfl hdir fun id hid => .inl hid
      | crash store =>
          rw [hp] at hends
          exact hends.elim
  | reopen =>
      refine .nothing (fun h => h) hdir hdir fun id hid => .inl ?_
      exact (List.append_nil s.signed) ▸ hid

/-- Memory and disk agree on a lawful manifest that knows every id that signed. -/
structure Settled (s : KeyRun c) : Prop where
  saved : s.memory = s.saved
  lawful : s.memory.Lawful c
  signed : ∀ id ∈ s.signed, s.memory.Knows id

theorem settled_start : (start : KeyRun c).Settled :=
  ⟨rfl, KeysManifest.lawful_empty, fun _ => (nomatch ·)⟩

/-- A known key resolves after the next start. -/
theorem Settled.resolves {s : KeyRun c} (h : s.Settled) {id : String}
    (hid : s.memory.Knows id) : ∃ vk,
      (OpenKeyStore.open s.store.dir).toFileKeyStore.toSigningKeyStore.verifyingKey id
        = .ok vk := by
  obtain ⟨r, hr⟩ := hid
  obtain ⟨vk, hvk⟩ := h.lawful.parses id r hr
  refine ⟨vk, FileKeyStore.Resolves.verifyingKey ⟨r, ?_, hvk⟩⟩
  show s.saved.keys[id]? = some r
  rw [← h.saved]
  exact hr

theorem Settled.good {s : KeyRun c} (h : s.Settled) : s.Good :=
  ⟨h.lawful.oneSigner, fun id hid => h.resolves (h.signed id hid), fun _ => h.saved⟩

/-- A call under its condition keeps memory and disk in agreement. -/
theorem settled_step (hpem : ∀ vk, c.fromPublicKeyPem (c.toPublicKeyPem vk) = some vk)
    {s : KeyRun c} (h : s.Settled) {call : KeyCall c} (hkept : s.Kept call) :
    (s.step call).Settled := by
  cases comes_step h.saved call with
  | saved hsaves _ hmem hdisk hsigned =>
      refine ⟨hmem.trans hdisk.symm, ?_, fun id hid => ?_⟩
      · rw [hmem]
        exact KeyCall.edited_lawful hpem h.lawful hsaves hkept.2
      · rw [hsigned] at hid
        rw [hmem]
        exact KeyCall.edited_knows call (h.signed id hid)
  | ahead hsaves hfails => exact absurd (hkept.1 hsaves) hfails
  | nothing _ hmem hdisk hsigned =>
      refine ⟨hmem.trans hdisk.symm, ?_, fun id hid => ?_⟩
      · rw [hmem]
        exact h.lawful
      · rw [hmem]
        rcases hsigned id hid with hold | hactive
        · exact h.signed id hold
        · obtain ⟨r, hr, -⟩ := (h.lawful.signer id).mpr hactive
          exact ⟨r, hr⟩

/-- **A call keeps the keystore's word exactly under its condition.** -/
theorem good_step_iff (hpem : ∀ vk, c.fromPublicKeyPem (c.toPublicKeyPem vk) = some vk)
    {s : KeyRun c} (h : s.Settled) (call : KeyCall c) : (s.step call).Good ↔ s.Kept call := by
  constructor
  · intro hgood
    cases comes_step h.saved call with
    | saved hsaves htakes hmem =>
        refine ⟨fun _ => htakes, by_contra fun hsame => ?_⟩
        have hsigner := hgood.signer
        rw [hmem] at hsigner
        exact KeyCall.not_oneSigner hsaves hsame hsigner
    | ahead hsaves _ hmem hdisk hfailed =>
        have heq := hgood.saved hfailed
        rw [hmem, hdisk] at heq
        exact absurd heq (KeyCall.edited_ne h.lawful hsaves)
    | nothing hnot =>
        refine ⟨fun hsaves => absurd hsaves hnot, ?_⟩
        cases call with
        | rotate io sk now =>
            intro hall hactive
            exact hnot ⟨fun hnone => (nomatch hactive.symm.trans hnone), hall⟩
        | generate io sk now => trivial
        | revoke io keyId now => trivial
        | sign io digest => trivial
        | reopen => trivial
  · exact fun hkept => (settled_step hpem h hkept).good

/-- **The keystore keeps its word behind every call exactly when every manifest a call has changed
is saved, and no rotation draws the id it is to supersede.** -/
theorem good_iff (c : Crypto) (hpem : ∀ vk, c.fromPublicKeyPem (c.toPublicKeyPem vk) = some vk)
    (calls : List (KeyCall c)) :
    Along step (fun s call => (s.step call).Good) (start : KeyRun c) calls
      ↔ Along step Kept start calls :=
  along_iff (fun (s : KeyRun c) call (h : s.Settled) (hkept : s.Kept call) =>
      settled_step hpem h hkept)
    (fun _ call h => good_step_iff hpem h call) settled_start

/-- A first key, and a signature with it. -/
theorem good_iff_generated : Along step (fun s call => (s.step call).Good)
    (start : KeyRun (Crypto.exercise id)) [.generate (fun _ => none) "k" "now",
      .sign (fun _ => none) []] :=
  (good_iff (Crypto.exercise id) (fun _ => rfl) [.generate (fun _ => none) "k" "now",
    .sign (fun _ => none) []]).mpr ⟨⟨fun _ => rfl, trivial⟩, ⟨False.elim, trivial⟩, trivial⟩

/-- A disk that has no room for the manifest. -/
def noRoom : KeyIo := fun op => if op = .saveManifest then some "No space left on device" else none

/-- The first key is drawn, is not saved, and signs. -/
theorem not_good_unsaved : ¬Along step (fun s call => (s.step call).Good)
    (start : KeyRun (Crypto.exercise id)) [.generate noRoom "k" "now", .sign (fun _ => none) []] := by
  intro h
  have hcreates : noRoom.Creates := fun op hop => if_neg hop
  have hkept := (good_step_iff (c := Crypto.exercise id) (fun _ => rfl) settled_start
    (.generate noRoom "k" "now")).mp h.1
  cases hkept.1 ⟨rfl, hcreates⟩

end KeyRun

end Agenomic.Ledger
