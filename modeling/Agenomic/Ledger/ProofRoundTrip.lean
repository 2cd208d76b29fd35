import Agenomic.Ledger.OwnLedger
import Agenomic.Ledger.Excerpt
import Agenomic.Ledger.Proof

/-!
# A bundle verifies by itself

What `assembleBundle` writes, `verifyBundle` accepts. The files come back as they were
written (`read_members`), so no hash of a file differs; the exported keys resolve like
the keystore they come from (`embeddedKeysFromJson_eq`), so what verified under it
verifies under them; and the entries in scope are an excerpt of the ledger, with the
blocks over it.

**`verifyBundle_assembled`**: this for every run of a ledger, whatever it is scoped to.
-/

namespace Agenomic.Ledger

open Lib BlockChain

variable {c : Crypto}

/-! ## Files -/

theorem writeMembers_of_notMem {d : Directory} {members : List (String × Bytes)} {n : String}
    (h : n ∉ members.map Prod.fst) : (writeMembers d members)[n]? = d[n]? := by
  induction members generalizing d with
  | nil => rfl
  | cons m members ih =>
      rw [List.map_cons, List.mem_cons, not_or] at h
      rw [writeMembers, List.foldl_cons]
      exact (ih h.2).trans (Directory.getElem?_insert_of_ne _ (Ne.symm h.1))

/-- Files of different names are all there with their contents. -/
theorem writeMembers_of_mem {d : Directory} {members : List (String × Bytes)}
    (hnd : (members.map Prod.fst).Nodup) {m : String × Bytes} (hm : m ∈ members) :
    (writeMembers d members)[m.1]? = some m.2 := by
  induction members generalizing d with
  | nil => exact absurd hm List.not_mem_nil
  | cons m' members ih =>
      rw [List.map_cons, List.nodup_cons] at hnd
      rw [writeMembers, List.foldl_cons]
      rcases List.mem_cons.mp hm with rfl | hm
      · exact (writeMembers_of_notMem hnd.1).trans (Directory.getElem?_insert_self _ _ _)
      · exact ih hnd.2 hm

/-- **The files of a manifest are found as they were written.** -/
theorem read_members {d : Directory} {members : List (String × Bytes)} (contents : Directory)
    (h : ∀ m ∈ members, d[m.1]? = some m.2) :
    (members.map fun m => (⟨m.1, prefixedBlake3 c m.2, m.2.length⟩ : ManifestMember)).foldl
      (BundleFiles.read c d) ⟨[], [], contents⟩ = ⟨[], [], writeMembers contents members⟩ := by
  induction members generalizing contents with
  | nil => rfl
  | cons m members ih =>
      have hread : BundleFiles.read c d ⟨[], [], contents⟩
          ⟨m.1, prefixedBlake3 c m.2, m.2.length⟩ = ⟨[], [], contents.insert m.1 m.2⟩ := by
        rw [BundleFiles.read]
        dsimp only
        rw [h m List.mem_cons_self]
        dsimp only
        rw [if_neg (not_not.mpr rfl)]
      rw [List.map_cons, List.foldl_cons, hread,
        ih _ fun m' hm' => h m' (List.mem_cons_of_mem _ hm')]
      rfl

/-! ## Names -/

/-- The names a bundle may have files by. -/
def bundleNames : List String :=
  [runChainFile, ledgerBlocksFile, "merkle_proofs.json", "signatures.json", publicKeysFile,
    "verification_report.json", "replay_report.json", "policy_results.json", "risk_summary.md"]

theorem extraMembers_names {read : String → CliResult Bytes}
    {sources : List (String × Option String)} {found : List (String × Bytes)}
    {absent : List String} (h : extraMembers read sources = .ok (found, absent)) :
    (found.map Prod.fst).Sublist (sources.map Prod.fst) := by
  induction sources generalizing found absent with
  | nil =>
      cases h
      exact List.Sublist.refl _
  | cons s sources ih =>
      rcases s with ⟨name, path | path⟩
      · rw [extraMembers, bind_eq_ok] at h
        obtain ⟨⟨members, absent'⟩, hrest, h⟩ := h
        cases h
        exact (ih hrest).cons _
      · rw [extraMembers, bind_eq_ok] at h
        obtain ⟨bytes, -, h⟩ := h
        rw [bind_eq_ok] at h
        obtain ⟨⟨members, absent'⟩, hrest, h⟩ := h
        cases h
        exact (ih hrest).cons_cons _

/-- What goes into a bundle. -/
theorem bundleMembers_eq_ok {serde : WalSerde} {keys : SigningKeyStore c}
    {read : String → CliResult Bytes} {runId : Option String} {entries : List LedgerEntry}
    {blocks : List LedgerBlock} {extras : BundleExtras} {members : List (String × Bytes)}
    {absent : List String}
    (h : bundleMembers serde keys read runId entries blocks extras = .ok (members, absent)) :
    ∃ active publicKeys, keys.activeKeyId = .ok active
      ∧ (bundleKeyIds (scopedEntries runId entries)
          (scopedBlocks (scopedEntries runId entries) blocks) active).mapM (exportKey keys)
        = .ok publicKeys
      ∧ (members.map Prod.fst).Sublist bundleNames
      ∧ (runChainFile, runChainJsonl (scopedEntries runId entries)) ∈ members
      ∧ (ledgerBlocksFile,
          ledgerBlocksJson (scopedBlocks (scopedEntries runId entries) blocks)) ∈ members
      ∧ (publicKeysFile, publicKeysJson publicKeys) ∈ members := by
  unfold bundleMembers at h
  dsimp only at h
  split at h
  · cases h
  rw [bind_eq_ok] at h
  obtain ⟨report, -, h⟩ := h
  rw [bind_eq_ok] at h
  obtain ⟨active, hactive, h⟩ := h
  rw [bind_eq_ok] at h
  obtain ⟨publicKeys, hkeys, h⟩ := h
  rw [bind_eq_ok] at h
  obtain ⟨⟨found, absent'⟩, hfound, h⟩ := h
  cases h
  refine ⟨active, publicKeys, hactive, hkeys, ?_, List.mem_append_left _ ?_,
    List.mem_append_left _ ?_, List.mem_append_left _ ?_⟩
  · rw [List.map_append]
    exact (List.Sublist.refl _).append (extraMembers_names hfound)
  · exact List.mem_cons_self
  · exact List.mem_cons_of_mem _ List.mem_cons_self
  · iterate 4 refine List.mem_cons_of_mem _ ?_
    exact List.mem_cons_self

/-! ## Keys -/

/-- What is exported of a key, and is read back as it was. -/
def Exported (keys : SigningKeyStore c) (k : PublicKeyEntry) : Prop :=
  ∃ vk, keys.verifyingKey k.keyId = .ok vk ∧ keys.keyStatus k.keyId = .ok k.status
    ∧ c.fromPublicKeyPem k.publicKeyPem = some vk

theorem exportKey_spec (hc : c.Correct) {keys : SigningKeyStore c} {id : String}
    {k : PublicKeyEntry} (h : exportKey keys id = .ok k) : k.keyId = id ∧ Exported keys k := by
  rw [exportKey, bind_eq_ok] at h
  obtain ⟨vk, hvk, h⟩ := h
  rw [bind_eq_ok] at h
  obtain ⟨status, hstatus, h⟩ := h
  cases h
  exact ⟨rfl, vk, hvk, hstatus, hc.pem vk⟩

theorem mapM_exportKey (hc : c.Correct) {keys : SigningKeyStore c} {ids : List String}
    {ks : List PublicKeyEntry} (h : ids.mapM (exportKey keys) = .ok ks) :
    ks.map PublicKeyEntry.keyId = ids ∧ ∀ k ∈ ks, Exported keys k := by
  induction ids generalizing ks with
  | nil =>
      cases h
      exact ⟨rfl, fun _ hk => absurd hk List.not_mem_nil⟩
  | cons id ids ih =>
      rw [List.mapM_cons, bind_eq_ok] at h
      obtain ⟨k, hk, h⟩ := h
      rw [bind_eq_ok] at h
      obtain ⟨ks', hks, h⟩ := h
      cases h
      obtain ⟨hid, hexported⟩ := exportKey_spec hc hk
      obtain ⟨hids, hall⟩ := ih hks
      exact ⟨by rw [List.map_cons, hid, hids], List.forall_mem_cons.mpr ⟨hexported, hall⟩⟩

/-- Collected keys say what the keystore says. -/
def Agree (keys : SigningKeyStore c)
    (collected : Std.ExtTreeMap String (KeyStatus × c.VerifyingKey)) : Prop :=
  ∀ id p, collected[id]? = some p → keys.verifyingKey id = .ok p.2 ∧ keys.keyStatus id = .ok p.1

theorem collectKeys_spec {keys : SigningKeyStore c} {ks : List PublicKeyEntry}
    (hks : ∀ k ∈ ks, Exported keys k)
    {collected : Std.ExtTreeMap String (KeyStatus × c.VerifyingKey)} (h : Agree keys collected) :
    ∃ collected', collectKeys collected ks = .ok collected' ∧ Agree keys collected'
      ∧ ∀ id, id ∈ collected ∨ id ∈ ks.map PublicKeyEntry.keyId → id ∈ collected' := by
  induction ks generalizing collected with
  | nil =>
      refine ⟨collected, rfl, h, fun id hid => ?_⟩
      exact hid.resolve_right List.not_mem_nil
  | cons k ks ih =>
      obtain ⟨vk, hvk, hstatus, hpem⟩ := hks k List.mem_cons_self
      have hagree : Agree keys (collected.insert k.keyId (k.status, vk)) := by
        intro id p hp
        rw [Std.ExtTreeMap.getElem?_insert] at hp
        split at hp
        · rename_i heq
          rw [compare_eq_iff_eq] at heq
          cases hp
          rw [← heq]
          exact ⟨hvk, hstatus⟩
        · exact h id p hp
      obtain ⟨collected', hcollect, hagree', hmem⟩ :=
        ih (fun k' hk' => hks k' (List.mem_cons_of_mem _ hk')) hagree
      refine ⟨collected', ?_, hagree', fun id hid => hmem id ?_⟩
      · rw [collectKeys, hpem]
        exact hcollect
      · rw [Std.ExtTreeMap.mem_insert, compare_eq_iff_eq]
        rw [List.map_cons, List.mem_cons] at hid
        rcases hid with hid | hid | hid
        · exact .inl (.inr hid)
        · exact .inl (.inl hid.symm)
        · exact .inr hid

/-- **The keys of a bundle resolve as in the keystore.** -/
theorem embeddedKeysFromJson_eq {keys : SigningKeyStore c} {ks : List PublicKeyEntry}
    (hks : ∀ k ∈ ks, Exported keys k) : ∃ resolver,
      embeddedKeysFromJson c (utf8DecodeLossy (publicKeysJson ks)) = .ok resolver
      ∧ ∀ id ∈ ks.map PublicKeyEntry.keyId, resolver.verifyingKey id = keys.verifyingKey id
        ∧ resolver.keyStatus id = keys.keyStatus id := by
  have hnone : Agree keys ∅ := fun id p hp => by
    rw [Std.ExtTreeMap.getElem?_empty] at hp
    cases hp
  obtain ⟨collected, hcollect, hagree, hmem⟩ := collectKeys_spec hks hnone
  refine ⟨embeddedKeyResolver collected, ?_, fun id hid => ?_⟩
  · rw [embeddedKeysFromJson, publicKeysJson, utf8DecodeLossy_utf8Encode, Json.parse_pretty,
      Option.bind_eq_bind, Option.bind_some, Json.listOf_map PublicKeyEntry.ofValue_toValue]
    dsimp only
    rw [hcollect]
    rfl
  · have hin := hmem id (.inr hid)
    rw [← Std.ExtTreeMap.isSome_getElem?_iff_mem, Option.isSome_iff_exists] at hin
    obtain ⟨p, hp⟩ := hin
    obtain ⟨hvk, hstatus⟩ := hagree id p hp
    refine ⟨?_, ?_⟩
    · simp only [embeddedKeyResolver, hp, hvk]
    · simp only [embeddedKeyResolver, hp, hstatus]

/-- Whose signature is in a bundle, has a key in it. -/
theorem mem_bundleKeyIds {entriesInScope : List LedgerEntry} {blocks : List LedgerBlock}
    {active id : String} : id ∈ bundleKeyIds entriesInScope blocks active
      ↔ (∃ e ∈ entriesInScope, e.signingKeyId = id) ∨ (∃ b ∈ blocks, b.signingKeyId = id)
        ∨ id = active := by
  rw [bundleKeyIds, distinctSorted, (List.mergeSort_perm _ _).mem_iff, List.mem_dedup,
    List.mem_append, List.mem_append, List.mem_map, List.mem_map, List.mem_singleton, or_assoc]

theorem Checked.resolved {keys keys' : SigningKeyStore c} {e : LedgerEntry}
    (h : Checked keys e)
    (hkeys : keys'.verifyingKey e.signingKeyId = keys.verifyingKey e.signingKeyId
      ∧ keys'.keyStatus e.signingKeyId = keys.keyStatus e.signingKeyId) : Checked keys' e :=
  ⟨h.hash, by rw [hkeys.1]; exact h.signature, by rw [hkeys.2]; exact h.status⟩

theorem Stands.resolved {keys keys' : SigningKeyStore c} {es : List LedgerEntry}
    {b : LedgerBlock} (h : Stands keys es b)
    (hkeys : keys'.verifyingKey b.signingKeyId = keys.verifyingKey b.signingKeyId) :
    Stands keys' es b :=
  ⟨h.hash, by rw [hkeys]; exact h.signature, h.range, h.complete, h.entriesHash, h.merkleRoot⟩

/-! ## The manifest -/

theorem signManifest_eq_ok {keys : SigningKeyStore c} {now : Timestamp} {runId : Option String}
    {members : List (String × Bytes)} {absent : List String} {manifest : ProofManifest}
    (h : signManifest keys now runId members absent = .ok manifest) :
    ∃ id signature, keys.activeKeyId = .ok id
      ∧ keys.sign ((unsignedManifest c now runId members absent id).digest c) = .ok (id, signature)
      ∧ manifest = (unsignedManifest c now runId members absent id).withSignature signature := by
  rw [signManifest, bind_eq_ok] at h
  obtain ⟨id, hid, h⟩ := h
  dsimp only at h
  rw [bind_eq_ok] at h
  obtain ⟨⟨signer, signature⟩, hsign, h⟩ := h
  dsimp only at h
  split at h
  · cases h
  · rename_i heq
    rw [not_not] at heq
    cases h
    rw [heq] at hsign
    exact ⟨id, signature, hid, hsign, rfl⟩

/-- A signed manifest verifies under the bundled key of its signer. -/
theorem manifestSignatureValid_signed (hc : c.Correct) {ks : FileKeyStore c} (hs : ks.Sound)
    {resolver : SigningKeyStore c} {now : Timestamp} {runId : Option String}
    {members : List (String × Bytes)} {absent : List String} {manifest : ProofManifest}
    (h : signManifest ks.toSigningKeyStore now runId members absent = .ok manifest)
    {active : String} (hactive : ks.toSigningKeyStore.activeKeyId = .ok active)
    (hresolver : resolver.verifyingKey active = ks.toSigningKeyStore.verifyingKey active) :
    manifestSignatureValid resolver manifest = true := by
  obtain ⟨id, signature, hid, hsign, rfl⟩ := signManifest_eq_ok h
  obtain ⟨id', sk, hholds, hid', hsigns⟩ := hs.signs
  have hsame : id' = active := Except.ok.inj (hid'.symm.trans hactive)
  have hsame' : id = active := Except.ok.inj (hid.symm.trans hactive)
  subst hsame hsame'
  rw [hsigns] at hsign
  have hsignature := (Prod.mk.inj (Except.ok.inj hsign)).2
  have hvk := (hholds.resolves hc).verifyingKey
  rw [manifestSignatureValid, ProofManifest.digest_withSignature]
  dsimp only [ProofManifest.withSignature, unsignedManifest]
  rw [hresolver, hvk]
  dsimp only
  rw [← hsignature, String.toList_ofList, hexDecode_hexEncode]
  dsimp only
  rw [if_neg (not_not.mpr (hc.sign_length sk _))]
  exact hc.verify_sign sk _

/-! ## The excerpt in a bundle -/

theorem scopedEntries_sublist (runId : Option String) (entries : List LedgerEntry) :
    (scopedEntries runId entries).Sublist entries := by
  cases runId with
  | none => exact List.Sublist.refl _
  | some run => exact List.filter_sublist

theorem mem_scopedBlocks {entriesInScope : List LedgerEntry} {blocks : List LedgerBlock}
    {b : LedgerBlock} (h : b ∈ scopedBlocks entriesInScope blocks) : b ∈ blocks :=
  (List.mem_filter.mp h).1

/-- An excerpt of checked entries with blocks that stand verifies as far as it goes. -/
theorem entryIntegrity_excerpt (serde : WalSerde) {keys : SigningKeyStore c}
    {es excerpt : List LedgerEntry} (hes : Numbered es) (hsub : excerpt.Sublist es)
    (hids : (es.map LedgerEntry.eventId).Nodup) (hchecked : ∀ e ∈ excerpt, Checked keys e)
    {blocks : List LedgerBlock} (hstands : ∀ b ∈ blocks, Stands keys es b)
    (hends : ∀ b ∈ blocks.dropLast, b.endSequenceNumber + 1 < 18446744073709551616) :
    ∃ report, verifyLedger serde excerpt blocks keys none = .ok report
      ∧ entryIntegrity report = true := by
  have hpairs := hes.pairwise.sublist hsub
  have hsort := sortBySequence_of_pairwise hpairs
  obtain ⟨verified, hverified, hhash, hsig, hkey⟩ := verifyEntries_checked hchecked
  obtain ⟨bv, hbv, hunharmed⟩ := verifyBlocks_excerpt hes hsub hstands hends
  refine ⟨buildReport excerpt verified bv none, verifyLedger_eq_ok.mpr
    ⟨verified, bv, none, by rw [hsort, hverified], by rw [hsort, hbv], rfl, by rw [hsort]⟩, ?_⟩
  have hblocks : (buildReport excerpt verified bv none).blocks = bv := by rw [buildReport]
  have hconflicts : (buildReport excerpt verified bv none).conflictingEventIds = [] := by
    have := conflictingEventIds_eq_nil (hids.sublist (hsub.map LedgerEntry.eventId))
    rw [buildReport]
    exact this
  rw [entryIntegrity, buildReport_entries.1, buildReport_entries.2.1, buildReport_entries.2.2.1,
    hhash, hsig, hkey, hblocks, hconflicts, buildReport_duplicateSequences hpairs,
    hunharmed.merkleMismatches, hunharmed.entriesHashMismatches, hunharmed.hashFailures,
    hunharmed.signatureFailures]
  rfl

/-! ## Reading back -/

theorem bundledEntries_written {contents : Directory} {entries : List LedgerEntry}
    (h : contents[runChainFile]? = some (runChainJsonl entries)) :
    bundledEntries contents = .ok entries := by
  have hlines := LineFormat.lines_flatMap (F := entryLines) entries []
  rw [List.append_nil, show lines [] = [] from rfl, List.append_nil] at hlines
  rw [bundledEntries, Directory.content_eq h, runChainJsonl, LineFormat.encode_eq_utf8Encode,
    utf8DecodeLossy_utf8Encode, hlines, LineFormat.readLines_map]

theorem bundledBlocks_written {contents : Directory} {blocks : List LedgerBlock}
    (h : contents[ledgerBlocksFile]? = some (ledgerBlocksJson blocks)) :
    bundledBlocks contents = .ok blocks := by
  rw [bundledBlocks, h]
  dsimp only
  rw [ledgerBlocksJson, utf8Decode_utf8Encode]
  simp only [Option.bind_eq_bind, Option.bind_some, Json.parse_pretty,
    Json.listOf_map LedgerBlock.ofValue_toValue]

namespace Site

variable {past : List (SiteOp c)} {w : Site c} {entries : List LedgerEntry}

/-- A bundle over what a run left verifies by itself. -/
theorem Kept.bundle_passes (hc : c.Correct) (h : Kept past w entries)
    (hids : (eventIds past).Nodup) {serde : WalSerde} {read : String → CliResult Bytes}
    {now : Timestamp} {d d' : Directory} {runId : Option String} {extras : BundleExtras}
    {manifest : ProofManifest}
    (hbundle : assembleBundle serde w.keys.toSigningKeyStore read now d runId entries
      w.chain.blocks extras = (d', .ok manifest)) :
    ∃ v, verifyBundle c serde d' = .ok v ∧ v.passed = true := by
  rw [assembleBundle] at hbundle
  split at hbundle
  · cases hbundle
  rename_i members absent hmembers
  dsimp only at hbundle
  split at hbundle
  · cases hbundle
  rename_i manifest' hmanifest
  cases hbundle
  obtain ⟨active, publicKeys, hactive, hexport, hnames, hchainFile, hblocksFile, hkeysFile⟩ :=
    bundleMembers_eq_ok hmembers
  obtain ⟨hkeyIds, hexported⟩ := mapM_exportKey hc hexport
  obtain ⟨resolver, hresolver, hagree⟩ := embeddedKeysFromJson_eq hexported
  rw [hkeyIds] at hagree
  -- every file is found as it was written
  have hnd : (members.map Prod.fst).Nodup := (show bundleNames.Nodup by decide).sublist hnames
  have hother : proofManifestFile ∉ members.map Prod.fst := fun hin =>
    absurd (hnames.subset hin) (by decide)
  have hfound : ∀ m ∈ members, ((writeMembers d members).insert proofManifestFile
      manifest.toVecPretty)[m.1]? = some m.2 := by
    intro m hm
    have hne : proofManifestFile ≠ m.1 := by
      intro heq
      rw [heq] at hother
      exact hother (List.mem_map_of_mem hm)
    rw [Directory.getElem?_insert_of_ne _ hne]
    exact writeMembers_of_mem hnd hm
  have hfiles := read_members (c := c) ∅ hfound
  have hlisted : manifest.members
      = members.map fun m => ⟨m.1, prefixedBlake3 c m.2, m.2.length⟩ := by
    obtain ⟨id, signature, -, -, rfl⟩ := signManifest_eq_ok hmanifest
    rfl
  -- what verified under the keystore verifies under the bundled keys
  have hsub := scopedEntries_sublist runId entries
  have hchecked : ∀ e ∈ scopedEntries runId entries, Checked resolver e := fun e he =>
    (h.checked e (hsub.subset he)).resolved
      (hagree _ (mem_bundleKeyIds.mpr (.inl ⟨e, he, rfl⟩)))
  have hstands : ∀ b ∈ scopedBlocks (scopedEntries runId entries) w.chain.blocks,
      Stands resolver entries b := fun b hb =>
    (h.stands b (mem_scopedBlocks hb)).resolved
      (hagree _ (mem_bundleKeyIds.mpr (.inr (.inl ⟨b, hb, rfl⟩)))).1
  obtain ⟨report, hreport, hintegrity⟩ := entryIntegrity_excerpt serde h.numbered hsub
    (by rw [h.events]; exact hids) hchecked hstands
    fun b hb => h.ends b (mem_dropLast_of_filter hb)
  have hsigned := manifestSignatureValid_signed hc h.sound hmanifest hactive
    (hagree _ (mem_bundleKeyIds.mpr (.inr (.inr rfl)))).1
  have hread := fun {m : String × Bytes} (hm : m ∈ members) =>
    writeMembers_of_mem (d := ∅) hnd hm
  refine ⟨⟨manifestSignatureValid resolver manifest, [], [], manifest.probativeStatus, report,
    manifestSignatureValid resolver manifest && ([] : List String).isEmpty
      && ([] : List String).isEmpty && entryIntegrity report⟩, ?_, ?_⟩
  · rw [verifyBundle, Directory.getElem?_insert_self]
    simp only [ProofManifest.fromStr_toVecPretty, bind, Except.bind, hlisted, hfiles,
      hread hkeysFile, hresolver, bundledEntries_written (hread hchainFile),
      bundledBlocks_written (hread hblocksFile), hreport]
  · rw [hsigned, hintegrity]
    rfl

theorem extraMembers_ok {read : String → CliResult Bytes}
    {sources : List (String × Option String)}
    (h : ∀ s ∈ sources, ∀ path ∈ s.2, ∃ bytes, read path = .ok bytes) :
    ∃ found absent, extraMembers read sources = .ok (found, absent) := by
  induction sources with
  | nil => exact ⟨[], [], rfl⟩
  | cons s sources ih =>
      obtain ⟨found, absent, hrest⟩ := ih fun s' hs' => h s' (List.mem_cons_of_mem _ hs')
      rcases s with ⟨name, path | path⟩
      · exact ⟨found, name :: absent, by rw [extraMembers, hrest]; rfl⟩
      · obtain ⟨bytes, hbytes⟩ := h _ List.mem_cons_self path rfl
        exact ⟨(name, bytes) :: found, absent, by rw [extraMembers, hbytes, hrest]; rfl⟩

theorem mapM_exportKey_ok {keys : SigningKeyStore c} {ids : List String}
    (h : ∀ id ∈ ids, ∃ k, exportKey keys id = .ok k) :
    ∃ ks, ids.mapM (exportKey keys) = .ok ks := by
  induction ids with
  | nil => exact ⟨[], rfl⟩
  | cons id ids ih =>
      obtain ⟨k, hk⟩ := h id List.mem_cons_self
      obtain ⟨ks, hks⟩ := ih fun id' hid' => h id' (List.mem_cons_of_mem _ hid')
      exact ⟨k :: ks, by rw [List.mapM_cons, hk, hks]; rfl⟩

/-- Every key a bundle needs can be exported. -/
theorem Kept.exports (hc : c.Correct) (h : Kept past w entries) (runId : Option String)
    {active : String} (hactive : w.keys.toSigningKeyStore.activeKeyId = .ok active) :
    ∃ ks, (bundleKeyIds (scopedEntries runId entries)
      (scopedBlocks (scopedEntries runId entries) w.chain.blocks) active).mapM
        (exportKey w.keys.toSigningKeyStore) = .ok ks := by
  have hexport : ∀ {id vk}, w.keys.toSigningKeyStore.verifyingKey id = .ok vk →
      ∃ k, exportKey w.keys.toSigningKeyStore id = .ok k := by
    intro id vk hvk
    obtain ⟨-, status, hstatus⟩ :=
      FileKeyStore.verifyingKey_kept hc h.sound (fun _ _ hholds => hholds) hvk
    exact ⟨⟨id, status, c.toPublicKeyPem vk⟩, by rw [exportKey, hvk, hstatus]; rfl⟩
  refine mapM_exportKey_ok fun id hid => ?_
  rcases mem_bundleKeyIds.mp hid with ⟨e, he, rfl⟩ | ⟨b, hb, rfl⟩ | rfl
  · obtain ⟨vk, hvk, -⟩ := (h.checked e ((scopedEntries_sublist runId entries).subset he)).signature
    exact hexport hvk
  · obtain ⟨vk, hvk, -⟩ := (h.stands b (mem_scopedBlocks hb)).signature
    exact hexport hvk
  · obtain ⟨id', sk, hholds, hid', -⟩ := h.sound.signs
    rw [Except.ok.inj (hactive.symm.trans hid')]
    exact hexport (hholds.resolves hc).verifyingKey

/-- A bundle over entries that are there is assembled, if its extras can be read. -/
theorem Kept.assembles (hc : c.Correct) (h : Kept past w entries) (hids : (eventIds past).Nodup)
    (serde : WalSerde) (read : String → CliResult Bytes) (now : Timestamp) (d : Directory)
    {runId : Option String} (hscope : scopedEntries runId entries ≠ []) (extras : BundleExtras)
    (hextras : ∀ s ∈ extras.sources, ∀ path ∈ s.2, ∃ bytes, read path = .ok bytes) :
    ∃ d' manifest, assembleBundle serde w.keys.toSigningKeyStore read now d runId entries
      w.chain.blocks extras = (d', .ok manifest) := by
  obtain ⟨bv, hbv, -, -⟩ := verifyBlocks_tiles h.numbered h.tiles h.stands h.ends
  obtain ⟨report, hreport, -⟩ := verifyLedger_accepts serde h.chain h.checked h.payload
    (by rw [h.events]; exact hids) hbv
  obtain ⟨active, sk, -, hactive, hsign⟩ := h.sound.signs
  obtain ⟨publicKeys, hexport⟩ := h.exports hc runId hactive
  obtain ⟨found, absent, hfound⟩ := extraMembers_ok hextras
  obtain ⟨members, hmembers⟩ : ∃ members, bundleMembers serde w.keys.toSigningKeyStore read runId
      entries w.chain.blocks extras = .ok (members, absent) := by
    unfold bundleMembers
    dsimp only
    rw [if_neg hscope, hreport, hactive]
    simp only [bind, Except.bind, hexport, hfound]
    exact ⟨_, rfl⟩
  obtain ⟨manifest, hmanifest⟩ : ∃ manifest, signManifest w.keys.toSigningKeyStore now runId
      members absent = .ok manifest := by
    rw [signManifest, hactive]
    simp only [bind, Except.bind, hsign]
    exact ⟨_, if_neg (not_not.mpr rfl)⟩
  rw [assembleBundle, hmembers]
  dsimp only
  rw [hmanifest]
  exact ⟨_, manifest, rfl⟩

/-- **Proof bundles round-trip**: what is assembled from a ledger verifies with the keys
in it, for the whole ledger and for any run of it. -/
theorem verifyBundle_assembled (hc : c.Correct) {sk : c.SigningKey} {created keyId : String}
    {keys : FileKeyStore c} (hkeys : FileKeyStore.empty.generate sk created = .ok (keys, keyId))
    {ops : List (SiteOp c)} (hops : Along step Succeeds (start keys) ops)
    (hids : (eventIds ops).Nodup) {entries : List LedgerEntry} {chain : BlockChain}
    (hentries : FileLedgerStore.readAll (run step (start keys) ops).store = .ok entries)
    (hchain : BlockChain.open (run step (start keys) ops).blocks = .ok chain)
    {serde : WalSerde} {read : String → CliResult Bytes} {now : Timestamp} {d d' : Directory}
    {runId : Option String} {extras : BundleExtras} {manifest : ProofManifest}
    (hbundle : assembleBundle serde (run step (start keys) ops).keys.toSigningKeyStore read now d
      runId entries chain.blocks extras = (d', .ok manifest)) :
    ∃ v, verifyBundle c serde d' = .ok v ∧ v.passed = true := by
  obtain ⟨entries', h⟩ := run_history (fun past w => ∃ entries, Kept past w entries)
    (fun past w op => kept_step hc past w op)
    ⟨[], kept_start (FileKeyStore.generate_spec rfl hkeys)⟩ hops
  rw [FileLedgerStore.readAll_encode h.log] at hentries
  cases hentries
  rw [open_eq h.blockLog] at hchain
  cases hchain
  exact h.bundle_passes hc hids hbundle

/-- Two entries of which one is in a block, in a bundle of the whole ledger. -/
theorem verifyBundle_assembled_whole : ∃ keys : FileKeyStore (Crypto.exercise SealWorld.flatHash),
    ∃ entries chain d' manifest v,
      assembleBundle serdeJson (run step (start keys) tailOps).keys.toSigningKeyStore
        (fun path => .error (.io path "no such file")) ⟨"2026-07-06T12:00:00.000000Z"⟩ ∅ none
        entries (BlockChain.blocks chain) ⟨none, none, none⟩ = (d', .ok manifest)
      ∧ verifyBundle (Crypto.exercise SealWorld.flatHash) serdeJson d' = .ok v
      ∧ v.passed = true := by
  obtain ⟨keys, keyId, hkeys, hops⟩ := tailOps_succeed
  obtain ⟨entries, h⟩ := run_history (fun past w => ∃ entries, Kept past w entries)
    (fun past w op => kept_step correct_exercise past w op)
    ⟨[], kept_start (FileKeyStore.generate_spec rfl hkeys)⟩ hops
  have hlen : entries.length = 2 := (congrArg Prod.fst h.counted).symm
  have hscope : scopedEntries none entries ≠ [] := by
    intro hnil
    rw [show entries = [] from hnil] at hlen
    cases hlen
  obtain ⟨d', manifest, hbundle⟩ := h.assembles correct_exercise tailOps_nodup serdeJson
    (fun path => .error (.io path "no such file")) ⟨"2026-07-06T12:00:00.000000Z"⟩ ∅ hscope
    ⟨none, none, none⟩ (by simp [BundleExtras.sources])
  obtain ⟨v, hv, hpassed⟩ := verifyBundle_assembled correct_exercise hkeys hops tailOps_nodup
    (FileLedgerStore.readAll_encode h.log) (open_eq h.blockLog) hbundle
  exact ⟨keys, entries, _, d', manifest, v, hbundle, hv, hpassed⟩

end Site

end Agenomic.Ledger
