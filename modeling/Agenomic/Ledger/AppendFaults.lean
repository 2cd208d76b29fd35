import Agenomic.Ledger.History
import Agenomic.Lib.Run

/-!
# Appends that fail and are tried again

The line of an entry is durable before the manifest is replaced, and the heads in
memory move only when both are. An append that fails late therefore leaves a line the
open ledger does not count, and the next append takes the same positions again: the
log then has two entries for one place and no ledger opens on it. A write that stops
inside a line does the same to the line of the next append.

`Harmless` is the condition on an append that keeps this from happening: it leaves
nothing of its line, or it finds the log just as the open ledger counts it and leaves
all of the line, its line feed perhaps excepted. **`reopens_run`**: along a run of
such appends the ledger can be opened at every point.
-/

namespace Agenomic.Ledger

open Lib

variable {c : Crypto}

/-- Open the ledger of a directory. -/
def openLedger (d : Directory) : CliResult Ledger := do
  let store ← FileLedgerStore.open d
  Ledger.open store d

/-- A directory with a ledger open on it. -/
structure LedgerWorld where
  dir : Directory
  ledger : Ledger

/-- What may happen to an open ledger. A retry is one more append. -/
inductive LedgerOp (c : Crypto) where
  | append (keys : SigningKeyStore c) (io : LogOutcome) (ids : AppendInputs)
      (draft : LedgerEntryDraft)
  | reopen

namespace LedgerWorld

/-- An operation; a ledger that cannot be reopened stays as it is. -/
def step (w : LedgerWorld) : LedgerOp c → LedgerWorld
  | .append keys io ids draft =>
      let (ledger, dir, _) := w.ledger.append keys w.dir io ids draft
      { dir, ledger }
  | .reopen =>
      match openLedger w.dir with
      | .ok ledger => { w with ledger }
      | .error _ => w

/-- The ledger is the one the directory opens to. -/
def Opened (w : LedgerWorld) : Prop := openLedger w.dir = .ok w.ledger

/-- The log reads, its entries are accepted and the ledger opens. -/
def Reopens (w : LedgerWorld) : Prop :=
  ∃ entries chain store, FileLedgerStore.readAll w.dir = .ok entries
    ∧ ChainState.fromEntries entries = .ok chain ∧ FileLedgerStore.open w.dir = .ok store
    ∧ openLedger w.dir = .ok ⟨store, chain⟩

/-- The log holds the lines of exactly the entries the open ledger counts. -/
def InStep (w : LedgerWorld) : Prop :=
  ∃ entries, w.dir.content ledgerLogFile = entryLines.encode entries
    ∧ ChainState.fromEntries entries = .ok w.ledger.chain

/-- A write that fails stops clean on the line of the sealed draft. -/
def StopsClean (w : LedgerWorld) (keys : SigningKeyStore c) (io : LogOutcome)
    (ids : AppendInputs) (draft : LedgerEntryDraft) : Prop :=
  ∀ e k, sealDraft keys w.ledger.chain ids draft = .ok e → io.write = some k →
    entryLines.StopsClean e k

/-- An operation that does no harm to the log. -/
def Harmless (w : LedgerWorld) : LedgerOp c → Prop
  | .append keys io ids draft =>
      io.LeavesNothing ∨ (w.InStep ∧ w.StopsClean keys io ids draft)
  | .reopen => True

/-! ## What keeps a ledger open -/

/-- Entries a ledger opens with. -/
def Accepted (entries : List LedgerEntry) : Prop :=
  ∃ chain, ChainState.fromEntries entries = .ok chain

/-- The invariant: the files are such that a ledger opens on them. -/
structure Inv (w : LedgerWorld) : Prop where
  log : entryLines.Reads Accepted (w.dir.content ledgerLogFile)
  manifest : FileLedgerStore.ManifestReadable w.dir
  current : w.ledger.store.Current

theorem open_eq_ok {store : FileLedgerStore} {d : Directory} {l : Ledger} :
    Ledger.open store d = .ok l ↔ ∃ entries, FileLedgerStore.readAll d = .ok entries
      ∧ ChainState.fromEntries entries = .ok l.chain ∧ l.store = store := by
  rw [Ledger.open, bind_eq_ok]
  constructor
  · rintro ⟨entries, hread, h⟩
    rw [bind_eq_ok] at h
    obtain ⟨chain, hchain, h⟩ := h
    cases h
    exact ⟨entries, hread, hchain, rfl⟩
  · rintro ⟨entries, hread, hchain, rfl⟩
    exact ⟨entries, hread, by rw [hchain]; rfl⟩

theorem inv_of_opened {w : LedgerWorld} (h : w.Opened) : w.Inv := by
  rw [Opened, openLedger, bind_eq_ok] at h
  obtain ⟨store, hstore, h⟩ := h
  obtain ⟨entries, hread, hchain, rfl⟩ := open_eq_ok.mp h
  obtain ⟨hmanifest, hcurrent⟩ := FileLedgerStore.readable_of_open hstore
  exact ⟨⟨entries, FileLedgerStore.readAll_eq_ok.mp hread, _, hchain⟩, hmanifest, hcurrent⟩

theorem Inv.reopens {w : LedgerWorld} (h : w.Inv) : w.Reopens := by
  obtain ⟨entries, hread, chain, hchain⟩ := h.log
  obtain ⟨store, hstore, -⟩ := FileLedgerStore.open_of_readable h.manifest
  have hall := FileLedgerStore.readAll_eq_ok.mpr hread
  refine ⟨entries, chain, store, hall, hchain, hstore, ?_⟩
  rw [openLedger, hstore]
  exact open_eq_ok.mpr ⟨entries, hall, hchain, rfl⟩

theorem inv_reopen {w : LedgerWorld} (h : w.Inv) : (w.step (c := c) .reopen).Inv := by
  obtain ⟨-, chain, store, -, -, hstore, hopen⟩ := h.reopens
  rw [step, hopen]
  exact ⟨h.log, h.manifest, (FileLedgerStore.readable_of_open hstore).2⟩

/-- The log after an append that does no harm still reads as accepted entries. -/
theorem reads_written {w : LedgerWorld} {keys : SigningKeyStore c} {io : LogOutcome}
    {ids : AppendInputs} {draft : LedgerEntryDraft} {e : LedgerEntry} (h : w.Inv)
    (hseal : sealDraft keys w.ledger.chain ids draft = .ok e)
    (hop : w.Harmless (.append keys io ids draft)) :
    entryLines.Reads Accepted
      (w.dir.content ledgerLogFile ++ io.written (entryLines.line e)) := by
  rcases hop with hnone | ⟨⟨entries, hlog, hchain⟩, hstop⟩
  · rw [hnone.written, List.append_nil]
    exact h.log
  · have hpos : w.ledger.chain.extend e = .ok (w.ledger.chain.advance e) :=
      ChainState.extend_eq_ok.mpr ⟨(sealDraft_spec hseal).1.positions, rfl⟩
    have hmore : Accepted (entries ++ [e]) :=
      ⟨_, (ChainState.fromEntries_snoc hchain e).trans hpos⟩
    rw [hlog]
    rcases io.written_eq (entryLines.line e) with hw | ⟨k, hk, hw⟩ | hw
    · rw [hw, List.append_nil]
      exact ⟨entries, LineFormat.read_encode _, _, hchain⟩
    · rw [hw]
      exact LineFormat.reads_take (hstop e k hseal hk) ⟨_, hchain⟩ hmore
    · rw [hw, ← LineFormat.encode_snoc]
      exact ⟨entries ++ [e], LineFormat.read_encode _, hmore⟩

theorem inv_append {w : LedgerWorld} {keys : SigningKeyStore c} {io : LogOutcome}
    {ids : AppendInputs} {draft : LedgerEntryDraft} (h : w.Inv)
    (hop : w.Harmless (.append keys io ids draft)) :
    (w.step (.append keys io ids draft)).Inv := by
  rw [step, Ledger.append]
  cases hseal : sealDraft keys w.ledger.chain ids draft with
  | error err => exact h
  | ok e =>
      have hreads := reads_written h hseal hop
      dsimp only
      rcases happend : w.ledger.store.append w.dir io e with ⟨store, d, res⟩
      obtain ⟨hlog, hcurrent, hmanifest, -⟩ := FileLedgerStore.append_spec happend
      rw [← hlog] at hreads
      have hkept := hmanifest h.current h.manifest
      cases res with
      | error err => exact ⟨hreads, hkept, hcurrent h.current⟩
      | ok u => exact ⟨hreads, hkept, hcurrent h.current⟩

theorem inv_step (w : LedgerWorld) (op : LedgerOp c) (h : w.Inv) (hop : w.Harmless op) :
    (w.step op).Inv := by
  cases op with
  | append keys io ids draft => exact inv_append h hop
  | reopen => exact inv_reopen h

/-- **Along a run of harmless operations the ledger can be opened at every point.** -/
theorem reopens_run {w : LedgerWorld} (hw : w.Opened) {ops : List (LedgerOp c)}
    (h : Along step Harmless w ops) : (run step w ops).Reopens :=
  (run_invariant Inv inv_step (inv_of_opened hw) h).reopens

/-! ## An empty store -/

/-- The ledger of an empty directory. -/
def fresh : LedgerWorld := ⟨∅, ⟨⟨LedgerManifest.empty⟩, ChainState.new⟩⟩

theorem opened_fresh : fresh.Opened := rfl

theorem inStep_fresh : fresh.InStep := ⟨[], rfl, rfl⟩

/-- The flush of the log fails. -/
def unsynced : LogOutcome := ⟨true, none, false, true⟩

/-- The inputs of the attempts to append one draft. -/
def attempt (n : Nat) : AppendInputs :=
  ⟨s!"entry-{n}", "event-0", ⟨"2026-07-06T12:00:00.000000Z"⟩⟩

theorem sealDraft_draft (blake3 : Bytes → Bytes) (chain : ChainState) (ids : AppendInputs) :
    ∃ e, sealDraft (exerciseKeys blake3) chain ids (draft 1) = .ok e :=
  sealDraft_ok rfl rfl fun _ => rfl

/-- An append whose line is written does not move the heads of a ledger that is not told. -/
theorem step_unsynced {w : LedgerWorld} {keys : SigningKeyStore c} {ids : AppendInputs}
    {draft : LedgerEntryDraft} {e : LedgerEntry}
    (h : sealDraft keys w.ledger.chain ids draft = .ok e) :
    (w.step (.append keys unsynced ids draft)).ledger = w.ledger
      ∧ (w.step (.append keys unsynced ids draft)).dir
        = w.dir.appendBytes ledgerLogFile (entryLines.line e) := by
  rw [step, Ledger.append, h]
  exact ⟨rfl, rfl⟩

theorem step_append_content {w : LedgerWorld} {keys : SigningKeyStore c} {ids : AppendInputs}
    {draft : LedgerEntryDraft} {e : LedgerEntry}
    (h : sealDraft keys w.ledger.chain ids draft = .ok e) :
    (w.step (.append keys .ok ids draft)).dir.content ledgerLogFile
      = w.dir.content ledgerLogFile ++ entryLines.line e := by
  rw [step, Ledger.append, h]
  dsimp only
  rw [FileLedgerStore.append_ok]
  dsimp only
  rw [FileLedgerStore.content_saveManifest]
  exact Directory.content_eq (Directory.appendBytes_self _ _ _)

/-- An append after one whose flush failed leaves a log no ledger opens on. -/
theorem not_reopens_retried : ¬ (run step fresh
    [.append (exerciseKeys markedHash) unsynced (attempt 1) (draft 1),
      .append (exerciseKeys markedHash) .ok (attempt 2) (draft 1)]).Reopens := by
  obtain ⟨e₁, h₁⟩ := sealDraft_draft markedHash ChainState.new (attempt 1)
  obtain ⟨e₂, h₂⟩ := sealDraft_draft markedHash ChainState.new (attempt 2)
  obtain ⟨hledger, hdir⟩ := step_unsynced (w := fresh) h₁
  rw [run_cons, run_cons, run_nil]
  have hnext : sealDraft (exerciseKeys markedHash) (fresh.step
      (.append (exerciseKeys markedHash) unsynced (attempt 1) (draft 1))).ledger.chain (attempt 2)
      (draft 1) = .ok e₂ := by
    rw [hledger]
    exact h₂
  have hcontent := step_append_content hnext
  rintro ⟨entries, chain, -, hread, hchain, -, -⟩
  rw [hdir, Directory.content_eq (Directory.appendBytes_self _ _ _)] at hcontent
  have hlines : entryLines.encode [e₁, e₂]
      = fresh.dir.content ledgerLogFile ++ entryLines.line e₁ ++ entryLines.line e₂ := by
    rw [LineFormat.encode, List.flatMap_cons, List.flatMap_singleton]
    rfl
  have htwo := FileLedgerStore.readAll_encode (hcontent.trans hlines.symm)
  rw [hread] at htwo
  cases htwo
  -- both lines claim the first place
  have hseq := (ChainState.fromEntries_sequence hchain).1
  have hfirst : ∀ {ids e}, sealDraft (exerciseKeys markedHash) ChainState.new ids (draft 1)
      = .ok e → e.sequenceNumber = 0 := fun h =>
    (congrArg ChainPositions.sequenceNumber (sealDraft_spec h).1.positions).trans
      (ChainState.allocate_sequenceNumber _ _)
  rw [List.map_cons, List.map_singleton, hfirst h₁, hfirst h₂] at hseq
  exact absurd hseq (show ¬[0, 0] = List.range 2 by decide)

/-- An append that cannot open the log, one that succeeds, and a restart. -/
theorem reopens_run_unopened : (run step fresh
    [.append (exerciseKeys markedHash) ⟨false, none, true, true⟩ (attempt 1) (draft 1),
      .append (exerciseKeys markedHash) .ok (attempt 2) (draft 1), .reopen]).Reopens := by
  have hsame : fresh.step (.append (exerciseKeys markedHash) ⟨false, none, true, true⟩
      (attempt 1) (draft 1)) = fresh := by
    obtain ⟨e, he⟩ := sealDraft_draft markedHash ChainState.new (attempt 1)
    rw [step, Ledger.append, show fresh.ledger.chain = ChainState.new from rfl, he]
    rfl
  refine reopens_run opened_fresh ⟨.inl (.inl rfl), ?_⟩
  rw [hsame]
  exact ⟨.inr ⟨inStep_fresh, fun _ _ _ h => by cases h⟩, trivial, trivial⟩

end LedgerWorld

end Agenomic.Ledger
