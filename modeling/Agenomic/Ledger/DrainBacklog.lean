import Agenomic.Ledger.PipelineAlive
import Agenomic.Ledger.PipelineOrder

/-!
# Whether draining the backlog ends

`drain_backlog` scans and seals, under the lock, until a scan fails or finds nothing
above the watermark. The last record of every scan is the last record of the WAL, so
the loop turns on what becomes of that one. A seal that comes back leaves the
watermark behind its record in one case only: the record had to be parked and
parking it failed. The caller drops that error, and the next scan finds the record
again.

**`drain_ends_iff`**: the loop ends exactly when a scan fails or the seal of the last
record is not of this kind.
-/

namespace Agenomic.Ledger.Pipeline

open Lib

variable {c : Crypto}

/-! ## Records that cannot be parked -/

/-- The draft is one for the dead letters: its payload does not resolve, its event is in
the ledger with another hash, or the store takes it at none of the attempts. -/
def MustPark (keys : SigningKeyStore c) (config : LedgerConfig) (core : Core)
    (draft : LedgerEntryDraft) (calls : Calls) : Prop :=
  match draft.payload.resolve c with
  | .error _ => True
  | .ok payloadHash => match core.dedup[draft.eventId.getD ""]? with
    | some existing => existing ≠ payloadHash
    | none => ∀ call ∈ (calls .store).take (config.retryMaxAttempts + 1),
        ¬ CallAppends keys core.chain draft call

/-- The sealer's next dead-letter write comes back with an error. -/
def ParkFails (config : LedgerConfig) (calls : Calls) : Prop :=
  config.deadLetterEnabled = true ∧ ∃ call rest, calls .deadLetter = call :: rest ∧ call.Fails

/-- The draft must be parked and cannot be. -/
def Stuck (keys : SigningKeyStore c) (config : LedgerConfig) (core : Core)
    (draft : LedgerEntryDraft) (calls : Calls) : Prop :=
  MustPark keys config core draft calls ∧ ParkFails config calls

theorem park_fails (config : LedgerConfig) (draft : LedgerEntryDraft) (reason : DeadLetterReason)
    (detail : String) (attempts : Nat) (w : World) :
    Prog.Ends (park config draft reason detail attempts)
      ⟨fun _ _ => ¬ ParkFails config w.calls,
        fun _ w' => ParkFails config w.calls ∧ w'.core = w.core, fun _ => True⟩ w := by
  refine Prog.ends_bind.mpr ((recordDeadLetter_ends _ _ _ _ _ _ w).mono ?_ ?_ fun _ _ => trivial)
  · rintro _ w' (⟨hdl, -⟩ | ⟨-, call, rest, -, hcalls, hok, -⟩)
    · intro h
      exact Bool.false_ne_true (hdl.symm.trans h.1)
    · rintro ⟨-, call', rest', hcalls', kept, e, he⟩
      obtain ⟨rfl, -⟩ := List.cons.inj (hcalls.symm.trans hcalls')
      rw [hok] at he
      cases he
  · rintro _ w' ⟨hdl, call, rest, hcalls, hfails, r, -, kept, rfl⟩
    exact ⟨⟨hdl, call, rest, hcalls, hfails⟩, rfl⟩

/-- What the attempts so far leave: none of the calls used up appends the draft. -/
structure Attempted (keys : SigningKeyStore c) (config : LedgerConfig) (draft : LedgerEntryDraft)
    (w : World) (left : Nat) (w' : World) : Prop where
  deadLetter : w'.calls .deadLetter = w.calls .deadLetter
  core : w'.core = w.core
  used : ∃ used, used.length + left = config.retryMaxAttempts
    ∧ w.calls .store = used ++ w'.calls .store
    ∧ ∀ call ∈ used, ¬ CallAppends keys w.core.chain draft call

/-- The attempts are the calls used up and those left. -/
theorem take_attempts {used : List Call} {left attempts : Nat} (hlen : used.length + left = attempts)
    (call : Call) (rest : List Call) :
    (used ++ call :: rest).take (attempts + 1) = used ++ call :: rest.take left := by
  have hsplit : attempts + 1 = used.length + (left + 1) := by omega
  rw [hsplit, List.take_length_add_append, List.take_succ_cons]

/-- **Settling fails when the draft is stuck, and only then.** -/
theorem settle_stuck (keys : SigningKeyStore c) (config : LedgerConfig) (draft : LedgerEntryDraft)
    (w : World) :
    Prog.Ends (settle keys config draft)
      ⟨fun _ _ => ¬ Stuck keys config w.core draft w.calls,
        fun _ w' => Stuck keys config w.core draft w.calls ∧ w'.core = w.core, fun _ => True⟩ w := by
  have hpark : ∀ (w' : World) reason detail attempts, w'.calls .deadLetter = w.calls .deadLetter →
      w'.core = w.core → MustPark keys config w.core draft w.calls →
      Prog.Ends (park config draft reason detail attempts)
        ⟨fun _ _ => ¬ Stuck keys config w.core draft w.calls,
          fun _ w' => Stuck keys config w.core draft w.calls ∧ w'.core = w.core,
          fun _ => True⟩ w' := by
    intro w' reason detail attempts hsame hcore hmust
    have hiff : ParkFails config w'.calls ↔ ParkFails config w.calls := by
      unfold ParkFails
      rw [hsame]
    refine (park_fails config draft reason detail attempts w').mono ?_ ?_ fun _ h => h
    · intro _ _ h hstuck
      exact h (hiff.mpr hstuck.2)
    · intro _ _ h
      exact ⟨⟨hmust, hiff.mp h.1⟩, h.2.trans hcore⟩
  refine ends_settle ?_ ?_ ?_ ?_
  · intro e hres
    refine hpark w _ _ _ rfl rfl ?_
    unfold MustPark
    rw [hres]
    trivial
  · intro payloadHash hres hdedup hstuck
    have hmust := hstuck.1
    unfold MustPark at hmust
    rw [hres] at hmust
    dsimp only at hmust
    rw [hdedup] at hmust
    exact hmust rfl
  · intro payloadHash existing hres hdedup hne
    refine hpark _ _ _ _ rfl rfl ?_
    unfold MustPark
    rw [hres]
    dsimp only
    rw [hdedup]
    exact hne
  · intro payloadHash hres hdedup
    have hmust : MustPark keys config w.core draft w.calls
        ↔ ∀ call ∈ (w.calls .store).take (config.retryMaxAttempts + 1),
          ¬ CallAppends keys w.core.chain draft call := by
      unfold MustPark
      rw [hres]
      dsimp only
      rw [hdedup]
    refine ends_settleRetrying (Attempted keys config draft w) ?_ ?_ ?_ ?_ 1
      ⟨rfl, rfl, [], Nat.zero_add _, rfl, fun _ h => nomatch h⟩
    · -- the call that appends is within the attempts
      intro left w' call rest entry h hcalls hok hseal hstuck
      obtain ⟨used, hlen, hused, -⟩ := h.used
      refine hmust.mp hstuck.1 call ?_ ⟨hok, entry, h.core ▸ hseal⟩
      rw [hused, hcalls, take_attempts hlen]
      exact List.mem_append_right used List.mem_cons_self
    · intro left w' call rest d h hcalls hnot _
      obtain ⟨used, hlen, hused, hall⟩ := h.used
      refine ⟨h.deadLetter, h.core, used ++ [call], ?_, ?_, ?_⟩
      · rw [List.length_append, List.length_singleton]
        omega
      · rw [hused, hcalls]
        exact (List.append_assoc used [call] rest).symm
      · intro call' hmem
        rcases List.mem_append.mp hmem with hmem | hmem
        · exact hall call' hmem
        · rw [List.mem_singleton.mp hmem, ← h.core]
          exact hnot
    · -- the attempts are used up
      intro w' call rest d detail attempts h hcalls hnot _
      obtain ⟨used, hlen, hused, hall⟩ := h.used
      refine hpark _ _ _ _ h.deadLetter h.core (hmust.mpr ?_)
      rw [hused, hcalls, take_attempts hlen, List.take_zero]
      intro call' hmem
      rcases List.mem_append.mp hmem with hmem | hmem
      · exact hall call' hmem
      · rw [List.mem_singleton.mp hmem, ← h.core]
        exact hnot
    · intros
      trivial

/-- **When every call comes back, a seal deals with its record or leaves the stuck draft
where it was.** -/
theorem sealOne_deals (keys : SigningKeyStore c) (config : LedgerConfig)
    (draft : LedgerEntryDraft) (walSeq : Option Nat) {w : World}
    (h : Supply (sealNeeds (config.retryMaxAttempts + 1)) w.calls) :
    Prog.Ends (sealOne keys config draft walSeq)
      ⟨fun _ w' => ¬ Stuck keys config w.core draft w.calls ∧ Advanced w walSeq w',
        fun _ w' => (Stuck keys config w.core draft w.calls ∧ Frame w w' ∧ w'.core = w.core)
          ∨ (¬ Stuck keys config w.core draft w.calls ∧ Advanced w walSeq w'),
        fun _ => False⟩ w := by
  have hseal := sealOne_ends ((settle_frame keys config draft w).and
    (settle_stuck keys config draft w)) walSeq
  refine (hseal.and (sealOne_survives keys config draft walSeq h)).mono ?_ ?_ fun _ h' => h'.2
  · rintro o w' ⟨⟨w₁, ⟨hframe, hfree⟩, hfin⟩, -⟩
    exact ⟨hfree, hframe.finished hfin⟩
  · rintro e w' ⟨⟨hframe, hstuck, hcore⟩ | ⟨o, w₁, ⟨hframe, hfree⟩, hfin⟩, -⟩
    · exact .inl ⟨hstuck, hframe, hcore⟩
    · exact .inr ⟨hfree, hframe.finished hfin⟩

/-! ## The loop -/

/-- What a step of the loop may call, and how often. -/
def drainNeeds (config : LedgerConfig) : CallSite → Nat
  | .pending => 1
  | site => sealNeeds (config.retryMaxAttempts + 1) site

/-- Collaborators that come back from every call of every step, well or badly. -/
structure Collaborators (config : LedgerConfig) where
  calls : Nat → Calls
  answered : ∀ n, Supply (drainNeeds config) (calls n)

/-- Collaborators that answer every call of a site the same way. -/
def Collaborators.steady (config : LedgerConfig) (outcome : CallSite → CallOutcome)
    (h : ∀ site kept, outcome site ≠ .died kept) : Collaborators config where
  calls _ site := List.replicate (config.retryMaxAttempts + 1) ⟨outcome site, ⟨"", "", ⟨""⟩⟩⟩
  answered _ site := by
    rw [List.length_replicate]
    refine ⟨?_, fun call hcall => ?_⟩
    · cases site <;> first | exact le_rfl | exact Nat.zero_le _ | exact Nat.succ_pos _
    · rw [List.eq_of_mem_replicate hcall]
      exact h site

namespace System

/-- The step of `drain_backlog` that is next: the next record of the scan, or a scan. -/
def drainOp (s : System) (calls : Calls) : PipelineOp :=
  match s.process.map Process.phase with
  | some (.running (.draining (_ :: _))) => .drain calls
  | _ => .scan calls

/-- The system after so many steps of `drain_backlog`. -/
def drainRun (keys : SigningKeyStore c) (s : System) (calls : Nat → Calls) : Nat → System
  | 0 => s
  | n + 1 =>
      let s' := drainRun keys s calls n
      s'.step keys (s'.drainOp (calls n))

theorem drainRun_succ (keys : SigningKeyStore c) (s : System) (calls : Nat → Calls) (n : Nat) :
    drainRun keys s calls (n + 1)
      = (drainRun keys s calls n).step keys ((drainRun keys s calls n).drainOp (calls n)) := rfl

/-- The sealer is in the loop, under the lock. -/
def InLoop (s : System) : Prop :=
  ∃ p, s.process = some p
    ∧ (p.phase = .running .queueEmpty ∨ ∃ todo, p.phase = .running (.draining todo))

/-- `drain_backlog` ends. -/
def DrainEnds (keys : SigningKeyStore c) (s : System) (calls : Nat → Calls) : Prop :=
  ∃ n, ¬ (drainRun keys s calls n).InLoop

/-- The sealer scans next. -/
def Scanning (p : Process) : Prop :=
  p.phase = .running .queueEmpty ∨ p.phase = .running (.draining [])

/-- The scan comes back with an error. -/
def ScanFails (calls : Calls) : Prop :=
  ∃ call rest, calls .pending = call :: rest ∧ call.Fails

/-- What ends the loop sooner or later: the scan fails, or the last record of a scan is not
stuck. -/
inductive LetsGo (keys : SigningKeyStore c) (s : System) (calls : Calls) : Prop
  | scan {p} (hproc : s.process = some p) (hphase : Scanning p) (h : ScanFails calls)
  | last {p seq draft} (hproc : s.process = some p)
      (hphase : p.phase = .running (.draining [(seq, draft)]))
      (h : ¬ Stuck keys p.config p.core draft calls)

/-! ### One step of the loop -/

/-- The sealer is in the loop with these records of a scan left; the last of them is the last
of the WAL. -/
structure Loop (config : LedgerConfig) (entries : List LedgerEntryDraft) (s : System) (p : Process)
    (todo : List (Nat × LedgerEntryDraft)) : Prop where
  process : s.process = some p
  phase : p.phase = .running (.draining todo) ∨ (todo = [] ∧ p.phase = .running .queueEmpty)
  config : p.config = config
  records : s.disk.wal.entries = entries
  last : todo = [] ∨ ∃ earlier draft, todo = earlier ++ [(entries.length, draft)]
    ∧ ∀ r ∈ earlier, r.1 < entries.length

variable {config : LedgerConfig} {entries : List LedgerEntryDraft} {s : System} {p : Process}

theorem Loop.inLoop {todo : List (Nat × LedgerEntryDraft)} (h : Loop config entries s p todo) :
    s.InLoop := by
  rcases h.phase with hphase | ⟨-, hphase⟩
  · exact ⟨p, h.process, .inr ⟨todo, hphase⟩⟩
  · exact ⟨p, h.process, .inl hphase⟩

theorem Loop.scanning (h : Loop config entries s p []) : Scanning p := by
  rcases h.phase with hphase | ⟨-, hphase⟩
  · exact .inr hphase
  · exact .inl hphase

theorem Loop.phase_cons {r : Nat × LedgerEntryDraft} {todo : List (Nat × LedgerEntryDraft)}
    (h : Loop config entries s p (r :: todo)) : p.phase = .running (.draining (r :: todo)) := by
  rcases h.phase with hphase | ⟨hnil, -⟩
  · exact hphase
  · cases hnil

/-- The records left are those of the phase. -/
theorem Loop.todo_eq {todo todo' : List (Nat × LedgerEntryDraft)}
    (h : Loop config entries s p todo) (hphase : p.phase = .running (.draining todo')) :
    todo = todo' := by
  rcases h.phase with hphase' | ⟨-, hphase'⟩
  · rw [hphase] at hphase'
    cases hphase'
    rfl
  · rw [hphase] at hphase'
    cases hphase'

/-- What is behind a position ends with the last record of the WAL. -/
theorem recordsAfter_last {d : Disk} {n : Nat} (h : n < d.wal.entries.length) :
    ∃ earlier draft, recordsAfter d n = earlier ++ [(d.wal.entries.length, draft)]
      ∧ ∀ r ∈ earlier, r.1 < d.wal.entries.length := by
  unfold recordsAfter
  generalize d.wal = log at h ⊢
  obtain ⟨drafts, mark⟩ := log
  rcases List.eq_nil_or_concat' drafts with rfl | ⟨before, draft, rfl⟩
  · exact absurd h (Nat.not_lt_zero n)
  · have hnumbered := PlainLog.numbered_append ⟨before, mark⟩ draft
    have hlen : (before ++ [draft]).length = before.length + 1 := List.length_append
    dsimp only at h ⊢
    rw [hlen] at h ⊢
    refine ⟨(PlainLog.mk before mark).numbered.drop n, draft, ?_, fun r hr => ?_⟩
    · show ((PlainLog.mk before mark).append draft).numbered.drop n = _
      rw [hnumbered, List.drop_append_of_le_length]
      · rfl
      · rw [PlainLog.numbered_length]
        exact Nat.lt_succ_iff.mp h
    · exact Nat.lt_succ_of_le (PlainLog.mem_numbered (List.mem_of_mem_drop hr)).2

theorem step_scan (keys : SigningKeyStore c) (hproc : s.process = some p) (hscan : Scanning p)
    (calls : Calls) : s.step keys (.scan calls) = s.perform p calls walPending scanned := by
  unfold step
  rw [hproc]
  dsimp only
  rcases hscan with hphase | hphase <;> rw [hphase] <;> rfl

theorem step_drain (keys : SigningKeyStore c) {r : Nat × LedgerEntryDraft}
    {todo : List (Nat × LedgerEntryDraft)} (hproc : s.process = some p)
    (hphase : p.phase = .running (.draining (r :: todo))) (calls : Calls) :
    s.step keys (.drain calls)
      = s.perform p calls (sealOne keys p.config r.2 (some r.1)) fun s p _ =>
        s.withProcess (p.at (.draining todo)) := by
  unfold step
  rw [hproc]
  dsimp only
  rw [hphase]
  rfl

theorem not_inLoop_drained (s : System) (p : Process) : ¬ (s.drained p).InLoop := by
  rintro ⟨p', hproc, hphase⟩
  cases hproc
  rcases hphase with hphase | ⟨todo, hphase⟩ <;> cases hphase

/-- **A scan** ends the loop when it fails or nothing is behind the position, and otherwise
takes up what is. -/
-- the two outcomes of a scan that succeeds

theorem scanned_of_nil {pending : List (Nat × LedgerEntryDraft)}
    (h : (pending.filter fun r => p.core.appliedWalSeq < r.1) = []) :
    scanned s p (.ok pending) = s.drained p := by
  unfold scanned
  dsimp only
  rw [h]

theorem scanned_of_cons {pending todo : List (Nat × LedgerEntryDraft)}
    {r : Nat × LedgerEntryDraft}
    (h : (pending.filter fun r => p.core.appliedWalSeq < r.1) = r :: todo) :
    scanned s p (.ok pending) = s.withProcess (p.at (.draining (r :: todo))) := by
  unfold scanned
  dsimp only
  rw [h]

theorem loop_scan (keys : SigningKeyStore c) (h : Loop config entries s p []) {calls : Calls}
    (hc : Supply (drainNeeds config) calls) :
    (ScanFails calls ∨ entries.length ≤ position p.core s.disk)
        ∧ ¬ (s.step keys (.scan calls)).InLoop
      ∨ (¬ ScanFails calls ∧ position p.core s.disk < entries.length)
        ∧ ∃ p', Loop config entries (s.step keys (.scan calls)) p'
            (recordsAfter s.disk (position p.core s.disk))
          ∧ (s.step keys (.scan calls)).disk = s.disk ∧ p'.core = p.core := by
  rw [step_scan keys h.process h.scanning]
  refine @perform_ends _ _ _ _ _ _ (fun s' =>
    (ScanFails calls ∨ entries.length ≤ position p.core s.disk) ∧ ¬ s'.InLoop
      ∨ (¬ ScanFails calls ∧ position p.core s.disk < entries.length)
        ∧ ∃ p', Loop config entries s' p' (recordsAfter s.disk (position p.core s.disk))
          ∧ s'.disk = s.disk ∧ p'.core = p.core) ?_
  have hpending : 0 < drainNeeds config .pending := Nat.one_pos
  refine Prog.ends_bind.mpr (((diskCall_ends .pending _ (p.world s.disk calls)).and
    (survives_diskCall (w := p.world s.disk calls) hc hpending)).mono ?_ ?_ fun _ h' => h'.2.elim)
  · rintro _ w' ⟨⟨call, rest, hcalls, hok, rfl⟩, -⟩
    have hscan : ¬ ScanFails calls := by
      rintro ⟨call', rest', hcalls', kept, e, he⟩
      obtain ⟨rfl, -⟩ := List.cons.inj (hcalls.symm.trans hcalls')
      rw [hok] at he
      cases he
    -- the scan has changed neither the process nor the disk
    let p₁ := p.after (((p.world s.disk calls).called .pending rest).onDisk id)
    show (_ ∧ ¬ (scanned s p₁ (.ok s.disk.wal.pending)).InLoop) ∨ _ ∧ ∃ p',
      Loop config entries (scanned s p₁ (.ok s.disk.wal.pending)) p'
          (recordsAfter s.disk (position p.core s.disk))
        ∧ (scanned s p₁ (.ok s.disk.wal.pending)).disk = s.disk ∧ p'.core = p.core
    by_cases hlt : position p.core s.disk < entries.length
    · refine .inr ⟨⟨hscan, hlt⟩, ?_⟩
      obtain ⟨earlier, draft, hlast, hall⟩ := recordsAfter_last (h.records ▸ hlt)
      rw [h.records] at hlast hall
      have hne : earlier ++ [(entries.length, draft)] ≠ [] :=
        List.append_ne_nil_of_right_ne_nil earlier (List.cons_ne_nil _ _)
      obtain ⟨r, todo, hcons⟩ := List.exists_cons_of_ne_nil hne
      rw [scanned_of_cons (p := p₁) ((scanned_eq p.core s.disk).trans (hlast.trans hcons)),
        hlast, hcons]
      refine ⟨p₁.at (.draining (r :: todo)), ?_, rfl, rfl⟩
      exact ⟨rfl, .inl rfl, h.config, h.records, .inr ⟨earlier, draft, hcons.symm, hall⟩⟩
    · refine .inl ⟨.inr (Nat.not_lt.mp hlt), ?_⟩
      rw [scanned_of_nil (p := p₁) ((scanned_eq p.core s.disk).trans
        (recordsAfter_nil (h.records ▸ Nat.not_lt.mp hlt)))]
      exact not_inLoop_drained _ _
  · rintro _ w' ⟨⟨call, rest, hcalls, hfails, kept, rfl⟩, -⟩
    exact .inl ⟨.inl ⟨call, rest, hcalls, hfails⟩, not_inLoop_drained _ _⟩

/-- **A seal of the loop** goes on to the next record. A stuck record stays where it is; any
other is dealt with. -/
theorem loop_drain (keys : SigningKeyStore c) {r : Nat × LedgerEntryDraft}
    {todo : List (Nat × LedgerEntryDraft)} (h : Loop config entries s p (r :: todo)) {calls : Calls}
    (hc : Supply (drainNeeds config) calls) :
    ∃ p', Loop config entries (s.step keys (.drain calls)) p' todo
      ∧ ((Stuck keys p.config p.core r.2 calls ∧ p'.core = p.core
          ∧ (s.step keys (.drain calls)).disk.wal = s.disk.wal)
        ∨ (¬ Stuck keys p.config p.core r.2 calls
          ∧ r.1 ≤ position p'.core (s.step keys (.drain calls)).disk
          ∧ position p'.core (s.step keys (.drain calls)).disk
            ≤ max (position p.core s.disk) r.1)) := by
  have hphase := h.phase_cons
  have hlast : todo = [] ∨ ∃ earlier draft, todo = earlier ++ [(entries.length, draft)]
      ∧ ∀ r ∈ earlier, r.1 < entries.length := by
    rcases h.last with hnil | ⟨earlier, draft, heq, hall⟩
    · cases hnil
    · cases earlier with
      | nil =>
          obtain ⟨-, rfl⟩ := List.cons.inj heq
          exact .inl rfl
      | cons r' earlier =>
          obtain ⟨-, rfl⟩ := List.cons.inj heq
          exact .inr ⟨earlier, draft, rfl, fun r hr => hall r (List.mem_cons_of_mem r' hr)⟩
  have hneeds : Supply (sealNeeds (p.config.retryMaxAttempts + 1)) (p.world s.disk calls).calls := by
    rw [h.config]
    refine Supply.mono hc fun site => ?_
    cases site <;> first | exact le_rfl | exact Nat.zero_le _
  rw [step_drain keys h.process hphase]
  refine @perform_ends _ _ _ _ _ _ (fun s' => ∃ p', Loop config entries s' p' todo
    ∧ ((Stuck keys p.config p.core r.2 calls ∧ p'.core = p.core ∧ s'.disk.wal = s.disk.wal)
      ∨ (¬ Stuck keys p.config p.core r.2 calls ∧ r.1 ≤ position p'.core s'.disk
        ∧ position p'.core s'.disk ≤ max (position p.core s.disk) r.1))) ?_
  have hadvanced : ∀ w', ¬ Stuck keys p.config p.core r.2 calls →
      Advanced (p.world s.disk calls) (some r.1) w' → ∃ p',
        Loop config entries (({ s with disk := w'.disk } : System).withProcess
          ((p.after w').at (.draining todo))) p' todo
        ∧ ((Stuck keys p.config p.core r.2 calls ∧ p'.core = p.core ∧ w'.disk.wal = s.disk.wal)
          ∨ (¬ Stuck keys p.config p.core r.2 calls ∧ r.1 ≤ position p'.core w'.disk
            ∧ position p'.core w'.disk ≤ max (position p.core s.disk) r.1)) := by
    intro w' hfree hw
    refine ⟨(p.after w').at (.draining todo), ?_, .inr ⟨hfree, Advanced.position hw⟩⟩
    exact ⟨rfl, .inl rfl, h.config, hw.records.trans h.records, hlast⟩
  refine (sealOne_deals keys p.config r.2 (some r.1) hneeds).mono ?_ ?_ fun _ h' => h'.elim
  · intro o w' ⟨hfree, hw⟩
    exact hadvanced w' hfree hw
  · intro e w' hw
    rcases hw with ⟨hstuck, hframe, hcore⟩ | ⟨hfree, hw⟩
    · refine ⟨(p.after w').at (.draining todo), ?_, .inl ⟨hstuck, hcore, hframe.wal⟩⟩
      refine ⟨rfl, .inl rfl, h.config, ?_, hlast⟩
      exact (congrArg PlainLog.entries hframe.wal).trans h.records
    · exact hadvanced w' hfree hw

/-! ### The run -/

theorem drainOp_scan {s : System} {p : Process} (h : Loop config entries s p []) (calls : Calls) :
    s.drainOp calls = .scan calls := by
  unfold drainOp
  rw [h.process]
  rcases h.phase with hphase | ⟨-, hphase⟩ <;> rw [Option.map_some, hphase]

theorem drainOp_drain {r : Nat × LedgerEntryDraft} {todo : List (Nat × LedgerEntryDraft)}
    (h : Loop config entries s p (r :: todo)) (calls : Calls) : s.drainOp calls = .drain calls := by
  unfold drainOp
  rw [h.process, Option.map_some, h.phase_cons]

/-- A step of the loop leaves it or goes on with the same WAL. -/
theorem loop_step (keys : SigningKeyStore c) {todo : List (Nat × LedgerEntryDraft)}
    (h : Loop config entries s p todo) {calls : Calls} (hc : Supply (drainNeeds config) calls) :
    ¬ (s.step keys (s.drainOp calls)).InLoop
      ∨ ∃ p' todo', Loop config entries (s.step keys (s.drainOp calls)) p' todo' := by
  cases todo with
  | nil =>
      rw [drainOp_scan h]
      rcases loop_scan keys h hc with ⟨-, hleft⟩ | ⟨-, p', hloop, -⟩
      · exact .inl hleft
      · exact .inr ⟨p', _, hloop⟩
  | cons r todo =>
      rw [drainOp_drain h]
      obtain ⟨p', hloop, -⟩ := loop_drain keys h hc
      exact .inr ⟨p', todo, hloop⟩

/-- While nothing lets it go, the loop stays behind the last record. -/
theorem loop_stays (keys : SigningKeyStore c) {todo : List (Nat × LedgerEntryDraft)}
    (h : Loop config entries s p todo) (hlt : position p.core s.disk < entries.length)
    {calls : Calls} (hc : Supply (drainNeeds config) calls) (hno : ¬ LetsGo keys s calls) :
    ∃ p' todo', Loop config entries (s.step keys (s.drainOp calls)) p' todo'
      ∧ position p'.core (s.step keys (s.drainOp calls)).disk < entries.length := by
  cases todo with
  | nil =>
      rw [drainOp_scan h]
      rcases loop_scan keys h hc with ⟨hfails | hle, -⟩ | ⟨-, p', hloop, hdisk, hcore⟩
      · exact absurd (.scan h.process h.scanning hfails) hno
      · exact absurd hlt (Nat.not_lt.mpr hle)
      · refine ⟨p', _, hloop, ?_⟩
        rw [hdisk, hcore]
        exact hlt
  | cons r todo =>
      rw [drainOp_drain h]
      obtain ⟨p', hloop, ⟨-, hcore, hwal⟩ | ⟨hfree, -, hle⟩⟩ := loop_drain keys h hc
      · refine ⟨p', todo, hloop, ?_⟩
        unfold position
        rw [hcore, hwal]
        exact hlt
      · refine ⟨p', todo, hloop, ?_⟩
        -- only the last record of the scan could bring the position up to the end
        rcases h.last with hnil | ⟨earlier, draft, heq, hall⟩
        · cases hnil
        · cases earlier with
          | nil =>
              obtain ⟨rfl, rfl⟩ := List.cons.inj heq
              exact absurd (.last h.process h.phase_cons hfree) hno
          | cons r' earlier =>
              obtain ⟨rfl, -⟩ := List.cons.inj heq
              have hr := hall r List.mem_cons_self
              omega

variable {keys : SigningKeyStore c} {todo : List (Nat × LedgerEntryDraft)}

/-- **The loop spins** when there is something to do and nothing ever lets it go. -/
theorem drain_spins (h : Loop config entries s p todo)
    (hlt : position p.core s.disk < entries.length) (b : Collaborators config)
    (hno : ∀ n, ¬ LetsGo keys (drainRun keys s b.calls n) (b.calls n)) :
    ¬ s.DrainEnds keys b.calls := by
  rintro ⟨n, hn⟩
  suffices hrun : ∃ p' todo', Loop config entries (drainRun keys s b.calls n) p' todo'
      ∧ position p'.core (drainRun keys s b.calls n).disk < entries.length by
    obtain ⟨p', todo', hloop, -⟩ := hrun
    exact hn hloop.inLoop
  clear hn
  induction n with
  | zero => exact ⟨p, todo, h, hlt⟩
  | succ n ih =>
      obtain ⟨p', todo', hloop, hlt'⟩ := ih
      exact loop_stays keys hloop hlt' (b.answered n) (hno n)

/-- **Whatever lets the loop go ends it**, with the next scan at the latest. -/
theorem drain_ends_of_letsGo (h : Loop config entries s p todo) (b : Collaborators config) {n : Nat}
    (hgo : LetsGo keys (drainRun keys s b.calls n) (b.calls n)) : s.DrainEnds keys b.calls := by
  by_contra hspins
  have hin : ∀ m, (drainRun keys s b.calls m).InLoop := by
    intro m
    by_contra hm
    exact hspins ⟨m, hm⟩
  have hloop : ∀ m, ∃ p' todo', Loop config entries (drainRun keys s b.calls m) p' todo' := by
    intro m
    induction m with
    | zero => exact ⟨p, todo, h⟩
    | succ m ih =>
        obtain ⟨p', todo', hloop⟩ := ih
        exact (loop_step keys hloop (b.answered m)).resolve_left (not_not.mpr (hin (m + 1)))
  obtain ⟨p', todo', hn⟩ := hloop n
  have hnext := hin (n + 1)
  cases hgo with
  | scan hproc hphase hfails =>
      cases hn.process.symm.trans hproc
      obtain rfl : todo' = [] := by
        rcases hphase with hphase | hphase
        · rcases hn.phase with hphase' | ⟨hnil, -⟩
          · rw [hphase] at hphase'
            cases hphase'
          · exact hnil
        · exact hn.todo_eq hphase
      rw [drainRun_succ, drainOp_scan hn] at hnext
      rcases loop_scan keys hn (b.answered n) with ⟨-, hleft⟩ | ⟨⟨hok, -⟩, -⟩
      · exact hleft hnext
      · exact hok hfails
  | @last _ seq draft hproc hphase hfree =>
      cases hn.process.symm.trans hproc
      obtain rfl := hn.todo_eq hphase
      obtain rfl : seq = entries.length := by
        rcases hn.last with hnil | ⟨earlier, draft', heq, -⟩
        · cases hnil
        · have hsing := congrArg List.getLast? heq
          rw [List.getLast?_singleton, List.getLast?_append, List.getLast?_singleton] at hsing
          cases hsing
          rfl
      obtain ⟨p₁, hloop₁, ⟨hstuck, -⟩ | ⟨-, hle, -⟩⟩ := loop_drain keys hn (b.answered n)
      · exact hfree hstuck
      · -- the next scan finds nothing
        rw [← drainOp_drain hn, ← drainRun_succ] at hloop₁ hle
        have hnext₂ := hin (n + 2)
        rw [drainRun_succ, drainOp_scan hloop₁] at hnext₂
        rcases loop_scan keys hloop₁ (b.answered (n + 1)) with ⟨-, hleft⟩ | ⟨⟨-, hlt⟩, -⟩
        · exact hleft hnext₂
        · exact absurd hlt (Nat.not_lt.mpr hle)

/-- A single record that can never be parked keeps the loop going. -/
theorem drain_spins_on (h : Loop config entries s p []) {r : Nat × LedgerEntryDraft}
    (hone : recordsAfter s.disk (position p.core s.disk) = [r]) (b : Collaborators config)
    (hscan : ∀ n, ¬ ScanFails (b.calls n))
    (hstuck : ∀ n, Stuck keys config p.core r.2 (b.calls n)) : ¬ s.DrainEnds keys b.calls := by
  have hlt : position p.core s.disk < entries.length := by
    by_contra hle
    rw [recordsAfter_nil (h.records ▸ Nat.not_lt.mp hle)] at hone
    cases hone
  -- the core and the WAL stay as they are
  have hrun : ∀ n, ∃ p' todo', Loop config entries (drainRun keys s b.calls n) p' todo'
      ∧ p'.core = p.core ∧ (drainRun keys s b.calls n).disk.wal = s.disk.wal
      ∧ (todo' = [] ∨ todo' = [r]) := by
    intro n
    induction n with
    | zero => exact ⟨p, [], h, rfl, rfl, .inl rfl⟩
    | succ n ih =>
        obtain ⟨p', todo', hloop, hcore, hwal, htodo⟩ := ih
        have hpos : position p'.core (drainRun keys s b.calls n).disk = position p.core s.disk := by
          unfold position
          rw [hcore, hwal]
        rw [drainRun_succ]
        rcases htodo with rfl | rfl
        · have hafter : recordsAfter (drainRun keys s b.calls n).disk
              (position p'.core (drainRun keys s b.calls n).disk) = [r] := by
            unfold recordsAfter at hone ⊢
            rw [hpos, hwal]
            exact hone
          rw [drainOp_scan hloop]
          rcases loop_scan keys hloop (b.answered n) with ⟨hends, -⟩ | ⟨-, p₁, hloop₁, hdisk, hcore₁⟩
          · rw [hpos] at hends
            exact absurd (hends.resolve_left (hscan n)) (Nat.not_le.mpr hlt)
          · rw [hafter] at hloop₁
            exact ⟨p₁, [r], hloop₁, hcore₁.trans hcore,
              (congrArg Disk.wal hdisk).trans hwal, .inr rfl⟩
        · rw [drainOp_drain hloop]
          obtain ⟨p₁, hloop₁, ⟨-, hcore₁, hwal₁⟩ | ⟨hfree, -⟩⟩ := loop_drain keys hloop (b.answered n)
          · exact ⟨p₁, [], hloop₁, hcore₁.trans hcore, hwal₁.trans hwal, .inl rfl⟩
          · rw [hloop.config, hcore] at hfree
            exact absurd (hstuck n) hfree
  rintro ⟨n, hn⟩
  obtain ⟨p', todo', hloop, -⟩ := hrun n
  exact hn hloop.inLoop

/-! ### A conflict that cannot be parked -/

/-- Two payloads for one event, the second of them spilled; the first is in the ledger. -/
def spilledConflict : System :=
  run (step wideKeys) fresh
    [.start { Setup.default with config := { LedgerConfig.default with queueMaxMemoryEvents := 1 } }
        none 0,
      .recover (callsAt []),
      .append (exerciseDraft "e" "a" (.inline .null)) "u" none (callsAt [(.wal, [.ok])]),
      .append (exerciseDraft "e" "a" (.inline (.bool true))) "u" none (callsAt [(.wal, [.ok])]),
      .receive, .processItem (callsAt [(.store, [.ok]), (.checkpoint, [.ok])]), .timeout,
      .checkDepth]

/-- The sealer is at the lock of `drain_backlog`. -/
def atLock : Phase → Bool
  | .running .queueEmpty => true
  | _ => false

theorem eq_of_atLock {phase : Phase} (h : atLock phase = true) :
    phase = .running .queueEmpty := by
  unfold atLock at h
  split at h
  · rfl
  · cases h

/-- What the sealer finds when it takes the lock. -/
theorem spilledConflict_found : ∃ p r existing payloadHash, spilledConflict.process = some p
    ∧ p.phase = .running .queueEmpty ∧ p.config.deadLetterEnabled = true
    ∧ recordsAfter spilledConflict.disk (position p.core spilledConflict.disk) = [r]
    ∧ r.2.payload.resolve (Crypto.exercise fun m => List.replicate 32 (m.headD 0))
      = .ok payloadHash
    ∧ p.core.dedup[r.2.eventId.getD ""]? = some existing ∧ existing ≠ payloadHash := by
  have hfound : (spilledConflict.process.map fun p =>
      (atLock p.phase, p.config.deadLetterEnabled,
        (recordsAfter spilledConflict.disk (position p.core spilledConflict.disk)).map fun r =>
          (r.2.payload.resolve
              (Crypto.exercise fun m => List.replicate 32 (m.headD 0))).toOption.bind
            fun payloadHash => p.core.dedup[r.2.eventId.getD ""]?.map fun existing =>
              existing != payloadHash)) = some (true, true, [some true]) := by decide +kernel
  obtain ⟨p, hproc, hp⟩ := Option.map_eq_some_iff.mp hfound
  rw [Prod.mk.injEq, Prod.mk.injEq] at hp
  obtain ⟨hphase, hdl, hrecords⟩ := hp
  obtain ⟨r, hone, hr⟩ := List.map_eq_singleton_iff.mp hrecords
  obtain ⟨payloadHash, hsome, hr⟩ := Option.bind_eq_some_iff.mp hr
  obtain ⟨existing, hdedup, hne⟩ := Option.map_eq_some_iff.mp hr
  have hres : r.2.payload.resolve (Crypto.exercise fun m => List.replicate 32 (m.headD 0))
      = .ok payloadHash := by
    cases hres : r.2.payload.resolve (Crypto.exercise fun m => List.replicate 32 (m.headD 0)) with
    | error e =>
        rw [hres] at hsome
        cases hsome
    | ok found =>
        rw [hres] at hsome
        exact congrArg _ (Option.some.inj hsome)
  exact ⟨p, r, existing, payloadHash, hproc, eq_of_atLock hphase, hdl, hone, hres, hdedup,
    bne_iff_ne.mp hne⟩

/-- Everything fails. -/
def failing (_ : CallSite) : CallOutcome := .failed false (.internal "out of space")

/-- Dead letters fail. -/
def losing (site : CallSite) : CallOutcome :=
  if site = .deadLetter then .failed false (.internal "out of space") else .ok

end System

end Agenomic.Ledger.Pipeline
