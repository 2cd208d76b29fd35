import Agenomic.Ledger.PipelineSeal

/-!
# Calls that come back

A seal makes a bounded number of calls at each site. When so many are answered, well
or badly, the sealer lives through it (**`sealOne_survives`**).
-/

namespace Agenomic.Ledger.Pipeline

open Lib

variable {c : Crypto}

/-- At least so many calls are to come at each site, and all of them come back. -/
def Supply (n : CallSite → Nat) (calls : Calls) : Prop :=
  ∀ site, n site ≤ (calls site).length ∧ ∀ call ∈ calls site, ∀ kept, call.outcome ≠ .died kept

theorem Supply.mono {n n' : CallSite → Nat} {calls : Calls} (h : Supply n calls)
    (hle : ∀ site, n' site ≤ n site) : Supply n' calls :=
  fun site => ⟨(hle site).trans (h site).1, (h site).2⟩

/-- However the program ends, the process lives and so many calls are left. -/
def surviving {α : Type} (n : CallSite → Nat) : Post World CliError α :=
  ⟨fun _ w => Supply n w.calls, fun _ w => Supply n w.calls, fun _ => False⟩

/-- One call fewer at a site. -/
def less (site : CallSite) (n : CallSite → Nat) : CallSite → Nat :=
  Function.update n site (n site - 1)

theorem survives_nextCall {site : CallSite} {n : CallSite → Nat} {w : World}
    (h : Supply n w.calls) (hn : 0 < n site) :
    Prog.Ends (nextCall site) ⟨fun call w' => (∀ kept, call.outcome ≠ .died kept)
      ∧ Supply (less site n) w'.calls, fun _ _ => False, fun _ => False⟩ w := by
  refine ends_nextCall (fun hnil => ?_) fun call rest hcalls => ?_
  · have hlen := (h site).1
    rw [hnil, List.length_nil] at hlen
    omega
  · have hsite := h site
    rw [hcalls] at hsite
    refine ⟨hsite.2 call List.mem_cons_self, fun site' => ?_⟩
    show less site n site' ≤ (Function.update w.calls site rest site').length
      ∧ ∀ call ∈ Function.update w.calls site rest site', _
    unfold less
    by_cases hs : site' = site
    · subst hs
      rw [Function.update_self, Function.update_self]
      have hlen := hsite.1
      rw [List.length_cons] at hlen
      exact ⟨by omega, fun call' hmem => hsite.2 call' (List.mem_cons_of_mem call hmem)⟩
    · rw [Function.update_of_ne hs, Function.update_of_ne hs]
      exact h site'

theorem survives_carryOut {outcome : CallOutcome} {effect : Disk → Disk} {n : CallSite → Nat}
    {w : World} (h : Supply n w.calls) (ho : ∀ kept, outcome ≠ .died kept) :
    Prog.Ends (carryOut outcome effect) (surviving n) w :=
  ends_carryOut (fun _ => h) (fun _ _ _ => h) fun kept hd => ho kept hd

theorem survives_diskCall {site : CallSite} {effect : AppendInputs → Disk → Disk}
    {n : CallSite → Nat} {w : World} (h : Supply n w.calls) (hn : 0 < n site) :
    Prog.Ends (diskCall site effect) (surviving (less site n)) w :=
  Prog.ends_bind.mpr ((survives_nextCall h hn).mono (fun _ _ h' => survives_carryOut h'.2 h'.1)
    (fun _ _ h' => h'.elim) fun _ h' => h'.elim)

/-- In a sequence the second part has what the first leaves. -/
theorem survives_bind {α β : Type} {m : Task α} {f : α → Task β} {n n' : CallSite → Nat}
    {w : World} (hm : Prog.Ends m (surviving n) w) (hle : ∀ site, n' site ≤ n site)
    (hf : ∀ a w', Supply n w'.calls → Prog.Ends (f a) (surviving n') w') :
    Prog.Ends (m >>= f) (surviving n') w :=
  Prog.ends_bind.mpr (hm.mono hf (fun _ _ h => h.mono hle) fun _ h => h)

theorem survives_ofExcept {α : Type} (r : CliResult α) {n : CallSite → Nat} {w : World}
    (h : Supply n w.calls) : Prog.Ends (Prog.ofExcept r) (surviving n) w := by
  cases r with
  | ok a => exact h
  | error e => exact h

theorem less_le (site : CallSite) (n : CallSite → Nat) (site' : CallSite) :
    less site n site' ≤ n site' := by
  unfold less
  by_cases hs : site' = site
  · subst hs
    rw [Function.update_self]
    omega
  · rw [Function.update_of_ne hs]

/-! ## The calls of a seal -/

/-- What a seal needs when so many attempts are left. -/
def sealNeeds (attempts : Nat) : CallSite → Nat
  | .store => attempts
  | .deadLetter | .checkpoint | .reads | .blocks => 1
  | _ => 0

/-- What finishing needs. -/
def finishNeeds : CallSite → Nat
  | .checkpoint | .reads | .blocks => 1
  | _ => 0

/-- What sealing blocks needs. -/
def blockNeeds : CallSite → Nat
  | .reads | .blocks => 1
  | _ => 0

theorem survives_ledgerAppend (keys : SigningKeyStore c) (draft : LedgerEntryDraft) {left : Nat}
    {w : World} (h : Supply (sealNeeds (left + 1)) w.calls) :
    Prog.Ends (ledgerAppend keys draft) (surviving (sealNeeds left)) w := by
  have hneeds : ∀ site, sealNeeds left site ≤ less .store (sealNeeds (left + 1)) site := by
    intro site
    cases site <;> exact le_rfl
  have hstore : 0 < sealNeeds (left + 1) .store := Nat.succ_pos left
  refine Prog.ends_bind.mpr ((survives_nextCall h hstore).mono ?_
    (fun _ _ h' => h'.elim) fun _ h' => h'.elim)
  intro call w₁ ⟨hlives, h₁⟩
  refine Prog.ends_bind.mpr (Prog.ends_get.mpr ?_)
  refine survives_bind (survives_ofExcept _ (h₁.mono hneeds)) (fun _ => le_rfl) ?_
  intro entry w₂ h₂
  refine survives_bind (survives_carryOut h₂ hlives) (fun _ => le_rfl) ?_
  intro _ w₃ h₃
  exact h₃

theorem survives_recordDeadLetter (config : LedgerConfig) (draft : LedgerEntryDraft)
    (reason : DeadLetterReason) (detail : String) (attempts : Nat) {left : Nat} {w : World}
    (h : Supply (sealNeeds left) w.calls) :
    Prog.Ends (recordDeadLetter .deadLetter config draft reason detail attempts)
      (surviving finishNeeds) w := by
  have hneeds : ∀ site, finishNeeds site ≤ less .deadLetter (sealNeeds left) site := by
    intro site
    cases site <;> first | exact le_rfl | exact Nat.zero_le _
  unfold recordDeadLetter
  by_cases hdl : config.deadLetterEnabled = true
  · rw [if_pos hdl]
    exact survives_bind (survives_diskCall h Nat.one_pos) hneeds fun _ _ h' => h'.mono hneeds
  · rw [if_neg hdl]
    exact h.mono fun site => (hneeds site).trans (less_le _ _ site)

theorem survives_park (config : LedgerConfig) (draft : LedgerEntryDraft)
    (reason : DeadLetterReason) (detail : String) (attempts : Nat) {left : Nat} {w : World}
    (h : Supply (sealNeeds left) w.calls) :
    Prog.Ends (park config draft reason detail attempts) (surviving finishNeeds) w :=
  survives_bind (survives_recordDeadLetter config draft reason detail attempts h)
    (fun _ => le_rfl) fun _ _ h' => h'

theorem survives_settleRetrying (keys : SigningKeyStore c) (config : LedgerConfig)
    (draft : LedgerEntryDraft) (left attempt : Nat) {w : World}
    (h : Supply (sealNeeds (left + 1)) w.calls) :
    Prog.Ends (settleRetrying keys config draft left attempt) (surviving finishNeeds) w := by
  have happend : ∀ n site, finishNeeds site ≤ sealNeeds n site := by
    intro n site
    cases site <;> first | exact le_rfl | exact Nat.zero_le _
  induction left generalizing attempt w with
  | zero =>
      unfold settleRetrying
      refine Prog.ends_bind.mpr (Prog.ends_attempt.mpr
        ((survives_ledgerAppend keys draft h).mono ?_ ?_ fun _ h' => h'))
      · intro entry w' h'
        exact h'.mono (happend 0)
      · intro e w' h'
        exact survives_park config draft _ _ _ h'
  | succ left ih =>
      unfold settleRetrying
      refine Prog.ends_bind.mpr (Prog.ends_attempt.mpr
        ((survives_ledgerAppend keys draft h).mono ?_ ?_ fun _ h' => h'))
      · intro entry w' h'
        exact h'.mono (happend (left + 1))
      · intro e w' h'
        exact Prog.ends_bind.mpr (ih (attempt + 1) h')

theorem survives_settle (keys : SigningKeyStore c) (config : LedgerConfig)
    (draft : LedgerEntryDraft) {w : World}
    (h : Supply (sealNeeds (config.retryMaxAttempts + 1)) w.calls) :
    Prog.Ends (settle keys config draft) (surviving finishNeeds) w := by
  refine ends_settle (fun e _ => ?_) (fun _ _ _ => ?_) (fun _ _ _ _ _ => ?_) fun _ _ _ => ?_
  · exact survives_park config draft _ _ _ h
  · refine h.mono fun site => ?_
    cases site <;> first | exact le_rfl | exact Nat.zero_le _
  · exact survives_park config draft _ _ _ h
  · exact survives_settleRetrying keys config draft _ 1 h

theorem survives_sealUnsealedRange (keys : SigningKeyStore c) {w : World}
    (h : Supply blockNeeds w.calls) :
    Prog.Ends (sealUnsealedRange keys) (surviving fun _ => 0) w := by
  have hneeds : ∀ (n : CallSite → Nat) (site : CallSite), (fun _ => 0) site ≤ n site :=
    fun n site => Nat.zero_le _
  unfold sealUnsealedRange
  refine Prog.ends_bind.mpr (Prog.ends_get.mpr ?_)
  dsimp only
  cases w.core.blocks with
  | none => exact h.mono (hneeds _)
  | some chain =>
      refine survives_bind (survives_ofExcept _ h) (hneeds _) fun start w₁ h₁ => ?_
      refine survives_bind (n := less .reads blockNeeds) ?_ (hneeds _) fun entries w₂ h₂ => ?_
      · exact survives_bind (survives_diskCall h₁ Nat.one_pos) (fun _ => le_rfl) fun _ _ h' => h'
      · by_cases hle : entries.length ≤ start
        · simp only [if_pos hle]
          exact h₂.mono (hneeds _)
        · simp only [if_neg hle]
          have hblocks : 0 < less .reads blockNeeds .blocks := Nat.one_pos
          refine Prog.ends_bind.mpr ((survives_nextCall h₂ hblocks).mono ?_
            (fun _ _ h' => h'.elim) fun _ h' => h'.elim)
          intro call w₃ ⟨hlives, h₃⟩
          refine survives_bind (survives_ofExcept _ h₃) (hneeds _) fun block w₄ h₄ => ?_
          refine survives_bind (survives_carryOut h₄ hlives) (hneeds _) fun _ w₅ h₅ => ?_
          exact h₅.mono (hneeds _)

theorem survives_sealBlocks (keys : SigningKeyStore c) (config : LedgerConfig) {w : World}
    (h : Supply blockNeeds w.calls) :
    Prog.Ends (sealBlocks keys config) (surviving fun _ => 0) w := by
  have hnone : ∀ {w' : World}, Supply blockNeeds w'.calls → Supply (fun _ => 0) w'.calls :=
    fun h' => h'.mono fun _ => Nat.zero_le _
  unfold sealBlocks
  refine Prog.ends_bind.mpr (Prog.ends_get.mpr ?_)
  dsimp only
  cases w.core.blocks with
  | none => exact hnone h
  | some _ =>
      refine Prog.ends_bind.mpr (Prog.ends_modify.mpr ?_)
      unfold maybeSealByCount
      cases config.blockMaxEntries with
      | none => exact hnone h
      | some maxEntries =>
          refine Prog.ends_bind.mpr (Prog.ends_get.mpr ?_)
          dsimp only
          split
          · exact hnone h
          · refine survives_bind (survives_ofExcept _ h) (fun _ => Nat.zero_le _)
              fun start w₁ h₁ => ?_
            by_cases hle : maxEntries ≤ (w.onCore fun core =>
                { core with oldestUnsealed := true }).core.chain.len - start
            · rw [if_pos hle]
              exact survives_bind (survives_sealUnsealedRange keys h₁) (fun _ => le_rfl)
                fun _ _ h' => h'
            · rw [if_neg hle]
              exact hnone h₁

theorem survives_finish (keys : SigningKeyStore c) (config : LedgerConfig) (walSeq : Option Nat)
    (o : SealOutcome) {w : World} (h : Supply finishNeeds w.calls) :
    Prog.Ends (finish keys config walSeq o) (surviving fun _ => 0) w := by
  have hneeds : ∀ site, blockNeeds site ≤ less .checkpoint finishNeeds site := by
    intro site
    cases site <;> exact le_rfl
  unfold finish
  refine survives_bind (n := blockNeeds) ?_ (fun _ => Nat.zero_le _) fun _ w₁ h₁ => ?_
  · unfold advanceWatermark
    cases walSeq with
    | none => exact h.mono fun site => (hneeds site).trans (less_le _ _ site)
    | some seq =>
        refine Prog.ends_bind.mpr (Prog.ends_get.mpr ?_)
        by_cases hlt : w.core.appliedWalSeq < seq
        · simp only [if_pos hlt]
          refine Prog.ends_bind.mpr (Prog.ends_modify.mpr ?_)
          have hcheckpoint : 0 < finishNeeds .checkpoint := Nat.one_pos
          refine (survives_diskCall (w := w.onCore fun core => { core with appliedWalSeq := seq })
            h hcheckpoint).mono ?_ ?_ fun _ h' => h'
          · intro _ w' h'
            exact h'.mono hneeds
          · intro _ w' h'
            exact h'.mono hneeds
        · simp only [if_neg hlt]
          exact h.mono fun site => (hneeds site).trans (less_le _ _ site)
  · cases o with
    | appended entry =>
        exact survives_bind (survives_sealBlocks keys config h₁) (fun _ => le_rfl) fun _ _ h' => h'
    | duplicate => exact h₁.mono fun _ => Nat.zero_le _
    | terminal => exact h₁.mono fun _ => Nat.zero_le _

/-- **A seal whose calls all come back does not end the process.** -/
theorem sealOne_survives (keys : SigningKeyStore c) (config : LedgerConfig)
    (draft : LedgerEntryDraft) (walSeq : Option Nat) {w : World}
    (h : Supply (sealNeeds (config.retryMaxAttempts + 1)) w.calls) :
    Prog.Ends (sealOne keys config draft walSeq) (surviving fun _ => 0) w := by
  rw [sealOne_eq]
  exact survives_bind (survives_settle keys config draft h) (fun _ => Nat.zero_le _)
    fun o w' h' => survives_finish keys config walSeq o h'

end Agenomic.Ledger.Pipeline
