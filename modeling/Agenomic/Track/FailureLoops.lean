import Agenomic.Track.Loops

/-!
# Repeated failures

The detector counts failures of any kind since the last change of state, and alerts for
every number above the bound that it has not alerted for. So it alerts when the run of
failures becomes longer than any before (`SetsRecord`, `failureAlerts_eq`), whatever failed
and whether it succeeded in between.

**`detectsFailures_iff`**: alerts tell of streaks, one alert for a streak, exactly when the
events that set a record do.
-/

namespace Agenomic.Track

open Lib Prompt

/-! ## Failures and runs of failures -/

/-- The events that the detector takes as a failure. -/
def observesFailure (ev : TrackingEvent) : Bool :=
  decide (ev.eventType = .toolCallStarted ∨ ev.eventType = .toolCallCompleted
    ∨ ev.eventType = .agentFailed) && LoopDetector.failed ev

/-- The state that an event tells of, where the detector follows the state. -/
def stateOf (ev : TrackingEvent) : Option String :=
  let state := (ev.outputHash.or ev.inputHash).getD ""
  if (ev.eventType = .modelCallCompleted ∨ ev.eventType = .agentStepCompleted) ∧ state ≠ ""
    then some state else none

/-- The failures since the last change of state, and the most there have been. -/
structure Failures where
  run : Nat
  longest : Nat
  last : Option String
  deriving DecidableEq

def Failures.next (f : Failures) (ev : TrackingEvent) : Failures :=
  if observesFailure ev = true then { f with run := f.run + 1, longest := max f.longest (f.run + 1) }
  else
    match stateOf ev with
    | none => f
    | some state => if f.last = some state then f else { f with run := 0, last := some state }

def failures (evs : List TrackingEvent) : Failures := evs.foldl Failures.next ⟨0, 0, none⟩

theorem failures_append (past : List TrackingEvent) (ev : TrackingEvent) :
    failures (past ++ [ev]) = (failures past).next ev := List.foldl_append

/-- The run of failures becomes longer than any before, and longer than the bound. -/
def SetsRecord (config : LoopConfig) (past : List TrackingEvent) (ev : TrackingEvent) : Prop :=
  observesFailure ev = true ∧ (failures past).longest < (failures past).run + 1
    ∧ config.maxSameToolCalls.toNat < (failures past).run + 1 ∧ (failures past).run + 1 < 4294967296

instance (config : LoopConfig) (past : List TrackingEvent) (ev : TrackingEvent) :
    Decidable (SetsRecord config past ev) := inferInstanceAs (Decidable (_ ∧ _))

theorem failures_run_le (evs : List TrackingEvent) : (failures evs).run ≤ (failures evs).longest := by
  induction evs using List.reverseRecOn with
  | nil => exact Nat.le_refl 0
  | append_singleton past ev ih =>
      rw [failures_append]
      unfold Failures.next
      split
      · exact Nat.le_max_right _ _
      · split
        · exact ih
        · split
          · exact ih
          · exact Nat.zero_le _

namespace LoopDetector

/-- The counters hold the failures so far, and every number above the bound that the run has
reached has alerted. -/
structure Followed (config : LoopConfig) (past : List TrackingEvent) (l : LoopDetector) : Prop where
  config_eq : l.config = config
  streak : l.failureStreak = UInt32.ofNat (failures past).run
  last : l.lastStateHash = (failures past).last
  alerted : ∀ n : UInt32, "failure_streak:" ++ toString n ∈ l.alerted ↔
    config.maxSameToolCalls.toNat < n.toNat ∧ n.toNat ≤ (failures past).longest

theorem Followed.congr {config : LoopConfig} {past : List TrackingEvent} {l l' : LoopDetector}
    (h : Followed config past l) (hpart : l'.failurePart = l.failurePart) :
    Followed config past l' := by
  obtain ⟨hconfig, hrest⟩ := Prod.mk.inj hpart
  obtain ⟨hstreak, hrest⟩ := Prod.mk.inj hrest
  obtain ⟨hlast, halerted⟩ := Prod.mk.inj hrest
  refine ⟨hconfig.trans h.config_eq, hstreak.trans h.streak, hlast.trans h.last, fun n => ?_⟩
  rw [← h.alerted n]
  exact decide_eq_decide.mp (congrFun halerted n)

/-- The alert is about repeated failures. -/
def IsFailureAlert (b : AlertBody) : Prop := aboutLoop b = some LoopType.repeatedFailure.label

instance (b : AlertBody) : Decidable (IsFailureAlert b) := inferInstanceAs (Decidable (_ = _))

/-- The number of alerts about failures that an event raises. -/
def failureAlerts (l : LoopDetector) (ev : TrackingEvent) : Nat :=
  (observe ev l).2.countP fun b => IsFailureAlert b

theorem countP_of_leaves_failure {w : Watch LoopDetector} (hw : Watch.Leaves failurePart
    (fun b => aboutLoop b ≠ some LoopType.repeatedFailure.label) w) (l : LoopDetector) :
    (w l).2.countP (fun b => IsFailureAlert b) = 0 := by
  rw [List.countP_eq_zero]
  intro b hb hfailure
  exact (hw l).2 b hb (of_decide_eq_true hfailure)

/-- A step takes an event into account: it keeps the counters, and finds the one alert of a
record. -/
def Follows (config : LoopConfig) (past : List TrackingEvent) (ev : TrackingEvent)
    (w : Watch LoopDetector) : Prop :=
  ∀ l, Followed config past l → Followed config (past ++ [ev]) (w l).1
    ∧ (w l).2.countP (fun b => IsFailureAlert b) = if SetsRecord config past ev then 1 else 0

variable {config : LoopConfig} {past : List TrackingEvent} {ev : TrackingEvent}
  {quiet w : Watch LoopDetector}

/-- What leaves the failures alone may come before. -/
theorem Follows.after (hw : Follows config past ev w) (hquiet : Watch.Leaves failurePart
    (fun b => aboutLoop b ≠ some LoopType.repeatedFailure.label) quiet) :
    Follows config past ev (.seq quiet w) := by
  intro l h
  obtain ⟨hkept, halerts⟩ := hw _ (h.congr (hquiet l).1)
  refine ⟨hkept, ?_⟩
  dsimp only [Watch.seq]
  rw [List.countP_append, countP_of_leaves_failure hquiet, halerts, Nat.zero_add]

theorem Followed.of_same {l : LoopDetector} (h : Followed config past l)
    (hsame : failures (past ++ [ev]) = failures past) : Followed config (past ++ [ev]) l := by
  refine ⟨h.config_eq, ?_, ?_, fun n => ?_⟩
  · rw [hsame]
    exact h.streak
  · rw [hsame]
    exact h.last
  · rw [hsame]
    exact h.alerted n

theorem not_setsRecord (hfailure : observesFailure ev = false) : ¬ SetsRecord config past ev := by
  intro hr
  rw [SetsRecord, hfailure] at hr
  cases hr.1

/-- An event that is no failure and tells of no state changes nothing. -/
theorem follows_quiet (hfailure : observesFailure ev = false) (hstate : stateOf ev = none)
    (hquiet : Watch.Leaves failurePart
      (fun b => aboutLoop b ≠ some LoopType.repeatedFailure.label) quiet) :
    Follows config past ev quiet := by
  intro l h
  have hsame : failures (past ++ [ev]) = failures past := by
    rw [failures_append]
    unfold Failures.next
    rw [hfailure, hstate]
    rfl
  rw [countP_of_leaves_failure hquiet, if_neg (not_setsRecord hfailure)]
  exact ⟨(h.congr (hquiet l).1).of_same hsame, rfl⟩

theorem failureKey_injective {n m : UInt32}
    (h : "failure_streak:" ++ toString n = "failure_streak:" ++ toString m) : n = m := by
  have hrepr : Nat.repr n.toNat = Nat.repr m.toNat := (String.append_right_inj _).mp h
  exact UInt32.toNat_inj.mp (Nat.repr_injective hrepr)

/-- One more failure. -/
def countFailure (l : LoopDetector) : LoopDetector := { l with failureStreak := l.failureStreak + 1 }

/-- The alert about a run of failures. -/
def raiseFailure (n : UInt32) (eid : String) : Watch LoopDetector :=
  raise ("failure_streak:" ++ toString n) .repeatedFailure
    (toString n ++ " consecutive failed attempts.") eid
    (.object [("failure_streak", natValue n.toNat)])

theorem observeFailure_of_failed (h : failed ev = true) (l : LoopDetector) :
    observeFailure ev l = Watch.when (l.config.maxSameToolCalls < l.failureStreak + 1)
      (raiseFailure (l.failureStreak + 1) ev.eventId) l.countFailure := by
  unfold observeFailure
  rw [Watch.when, if_pos h]
  rfl

theorem countP_raiseFailure {n : UInt32} {eid : String} {l : LoopDetector}
    (hkey : "failure_streak:" ++ toString n ∉ l.alerted) :
    (raiseFailure n eid l).2.countP (fun b => IsFailureAlert b) = 1 := by
  unfold raiseFailure raise raiseOnce
  dsimp only
  rw [if_neg hkey]
  rfl

theorem observesFailure_of_ne (h : ev.eventType ≠ .toolCallStarted)
    (h' : ev.eventType ≠ .toolCallCompleted) (h'' : ev.eventType ≠ .agentFailed) :
    observesFailure ev = false := by
  unfold observesFailure
  rw [decide_eq_false (not_or.mpr ⟨h, not_or.mpr ⟨h', h''⟩⟩), Bool.false_and]

theorem stateOf_of_ne (h : ev.eventType ≠ .modelCallCompleted)
    (h' : ev.eventType ≠ .agentStepCompleted) : stateOf ev = none :=
  if_neg fun hs => not_or.mpr ⟨h, h'⟩ hs.1

/-- **Counting a failure.** -/
theorem follows_failure (htype : ev.eventType = .toolCallStarted
      ∨ ev.eventType = .toolCallCompleted ∨ ev.eventType = .agentFailed) :
    Follows config past ev (observeFailure ev) := by
  by_cases hfailed : failed ev = true
  · have hobserves : observesFailure ev = true := by
      unfold observesFailure
      rw [decide_eq_true htype, hfailed, Bool.and_true]
    have hnext : failures (past ++ [ev]) = { failures past with
        run := (failures past).run + 1
        longest := max (failures past).longest ((failures past).run + 1) } := by
      rw [failures_append]
      unfold Failures.next
      rw [if_pos hobserves]
    intro l h
    have hconfig := h.config_eq
    subst hconfig
    have hle := failures_run_le past
    have hbound : l.config.maxSameToolCalls.toNat < 4294967296 := UInt32.toNat_lt _
    have hcount : (l.failureStreak + 1).toNat = ((failures past).run + 1) % 4294967296 := by
      rw [h.streak, UInt32.toNat_add, UInt32.toNat_ofNat']
      change (_ + 1) % 4294967296 = _
      omega
    have hstreak : l.failureStreak + 1 = UInt32.ofNat ((failures past).run + 1) := by
      rw [h.streak, UInt32.ofNat_add]
      rfl
    have hkey := h.alerted (l.failureStreak + 1)
    rw [observeFailure_of_failed hfailed]
    unfold Watch.when
    by_cases hexceeds : l.config.maxSameToolCalls < l.failureStreak + 1
    · rw [if_pos hexceeds]
      have hlt : l.config.maxSameToolCalls.toNat < (l.failureStreak + 1).toNat := hexceeds
      by_cases hin : "failure_streak:" ++ toString (l.failureStreak + 1) ∈ l.alerted
      · -- an earlier run was as long
        have hold := hkey.mp hin
        have hraise : raiseFailure (l.failureStreak + 1) ev.eventId l.countFailure
            = (l.countFailure, []) := by
          unfold raiseFailure
          rw [raise_eq]
          exact if_pos hin
        rw [hraise, if_neg fun hr => by have := hr.2; omega]
        refine ⟨⟨rfl, ?_, ?_, fun n => ?_⟩, rfl⟩
        · rw [hnext]
          exact hstreak
        · rw [hnext]
          exact h.last
        · rw [hnext]
          have hn : n.toNat < 4294967296 := UInt32.toNat_lt n
          refine (h.alerted n).trans (and_congr_right fun _ => ?_)
          dsimp only
          omega
      · -- no run has been as long
        have hfirst : (failures past).longest < (failures past).run + 1
            ∧ (failures past).run + 1 < 4294967296 := by
          rw [hkey] at hin
          omega
        have hraise : (raiseFailure (l.failureStreak + 1) ev.eventId l.countFailure).1
            = { l.countFailure with
                alerted := ("failure_streak:" ++ toString (l.failureStreak + 1)) :: l.alerted } := by
          unfold raiseFailure
          rw [raise_eq]
          exact congrArg Prod.fst (if_neg hin)
        rw [countP_raiseFailure (l := l.countFailure) hin,
          if_pos ⟨hobserves, hfirst.1, by omega, hfirst.2⟩, hraise]
        refine ⟨⟨rfl, ?_, ?_, fun n => ?_⟩, rfl⟩
        · rw [hnext]
          exact hstreak
        · rw [hnext]
          exact h.last
        · rw [hnext]
          dsimp only
          by_cases hn : n = l.failureStreak + 1
          · rw [hn]
            exact iff_of_true List.mem_cons_self ⟨hlt, by omega⟩
          · have hne : n.toNat ≠ (l.failureStreak + 1).toNat := fun heq => hn (UInt32.toNat_inj.mp heq)
            refine (List.mem_cons.trans (or_iff_right fun heq => hn (failureKey_injective heq))).trans ?_
            refine (h.alerted n).trans (and_congr_right fun _ => ?_)
            omega
    · rw [if_neg hexceeds]
      have hnot : ¬ l.config.maxSameToolCalls.toNat < (l.failureStreak + 1).toNat := hexceeds
      rw [if_neg fun hr => by have := hr.2; omega]
      refine ⟨⟨rfl, ?_, ?_, fun n => ?_⟩, rfl⟩
      · rw [hnext]
        exact hstreak
      · rw [hnext]
        exact h.last
      · rw [hnext]
        have hn : n.toNat < 4294967296 := UInt32.toNat_lt n
        refine (h.alerted n).trans (and_congr_right fun _ => ?_)
        dsimp only
        omega
  · have hskip : observeFailure ev = .skip := by
      unfold observeFailure Watch.when
      rw [if_neg hfailed]
    have hobserves : observesFailure ev = false := by
      unfold observesFailure
      rw [Bool.eq_false_iff.mpr hfailed, Bool.and_false]
    rw [hskip]
    refine follows_quiet hobserves ?_ leaves_skip
    refine stateOf_of_ne ?_ ?_
    · rcases htype with h | h | h <;> rw [h] <;> decide
    · rcases htype with h | h | h <;> rw [h] <;> decide

/-- **Following the state.** -/
theorem follows_progress (htype : ev.eventType = .modelCallCompleted
      ∨ ev.eventType = .agentStepCompleted) :
    Follows config past ev (observeProgress ev) := by
  have hobserves : observesFailure ev = false := by
    refine observesFailure_of_ne ?_ ?_ ?_
    · rcases htype with h | h <;> rw [h] <;> decide
    · rcases htype with h | h <;> rw [h] <;> decide
    · rcases htype with h | h <;> rw [h] <;> decide
  unfold observeProgress
  dsimp only
  by_cases hstate : (ev.outputHash.or ev.inputHash).getD "" = ""
  · rw [Watch.when, if_neg (not_not.mpr hstate)]
    exact follows_quiet hobserves (if_neg fun hs => hs.2 hstate) leaves_skip
  · rw [Watch.when, if_pos hstate]
    have hsome : stateOf ev = some ((ev.outputHash.or ev.inputHash).getD "") :=
      if_pos ⟨htype, hstate⟩
    have hnext : failures (past ++ [ev]) = if (failures past).last = some ((ev.outputHash.or
        ev.inputHash).getD "") then failures past else { failures past with
          run := 0
          last := some ((ev.outputHash.or ev.inputHash).getD "") } := by
      rw [failures_append]
      unfold Failures.next
      rw [hobserves, hsome]
      rfl
    intro l h
    rw [if_neg (not_setsRecord hobserves), Watch.read]
    by_cases hsame : l.lastStateHash = some ((ev.outputHash.or ev.inputHash).getD "")
    · rw [if_pos hsame]
      rw [if_pos (h.last ▸ hsame)] at hnext
      have hkey : ∀ k, "failure_streak:" ++ k ≠ "no_progress" := by
        intro k
        have hne := (otherStarts_apart "no_progress" (by simp [otherStarts])).2.append_ne k ""
        rw [String.append_empty] at hne
        exact hne
      have hquiet : Watch.Leaves failurePart
          (fun b => aboutLoop b ≠ some LoopType.repeatedFailure.label)
          (.seq (.update fun l => { l with noProgressStreak := l.noProgressStreak + 1 }) <|
            .read fun l => .when (l.config.noProgressWindow ≤ l.noProgressStreak) <|
              raise "no_progress" .noProgress
                (toString l.noProgressStreak
                  ++ " consecutive events produced no state change (output hash unchanged).")
                ev.eventId
                (.object [("no_progress_window", natValue l.noProgressStreak.toNat),
                  ("state_hash", .string ((ev.outputHash.or ev.inputHash).getD ""))])) :=
        leaves_seq (leaves_update fun _ => rfl)
          (leaves_read fun _ => leaves_when (raise_leaves_failure hkey (by decide)))
      exact ⟨(h.congr (hquiet l).1).of_same hnext, countP_of_leaves_failure hquiet l⟩
    · rw [if_neg hsame]
      rw [if_neg (h.last ▸ hsame)] at hnext
      -- the state is new: the run of failures ends
      refine ⟨⟨h.config_eq, ?_, ?_, fun n => ?_⟩, rfl⟩
      · rw [hnext]
        rfl
      · rw [hnext]
        rfl
      · rw [hnext]
        exact h.alerted n

/-- **One event** keeps the counters, and raises one alert about failures where it sets a
record. -/
theorem follows_observe : Follows config past ev (observe ev) := by
  have hduration : Watch.Leaves failurePart
      (fun b => aboutLoop b ≠ some LoopType.repeatedFailure.label) (observeDuration ev) :=
    (observeDuration_leaves ev).mono Prod.snd fun _ hb => hb.2
  refine Follows.after ?_ hduration
  split
  · rename_i ht
    refine follows_quiet (observesFailure_of_ne ?_ ?_ ?_) (stateOf_of_ne ?_ ?_)
      ((observeStep_leaves ev).mono Prod.snd fun _ hb => hb.2) <;> rw [ht] <;> decide
  · rename_i ht
    exact (follows_failure (.inr (.inl ht))).after (observeTool_leaves ev)
  · rename_i ht
    exact (follows_failure (.inl ht)).after (observeTool_leaves ev)
  · rename_i ht
    exact (follows_progress (.inl ht)).after
      ((observeModel_leaves ev).mono Prod.snd fun _ hb => hb.2)
  · rename_i ht
    exact follows_progress (.inr ht)
  · rename_i ht
    exact follows_failure (.inr (.inr ht))
  · rename_i hstep htool htool' hmodel hstep' hfailed
    exact follows_quiet (observesFailure_of_ne htool' htool hfailed) (stateOf_of_ne hmodel hstep')
      leaves_skip

theorem followed_new (sessionId : String) (config : LoopConfig) (startedAt : Timestamp) :
    Followed config [] (new sessionId config startedAt) := by
  refine ⟨rfl, rfl, rfl, fun n => iff_of_false List.not_mem_nil fun h => ?_⟩
  have hzero : n.toNat ≤ 0 := h.2
  omega

/-- **A run** keeps the counters. -/
theorem Followed.watched {l : LoopDetector} (h : Followed config past l)
    (evs : List TrackingEvent) : Followed config (past ++ evs) (l.watched evs) := by
  induction evs generalizing past l with
  | nil =>
      rw [List.append_nil]
      exact h
  | cons ev evs ih =>
      have hstep : Follows config past ev (observe ev) := follows_observe
      have hnext := ih (hstep l h).1
      rw [List.append_assoc] at hnext
      exact hnext

/-- **The alerts about failures**: one at an event that sets a record, none elsewhere. -/
theorem failureAlerts_eq (sessionId : String) (config : LoopConfig) (startedAt : Timestamp)
    (past : List TrackingEvent) (ev : TrackingEvent) :
    failureAlerts ((new sessionId config startedAt).watched past) ev
      = if SetsRecord config past ev then 1 else 0 :=
  (follows_observe _ ((followed_new sessionId config startedAt).watched past)).2

/-! ## Streaks of an operation -/

/-- Something was completed, and did not fail. -/
def succeeds (ev : TrackingEvent) : Bool :=
  decide (ev.eventType = .toolCallCompleted ∨ ev.eventType = .modelCallCompleted
    ∨ ev.eventType = .agentStepCompleted ∨ ev.eventType = .agentCompleted) && !failed ev

section Streaks

variable {ω : Type} [DecidableEq ω]

/-- The failures of an operation in a row, since it last succeeded. -/
def streak (operation : TrackingEvent → ω) (o : ω) (evs : List TrackingEvent) : Nat :=
  evs.foldl (fun n ev =>
    if operation ev = o then
      if failed ev = true then n + 1 else if succeeds ev = true then 0 else n
    else n) 0

/-- Some events tell of streaks beyond the bound: where one stands, an operation has failed more
often than that in a row, and between two of the same operation it has succeeded. -/
structure TellStreaks (operation : TrackingEvent → ω) (bound : Nat) (evs : List TrackingEvent)
    (tells : List TrackingEvent → TrackingEvent → Prop) : Prop where
  beyond : ∀ past ev, past ++ [ev] <+: evs → tells past ev →
    bound < streak operation (operation ev) (past ++ [ev])
  once : ∀ past ev between ev', past ++ [ev] ++ between ++ [ev'] <+: evs →
    operation ev' = operation ev → tells past ev → tells (past ++ [ev] ++ between) ev' →
    ∃ s ∈ between, operation s = operation ev ∧ succeeds s = true

theorem TellStreaks.congr {operation : TrackingEvent → ω} {bound : Nat} {evs : List TrackingEvent}
    {tells tells' : List TrackingEvent → TrackingEvent → Prop}
    (h : TellStreaks operation bound evs tells) (hiff : ∀ past ev, tells past ev ↔ tells' past ev) :
    TellStreaks operation bound evs tells' where
  beyond past ev hev ht := h.beyond past ev hev ((hiff _ _).mpr ht)
  once past ev between ev' hev ho ht ht' :=
    h.once past ev between ev' hev ho ((hiff _ _).mpr ht) ((hiff _ _).mpr ht')

/-- An event raises at most one alert about failures, and those that raise one tell of streaks. -/
def DetectsFailures (sessionId : String) (config : LoopConfig) (startedAt : Timestamp)
    (operation : TrackingEvent → ω) (evs : List TrackingEvent) : Prop :=
  (∀ past ev, past ++ [ev] <+: evs →
    failureAlerts ((new sessionId config startedAt).watched past) ev ≤ 1)
  ∧ TellStreaks operation config.maxSameToolCalls.toNat evs fun past ev =>
    0 < failureAlerts ((new sessionId config startedAt).watched past) ev

/-- **Repeated failures are detected once per streak**, whatever counts as one operation,
exactly when the events that set a record tell of streaks. -/
theorem detectsFailures_iff (sessionId : String) (config : LoopConfig) (startedAt : Timestamp)
    (operation : TrackingEvent → ω) (evs : List TrackingEvent) :
    DetectsFailures sessionId config startedAt operation evs
      ↔ TellStreaks operation config.maxSameToolCalls.toNat evs (SetsRecord config) := by
  have hraised : ∀ past ev, 0 < failureAlerts ((new sessionId config startedAt).watched past) ev
      ↔ SetsRecord config past ev := by
    intro past ev
    rw [failureAlerts_eq]
    by_cases hr : SetsRecord config past ev
    · rw [if_pos hr]
      exact iff_of_true Nat.zero_lt_one hr
    · rw [if_neg hr]
      exact iff_of_false (Nat.lt_irrefl 0) hr
  constructor
  · intro h
    exact h.2.congr hraised
  · intro h
    refine ⟨fun past ev _ => ?_, h.congr fun past ev => (hraised past ev).symm⟩
    rw [failureAlerts_eq]
    split <;> decide

end Streaks

/-- A call that completes with an error. -/
def failedCall : TrackingEvent :=
  { callEvent .toolCallCompleted "search" "blake3:aa" with
    metadata := some (.object [("status", .string "error")]) }

/-- One call fails five times in a row, and there are two alerts. -/
theorem not_detectsFailures : ¬ DetectsFailures "s1" LoopConfig.default 0 callOf
    [failedCall, failedCall, failedCall, failedCall, failedCall] := by
  intro h
  have hraised : ∀ past ev, SetsRecord LoopConfig.default past ev →
      0 < failureAlerts ((new "s1" LoopConfig.default 0).watched past) ev := by
    intro past ev hr
    rw [failureAlerts_eq, if_pos hr]
    exact Nat.zero_lt_one
  obtain ⟨s, hs, _⟩ := h.2.once [failedCall, failedCall, failedCall] failedCall [] failedCall
    (List.prefix_refl _) rfl (hraised _ _ (by decide +kernel)) (hraised _ _ (by decide +kernel))
  exact List.not_mem_nil hs

end LoopDetector

end Agenomic.Track
