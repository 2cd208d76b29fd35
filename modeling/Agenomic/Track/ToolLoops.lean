import Agenomic.Track.Loops

/-!
# Repeated calls of tools

The detector counts events of calls of tools, by a key that joins the name of the tool and
the hash of the input, and alerts when the count of a key first exceeds the bound
(`alertsFor_eq`). A call, though, may be two events, one when it starts and one when it
completes; and different pairs may join to one key.

**`detectsCalls_iff`**: the alerts for a pair are those for its calls exactly when what
crosses the bound is the same for the calls as for the events under the joined key.
-/

namespace Agenomic.Track

open Lib Prompt

/-! ## Calls of tools -/

/-- The key of a pair: other pairs may have the same. -/
def joined (call : String × String) : String := call.1 ++ "|" ++ call.2

/-- The calls made with a pair, and how many of them have started and not completed. -/
structure Calls where
  made : Nat
  running : Nat
  deriving DecidableEq

/-- A start is a new call. A completion ends a running call, if there is one; else it is all
that is seen of a call. -/
def Calls.next (call : String × String) (c : Calls) (ev : TrackingEvent) : Calls :=
  if callOf ev = some call then
    if ev.eventType = .toolCallStarted then ⟨c.made + 1, c.running + 1⟩
    else if c.running = 0 then ⟨c.made + 1, 0⟩
    else ⟨c.made, c.running - 1⟩
  else c

/-- The number of calls made with a pair. -/
def callsMade (call : String × String) (evs : List TrackingEvent) : Nat :=
  (evs.foldl (Calls.next call) ⟨0, 0⟩).made

/-- The number of events of calls under a key. -/
def eventsUnder (key : String) (evs : List TrackingEvent) : Nat :=
  evs.countP fun ev => (callOf ev).map joined = some key

/-- A count first exceeds the bound at an event. -/
def Crosses (count : List TrackingEvent → Nat) (bound : Nat) (past : List TrackingEvent)
    (ev : TrackingEvent) : Prop :=
  count past ≤ bound ∧ bound < count (past ++ [ev])

instance (count : List TrackingEvent → Nat) (bound : Nat) (past : List TrackingEvent)
    (ev : TrackingEvent) : Decidable (Crosses count bound past ev) :=
  inferInstanceAs (Decidable (_ ∧ _))

theorem eventsUnder_append (key : String) (past : List TrackingEvent) (ev : TrackingEvent) :
    eventsUnder key (past ++ [ev])
      = eventsUnder key past + if (callOf ev).map joined = some key then 1 else 0 := by
  unfold eventsUnder
  rw [List.countP_append, List.countP_singleton]
  simp only [decide_eq_true_eq]

namespace LoopDetector

/-- A text of what an alert about a loop has observed. -/
def observedText (b : AlertBody) (key : String) : Option String :=
  ((b.details.bind fun v => v.get "observed").bind fun v => v.get key).bind Value.asStr

/-- The alert is about repeated calls with a pair. -/
def IsCallAlert (call : String × String) (b : AlertBody) : Prop :=
  aboutLoop b = some LoopType.repeatedToolCall.label ∧ observedText b "tool" = some call.1
    ∧ observedText b "input_hash" = some call.2

instance (call : String × String) (b : AlertBody) : Decidable (IsCallAlert call b) :=
  inferInstanceAs (Decidable (_ ∧ _))

/-- The number of alerts for a pair that an event raises. -/
def alertsFor (call : String × String) (l : LoopDetector) (ev : TrackingEvent) : Nat :=
  (observe ev l).2.countP fun b => IsCallAlert call b

/-! ## What one event does -/

/-- An event that is about no call leaves the calls alone. -/
theorem observe_leaves_of_none {ev : TrackingEvent} (h : callOf ev = none) :
    Watch.Leaves toolPart (fun b => aboutLoop b ≠ some LoopType.repeatedToolCall.label)
      (observe ev) := by
  have hdrop : ∀ {w : Watch LoopDetector}, Watch.Leaves parts Other w → Watch.Leaves toolPart
      (fun b => aboutLoop b ≠ some LoopType.repeatedToolCall.label) w :=
    fun hw => hw.mono Prod.fst fun _ hb => hb.1
  have htool : (ev.eventType = .toolCallStarted ∨ ev.eventType = .toolCallCompleted) →
      observeTool ev = .skip := by
    intro ht
    have hnone : ev.tool = none := by
      unfold callOf at h
      rcases ht with ht | ht
      · rw [ht] at h
        exact Option.map_eq_none_iff.mp h
      · rw [ht] at h
        exact Option.map_eq_none_iff.mp h
    unfold observeTool
    rw [hnone]
  refine leaves_seq (hdrop (observeDuration_leaves ev)) ?_
  split
  · exact hdrop (observeStep_leaves ev)
  · rename_i ht
    rw [htool (.inr ht)]
    exact leaves_seq leaves_skip (observeFailure_leaves ev)
  · rename_i ht
    rw [htool (.inl ht)]
    exact leaves_seq leaves_skip (observeFailure_leaves ev)
  · exact leaves_seq (hdrop (observeModel_leaves ev)) (observeProgress_leaves ev)
  · exact observeProgress_leaves ev
  · exact observeFailure_leaves ev
  · exact leaves_skip

/-- An event of a call is counted between two steps that leave the calls alone. -/
theorem observe_of_some {ev : TrackingEvent} {call : String × String} (h : callOf ev = some call) :
    observe ev = .seq (observeDuration ev) (.seq (observeTool ev) (observeFailure ev)) := by
  unfold callOf at h
  unfold observe
  split at h
  · rename_i ht
    rw [ht]
  · rename_i ht
    rw [ht]
  · cases h

/-- The next count of the key of a pair. -/
def nextCount (l : LoopDetector) (call : String × String) : UInt32 := l.toolCalls (joined call) + 1

/-- One more event of a pair. -/
def countCall (l : LoopDetector) (call : String × String) : LoopDetector :=
  { l with toolCalls := countUp l.toolCalls (joined call) }

/-- The alert for a pair at its next count. -/
def raiseCall (call : String × String) (n : UInt32) (eid : String) : Watch LoopDetector :=
  raise ("tool:" ++ joined call) .repeatedToolCall
    ("Tool '" ++ call.1 ++ "' called " ++ toString n ++ " times with identical input.") eid
    (.object [("tool", .string call.1), ("input_hash", .string call.2), ("count", natValue n.toNat)])

theorem observeTool_of_some {ev : TrackingEvent} {call : String × String}
    (h : callOf ev = some call) (l : LoopDetector) :
    observeTool ev l = Watch.when (l.config.maxSameToolCalls < l.nextCount call)
      (raiseCall call (l.nextCount call) ev.eventId) (l.countCall call) := by
  have hmap : ev.tool.map (fun tool => (tool.name, ev.inputHash.getD "")) = some call := by
    unfold callOf at h
    split at h
    · exact h
    · exact h
    · cases h
  obtain ⟨tool, htool, rfl⟩ := Option.map_eq_some_iff.mp hmap
  have hcount : countUp l.toolCalls (joined (tool.name, ev.inputHash.getD ""))
      (tool.name ++ "|" ++ ev.inputHash.getD "") = l.nextCount (tool.name, ev.inputHash.getD "") :=
    if_pos rfl
  unfold observeTool
  rw [htool]
  dsimp only [Watch.seq, Watch.update, Watch.read]
  unfold countCall joined at *
  simp only [hcount]
  rfl

/-- The counters hold the events so far, and what exceeded the bound has alerted. -/
structure Counted (config : LoopConfig) (past : List TrackingEvent) (l : LoopDetector) : Prop where
  config_eq : l.config = config
  counts : ∀ key, l.toolCalls key = UInt32.ofNat (eventsUnder key past)
  alerted : ∀ key, "tool:" ++ key ∈ l.alerted ↔ config.maxSameToolCalls.toNat < 4294967295
    ∧ config.maxSameToolCalls.toNat < eventsUnder key past

theorem Counted.congr {config : LoopConfig} {past : List TrackingEvent} {l l' : LoopDetector}
    (h : Counted config past l) (hpart : l'.toolPart = l.toolPart) : Counted config past l' := by
  obtain ⟨hconfig, hrest⟩ := Prod.mk.inj hpart
  obtain ⟨hcounts, halerted⟩ := Prod.mk.inj hrest
  refine ⟨hconfig.trans h.config_eq, fun key => ?_, fun key => ?_⟩
  · rw [hcounts]
    exact h.counts key
  · rw [← h.alerted key]
    exact decide_eq_decide.mp (congrFun halerted key)

/-- The pair's key crosses the bound at the event, which is of the pair itself. -/
def KeyCrosses (config : LoopConfig) (call : String × String) (past : List TrackingEvent)
    (ev : TrackingEvent) : Prop :=
  callOf ev = some call ∧ config.maxSameToolCalls.toNat < 4294967295
    ∧ Crosses (eventsUnder (joined call)) config.maxSameToolCalls.toNat past ev

instance (config : LoopConfig) (call : String × String) (past : List TrackingEvent)
    (ev : TrackingEvent) : Decidable (KeyCrosses config call past ev) :=
  inferInstanceAs (Decidable (_ ∧ _))

/-- What is raised for a pair names this pair and no other. -/
theorem isCallAlert_raiseCall {call other : String × String} {n : UInt32} {eid : String}
    {l : LoopDetector} {b : AlertBody} (hb : b ∈ (raiseCall call n eid l).2) :
    IsCallAlert other b ↔ call = other := by
  have hdetails := raise_found hb
  have htool : observedText b "tool" = some call.1 := by
    unfold observedText
    rw [hdetails]
    rfl
  have hinput : observedText b "input_hash" = some call.2 := by
    unfold observedText
    rw [hdetails]
    rfl
  unfold IsCallAlert
  rw [aboutLoop_of_details hdetails, htool, hinput, Prod.ext_iff]
  exact ⟨fun h => ⟨Option.some.inj h.2.1, Option.some.inj h.2.2⟩,
    fun h => ⟨rfl, congrArg some h.1, congrArg some h.2⟩⟩

theorem countP_raiseCall {call other : String × String} {n : UInt32} {eid : String}
    {l : LoopDetector} (hkey : "tool:" ++ joined call ∉ l.alerted) :
    (raiseCall call n eid l).2.countP (fun b => IsCallAlert other b)
      = if call = other then 1 else 0 := by
  have hone : ∃ b, (raiseCall call n eid l).2 = [b] := by
    unfold raiseCall raise raiseOnce
    dsimp only
    rw [if_neg hkey]
    exact ⟨_, rfl⟩
  obtain ⟨b, hb⟩ := hone
  have hmem : b ∈ (raiseCall call n eid l).2 := by
    rw [hb]
    exact List.mem_singleton_self b
  have hiff : IsCallAlert other b ↔ call = other := isCallAlert_raiseCall hmem
  rw [hb, List.countP_singleton]
  simp only [decide_eq_true_eq, hiff]

/-- An event of a pair is one more under the joined key, and under no other. -/
theorem eventsUnder_of_callOf {ev : TrackingEvent} {c : String × String} (hc : callOf ev = some c)
    (key : String) (past : List TrackingEvent) : eventsUnder key (past ++ [ev])
      = eventsUnder key past + if key = joined c then 1 else 0 := by
  rw [eventsUnder_append, hc, Option.map_some]
  by_cases hkey : key = joined c
  · rw [if_pos hkey, if_pos (congrArg some hkey.symm)]
  · rw [if_neg hkey, if_neg fun heq => hkey (Option.some.inj heq).symm]

theorem Counted.counts_next {config : LoopConfig} {past : List TrackingEvent} {l : LoopDetector}
    (h : Counted config past l) {ev : TrackingEvent} {c : String × String} (hc : callOf ev = some c)
    (key : String) : countUp l.toolCalls (joined c) key
      = UInt32.ofNat (eventsUnder key (past ++ [ev])) := by
  unfold countUp
  rw [h.counts key, eventsUnder_of_callOf hc]
  by_cases hkey : key = joined c
  · rw [if_pos hkey, if_pos hkey, UInt32.ofNat_add, h.counts, hkey]
    rfl
  · rw [if_neg hkey, if_neg hkey, Nat.add_zero]

/-- **Counting an event of a call.** -/
theorem Counted.observeTool {config : LoopConfig} {past : List TrackingEvent} {l : LoopDetector}
    (h : Counted config past l) {ev : TrackingEvent} {c : String × String} (hc : callOf ev = some c)
    (call : String × String) :
    Counted config (past ++ [ev]) (observeTool ev l).1
      ∧ (LoopDetector.observeTool ev l).2.countP (fun b => IsCallAlert call b)
          = if KeyCrosses config call past ev then 1 else 0 := by
  have hself := eventsUnder_of_callOf hc (joined c) past
  rw [if_pos rfl] at hself
  have hother : ∀ key, key ≠ joined c → eventsUnder key (past ++ [ev]) = eventsUnder key past := by
    intro key hkey
    rw [eventsUnder_of_callOf hc, if_neg hkey, Nat.add_zero]
  have hconfig := h.config_eq
  subst hconfig
  have hnext : (l.nextCount c).toNat = (eventsUnder (joined c) past + 1) % 4294967296 := by
    unfold nextCount
    rw [h.counts, UInt32.toNat_add, UInt32.toNat_ofNat']
    change (_ + 1) % 4294967296 = _
    omega
  have hbound : l.config.maxSameToolCalls.toNat < 4294967296 := UInt32.toNat_lt _
  have halerted := h.alerted (joined c)
  -- at an event of the pair, its key crosses exactly when the count reaches what exceeds the bound
  have hcross : KeyCrosses l.config call past ev ↔ c = call
      ∧ l.config.maxSameToolCalls.toNat < 4294967295
      ∧ eventsUnder (joined c) past = l.config.maxSameToolCalls.toNat := by
    unfold KeyCrosses Crosses
    rw [hc]
    constructor
    · rintro ⟨hcall, hmax, hle, hlt⟩
      cases hcall
      exact ⟨rfl, hmax, by omega⟩
    · rintro ⟨rfl, hmax, heq⟩
      exact ⟨rfl, hmax, by omega, by omega⟩
  rw [observeTool_of_some hc]
  unfold Watch.when
  by_cases hexceeds : l.config.maxSameToolCalls < l.nextCount c
  · rw [if_pos hexceeds]
    have hlt : l.config.maxSameToolCalls.toNat < (l.nextCount c).toNat := hexceeds
    by_cases hin : "tool:" ++ joined c ∈ l.alerted
    · -- the key has alerted before
      have hold := halerted.mp hin
      have hraise : raiseCall c (l.nextCount c) ev.eventId (l.countCall c) = (l.countCall c, []) := by
        unfold raiseCall
        rw [raise_eq]
        exact if_pos hin
      rw [hraise, if_neg fun hk => by have := (hcross.mp hk).2.2; omega]
      refine ⟨⟨rfl, h.counts_next hc, fun key => ?_⟩, rfl⟩
      by_cases hkey : key = joined c
      · rw [hkey, hself]
        exact iff_of_true hin ⟨hold.1, by omega⟩
      · rw [hother key hkey]
        exact h.alerted key
    · -- the count has just exceeded the bound
      have hfirst : l.config.maxSameToolCalls.toNat < 4294967295
          ∧ eventsUnder (joined c) past = l.config.maxSameToolCalls.toNat := by
        rw [halerted] at hin
        omega
      have hraise : (raiseCall c (l.nextCount c) ev.eventId (l.countCall c)).1
          = { l.countCall c with alerted := ("tool:" ++ joined c) :: l.alerted } := by
        unfold raiseCall
        rw [raise_eq]
        exact congrArg Prod.fst (if_neg hin)
      refine ⟨⟨?_, ?_, fun key => ?_⟩, ?_⟩
      · rw [hraise]
        rfl
      · rw [hraise]
        exact h.counts_next hc
      · rw [hraise]
        by_cases hkey : key = joined c
        · rw [hkey, hself]
          exact iff_of_true List.mem_cons_self ⟨hfirst.1, by omega⟩
        · rw [hother key hkey, ← h.alerted key]
          refine List.mem_cons.trans (or_iff_right fun heq => hkey ?_)
          exact String.append_right_inj _ |>.mp heq
      · rw [countP_raiseCall (l := l.countCall c) hin]
        exact if_congr (hcross.trans (and_iff_left hfirst)).symm rfl rfl
  · rw [if_neg hexceeds]
    have hle : ¬ l.config.maxSameToolCalls.toNat < (l.nextCount c).toNat := hexceeds
    rw [if_neg fun hk => by have := (hcross.mp hk).2; omega]
    refine ⟨⟨rfl, h.counts_next hc, fun key => ?_⟩, rfl⟩
    by_cases hkey : key = joined c
    · rw [hkey, hself]
      refine (h.alerted _).trans (and_congr_right fun hmax => ?_)
      omega
    · rw [hother key hkey]
      exact h.alerted key

/-- Steps that leave the calls alone find no alert for a pair. -/
theorem countP_of_leaves {w : Watch LoopDetector} (hw : Watch.Leaves toolPart
    (fun b => aboutLoop b ≠ some LoopType.repeatedToolCall.label) w) (call : String × String)
    (l : LoopDetector) : (w l).2.countP (fun b => IsCallAlert call b) = 0 := by
  rw [List.countP_eq_zero]
  intro b hb hcall
  exact (hw l).2 b hb (of_decide_eq_true hcall).1

/-- **One event** keeps the counters, and raises an alert for a pair where its key crosses the
bound at an event of the pair. -/
theorem Counted.observe {config : LoopConfig} {past : List TrackingEvent} {l : LoopDetector}
    (h : Counted config past l) (ev : TrackingEvent) (call : String × String) :
    Counted config (past ++ [ev]) (observe ev l).1
      ∧ alertsFor call l ev = if KeyCrosses config call past ev then 1 else 0 := by
  unfold alertsFor
  cases hc : callOf ev with
  | none =>
      have hleaves := observe_leaves_of_none hc
      have hsame : ∀ key, eventsUnder key (past ++ [ev]) = eventsUnder key past := by
        intro key
        rw [eventsUnder_append, hc]
        rfl
      have hnot : ¬ KeyCrosses config call past ev := fun hk => by
        rw [KeyCrosses, hc] at hk
        cases hk.1
      rw [countP_of_leaves hleaves, if_neg hnot]
      refine ⟨⟨?_, fun key => ?_, fun key => ?_⟩, rfl⟩
      · exact (h.congr (hleaves l).1).config_eq
      · rw [hsame]
        exact (h.congr (hleaves l).1).counts key
      · rw [hsame]
        exact (h.congr (hleaves l).1).alerted key
  | some c =>
      -- the call is counted between the duration and the failures
      have hduration : Watch.Leaves toolPart
          (fun b => aboutLoop b ≠ some LoopType.repeatedToolCall.label) (observeDuration ev) :=
        (observeDuration_leaves ev).mono Prod.fst fun _ hb => hb.1
      have hfailure := observeFailure_leaves ev
      have hbefore := h.congr (hduration l).1
      obtain ⟨hcounted, halerts⟩ := hbefore.observeTool hc call
      rw [observe_of_some hc]
      constructor
      · exact hcounted.congr (hfailure _).1
      · dsimp only [Watch.seq]
        rw [List.countP_append, List.countP_append, countP_of_leaves hduration,
          countP_of_leaves hfailure, halerts]
        omega

theorem counted_new (sessionId : String) (config : LoopConfig) (startedAt : Timestamp) :
    Counted config [] (new sessionId config startedAt) :=
  ⟨rfl, fun _ => rfl, fun _ => iff_of_false List.not_mem_nil fun h => Nat.not_lt_zero _ h.2⟩

/-- **A run** keeps the counters. -/
theorem Counted.watched {config : LoopConfig} {past : List TrackingEvent} {l : LoopDetector}
    (h : Counted config past l) (evs : List TrackingEvent) :
    Counted config (past ++ evs) (l.watched evs) := by
  induction evs generalizing past l with
  | nil =>
      rw [List.append_nil]
      exact h
  | cons ev evs ih =>
      have hnext := ih (h.observe ev ("", "")).1
      rw [List.append_assoc] at hnext
      exact hnext

/-- **The alerts for a pair**: one at an event of the pair at which the events under the joined
key cross the bound, none elsewhere. -/
theorem alertsFor_eq (sessionId : String) (config : LoopConfig) (startedAt : Timestamp)
    (past : List TrackingEvent) (ev : TrackingEvent) (call : String × String) :
    alertsFor call ((new sessionId config startedAt).watched past) ev
      = if KeyCrosses config call past ev then 1 else 0 :=
  (((counted_new sessionId config startedAt).watched past).observe ev call).2

/-- An alert for a pair is raised at the event at which the number of its calls first exceeds
the bound, one alone, and at no other event. -/
def DetectsCalls (sessionId : String) (config : LoopConfig) (startedAt : Timestamp)
    (evs : List TrackingEvent) (call : String × String) : Prop :=
  ∀ past ev, past ++ [ev] <+: evs →
    alertsFor call ((new sessionId config startedAt).watched past) ev =
      if Crosses (callsMade call) config.maxSameToolCalls.toNat past ev then 1 else 0

/-- **Repeated calls are detected exactly** where the calls of a pair cross the bound at the same
events as the events under its joined key. -/
theorem detectsCalls_iff (sessionId : String) (config : LoopConfig) (startedAt : Timestamp)
    (evs : List TrackingEvent) (call : String × String) :
    DetectsCalls sessionId config startedAt evs call ↔ ∀ past ev, past ++ [ev] <+: evs →
      (Crosses (callsMade call) config.maxSameToolCalls.toNat past ev
        ↔ KeyCrosses config call past ev) := by
  unfold DetectsCalls
  refine forall_congr' fun past => forall_congr' fun ev => imp_congr_right fun _ => ?_
  rw [alertsFor_eq]
  by_cases hcalls : Crosses (callsMade call) config.maxSameToolCalls.toNat past ev
  · rw [if_pos hcalls]
    by_cases hkey : KeyCrosses config call past ev
    · rw [if_pos hkey]
      exact iff_of_true rfl (iff_of_true hcalls hkey)
    · rw [if_neg hkey]
      exact iff_of_false (by decide) fun h => hkey (h.mp hcalls)
  · rw [if_neg hcalls]
    by_cases hkey : KeyCrosses config call past ev
    · rw [if_pos hkey]
      exact iff_of_false (by decide) fun h => hcalls (h.mpr hkey)
    · rw [if_neg hkey]
      exact iff_of_true rfl (iff_of_false hcalls hkey)

/-- Two calls, each of them started and completed. -/
def twoCalls : List TrackingEvent :=
  let started := callEvent .toolCallStarted "search" "blake3:aa"
  let completed := callEvent .toolCallCompleted "search" "blake3:aa"
  [started, completed, started, completed]

/-- Two calls are not more than three, and yet there is an alert. -/
theorem not_detectsCalls :
    ¬ DetectsCalls "s1" LoopConfig.default 0 twoCalls ("search", "blake3:aa") := by
  intro h
  have hlast := h (twoCalls.take 3) (callEvent .toolCallCompleted "search" "blake3:aa")
    (List.prefix_refl _)
  rw [alertsFor_eq] at hlast
  revert hlast
  decide +kernel

end LoopDetector

end Agenomic.Track
