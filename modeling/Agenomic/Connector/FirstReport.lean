import Agenomic.Connector.LocalHooks

/-!
# The mode comes first

A local session is in the maps of the daemon before the report that connects it, with the
mode it runs in, was attempted: the request that registers the session waits for it, and
the requests that find the session in a map do not.

**`ordered_iff`**: no tool call is decided before the mode was reported exactly when no
such request finds a session whose connecting report is still to come.
-/

namespace Agenomic.Connector

open Lib

/-- Every authorization comes after the connecting report of its session was attempted. -/
def Ordered (log : List Mark) : Prop :=
  ∀ pre post h, log = pre ++ .authorize h :: post → .attempted h ∈ pre

theorem Ordered.of_append {log marks : List Mark} (h : Ordered (log ++ marks)) : Ordered log := by
  intro pre post handle heq
  refine h pre (post ++ marks) handle ?_
  rw [heq, List.append_assoc]
  rfl

theorem ordered_append_mark {log : List Mark} {m : Mark} :
    Ordered (log ++ [m]) ↔ Ordered log ∧ ∀ h, m = .authorize h → .attempted h ∈ log := by
  constructor
  · intro h
    refine ⟨h.of_append, fun handle hm => ?_⟩
    exact h log [] handle (by rw [hm])
  · rintro ⟨hlog, hm⟩ pre post handle heq
    cases post using List.reverseRecOn with
    | nil =>
        obtain ⟨hpre, hlast⟩ := List.append_inj' heq rfl
        rw [← hpre]
        exact hm handle (List.cons.inj hlast).1
    | append_singleton rest last =>
        rw [← List.cons_append, ← List.append_assoc] at heq
        exact hlog pre rest handle (List.append_inj' heq rfl).1

/-- The session that a request may ask the gateway about again. -/
def Phase.asks : Phase → Option Nat
  | .authorizing h _ _ _ => some h
  | .approving h _ _ => some h
  | _ => none

namespace Daemon

variable {d : Daemon}

/-- A tool call finds a session whose connecting report was not attempted. -/
def Unattempted (d : Daemon) : Op → Prop
  | .onLocal key (.preToolUse _) _ =>
      d.phase = .running ∧ ∃ h, d.byNative.get key = some h ∧ .attempted h ∉ d.log
  | .registered i (some id) _ =>
      ∃ r toolUseId h, d.hooks[i]? = some r ∧ r.phase = .registering
        ∧ r.event = .preToolUse toolUseId ∧ d.sessions.get id = some h ∧ .attempted h ∉ d.log
  | _ => False

/-- The log is ordered, and so it stays when the requests in it ask again. -/
structure Safe (d : Daemon) : Prop where
  ordered : Ordered d.log
  asked : ∀ r ∈ d.hooks, ∀ h, r.phase.asks = some h → .attempted h ∈ d.log

theorem safe_new (saved : List PendingOutcome) : Safe (new saved) where
  ordered := fun _ _ _ h => absurd h.symm (List.append_ne_nil_of_right_ne_nil _ (by simp))
  asked := fun _ h => absurd h List.not_mem_nil

/-! ## What the steps do to the log and to the requests -/

theorem mem_hooks_setPhase {i : Nat} {phase : Phase} {r : HookRequest}
    (h : r ∈ (d.setPhase i phase).hooks) : r ∈ d.hooks ∨ r.phase = phase := by
  obtain ⟨j, hj⟩ := List.mem_iff_getElem?.mp h
  unfold setPhase at hj
  dsimp only at hj
  rw [List.getElem?_modify] at hj
  obtain ⟨r', hr', heq⟩ := Option.map_eq_some_iff.mp hj
  by_cases hij : i = j
  · rw [if_pos hij] at heq
    exact .inr (by rw [← heq])
  · rw [if_neg hij] at heq
    exact .inl (heq ▸ List.mem_of_getElem? hr')

/-- A step that asks the gateway for nothing. -/
structure Quiet (d d' : Daemon) : Prop where
  log : d'.log = d.log
  hooks : ∀ r ∈ d'.hooks, r.phase.asks = none ∨ r ∈ d.hooks

theorem Quiet.safe {d' : Daemon} (hq : Quiet d d') (h : Safe d) : Safe d' where
  ordered := by
    rw [hq.log]
    exact h.ordered
  asked := by
    intro r hr handle hasks
    rw [hq.log]
    rcases hq.hooks r hr with hnone | hmem
    · rw [hnone] at hasks
      cases hasks
    · exact h.asked r hmem handle hasks

theorem Quiet.refl (d : Daemon) : Quiet d d := ⟨rfl, fun _ hmem => .inr hmem⟩

theorem Quiet.trans {d₁ d₂ d₃ : Daemon} (h : Quiet d₁ d₂) (h' : Quiet d₂ d₃) : Quiet d₁ d₃ := by
  refine ⟨h'.log.trans h.log, fun r hr => ?_⟩
  rcases h'.hooks r hr with hnone | hmem
  · exact .inl hnone
  · exact h.hooks r hmem

theorem quiet_of_eq {d' : Daemon} (hlog : d'.log = d.log) (hhooks : d'.hooks = d.hooks) :
    Quiet d d' := ⟨hlog, fun _ hr => .inr (hhooks ▸ hr)⟩

theorem quiet_setPhase (i : Nat) {phase : Phase} (h : phase.asks = none) :
    Quiet d (d.setPhase i phase) := by
  refine ⟨rfl, fun r hr => ?_⟩
  rcases mem_hooks_setPhase hr with hmem | heq
  · exact .inr hmem
  · exact .inl (by rw [heq, h])

theorem quiet_addHook {r : HookRequest} (h : r.phase.asks = none) : Quiet d (d.addHook r) := by
  refine ⟨rfl, fun r' hr' => ?_⟩
  rcases List.mem_append.mp hr' with hmem | hmem
  · exact .inr hmem
  · exact .inl (by rw [List.mem_singleton.mp hmem, h])

theorem quiet_onContext (h : Nat) (f : SessionContext → SessionContext) :
    Quiet d (d.onContext h f) := quiet_of_eq rfl rfl

theorem quiet_settleFinal (h : Nat) (summary : String) : Quiet d (d.settleFinal h summary) := by
  unfold settleFinal
  cases d.contexts[h]? with
  | none => exact .refl d
  | some c => exact quiet_of_eq rfl rfl

/-- A request goes on. -/
theorem safe_setPhase {i : Nat} {phase : Phase} (h : Safe d)
    (hasks : ∀ handle, phase.asks = some handle → .attempted handle ∈ d.log) :
    Safe (d.setPhase i phase) where
  ordered := h.ordered
  asked := by
    intro r hr handle hr'
    rcases mem_hooks_setPhase hr with hmem | heq
    · exact h.asked r hmem handle hr'
    · rw [heq] at hr'
      exact hasks handle hr'

theorem safe_mark {m : Mark} (h : Safe d)
    (hm : ∀ handle, m = .authorize handle → .attempted handle ∈ d.log) : Safe (d.mark m) where
  ordered := ordered_append_mark.mpr ⟨h.ordered, hm⟩
  asked := fun r hr handle hasks => List.mem_append_left _ (h.asked r hr handle hasks)

/-- Ask the gateway about a session. -/
theorem safe_ask {i handle : Nat} {phase : Phase} (h : Safe d) (hasks : phase.asks = some handle)
    (hattempted : .attempted handle ∈ d.log) :
    Safe ((d.setPhase i phase).mark (.authorize handle)) := by
  refine safe_mark (safe_setPhase h fun h' hh' => ?_) fun h' heq => ?_
  · rw [hasks] at hh'
    cases hh'
    exact hattempted
  · cases heq
    exact hattempted

/-- **An event that is answered** asks the gateway only when it is a tool call. -/
theorem quiet_answerHook {i h : Nat} {event : HookEvent} (hno : ∀ t, event ≠ .preToolUse t) :
    Quiet d (d.answerHook i h event) := by
  cases event with
  | preToolUse t => exact absurd rfl (hno t)
  | postToolUse t failed =>
      unfold answerHook
      dsimp only
      cases d.contexts[h]? with
      | none => exact quiet_setPhase i rfl
      | some c =>
          dsimp only
          cases (c.lookup t).bind Verdict.actionId with
          | none => exact quiet_setPhase i rfl
          | some action =>
              dsimp only
              split
              · exact quiet_setPhase i rfl
              · exact (quiet_onContext h _).trans (quiet_setPhase i rfl)
  | stop => exact (quiet_onContext h _).trans (quiet_setPhase i rfl)
  | sessionEnd => exact (quiet_settleFinal h _).trans (quiet_setPhase i rfl)
  | other => exact quiet_setPhase i rfl

theorem safe_answerHook {i h : Nat} {event : HookEvent} (hs : Safe d)
    (hattempted : ∀ t, event = .preToolUse t → .attempted h ∈ d.log) :
    Safe (d.answerHook i h event) := by
  by_cases hcall : ∃ t, event = .preToolUse t
  · obtain ⟨t, rfl⟩ := hcall
    exact safe_ask hs rfl (hattempted t rfl)
  · exact (quiet_answerHook fun t ht => hcall ⟨t, ht⟩).safe hs

theorem quiet_finish (i h : Nat) (nativeId : String) (refused : Option String) :
    Quiet d (d.finish i h nativeId refused) := by
  cases refused with
  | none => exact quiet_setPhase i rfl
  | some action => exact (quiet_onContext h _).trans (quiet_setPhase i rfl)

theorem safe_decided {h : Nat} {nativeId : String} {v : Verdict} (hs : Safe d) :
    Safe (d.decided h nativeId v) := by
  have hkeep : Safe (d.onContext h fun c => c.keepVerdict nativeId v) :=
    (quiet_onContext h _).safe hs
  unfold decided
  dsimp only
  split
  · exact safe_mark ((quiet_onContext h _).safe hkeep) fun _ heq => nomatch heq
  · exact hkeep

/-- The answer to an authorization. A pending approval is asked about again. -/
theorem safe_authorized {i h : Nat} {nativeId : String} {waits : Bool} {refused : Option String}
    {answer : Answer} (hs : Safe d) (hattempted : .attempted h ∈ d.log) :
    Safe (d.authorized i h nativeId waits refused answer) := by
  cases answer with
  | failed => exact (quiet_finish i h nativeId refused).safe hs
  | pending action =>
      unfold authorized
      dsimp only
      split
      · refine safe_setPhase hs fun h' hh' => ?_
        cases hh'
        exact hattempted
      · exact (quiet_finish i h nativeId refused).safe hs
  | decided v => exact (quiet_finish i h nativeId refused).safe (safe_decided hs)

theorem quiet_foldl_settleFinal (summary : String) (handles : List Nat) (d : Daemon) :
    Quiet d (handles.foldl (fun d h => d.settleFinal h summary) d) := by
  induction handles generalizing d with
  | nil => exact .refl d
  | cons h rest ih => exact (quiet_settleFinal h summary).trans (ih _)

theorem quiet_foldl_onContext (f : SessionContext → SessionContext) (handles : List Nat)
    (d : Daemon) : Quiet d (handles.foldl (fun d h => d.onContext h f) d) := by
  induction handles generalizing d with
  | nil => exact .refl d
  | cons h rest ih => exact (quiet_onContext h f).trans (ih _)

/-- What a request was doing. -/
theorem request_of_phase {i : Nat} {phase : Phase}
    (h : (d.hooks[i]?).map HookRequest.phase = some phase) : ∃ r ∈ d.hooks, r.phase = phase := by
  obtain ⟨r, hr, heq⟩ := Option.map_eq_some_iff.mp h
  exact ⟨r, List.mem_of_getElem? hr, heq⟩

/-- The steps that may ask the gateway about a tool call, or say that a report was attempted. -/
def Op.speaks : Op → Bool
  | .onLocal _ _ _ => true
  | .registered _ _ _ => true
  | .attempted _ => true
  | .authorized _ _ => true
  | .approval _ _ => true
  | _ => false

theorem quiet_step {op : Op} (hspeaks : op.speaks = false) : Quiet d (d.step op) := by
  cases op with
  | onLocal key event inWorkspace => cases hspeaks
  | registered i answer versionKnown => cases hspeaks
  | attempted i => cases hspeaks
  | authorized i answer => cases hspeaks
  | approval i approved => cases hspeaks
  | versionRead i =>
      unfold step
      dsimp only
      split
      · exact quiet_setPhase i rfl
      · exact .refl d
  | sendSettled h k ok =>
      unfold step
      dsimp only
      split
      · split
        · exact quiet_of_eq rfl rfl
        · exact .refl d
      · exact .refl d
  | reported i =>
      unfold step
      dsimp only
      split
      · split
        · exact .refl d
        · exact quiet_setPhase i rfl
      · exact .refl d
  | task h k =>
      unfold step
      dsimp only
      split
      · exact quiet_onContext h _
      · exact .refl d
  | passOver h k outOfBudget =>
      unfold step
      dsimp only
      split
      · exact quiet_onContext h _
      · exact .refl d
  | finalsSettled k =>
      unfold step forget
      dsimp only
      split
      · split
        · exact .refl d
        · split
          · exact quiet_of_eq rfl rfl
          · split
            · exact quiet_of_eq rfl rfl
            · exact quiet_of_eq rfl rfl
      · exact .refl d
  | ended i =>
      unfold step
      dsimp only
      split
      · split
        · split
          · have hdelete : ∀ key c, Quiet d (d.delete key c) := fun _ _ => quiet_of_eq rfl rfl
            exact (hdelete _ _).trans (quiet_setPhase i rfl)
          · exact .refl d
        · exact .refl d
      · exact .refl d
  | abort =>
      unfold step
      dsimp only
      split
      · exact quiet_of_eq rfl rfl
      · exact .refl d
  | settleAll =>
      unfold step
      dsimp only
      split
      · exact (quiet_foldl_settleFinal _ _ d).trans (quiet_of_eq rfl rfl)
      · exact .refl d
  | close =>
      unfold step
      dsimp only
      split
      · split
        · exact (quiet_foldl_onContext _ _ d).trans (quiet_of_eq rfl rfl)
        · exact .refl d
      · exact .refl d

/-- The connecting report of a request's session is attempted before its event is answered. -/
theorem safe_attempted (hs : Safe d) (i : Nat) : Safe (d.step (.attempted i)) := by
  unfold step
  dsimp only
  split
  · rename_i r hr
    split
    · refine safe_answerHook (safe_mark hs fun _ heq => nomatch heq) fun _ _ => ?_
      exact List.mem_append_right _ List.mem_cons_self
    · exact hs
  · exact hs

/-- **One step** keeps the log ordered, unless a tool call finds a session too early. -/
theorem safe_step (hs : Safe d) {op : Op} (hop : ¬d.Unattempted op) : Safe (d.step op) := by
  cases op with
  | onLocal key event inWorkspace =>
      unfold step onLocal
      dsimp only
      by_cases hphase : d.phase = .running
      · rw [if_neg (not_not_intro hphase)]
        cases hfound : d.byNative.get key with
        | none =>
            dsimp only
            refine (quiet_addHook ?_).safe hs
            cases inWorkspace with
            | true => rfl
            | false => rfl
        | some h =>
            dsimp only
            have hadded : Safe (d.addHook ⟨key, event, .done⟩) := (quiet_addHook rfl).safe hs
            refine safe_answerHook hadded fun t ht => ?_
            subst ht
            by_contra hnot
            exact hop ⟨hphase, h, hfound, hnot⟩
      · rw [if_pos hphase]
        exact hs
  | registered i answer versionKnown =>
      unfold step
      dsimp only
      cases hr : d.hooks[i]? with
      | none => exact hs
      | some r =>
          dsimp only
          split
          · rename_i id hphase
            unfold registerLocal
            dsimp only
            cases hfound : d.sessions.get id with
            | some h =>
                dsimp only
                have hroute : Quiet d (d.route r.key h) := quiet_of_eq rfl rfl
                refine safe_answerHook (hroute.safe hs) fun t ht => ?_
                by_contra hnot
                exact hop ⟨r, t, h, hr, hphase, ht, hfound, hnot⟩
            | none =>
                dsimp only
                have hmanage : Quiet d ((d.manage id).route r.key d.contexts.length) :=
                  quiet_of_eq rfl rfl
                refine (hmanage.trans (quiet_setPhase i ?_)).safe hs
                cases versionKnown with
                | true => rfl
                | false => rfl
          · exact (quiet_setPhase i rfl).safe hs
          · exact hs
  | versionRead i => exact (quiet_step rfl).safe hs
  | attempted i => exact safe_attempted hs i
  | authorized i answer =>
      unfold step
      dsimp only
      split
      · rename_i h nativeId waits refused hphase
        obtain ⟨r, hr, hrp⟩ := request_of_phase hphase
        exact safe_authorized hs (hs.asked r hr h (by rw [hrp]; rfl))
      · exact hs
  | approval i approved =>
      unfold step
      dsimp only
      split
      · rename_i h nativeId action hphase
        obtain ⟨r, hr, hrp⟩ := request_of_phase hphase
        exact safe_ask hs rfl (hs.asked r hr h (by rw [hrp]; rfl))
      · exact hs
  | sendSettled h k ok => exact (quiet_step rfl).safe hs
  | reported i => exact (quiet_step rfl).safe hs
  | task h k => exact (quiet_step rfl).safe hs
  | passOver h k outOfBudget => exact (quiet_step rfl).safe hs
  | finalsSettled k => exact (quiet_step rfl).safe hs
  | ended i => exact (quiet_step rfl).safe hs
  | abort => exact (quiet_step rfl).safe hs
  | settleAll => exact (quiet_step rfl).safe hs
  | close => exact (quiet_step rfl).safe hs

/-! ## The log grows -/

theorem Quiet.log_grows {d' : Daemon} (h : Quiet d d') : d.log <+: d'.log := by
  rw [h.log]

theorem prefix_answerHook (i h : Nat) (event : HookEvent) : d.log <+: (d.answerHook i h event).log := by
  by_cases hcall : ∃ t, event = .preToolUse t
  · obtain ⟨t, rfl⟩ := hcall
    exact List.prefix_append _ _
  · exact (quiet_answerHook fun t ht => hcall ⟨t, ht⟩).log_grows

theorem prefix_authorized (i h : Nat) (nativeId : String) (waits : Bool) (refused : Option String)
    (answer : Answer) : d.log <+: (d.authorized i h nativeId waits refused answer).log := by
  cases answer with
  | failed => exact (quiet_finish i h nativeId refused).log_grows
  | pending action =>
      unfold authorized
      dsimp only
      split
      · exact List.prefix_refl _
      · exact (quiet_finish i h nativeId refused).log_grows
  | decided v =>
      have hdecided : d.log <+: (d.decided h nativeId v).log := by
        unfold decided
        dsimp only
        split
        · exact List.prefix_append _ _
        · exact List.prefix_refl _
      exact hdecided.trans (quiet_finish i h nativeId refused).log_grows

theorem prefix_registerLocal (i : Nat) (r : HookRequest) (id : String) (versionKnown : Bool) :
    d.log <+: (d.registerLocal i r id versionKnown).log := by
  unfold registerLocal
  dsimp only
  split
  · rename_i h _
    exact prefix_answerHook (d := d.route r.key h) i h r.event
  · exact List.prefix_refl _

theorem prefix_step (d : Daemon) (op : Op) : d.log <+: (d.step op).log := by
  by_cases hspeaks : op.speaks = true
  · cases op with
    | onLocal key event inWorkspace =>
        unfold step onLocal
        dsimp only
        split
        · exact List.prefix_refl _
        · split
          · exact prefix_answerHook (d := d.addHook _) _ _ event
          · exact List.prefix_refl _
    | registered i answer versionKnown =>
        unfold step
        dsimp only
        split
        · split
          · exact prefix_registerLocal i _ _ versionKnown
          · exact List.prefix_refl _
          · exact List.prefix_refl _
        · exact List.prefix_refl _
    | attempted i =>
        unfold step
        dsimp only
        split
        · split
          · rename_i r _ _ h _
            have hmark : d.log <+: (d.mark (.attempted h)).log := List.prefix_append _ _
            exact hmark.trans (prefix_answerHook i h r.event)
          · exact List.prefix_refl _
        · exact List.prefix_refl _
    | authorized i answer =>
        unfold step
        dsimp only
        split
        · exact prefix_authorized _ _ _ _ _ _
        · exact List.prefix_refl _
    | approval i approved =>
        unfold step
        dsimp only
        split
        · exact List.prefix_append _ _
        · exact List.prefix_refl _
    | _ => cases hspeaks
  · exact (quiet_step (by simpa using hspeaks)).log_grows

/-- A tool call that finds its session too early is asked about at once. -/
theorem not_ordered_of_unattempted {op : Op} (h : d.Unattempted op) : ¬Ordered (d.step op).log := by
  intro hordered
  have hlog : ∃ handle, .attempted handle ∉ d.log ∧ (d.step op).log = d.log ++ [.authorize handle] := by
    cases op with
    | onLocal key event inWorkspace =>
        cases event with
        | preToolUse t =>
            obtain ⟨hphase, handle, hfound, hnot⟩ := h
            refine ⟨handle, hnot, ?_⟩
            unfold step onLocal
            dsimp only
            rw [if_neg (not_not_intro hphase), hfound]
            rfl
        | _ => cases h
    | registered i answer versionKnown =>
        cases answer with
        | none => cases h
        | some id =>
            obtain ⟨r, t, handle, hr, hphase, hevent, hfound, hnot⟩ := h
            refine ⟨handle, hnot, ?_⟩
            unfold step
            dsimp only
            rw [hr]
            dsimp only
            rw [hphase]
            unfold registerLocal
            dsimp only
            rw [hfound]
            dsimp only
            rw [hevent]
            rfl
    | _ => cases h
  obtain ⟨handle, hnot, heq⟩ := hlog
  rw [heq] at hordered
  exact hnot ((ordered_append_mark.mp hordered).2 handle rfl)

theorem prefix_run (d : Daemon) (ops : List Op) : d.log <+: (run step d ops).log := by
  induction ops generalizing d with
  | nil => exact List.prefix_refl _
  | cons op ops ih => exact (prefix_step d op).trans (ih (d.step op))

/-- **No tool call is decided before the mode was reported, exactly when** no tool call finds its
session in a map before the session's connecting report was attempted. -/
theorem ordered_iff (saved : List PendingOutcome) (ops : List Op) :
    Ordered (run step (new saved) ops).log
      ↔ Along step (fun d op => ¬d.Unattempted op) (new saved) ops := by
  suffices hrun : ∀ d, Safe d →
      (Ordered (run step d ops).log ↔ Along step (fun d op => ¬d.Unattempted op) d ops) from
    hrun _ (safe_new saved)
  induction ops with
  | nil => exact fun d hs => iff_of_true hs.ordered trivial
  | cons op ops ih =>
      intro d hs
      by_cases hop : d.Unattempted op
      · refine iff_of_false (fun hordered => ?_) fun halong => halong.1 hop
        obtain ⟨marks, hmarks⟩ := prefix_run (d.step op) ops
        rw [run_cons, ← hmarks] at hordered
        exact not_ordered_of_unattempted hop hordered.of_append
      · exact (ih _ (safe_step hs hop)).trans (and_iff_right hop).symm

/-- The first hook registers the session and waits for the version of its runtime; a tool call on
another connection finds the session and is decided, before any report of its mode was sent. -/
theorem not_ordered_early : ¬∀ (saved : List PendingOutcome) (ops : List Op),
    Ordered (run step (new saved) ops).log := by
  intro h
  have hlog : (run step (new []) [.onLocal "claude_code:n1" .other true,
      .registered 0 (some "cs_1") false, .onLocal "claude_code:n1" (.preToolUse "tu_1") true]).log
      = [] ++ .authorize 0 :: [] := by decide +kernel
  exact absurd (h [] _ [] [] 0 hlog) List.not_mem_nil

end Daemon

end Agenomic.Connector
