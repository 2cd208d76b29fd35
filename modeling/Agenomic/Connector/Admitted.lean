import Agenomic.Connector.LocalHooks

/-!
# Admitted actions and a stop

Every action that the gateway admitted is open in the context of its session until the
gateway has its outcome. A stop hands over the open actions of the contexts it can reach:
those of the sessions it manages, and those whose final settlement it has not seen the
end of. A session that ends is no longer managed, and once its settlement is over its
context is forgotten, whatever it admits afterwards.

**`accounted_of_run`**: where no step forgets an open action, a stop leaves none without
an outcome.
-/

namespace Agenomic.Connector

open Lib

namespace Daemon

variable {d : Daemon}

/-- What is known of an admitted action when a stop has finished. -/
def Accounted (d : Daemon) (session action : String) : Prop :=
  (session, action) ∈ d.settled
    ∨ ∃ o ∈ d.outcomes, o.codingSessionId = session ∧ o.actionId = action

/-- An action is open in this context. -/
def OpenIn (d : Daemon) (h : Nat) (session action : String) : Prop :=
  ∃ c, d.contexts[h]? = some c ∧ c.id = session ∧ c.opens action = true

/-- A stop can reach the context. -/
def Reachable (d : Daemon) (session : String) (h : Nat) : Prop :=
  d.sessions.get session = some h ∨ h ∈ d.settlingContexts

/-- A stop has yet to collect the contexts. -/
def Collecting (d : Daemon) : Prop := d.phase = .running ∨ d.phase = .stopping

/-- The step admits an action in a context that a stop cannot reach, or leaves such a context with
an open action behind. -/
def Forgets (d : Daemon) : Op → Prop
  | .authorized i (.decided v) =>
      ∃ h nativeId waits refused c,
        (d.hooks[i]?).map HookRequest.phase = some (.authorizing h nativeId waits refused)
          ∧ d.contexts[h]? = some c ∧ v.admits ≠ none ∧ ¬d.Reachable c.id h
  | .ended i =>
      ∃ r h c, d.hooks[i]? = some r ∧ r.phase = .ending h ∧ d.contexts[h]? = some c
        ∧ ∃ h', d.sessions.get c.id = some h' ∧ h' ∉ d.settlingContexts
          ∧ ∃ action, d.OpenIn h' c.id action
  | .finalsSettled k =>
      d.Collecting ∧ ∃ h ids c, d.waiters[k]? = some (h, ids) ∧ d.contexts[h]? = some c
        ∧ (∀ s ∈ c.finals, s.id ∉ ids) ∧ c.unacknowledged = false
        ∧ d.sessions.get c.id ≠ some h ∧ ∃ action, c.opens action = true
  | _ => False

/-- The context will be handed over. -/
def Held (d : Daemon) (session : String) (h : Nat) : Prop :=
  match d.phase with
  | .running => d.Reachable session h
  | .stopping => d.Reachable session h
  | .settling contexts => h ∈ contexts
  | .stopped => False

/-- What a daemon knows of the actions that were admitted. -/
structure Tracks (d : Daemon) : Prop where
  actions : ∀ h session action, .admitted h session action ∈ d.log →
    (session, action) ∈ d.settled ∨ (d.OpenIn h session action ∧ d.Held session h)
      ∨ (d.phase = .stopped ∧ d.Accounted session action)
  hooks : ¬d.Collecting → ∀ r ∈ d.hooks, r.phase = .done

theorem tracks_new (saved : List PendingOutcome) : Tracks (new saved) where
  actions := fun _ _ _ h => absurd h List.not_mem_nil
  hooks := fun _ _ h => absurd h List.not_mem_nil

/-! ## Steps that let nothing go -/

/-- From one state to another no action is admitted, and none is lost. -/
structure Carries (d d' : Daemon) : Prop where
  phase : d'.phase = d.phase
  outcomes : d'.outcomes = d.outcomes
  log : ∀ h session action, .admitted h session action ∈ d'.log → .admitted h session action ∈ d.log
  settled : ∀ p ∈ d.settled, p ∈ d'.settled
  actions : ∀ h session action, d.OpenIn h session action → d.Held session h →
    (d'.OpenIn h session action ∧ d'.Held session h) ∨ (session, action) ∈ d'.settled

theorem Carries.refl (d : Daemon) : Carries d d where
  phase := rfl
  outcomes := rfl
  log := fun _ _ _ h => h
  settled := fun _ h => h
  actions := fun _ _ _ hopen hheld => .inl ⟨hopen, hheld⟩

theorem Carries.trans {d₁ d₂ d₃ : Daemon} (h : Carries d₁ d₂) (h' : Carries d₂ d₃) :
    Carries d₁ d₃ where
  phase := h'.phase.trans h.phase
  outcomes := h'.outcomes.trans h.outcomes
  log := fun handle s a hmem => h.log handle s a (h'.log handle s a hmem)
  settled := fun p hp => h'.settled p (h.settled p hp)
  actions := by
    intro handle s a hopen hheld
    rcases h.actions handle s a hopen hheld with ⟨hopen', hheld'⟩ | hsettled
    · exact h'.actions handle s a hopen' hheld'
    · exact .inr (h'.settled _ hsettled)

theorem Held.of_phase {d' : Daemon} {session : String} {h : Nat} (hphase : d'.phase = d.phase)
    (hreach : d.Collecting → d.Reachable session h → d'.Reachable session h)
    (hheld : d.Held session h) : d'.Held session h := by
  unfold Held at hheld ⊢
  rw [hphase]
  cases hp : d.phase with
  | running =>
      rw [hp] at hheld
      exact hreach (.inl hp) hheld
  | stopping =>
      rw [hp] at hheld
      exact hreach (.inr hp) hheld
  | settling contexts =>
      rw [hp] at hheld
      exact hheld
  | stopped =>
      rw [hp] at hheld
      exact hheld

/-- Steps that touch neither the contexts nor the maps. -/
theorem carries_of_eq {d' : Daemon} (hcontexts : d'.contexts = d.contexts)
    (hsessions : d'.sessions = d.sessions) (hsettling : d'.settlingContexts = d.settlingContexts)
    (hphase : d'.phase = d.phase) (houtcomes : d'.outcomes = d.outcomes)
    (hsettled : d'.settled = d.settled)
    (hlog : ∀ h session action, .admitted h session action ∈ d'.log →
      .admitted h session action ∈ d.log) : Carries d d' where
  phase := hphase
  outcomes := houtcomes
  log := hlog
  settled := by
    rw [hsettled]
    exact fun _ h => h
  actions := by
    intro h session action hopen hheld
    refine .inl ⟨?_, ?_⟩
    · unfold OpenIn
      rw [hcontexts]
      exact hopen
    · refine Held.of_phase hphase (fun _ hr => ?_) hheld
      unfold Reachable
      rw [hsessions, hsettling]
      exact hr

theorem carries_setPhase (i : Nat) (phase : Phase) : Carries d (d.setPhase i phase) :=
  carries_of_eq rfl rfl rfl rfl rfl rfl fun _ _ _ h => h

theorem carries_addHook (r : HookRequest) : Carries d (d.addHook r) :=
  carries_of_eq rfl rfl rfl rfl rfl rfl fun _ _ _ h => h

theorem carries_route (key : String) (h : Nat) : Carries d (d.route key h) :=
  carries_of_eq rfl rfl rfl rfl rfl rfl fun _ _ _ h => h

theorem carries_mark {m : Mark} (hm : ∀ h session action, m ≠ .admitted h session action) :
    Carries d (d.mark m) := by
  refine carries_of_eq rfl rfl rfl rfl rfl rfl fun h session action hmem => ?_
  rcases List.mem_append.mp hmem with hmem | hmem
  · exact hmem
  · exact absurd (List.mem_singleton.mp hmem).symm (hm h session action)

/-- What is open in a context that is replaced by one that keeps it. -/
theorem openIn_modify {h : Nat} {f : SessionContext → SessionContext}
    (hf : ∀ c, d.contexts[h]? = some c → (c.Keeps (f c))) {handle : Nat} {session action : String}
    (hopen : d.OpenIn handle session action) :
    (d.onContext h f).OpenIn handle session action := by
  obtain ⟨c, hc, hid, ha⟩ := hopen
  unfold OpenIn onContext
  dsimp only
  rw [List.getElem?_modify, hc]
  by_cases heq : h = handle
  · have hkeeps := hf c (heq ▸ hc)
    exact ⟨f c, congrArg some (if_pos heq), hkeeps.id.trans hid, hkeeps.opens action ha⟩
  · exact ⟨c, congrArg some (if_neg heq), hid, ha⟩

theorem carries_onContext {h : Nat} {f : SessionContext → SessionContext}
    (hf : ∀ c, d.contexts[h]? = some c → (c.Keeps (f c))) : Carries d (d.onContext h f) where
  phase := rfl
  outcomes := rfl
  log := fun _ _ _ hmem => hmem
  settled := fun _ hmem => hmem
  actions := fun _ _ _ hopen hheld =>
    .inl ⟨openIn_modify hf hopen, hheld.of_phase rfl fun _ hr => hr⟩

theorem carries_settleFinal (h : Nat) (summary : String) : Carries d (d.settleFinal h summary) := by
  unfold settleFinal
  cases hc : d.contexts[h]? with
  | none => exact .refl d
  | some c =>
      dsimp only
      refine ⟨rfl, rfl, fun _ _ _ hmem => hmem, fun _ hmem => hmem, ?_⟩
      intro handle session action hopen hheld
      refine .inl ⟨?_, Held.of_phase ?_ (fun _ hr => ?_) hheld⟩
      · obtain ⟨c', hc', hid, ha⟩ := hopen
        unfold OpenIn
        dsimp only
        by_cases heq : h = handle
        · subst heq
          rw [hc] at hc'
          cases hc'
          have hkeeps := SessionContext.settleFinal_keeps (c := c) summary
          refine ⟨_, ?_, hkeeps.id.trans hid, hkeeps.opens action ha⟩
          rw [List.getElem?_set_self (List.getElem?_eq_some_iff.mp hc).1]
        · refine ⟨c', ?_, hid, ha⟩
          rw [List.getElem?_set_ne heq, hc']
      · rfl
      · refine hr.imp (fun hs => hs) fun hmem => ?_
        dsimp only
        split
        · exact hmem
        · exact List.mem_append_left _ hmem

/-- **A session that is managed from now on** takes no other's place. -/
theorem carries_manage {id : String} (hfree : d.sessions.get id = none) : Carries d (d.manage id) where
  phase := rfl
  outcomes := rfl
  log := fun _ _ _ hmem => hmem
  settled := fun _ hmem => hmem
  actions := by
    intro handle session action hopen hheld
    refine .inl ⟨?_, Held.of_phase ?_ (fun _ hr => ?_) hheld⟩
    · obtain ⟨c, hc, hid, ha⟩ := hopen
      refine ⟨c, ?_, hid, ha⟩
      unfold manage
      dsimp only
      rw [List.getElem?_append_left (List.getElem?_eq_some_iff.mp hc).1, hc]
    · rfl
    · refine hr.imp (fun hs => ?_) fun hmem => hmem
      unfold manage
      dsimp only
      rw [InsertionMap.get_set_of_ne _ _ fun heq => ?_]
      · exact hs
      · rw [heq, hfree] at hs
        cases hs

/-- The end of a session lets go of nothing that is open, unless its context is being settled. -/
theorem carries_delete {key : String} {c : SessionContext}
    (hkept : d.Collecting → ∀ h action, d.sessions.get c.id = some h → d.OpenIn h c.id action →
      h ∈ d.settlingContexts) : Carries d (d.delete key c) where
  phase := rfl
  outcomes := rfl
  log := fun _ _ _ hmem => hmem
  settled := fun _ hmem => hmem
  actions := by
    intro handle session action hopen hheld
    refine .inl ⟨hopen, Held.of_phase ?_ (fun hcollecting hr => ?_) hheld⟩
    · rfl
    · by_cases hid : session = c.id
      · subst hid
        exact .inr (hr.elim (fun hs => hkept hcollecting handle action hs hopen) fun hmem => hmem)
      · refine hr.imp (fun hs => ?_) fun hmem => hmem
        unfold delete
        dsimp only
        rw [InsertionMap.get_delete_of_ne _ hid]
        exact hs

/-- A context that is forgotten has nothing open, or its session is still managed. -/
theorem carries_forget {h : Nat}
    (hkept : d.Collecting → ∀ c action, d.contexts[h]? = some c → c.unacknowledged = false →
      c.opens action = true → d.sessions.get c.id = some h) : Carries d (d.forget h) := by
  unfold forget
  cases hc : d.contexts[h]? with
  | none => exact .refl d
  | some c =>
      dsimp only
      by_cases hretained : c.unacknowledged = true
      · rw [if_pos hretained]
        exact .refl d
      · rw [if_neg hretained]
        refine ⟨rfl, rfl, fun _ _ _ hmem => hmem, fun _ hmem => hmem, ?_⟩
        intro handle session action hopen hheld
        refine .inl ⟨hopen, Held.of_phase ?_ (fun hcollecting hr => ?_) hheld⟩
        · rfl
        · rcases hr with hs | hmem
          · exact .inl hs
          · by_cases heq : handle = h
            · obtain ⟨c', hc', hid, ha⟩ := hopen
              rw [heq, hc] at hc'
              cases hc'
              rw [heq, ← hid]
              exact .inl (hkept hcollecting c action hc (by simpa using hretained) ha)
            · exact .inr ((List.mem_erase_of_ne heq).mpr hmem)

theorem carries_answerHook (i h : Nat) (event : HookEvent) : Carries d (d.answerHook i h event) := by
  cases event with
  | preToolUse t =>
      exact (carries_setPhase i _).trans (carries_mark fun _ _ _ heq => nomatch heq)
  | postToolUse t failed =>
      unfold answerHook
      dsimp only
      cases d.contexts[h]? with
      | none => exact carries_setPhase i _
      | some c =>
          dsimp only
          cases (c.lookup t).bind Verdict.actionId with
          | none => exact carries_setPhase i _
          | some action =>
              dsimp only
              split
              · exact carries_setPhase i _
              · exact (carries_onContext fun _ _ => SessionContext.report_keeps _ _ _).trans
                  (carries_setPhase i _)
  | stop =>
      exact (carries_onContext fun _ _ => SessionContext.settleOpen_keeps _ _ _).trans
        (carries_setPhase i _)
  | sessionEnd => exact (carries_settleFinal h _).trans (carries_setPhase i _)
  | other => exact carries_setPhase i _

theorem keepVerdict_keeps {c : SessionContext} (nativeId : String) (v : Verdict) :
    c.Keeps (c.keepVerdict nativeId v) := SessionContext.keeps_of_eq rfl rfl

theorem carries_finish (i h : Nat) (nativeId : String) (refused : Option String) :
    Carries d (d.finish i h nativeId refused) := by
  cases refused with
  | none => exact carries_setPhase i _
  | some action =>
      exact (carries_onContext fun _ _ => keepVerdict_keeps _ _).trans (carries_setPhase i _)

/-- A report that settles lets go of its action only with the outcome at the gateway. -/
theorem carries_sendSettled (h k : Nat) (ok : Bool) : Carries d (d.step (.sendSettled h k ok)) := by
  unfold step
  dsimp only
  cases hc : d.contexts[h]? with
  | none => exact .refl d
  | some c =>
      dsimp only
      cases c.sends[k]? with
      | none => exact .refl d
      | some send =>
          obtain ⟨token, action⟩ := send
          dsimp only
          refine ⟨rfl, rfl, fun _ _ _ hmem => hmem, fun p hp => ?_, ?_⟩
          · dsimp only
            split
            · exact List.mem_append_left _ hp
            · exact hp
          · intro handle session a hopen hheld
            obtain ⟨c', hc', hid, ha⟩ := hopen
            by_cases hgone : handle = h ∧ a = action ∧ ok = true
            · obtain ⟨rfl, rfl, rfl⟩ := hgone
              rw [hc] at hc'
              cases hc'
              refine .inr ?_
              rw [← hid]
              exact List.mem_append_right _ List.mem_cons_self
            · refine .inl ⟨?_, Held.of_phase ?_ (fun _ hr => hr) hheld⟩
              · unfold OpenIn onContext
                dsimp only
                rw [List.getElem?_modify, hc']
                by_cases heq : h = handle
                · have hkept : a ≠ action ∨ ok = false := by
                    by_contra hnot
                    rw [not_or, not_not, Bool.not_eq_false] at hnot
                    exact hgone ⟨heq.symm, hnot.1, hnot.2⟩
                  exact ⟨_, congrArg some (if_pos heq), hid,
                    SessionContext.opens_sendSettled ha hkept⟩
                · exact ⟨c', congrArg some (if_neg heq), hid, ha⟩
              · rfl

/-! ## One step -/

theorem Tracks.of_carries {d' : Daemon} (ht : Tracks d) (hc : Carries d d')
    (hhooks : d.Collecting ∨ d'.hooks = d.hooks) : Tracks d' where
  actions := by
    intro h session action hmem
    rcases ht.actions h session action (hc.log h session action hmem) with hs | ⟨ho, hh⟩ | ⟨hp, ha⟩
    · exact .inl (hc.settled _ hs)
    · rcases hc.actions h session action ho hh with hboth | hs
      · exact .inr (.inl hboth)
      · exact .inl hs
    · refine .inr (.inr ⟨hc.phase.trans hp, ?_⟩)
      refine ha.imp (fun hs => hc.settled _ hs) fun ho => ?_
      rw [hc.outcomes]
      exact ho
  hooks := by
    intro hnot r hr
    have hnot' : ¬d.Collecting := by
      unfold Collecting at hnot ⊢
      rw [← hc.phase]
      exact hnot
    rw [hhooks.resolve_left hnot'] at hr
    exact ht.hooks hnot' r hr

/-- A request that waits for something is waited for by a stop. -/
theorem Tracks.collecting (ht : Tracks d) {i : Nat} {r : HookRequest} (hr : d.hooks[i]? = some r)
    (hphase : r.phase ≠ .done) : d.Collecting := by
  by_contra hnot
  exact hphase (ht.hooks hnot r (List.mem_of_getElem? hr))

/-- The gateway admits an action in a context that will be handed over. -/
theorem tracks_decided {h : Nat} {nativeId : String} {v : Verdict} (ht : Tracks d)
    (hcollecting : d.Collecting)
    (hheld : ∀ c, d.contexts[h]? = some c → v.admits ≠ none → d.Reachable c.id h) :
    Tracks (d.decided h nativeId v) := by
  have hkeep : Carries d (d.onContext h fun c => c.keepVerdict nativeId v) :=
    carries_onContext fun _ _ => keepVerdict_keeps _ _
  unfold decided
  dsimp only
  split
  · rename_i c action hc hv
    have hadmit := hkeep.trans (carries_onContext (h := h) (f := fun c => c.admitCall action)
      fun _ _ => SessionContext.admitCall_keeps action)
    have hcarried := ht.of_carries hadmit (.inl hcollecting)
    have hopen : ((d.onContext h fun c => c.keepVerdict nativeId v).onContext h
        fun c => c.admitCall action).OpenIn h c.id action := by
      refine ⟨(c.keepVerdict nativeId v).admitCall action, ?_, ?_, SessionContext.opens_admitCall action⟩
      · unfold onContext
        dsimp only
        rw [List.getElem?_modify, List.getElem?_modify, hc]
        simp
      · exact (SessionContext.admitCall_keeps action).id
    refine ⟨fun handle session a hmem => ?_, hcarried.hooks⟩
    rcases List.mem_append.mp hmem with hold | hnew
    · exact hcarried.actions handle session a hold
    · cases List.mem_singleton.mp hnew
      refine .inr (.inl ⟨hopen, ?_⟩)
      have hreach := hheld c hc (by rw [hv]; exact Option.some_ne_none _)
      unfold Held
      rcases hcollecting with hp | hp
      · have hp' : ((d.onContext h fun c => c.keepVerdict nativeId v).onContext h
            fun c => c.admitCall action).phase = .running := hp
        dsimp only [mark]
        rw [hp']
        exact hreach
      · have hp' : ((d.onContext h fun c => c.keepVerdict nativeId v).onContext h
            fun c => c.admitCall action).phase = .stopping := hp
        dsimp only [mark]
        rw [hp']
        exact hreach
  · exact ht.of_carries hkeep (.inl hcollecting)

theorem carries_foldl_settleFinal (summary : String) (handles : List Nat) (d : Daemon) :
    Carries d (handles.foldl (fun d h => d.settleFinal h summary) d) := by
  induction handles generalizing d with
  | nil => exact .refl d
  | cons h rest ih => exact (carries_settleFinal h summary).trans (ih _)

theorem hooks_foldl_settleFinal (summary : String) (handles : List Nat) (d : Daemon) :
    (handles.foldl (fun d h => d.settleFinal h summary) d).hooks = d.hooks := by
  induction handles generalizing d with
  | nil => rfl
  | cons h rest ih =>
      rw [List.foldl_cons, ih]
      unfold settleFinal
      cases d.contexts[h]? with
      | none => rfl
      | some c => rfl

theorem mem_handedOver {session : String} {h : Nat} (hr : d.Reachable session h) :
    h ∈ d.handedOver := by
  unfold handedOver
  rw [List.mem_dedup, List.mem_append]
  refine hr.imp (fun hs => ?_) fun hmem => hmem
  exact List.mem_map.mpr ⟨(session, h), InsertionMap.mem_entries_iff.mpr hs, rfl⟩

/-- **A stop that has waited for the hook requests** reaches every open action. -/
theorem tracks_settleAll (ht : Tracks d) : Tracks (d.step .settleAll) := by
  unfold step
  dsimp only
  split
  · rename_i hready
    obtain ⟨hphase, hdone⟩ := hready
    have hcarried := ht.of_carries (carries_foldl_settleFinal
      "connector stopped before the tool reported" (d.sessions.entries.map Prod.snd) d)
      (.inr (hooks_foldl_settleFinal _ _ d))
    have hsettled : ((d.sessions.entries.map Prod.snd).foldl (fun d h =>
        d.settleFinal h "connector stopped before the tool reported") d).phase = .stopping := by
      rw [(carries_foldl_settleFinal _ _ d).phase, hphase]
    have hhooks := hooks_foldl_settleFinal "connector stopped before the tool reported"
      (d.sessions.entries.map Prod.snd) d
    generalize (d.sessions.entries.map Prod.snd).foldl (fun d h =>
      d.settleFinal h "connector stopped before the tool reported") d = s at hcarried hsettled hhooks
    refine ⟨fun h session action hmem => ?_, fun _ r hr => ?_⟩
    · rcases hcarried.actions h session action hmem with hs | ⟨ho, hh⟩ | ⟨hp, -⟩
      · exact .inl hs
      · refine .inr (.inl ⟨ho, ?_⟩)
        unfold Held at hh
        rw [hsettled] at hh
        exact mem_handedOver hh
      · rw [hsettled] at hp
        cases hp
    · have hr' : r ∈ s.hooks := hr
      rw [hhooks] at hr'
      exact of_decide_eq_true (List.all_eq_true.mp hdone r hr')
  · exact ht

theorem foldl_onContext (f : SessionContext → SessionContext) (handles : List Nat) (d : Daemon) :
    ∃ contexts, handles.foldl (fun d h => d.onContext h f) d = { d with contexts } := by
  induction handles generalizing d with
  | nil => exact ⟨d.contexts, rfl⟩
  | cons h rest ih =>
      obtain ⟨contexts, hrest⟩ := ih (d.onContext h f)
      exact ⟨contexts, hrest⟩

/-- What is open in a context is in what is left of it. -/
theorem exists_left {contexts : List Nat} {h : Nat} {session action : String} (hmem : h ∈ contexts)
    (hopen : d.OpenIn h session action) :
    ∃ o ∈ d.left contexts, o.codingSessionId = session ∧ o.actionId = action := by
  obtain ⟨c, hc, hid, ha⟩ := hopen
  obtain ⟨o, ho, hs, hact⟩ :=
    SessionContext.exists_left "connector stopped before the tool reported" ha
  refine ⟨o, List.mem_flatMap.mpr ⟨h, hmem, ?_⟩, hs.trans hid, hact⟩
  rw [hc]
  exact ho

/-- **What a stop hands over** covers what is open in its contexts. -/
theorem tracks_close (ht : Tracks d) : Tracks (d.step .close) := by
  unfold step
  dsimp only
  split
  · rename_i contexts hphase
    split
    · have hnot : ¬d.Collecting := by
        unfold Collecting
        rw [hphase]
        exact fun h => h.elim (nomatch ·) (nomatch ·)
      obtain ⟨closed, hclosed⟩ := foldl_onContext (fun c => { c with closing := true }) contexts d
      rw [hclosed]
      refine ⟨fun h session action hmem => ?_, fun _ r hr => ht.hooks hnot r hr⟩
      rcases ht.actions h session action hmem with hs | ⟨ho, hh⟩ | ⟨hp, -⟩
      · exact .inl hs
      · unfold Held at hh
        rw [hphase] at hh
        obtain ⟨o, hleft, hsession, haction⟩ := exists_left hh ho
        refine .inr (.inr ⟨rfl, .inr ⟨o, ?_, hsession, haction⟩⟩)
        rw [if_pos (.inl (List.length_pos_of_mem hleft))]
        exact List.mem_append_right _ hleft
      · rw [hphase] at hp
        cases hp
    · exact ht
  · exact ht

/-- What a request was doing, where it was doing something. -/
theorem Tracks.collecting_of_phase (ht : Tracks d) {i : Nat} {phase : Phase}
    (h : (d.hooks[i]?).map HookRequest.phase = some phase) (hphase : phase ≠ .done) :
    d.Collecting := by
  obtain ⟨r, hr, heq⟩ := Option.map_eq_some_iff.mp h
  exact ht.collecting hr (heq ▸ hphase)

/-- A context whose settlements are over is forgotten, where nothing of it is retained. -/
theorem tracks_finalsSettled (ht : Tracks d) {k : Nat} (hop : ¬d.Forgets (.finalsSettled k)) :
    Tracks (d.step (.finalsSettled k)) := by
  unfold step
  dsimp only
  cases hw : d.waiters[k]? with
  | none => exact ht
  | some waiter =>
      obtain ⟨h, ids⟩ := waiter
      dsimp only
      split
      · exact ht
      · rename_i hover
        have hwaited : Carries d { d with waiters := d.waiters.eraseIdx k } :=
          carries_of_eq rfl rfl rfl rfl rfl rfl fun _ _ _ hmem => hmem
        refine ht.of_carries (hwaited.trans (carries_forget ?_)) (.inr ?_)
        · intro hcollecting c action hc hretained hopen
          by_contra hnot
          refine hop ⟨hcollecting, h, ids, c, hw, hc, fun s hs hmem => hover ?_, hretained, hnot,
            action, hopen⟩
          have hc' : d.contexts[h]? = some c := hc
          rw [hc', Option.any_some, List.any_eq_true]
          exact ⟨s, hs, decide_eq_true hmem⟩
        · unfold forget
          dsimp only
          split
          · rfl
          · split
            · rfl
            · rfl

/-- **One step** loses track of no action, unless it forgets one. -/
theorem tracks_step (ht : Tracks d) {op : Op} (hop : ¬d.Forgets op) : Tracks (d.step op) := by
  cases op with
  | onLocal key event inWorkspace =>
      unfold step onLocal
      dsimp only
      by_cases hphase : d.phase = .running
      · rw [if_neg (not_not_intro hphase)]
        split
        · exact ht.of_carries ((carries_addHook _).trans (carries_answerHook _ _ _))
            (.inl (.inl hphase))
        · exact ht.of_carries (carries_addHook _) (.inl (.inl hphase))
      · rw [if_pos hphase]
        exact ht
  | registered i answer versionKnown =>
      unfold step
      dsimp only
      cases hr : d.hooks[i]? with
      | none => exact ht
      | some r =>
          dsimp only
          split
          · rename_i id hphase
            have hcollecting := ht.collecting hr (by rw [hphase]; exact (nomatch ·))
            unfold registerLocal
            dsimp only
            cases hfound : d.sessions.get id with
            | some h =>
                exact ht.of_carries ((carries_route _ _).trans (carries_answerHook _ _ _))
                  (.inl hcollecting)
            | none =>
                exact ht.of_carries (((carries_manage hfound).trans (carries_route _ _)).trans
                  (carries_setPhase _ _)) (.inl hcollecting)
          · rename_i hphase
            exact ht.of_carries (carries_setPhase _ _)
              (.inl (ht.collecting hr (by rw [hphase]; exact (nomatch ·))))
          · exact ht
  | versionRead i =>
      unfold step
      dsimp only
      split
      · rename_i hphase
        exact ht.of_carries (carries_setPhase _ _)
          (.inl (ht.collecting_of_phase hphase (nomatch ·)))
      · exact ht
  | attempted i =>
      unfold step
      dsimp only
      cases hr : d.hooks[i]? with
      | none => exact ht
      | some r =>
          dsimp only
          split
          · rename_i h hphase
            have hmark : Carries d (d.mark (.attempted h)) := carries_mark fun _ _ _ => (nomatch ·)
            exact ht.of_carries (hmark.trans (carries_answerHook _ _ _))
              (.inl (ht.collecting hr (by rw [hphase]; exact (nomatch ·))))
          · exact ht
  | authorized i answer =>
      unfold step
      dsimp only
      split
      · rename_i h nativeId waits refused hphase
        have hcollecting := ht.collecting_of_phase hphase (nomatch ·)
        cases answer with
        | failed => exact ht.of_carries (carries_finish _ _ _ _) (.inl hcollecting)
        | pending action =>
            unfold authorized
            dsimp only
            split
            · exact ht.of_carries (carries_setPhase _ _) (.inl hcollecting)
            · exact ht.of_carries (carries_finish _ _ _ _) (.inl hcollecting)
        | decided v =>
            have hdecided : Tracks (d.decided h nativeId v) := by
              refine tracks_decided ht hcollecting fun c hc hv => ?_
              by_contra hnot
              exact hop ⟨h, nativeId, waits, refused, c, hphase, hc, hv, hnot⟩
            refine hdecided.of_carries (carries_finish _ _ _ _) (.inl ?_)
            unfold Collecting decided at *
            dsimp only
            split
            · exact hcollecting
            · exact hcollecting
      · exact ht
  | approval i approved =>
      unfold step
      dsimp only
      split
      · rename_i hphase
        exact ht.of_carries ((carries_setPhase _ _).trans (carries_mark fun _ _ _ => (nomatch ·)))
          (.inl (ht.collecting_of_phase hphase (nomatch ·)))
      · exact ht
  | sendSettled h k ok =>
      refine ht.of_carries (carries_sendSettled h k ok) (.inr ?_)
      unfold step
      dsimp only
      split
      · split
        · rfl
        · rfl
      · rfl
  | reported i =>
      unfold step
      dsimp only
      split
      · rename_i hphase
        split
        · exact ht
        · exact ht.of_carries (carries_setPhase _ _)
            (.inl (ht.collecting_of_phase hphase (nomatch ·)))
      · exact ht
  | task h k =>
      unfold step
      dsimp only
      split
      · exact ht.of_carries (carries_onContext fun _ _ => SessionContext.taskStep_keeps _) (.inr rfl)
      · exact ht
  | passOver h k outOfBudget =>
      unfold step
      dsimp only
      split
      · exact ht.of_carries (carries_onContext fun _ _ => SessionContext.passOver_keeps _ _)
          (.inr rfl)
      · exact ht
  | finalsSettled k => exact tracks_finalsSettled ht hop
  | ended i =>
      unfold step
      dsimp only
      cases hr : d.hooks[i]? with
      | none => exact ht
      | some r =>
          dsimp only
          split
          · rename_i h hphase
            cases hc : d.contexts[h]? with
            | none => exact ht
            | some c =>
                dsimp only
                have hdelete : Carries d (d.delete r.key c) := by
                  refine carries_delete fun _ h' action hs hopen => ?_
                  by_contra hnot
                  exact hop ⟨r, h, c, hr, hphase, hc, h', hs, hnot, action, hopen⟩
                exact ht.of_carries (hdelete.trans (carries_setPhase _ _))
                  (.inl (ht.collecting hr (by rw [hphase]; exact (nomatch ·))))
          · exact ht
  | abort =>
      unfold step
      dsimp only
      split
      · rename_i hphase
        refine ⟨fun h session action hmem => ?_, fun hnot => absurd (.inr rfl) hnot⟩
        rcases ht.actions h session action hmem with hs | ⟨ho, hh⟩ | ⟨hp, -⟩
        · exact .inl hs
        · unfold Held at hh
          rw [hphase] at hh
          exact .inr (.inl ⟨ho, hh⟩)
        · rw [hphase] at hp
          cases hp
      · exact ht
  | settleAll => exact tracks_settleAll ht
  | close => exact tracks_close ht

/-! ## A whole run -/

/-- **No admitted action is forgotten**: in a run in which no step forgets an open action, every
action that the gateway admitted has, once a stop has finished, an outcome that the gateway
acknowledged or refused for good, or an entry in the outcomes file. -/
theorem accounted_of_run (saved : List PendingOutcome) (ops : List Op)
    (hops : Along step (fun d op => ¬d.Forgets op) (new saved) ops)
    (hstopped : (run step (new saved) ops).phase = .stopped) (h : Nat) (session action : String)
    (hmem : .admitted h session action ∈ (run step (new saved) ops).log) :
    (run step (new saved) ops).Accounted session action := by
  have htracks : Tracks (run step (new saved) ops) :=
    run_invariant Tracks (fun _ _ ht hop => tracks_step ht hop) (tracks_new saved) hops
  rcases htracks.actions h session action hmem with hs | ⟨-, hheld⟩ | ⟨-, ha⟩
  · exact .inl hs
  · unfold Held at hheld
    rw [hstopped] at hheld
    exact hheld.elim
  · exact ha

/-! ## Concrete runs -/

/-- A session is registered and connected. -/
def connected : List Op :=
  [.onLocal "claude_code:n1" .other true, .registered 0 (some "cs_1") true, .attempted 0]

/-- A stop of the daemon. -/
def stopped : List Op := [.abort, .settleAll, .close]

/-- A tool call is allowed, and the daemon stops before the tool has reported. -/
def stopDuringCall : List Op :=
  connected ++ [.onLocal "claude_code:n1" (.preToolUse "tu_1") true,
    .authorized 1 (.decided ⟨.allow, some "act_1"⟩), .abort, .settleAll, .task 0 0,
    .sendSettled 0 0 false, .task 0 0, .passOver 0 0 true, .close]

theorem accounted_stopDuringCall :
    (run step (new []) stopDuringCall).Accounted "cs_1" "act_1" := by
  refine accounted_of_run [] stopDuringCall ?_ (by decide +kernel) 0 "cs_1" "act_1" (by decide +kernel)
  refine ⟨id, id, id, id, ?_, id, id, id, id, id, id, id, trivial⟩
  rintro ⟨h, nativeId, waits, refused, c, hphase, hc, -, hnot⟩
  cases hphase
  cases hc
  exact hnot (.inl rfl)

/-- A session ends while a tool call of it is being decided. The call is allowed after the end, in a
context that nothing holds any more, and the stop does not know of it. -/
theorem not_accounted : ¬∀ (saved : List PendingOutcome) (ops : List Op),
    (run step (new saved) ops).phase = .stopped → ∀ h session action,
      .admitted h session action ∈ (run step (new saved) ops).log →
        (run step (new saved) ops).Accounted session action := by
  intro hall
  let ops : List Op := connected ++ [.onLocal "claude_code:n1" (.preToolUse "tu_1") true,
    .onLocal "claude_code:n1" .sessionEnd true, .finalsSettled 0, .ended 2,
    .authorized 1 (.decided ⟨.allow, some "act_1"⟩)] ++ stopped
  have hsettled : (run step (new []) ops).settled = [] := by decide +kernel
  have houtcomes : (run step (new []) ops).outcomes = [] := by decide +kernel
  rcases hall [] ops (by decide +kernel) 0 "cs_1" "act_1" (by decide +kernel) with hs | ⟨o, ho, -⟩
  · rw [hsettled] at hs
    cases hs
  · rw [houtcomes] at ho
    cases ho

end Daemon

end Agenomic.Connector
