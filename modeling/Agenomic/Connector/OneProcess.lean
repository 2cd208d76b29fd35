import Agenomic.Connector.Processes

/-!
# One process for a session

The guards of launch and resume look at what the session's adapter runs. They do not see
an adapter that has no process yet, one whose stream ended before its process, and one
that was detached when its start failed.

**`one_process`**: where no command is let through while an adapter is busy, no two
adapters ever have a process, or obtain one later.
-/

namespace Agenomic.Connector

open Lib

namespace Adapter

/-- Its start is not over, or its process runs. -/
def busy (a : Adapter) : Bool := a.start = .pending || a.child = .running

end Adapter

namespace Runner

/-- An adapter's process runs. -/
def Running (s : Runner) (a : Nat) : Prop := ∃ x, s.adapters[a]? = some x ∧ x.child = .running

def Busy (s : Runner) (a : Nat) : Prop := ∃ x, s.adapters[a]? = some x ∧ x.busy = true

/-- An adapter has a process here, or has none yet and obtains one later on. -/
def Obtains (s : Runner) (later : List Op) (a : Nat) : Prop :=
  s.Running a ∨ ((∃ x, s.adapters[a]? = some x ∧ x.child = .none)
    ∧ ∃ n, (run step s (later.take n)).Running a)

/-- A command is let through to start a runtime while an adapter of the session is busy. -/
def Blind (s : Runner) : Op → Prop
  | .deliver id kind => s.fresh id = true ∧ s.passes kind = true ∧ ∃ a, s.Busy a
  | _ => False

/-- A launch that has yet to start its adapter. -/
def Progress.isReporting : Progress → Bool
  | .reporting _ => true
  | _ => false

/-- A launch whose record stands. -/
def Progress.isLaunching : Progress → Bool
  | .reporting _ => true
  | .starting _ _ .launch => true
  | .cleaning _ .launch => true
  | _ => false

/-- Some command's progress is of this kind. -/
def Has (s : Runner) (p : Progress → Bool) (i : Nat) : Prop :=
  ∃ c, s.commands[i]? = some c ∧ p c.progress = true

/-- At most one adapter is busy, and at most one launch is on its way. -/
structure Single (s : Runner) : Prop where
  busy : ∀ a b, s.Busy a → s.Busy b → a = b
  launch : ∀ i j, s.Has Progress.isLaunching i → s.Has Progress.isLaunching j → i = j
  record : ∀ i, s.Has Progress.isLaunching i → s.record ≠ none
  reporting : ∀ i, s.Has Progress.isReporting i → s.record = some false ∧ ∀ a, ¬s.Busy a

theorem not_has_new (record : Option Bool) (p : Progress → Bool) (i : Nat) :
    ¬(new record).Has p i := by
  rintro ⟨c, hc, -⟩
  cases hc

theorem single_new (record : Option Bool) : Single (new record) where
  busy := by
    rintro a b ⟨x, hx, -⟩
    cases hx
  launch := fun i _ h => absurd h (not_has_new record _ i)
  record := fun i h => absurd h (not_has_new record _ i)
  reporting := fun i h => absurd h (not_has_new record _ i)

variable {s : Runner}

theorem has_launching_of_reporting {i : Nat} (h : s.Has Progress.isReporting i) :
    s.Has Progress.isLaunching i := by
  obtain ⟨c, hc, hp⟩ := h
  refine ⟨c, hc, ?_⟩
  cases hprogress : c.progress with
  | reporting m => rfl
  | _ =>
      rw [hprogress] at hp
      cases hp

/-- What a command's progress was. -/
theorem Has.of_setProgress {i j : Nat} {progress : Progress} {p : Progress → Bool}
    (h : (s.setProgress i progress).Has p j) : (i = j ∧ p progress = true) ∨ (i ≠ j ∧ s.Has p j) := by
  obtain ⟨c, hc, hp⟩ := h
  unfold setProgress at hc
  dsimp only at hc
  rw [List.getElem?_modify] at hc
  obtain ⟨c', hc', heq⟩ := Option.map_eq_some_iff.mp hc
  by_cases hij : i = j
  · rw [if_pos hij] at heq
    rw [← heq] at hp
    exact .inl ⟨hij, hp⟩
  · rw [if_neg hij] at heq
    exact .inr ⟨hij, c', hc', heq ▸ hp⟩

/-! ## Steps that start nothing -/

/-- No adapter and no launch is new, and the record is touched for a busy adapter only. -/
structure Calm (s s' : Runner) : Prop where
  busy : ∀ a, s'.Busy a → s.Busy a
  record : s'.record = s.record ∨ ((∃ a, s.Busy a) ∧ (s.record ≠ none → s'.record ≠ none))
  launching : ∀ i, s'.Has Progress.isLaunching i → s.Has Progress.isLaunching i
  reporting : ∀ i, s'.Has Progress.isReporting i → s.Has Progress.isReporting i

theorem Calm.single {s' : Runner} (hc : Calm s s') (h : Single s) : Single s' where
  busy := fun a b ha hb => h.busy a b (hc.busy a ha) (hc.busy b hb)
  launch := fun i j hi hj => h.launch i j (hc.launching i hi) (hc.launching j hj)
  record := by
    intro i hi
    have hsome := h.record i (hc.launching i hi)
    rcases hc.record with heq | ⟨-, hkept⟩
    · rw [heq]
      exact hsome
    · exact hkept hsome
  reporting := by
    intro i hi
    obtain ⟨hrecord, hidle⟩ := h.reporting i (hc.reporting i hi)
    rcases hc.record with heq | ⟨⟨a, ha⟩, -⟩
    · exact ⟨heq.trans hrecord, fun a ha => hidle a (hc.busy a ha)⟩
    · exact absurd ha (hidle a)

theorem Calm.trans {s₁ s₂ s₃ : Runner} (h : Calm s₁ s₂) (h' : Calm s₂ s₃) : Calm s₁ s₃ where
  busy := fun a ha => h.busy a (h'.busy a ha)
  record := by
    rcases h.record with heq | ⟨ha, hkept⟩
    · rcases h'.record with heq' | ⟨⟨a, ha'⟩, hkept'⟩
      · exact .inl (heq'.trans heq)
      · refine .inr ⟨⟨a, h.busy a ha'⟩, fun hne => hkept' ?_⟩
        rw [heq]
        exact hne
    · refine .inr ⟨ha, fun hne => ?_⟩
      rcases h'.record with heq' | ⟨-, hkept'⟩
      · rw [heq']
        exact hkept hne
      · exact hkept' (hkept hne)
  launching := fun i hi => h.launching i (h'.launching i hi)
  reporting := fun i hi => h.reporting i (h'.reporting i hi)

/-- Steps that leave the adapters, the record and the commands as they are. -/
theorem calm_of_eq {s' : Runner} (hadapters : s'.adapters = s.adapters)
    (hrecord : s'.record = s.record) (hcommands : s'.commands = s.commands) : Calm s s' where
  busy := fun a ha => by
    unfold Busy at ha ⊢
    rw [← hadapters]
    exact ha
  record := .inl hrecord
  launching := fun i hi => by
    unfold Has at hi ⊢
    rw [← hcommands]
    exact hi
  reporting := fun i hi => by
    unfold Has at hi ⊢
    rw [← hcommands]
    exact hi

/-- A command goes on, not as a launch unless it was one. -/
theorem calm_setProgress {i : Nat} {progress : Progress}
    (hreporting : Progress.isReporting progress = false)
    (hlaunching : Progress.isLaunching progress = true → s.Has Progress.isLaunching i) :
    Calm s (s.setProgress i progress) where
  busy := fun _ ha => ha
  record := .inl rfl
  launching := by
    intro j hj
    rcases hj.of_setProgress with ⟨hij, hp⟩ | ⟨-, hold⟩
    · exact hij ▸ hlaunching hp
    · exact hold
  reporting := by
    intro j hj
    rcases hj.of_setProgress with ⟨-, hp⟩ | ⟨-, hold⟩
    · rw [hreporting] at hp
      cases hp
    · exact hold

theorem calm_result (i : Nat) (id : String) (status : Status) : Calm s (s.result i id status) := by
  have hposted : Calm s { s with
      finished := if 500 < (s.finished.set id status).keys.length then
          (s.finished.set id status).keys.head?.elim (s.finished.set id status)
            (s.finished.set id status).delete
        else s.finished.set id status
      inflight := s.inflight.erase id } := calm_of_eq rfl rfl rfl
  exact hposted.trans (calm_setProgress rfl (nomatch ·))

/-- An adapter that changes is busy only if it was. -/
theorem calm_onAdapter {a : Nat} {f : Adapter → Adapter}
    (hf : ∀ x, (f x).busy = true → x.busy = true) : Calm s (s.onAdapter a f) where
  busy := by
    rintro b ⟨x, hx, hbusy⟩
    unfold onAdapter at hx
    dsimp only at hx
    rw [List.getElem?_modify] at hx
    obtain ⟨y, hy, heq⟩ := Option.map_eq_some_iff.mp hx
    refine ⟨y, hy, ?_⟩
    by_cases hab : a = b
    · rw [if_pos hab] at heq
      exact hf y (heq ▸ hbusy)
    · rw [if_neg hab] at heq
      exact heq ▸ hbusy
  record := .inl rfl
  launching := fun _ hi => hi
  reporting := fun _ hi => hi

/-- A command that arrives is no launch yet. -/
def addCommand (s : Runner) (id : String) : Runner :=
  { s with commands := s.commands ++ [⟨id, .done⟩], inflight := s.inflight ++ [id] }

theorem Has.of_addCommand {id : String} {p : Progress → Bool} {i : Nat} (hp : p .done = false)
    (h : (s.addCommand id).Has p i) : s.Has p i := by
  obtain ⟨c, hc, hpc⟩ := h
  unfold addCommand at hc
  dsimp only at hc
  rw [List.getElem?_append] at hc
  split at hc
  · exact ⟨c, hc, hpc⟩
  · have hmem := List.mem_of_getElem? hc
    rw [List.mem_singleton.mp hmem, hp] at hpc
    cases hpc

theorem calm_addCommand (id : String) : Calm s (s.addCommand id) where
  busy := fun _ ha => ha
  record := .inl rfl
  launching := fun _ hi => hi.of_addCommand rfl
  reporting := fun _ hi => hi.of_addCommand rfl

/-! ## Steps that start a runtime -/

/-- **A launch that is let through** takes the record, and no adapter is busy. -/
theorem single_launch {i : Nat} {id : String} {accepted : Bool} (h : Single s)
    (hpass : s.passes (.launch accepted) = true → ∀ a, ¬s.Busy a) :
    Single (s.launch i id accepted) := by
  unfold launch
  by_cases hhandled : s.launchHandled = true
  · rw [if_pos hhandled]
    exact (calm_result _ _ _).single h
  · rw [if_neg hhandled]
    by_cases haccepted : accepted = true
    · rw [if_pos haccepted]
      have hidle := hpass (by
        unfold passes
        simp [hhandled, haccepted])
      have hnone : s.record = none := by
        unfold launchHandled at hhandled
        cases hr : s.record with
        | none => rfl
        | some b => simp [hr] at hhandled
      -- No launch is on its way: its record would stand.
      have hfree : ∀ j, ¬s.Has Progress.isLaunching j := fun j hj => h.record j hj hnone
      have honly : ∀ j, ((({ s with record := some false } : Runner).manage.setProgress i
          (.reporting s.managed.length)).Has Progress.isLaunching j) → i = j := by
        intro j hj
        rcases hj.of_setProgress with ⟨hij, -⟩ | ⟨-, hold⟩
        · exact hij
        · exact absurd hold (hfree j)
      exact {
        busy := fun a b ha => absurd ha (hidle a)
        launch := fun j k hj hk => (honly j hj).symm.trans (honly k hk)
        record := fun _ _ => Option.some_ne_none false
        reporting := fun _ _ => ⟨rfl, hidle⟩ }
    · rw [if_neg haccepted]
      exact (calm_result _ _ _).single h

/-- **An adapter that starts** is the only one that is busy. -/
theorem single_startAdapter {i m : Nat} {origin : Origin} (h : Single s) (hidle : ∀ a, ¬s.Busy a)
    (hreporting : ∀ j, s.Has Progress.isReporting j → i = j)
    (hlaunching : origin = .launch → s.Has Progress.isLaunching i) :
    Single (s.startAdapter i m origin) := by
  have hnew : ∀ a, (s.startAdapter i m origin).Busy a → a = s.adapters.length := by
    rintro a ⟨x, hx, hbusy⟩
    have hx' : (s.adapters ++ [Adapter.new])[a]? = some x := hx
    rw [List.getElem?_append] at hx'
    split at hx'
    · exact absurd ⟨x, hx', hbusy⟩ (hidle a)
    · rename_i hge
      have hlt := (List.getElem?_eq_some_iff.mp hx').1
      rw [List.length_singleton] at hlt
      omega
  have hold : ∀ p : Progress → Bool, ∀ j, (s.startAdapter i m origin).Has p j →
      (i = j ∧ p (.starting m s.adapters.length origin) = true) ∨ (i ≠ j ∧ s.Has p j) := by
    intro p j hj
    exact Has.of_setProgress (s := { s with
      adapters := s.adapters ++ [Adapter.new]
      managed := s.managed.set m (some s.adapters.length) }) hj
  have hlaunch : ∀ j, (s.startAdapter i m origin).Has Progress.isLaunching j →
      s.Has Progress.isLaunching j := by
    intro j hj
    rcases hold _ j hj with ⟨hij, hp⟩ | ⟨-, hj⟩
    · cases origin with
      | launch => exact hij ▸ hlaunching rfl
      | resume anew => cases hp
    · exact hj
  exact {
    busy := fun a b ha hb => (hnew a ha).trans (hnew b hb).symm
    launch := fun j k hj hk => h.launch j k (hlaunch j hj) (hlaunch k hk)
    record := fun j hj => h.record j (hlaunch j hj)
    reporting := by
      intro j hj
      rcases hold _ j hj with ⟨-, hp⟩ | ⟨hne, hj⟩
      · cases hp
      · exact absurd (hreporting j hj) hne }

theorem single_resume {i : Nat} {id : String} {accepted : Bool} (h : Single s)
    (hpass : s.passes (.resume accepted) = true → ∀ a, ¬s.Busy a) :
    Single (s.resume i id accepted) := by
  unfold resume
  by_cases halive : s.alive = true
  · rw [if_pos halive]
    exact (calm_result _ _ _).single h
  · rw [if_neg halive]
    by_cases hrecord : s.record = some true
    · rw [if_neg (not_not_intro hrecord)]
      by_cases haccepted : accepted = true
      · rw [if_pos haccepted]
        have hidle := hpass (by
          unfold passes
          simp [halive, hrecord, haccepted])
        have hreporting : ∀ j, s.Has Progress.isReporting j → i = j := by
          intro j hj
          have hfalse := (h.reporting j hj).1
          rw [hrecord] at hfalse
          cases hfalse
        split
        · exact single_startAdapter h hidle hreporting (nomatch ·)
        · have hmanage : Calm s s.manage := calm_of_eq rfl rfl rfl
          exact single_startAdapter (hmanage.single h) hidle hreporting (nomatch ·)
      · rw [if_neg haccepted]
        exact (calm_result _ _ _).single h
    · rw [if_pos hrecord]
      exact (calm_result _ _ _).single h

/-- A launch that failed lets go of its record. -/
theorem single_forgotten {i : Nat} {id : String} {status : Status} (h : Single s)
    (hi : s.Has Progress.isLaunching i) :
    Single (({ s with session := none, record := none } : Runner).result i id status) := by
  have hfree : ∀ j, ¬(({ s with session := none, record := none } : Runner).result i id status).Has
      Progress.isLaunching j := by
    intro j hj
    rcases Has.of_setProgress hj with ⟨-, hp⟩ | ⟨hne, hold⟩
    · cases hp
    · exact hne (h.launch i j hi hold)
  exact {
    busy := fun a b ha hb => h.busy a b ha hb
    launch := fun j _ hj => absurd hj (hfree j)
    record := fun j hj => absurd hj (hfree j)
    reporting := fun j hj => absurd (has_launching_of_reporting hj) (hfree j) }

/-! ## A step and a run -/

theorem has_of_progress {i : Nat} {progress : Progress} {p : Progress → Bool}
    (h : (s.commands[i]?).map Command.progress = some progress) (hp : p progress = true) :
    s.Has p i := by
  obtain ⟨c, hc, heq⟩ := Option.map_eq_some_iff.mp h
  exact ⟨c, hc, heq ▸ hp⟩

theorem single_deliver (h : Single s) {id : String} {kind : CommandKind}
    (hop : ¬s.Blind (.deliver id kind)) : Single (s.deliver id kind) := by
  unfold deliver
  by_cases hfresh : s.fresh id = true
  · rw [if_pos hfresh]
    have hadded : Single (s.addCommand id) := (calm_addCommand id).single h
    have hidle : s.passes kind = true → ∀ a, ¬(s.addCommand id).Busy a :=
      fun hpass a ha => hop ⟨hfresh, hpass, a, ha⟩
    cases kind with
    | launch accepted => exact single_launch hadded hidle
    | resume accepted => exact single_resume hadded hidle
    | stopProcess =>
        have hstop : Calm (s.addCommand id) ((s.addCommand id).stopProcess s.commands.length id) := by
          unfold stopProcess
          split
          · exact calm_result _ _ _
          · exact calm_setProgress rfl (nomatch ·)
        exact hstop.single hadded
  · rw [if_neg hfresh]
    exact h

/-- **One step**: no second adapter becomes busy, unless a command is let through blindly. -/
theorem single_step (h : Single s) {op : Op} (hop : ¬s.Blind op) : Single (s.step op) := by
  cases op with
  | deliver id kind => exact single_deliver h hop
  | reported i =>
      unfold step
      dsimp only
      split
      · rename_i m hprogress
        have hi : s.Has Progress.isReporting i := has_of_progress hprogress rfl
        have hlaunching := has_launching_of_reporting hi
        refine single_startAdapter h (h.reporting i hi).2 (fun j hj => ?_) fun _ => hlaunching
        exact h.launch i j hlaunching (has_launching_of_reporting hj)
      · exact h
  | spawned a =>
      refine (calm_onAdapter fun x hx => ?_).single h
      split at hx
      · rename_i hpending
        unfold Adapter.busy
        simp [hpending.1]
      · exact hx
  | registered a =>
      unfold step
      dsimp only
      split
      · rename_i x hx
        split
        · rename_i hpending
          have hbusy : s.Busy a := by
            refine ⟨x, hx, ?_⟩
            unfold Adapter.busy
            simp [hpending.1]
          have hregistered : Calm s { s with record := s.record.map fun _ => true } := by
            refine ⟨fun _ ha => ha, .inr ⟨⟨a, hbusy⟩, fun hne => ?_⟩, fun _ hi => hi, fun _ hi => hi⟩
            intro hnone
            exact hne (Option.map_eq_none_iff.mp hnone)
          exact hregistered.single h
        · exact h
      · exact h
  | started i =>
      unfold step
      dsimp only
      split
      · rename_i m a origin _
        split
        · split
          · have hstarted : Calm s (s.onAdapter a fun x => { x with start := .started }) :=
              calm_onAdapter fun x hx => by
                unfold Adapter.busy at hx ⊢
                simp only [reduceCtorEq, decide_false, Bool.false_or] at hx
                simp [hx]
            exact (hstarted.trans (calm_setProgress rfl fun hp => by cases hp)).single h
          · exact h
        · exact h
      · exact h
  | startFailed i =>
      unfold step
      dsimp only
      split
      · rename_i m a origin hprogress
        have hdetached : Calm s { s with managed := s.managed.set m none } := calm_of_eq rfl rfl rfl
        have hfailed : Calm { s with managed := s.managed.set m none }
            (onAdapter { s with managed := s.managed.set m none } a
              fun x => { x with start := .failed }) :=
          calm_onAdapter fun x hx => by
            unfold Adapter.busy at hx ⊢
            simp only [reduceCtorEq, decide_false, Bool.false_or] at hx
            simp [hx]
        refine ((hdetached.trans hfailed).trans (calm_setProgress rfl fun hp => ?_)).single h
        cases origin with
        | launch => exact has_of_progress hprogress rfl
        | resume anew => cases hp
      · exact h
  | cleaned i =>
      unfold step
      dsimp only
      split
      · rename_i c hc
        split
        · rename_i a hprogress
          exact single_forgotten h ⟨c, hc, by rw [hprogress]; rfl⟩
        · rename_i a anew hprogress
          have hforgotten : Calm s { s with session := if anew then none else s.session } :=
            calm_of_eq rfl rfl rfl
          exact (hforgotten.trans (calm_result _ _ _)).single h
        · exact h
      · exact h
  | connected i =>
      unfold step
      dsimp only
      split
      · split
        · exact (calm_result _ _ _).single h
        · exact h
      · exact h
  | halted i =>
      unfold step
      dsimp only
      split
      · split
        · exact (calm_result _ _ _).single h
        · exact h
      · exact h
  | exited a =>
      refine (calm_onAdapter fun x hx => ?_).single h
      split at hx
      · rename_i hrunning
        unfold Adapter.busy
        simp [hrunning]
      · exact hx
  | streamEnded a =>
      have hended : Calm s (s.onAdapter a fun x => { x with ended := true }) :=
        calm_onAdapter fun x hx => hx
      exact hended.single h

/-- An adapter without a process whose start is over. -/
def Dormant (s : Runner) (a : Nat) : Prop :=
  ∃ x, s.adapters[a]? = some x ∧ x.child = .none ∧ x.start ≠ .pending

theorem Dormant.onAdapter {a b : Nat} {f : Adapter → Adapter} (h : s.Dormant a)
    (hf : ∀ x : Adapter, x.child = .none → x.start ≠ .pending →
      (f x).child = .none ∧ (f x).start ≠ .pending) : (s.onAdapter b f).Dormant a := by
  obtain ⟨x, hx, hchild, hstart⟩ := h
  unfold Dormant Runner.onAdapter
  dsimp only
  rw [List.getElem?_modify, hx]
  by_cases hba : b = a
  · exact ⟨f x, congrArg some (if_pos hba), hf x hchild hstart⟩
  · exact ⟨x, congrArg some (if_neg hba), hchild, hstart⟩

theorem Dormant.startAdapter {a i m : Nat} {origin : Origin} (h : s.Dormant a) :
    (s.startAdapter i m origin).Dormant a := by
  obtain ⟨x, hx, hrest⟩ := h
  refine ⟨x, ?_, hrest⟩
  have hlt := (List.getElem?_eq_some_iff.mp hx).1
  exact (List.getElem?_append_left hlt).trans hx

theorem Dormant.deliver {a : Nat} (h : s.Dormant a) (id : String) (kind : CommandKind) :
    (s.deliver id kind).Dormant a := by
  unfold Runner.deliver
  dsimp only
  split
  · cases kind with
    | launch accepted =>
        unfold launch
        dsimp only
        split
        · exact h
        · split
          · exact h
          · exact h
    | resume accepted =>
        unfold resume
        dsimp only
        split
        · exact h
        · split
          · exact h
          · split
            · split
              · exact Dormant.startAdapter h
              · exact Dormant.startAdapter h
            · exact h
    | stopProcess =>
        unfold stopProcess
        dsimp only
        split
        · exact h
        · exact h
  · exact h

/-- Such an adapter never obtains a process. -/
theorem Dormant.step {a : Nat} (h : s.Dormant a) (op : Op) : (s.step op).Dormant a := by
  cases op with
  | deliver id kind => exact h.deliver id kind
  | reported i =>
      unfold Runner.step
      dsimp only
      split
      · exact h.startAdapter
      · exact h
  | spawned b =>
      refine h.onAdapter fun x hchild hstart => ?_
      rw [if_neg fun hpending => hstart hpending.1]
      exact ⟨hchild, hstart⟩
  | registered b =>
      unfold Runner.step
      dsimp only
      split
      · split
        · exact h
        · exact h
      · exact h
  | started i =>
      unfold Runner.step
      dsimp only
      split
      · split
        · split
          · exact h.onAdapter fun x hchild _ => ⟨hchild, (nomatch ·)⟩
          · exact h
        · exact h
      · exact h
  | startFailed i =>
      unfold Runner.step
      dsimp only
      split
      · rename_i m b origin _
        have hdetached : Dormant { s with managed := s.managed.set m none } a := h
        exact hdetached.onAdapter fun x hchild _ => ⟨hchild, (nomatch ·)⟩
      · exact h
  | cleaned i =>
      unfold Runner.step
      dsimp only
      split
      · split
        · exact h
        · exact h
        · exact h
      · exact h
  | connected i =>
      unfold Runner.step
      dsimp only
      split
      · split
        · exact h
        · exact h
      · exact h
  | halted i =>
      unfold Runner.step
      dsimp only
      split
      · split
        · exact h
        · exact h
      · exact h
  | exited b =>
      refine h.onAdapter fun x hchild hstart => ?_
      rw [if_neg (by rw [hchild]; exact (nomatch ·))]
      exact ⟨hchild, hstart⟩
  | streamEnded b => exact h.onAdapter fun x hchild hstart => ⟨hchild, hstart⟩

theorem Dormant.run {a : Nat} (ops : List Op) (h : s.Dormant a) :
    (Lib.run Runner.step s ops).Dormant a := by
  induction ops generalizing s with
  | nil => exact h
  | cons op ops ih => exact ih (h.step op)

/-- What obtains a process is busy. -/
theorem busy_of_obtains {later : List Op} {a : Nat} (h : s.Obtains later a) : s.Busy a := by
  rcases h with ⟨x, hx, hchild⟩ | ⟨⟨x, hx, hchild⟩, n, y, hy, hrunning⟩
  · refine ⟨x, hx, ?_⟩
    unfold Adapter.busy
    simp [hchild]
  · refine ⟨x, hx, ?_⟩
    by_contra hidle
    have hstart : x.start ≠ .pending := by
      intro hpending
      unfold Adapter.busy at hidle
      simp [hpending] at hidle
    obtain ⟨z, hz, hnone, -⟩ := Dormant.run (later.take n) ⟨x, hx, hchild, hstart⟩
    rw [hy] at hz
    cases hz
    rw [hrunning] at hnone
    cases hnone

/-- **At most one process for a session**: in a run in which no command is let through while an
adapter is busy, no two adapters of the session at any time have a process, or obtain one
later. -/
theorem one_process (record : Option Bool) (earlier later : List Op)
    (hops : Along step (fun s op => ¬s.Blind op) (new record) (earlier ++ later)) (a b : Nat)
    (ha : (Lib.run step (new record) earlier).Obtains later a)
    (hb : (Lib.run step (new record) earlier).Obtains later b) : a = b := by
  have hsingle : Single (Lib.run step (new record) earlier) :=
    run_invariant Single (fun _ _ h hop => single_step h hop) (single_new record) hops.of_append
  exact hsingle.busy a b (busy_of_obtains ha) (busy_of_obtains hb)

/-! ## Concrete runs -/

/-- A session that was launched by an earlier daemon is resumed. -/
def resumed : List Op :=
  [.deliver "c1" (.resume true), .spawned 0, .registered 0, .started 0, .connected 0]

/-- Its process exits, and it is resumed again. -/
def resumedAgain : List Op := resumed ++ [.exited 0, .deliver "c2" (.resume true)]

theorem one_process_resumedAgain :
    (Lib.run step (new (some true)) resumedAgain).Obtains [.spawned 1] 1
      ∧ ¬(Lib.run step (new (some true)) resumedAgain).Obtains [.spawned 1] 0 := by
  have hsecond : (Lib.run step (new (some true)) resumedAgain).Obtains [.spawned 1] 1 :=
    .inr ⟨⟨.new, by decide +kernel, rfl⟩, 1, ⟨.pending, .running, false⟩, by decide +kernel, rfl⟩
  refine ⟨hsecond, fun hfirst => ?_⟩
  have hops : Along step (fun s op => ¬s.Blind op) (new (some true))
      (resumedAgain ++ [.spawned 1]) := by
    refine ⟨?_, id, id, id, id, id, ?_, id, trivial⟩
    · rintro ⟨-, -, a, x, hx, -⟩
      cases hx
    · rintro ⟨-, -, a, x, hx, hbusy⟩
      cases a with
      | zero =>
          cases hx
          cases hbusy
      | succ a => cases hx
  exact absurd (one_process (some true) resumedAgain [.spawned 1] hops 0 1 hfirst hsecond)
    Nat.zero_ne_one

/-- Two resumes are let through before the first has its process. -/
theorem not_one_process : ¬∀ (record : Option Bool) (earlier later : List Op) (a b : Nat),
    (Lib.run step (new record) earlier).Obtains later a →
      (Lib.run step (new record) earlier).Obtains later b → a = b := by
  intro h
  let ops : List Op :=
    [.deliver "c1" (.resume true), .deliver "c2" (.resume true), .spawned 0, .spawned 1]
  have hfirst : (Lib.run step (new (some true)) ops).Running 0 :=
    ⟨⟨.pending, .running, false⟩, by decide +kernel, rfl⟩
  have hsecond : (Lib.run step (new (some true)) ops).Running 1 :=
    ⟨⟨.pending, .running, false⟩, by decide +kernel, rfl⟩
  exact absurd (h (some true) ops [] 0 1 (.inl hfirst) (.inl hsecond)) Nat.zero_ne_one

end Runner

end Agenomic.Connector
