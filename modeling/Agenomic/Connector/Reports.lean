import Agenomic.Lib.Led
import Agenomic.Lib.Run

/-!
# The state reports of a session

Reports are sent one after the other. The one that connects the session carries the mode
it runs in; until it is made, a status that the runtime reports is only held. Making it
is not delivering it: the session counts as connected from then on.

**`mode_first`**: where no report that carries the mode is given up, no resume begins and
no failed resume is undone in a way that leaves a connected status without one, every
connected status that the gateway accepts is, or comes after, a report with the mode. Each
of these steps leads to one that does not (**`exposes_reaches`**).
-/

namespace Agenomic.Connector

open Lib

/-- The body of a state report. -/
structure StateReport where
  status : String
  /-- The mode in effect, with its protection, limitations and capabilities. -/
  mode : Option String
  deriving DecidableEq, Repr

/-- Its status is one of a connected session. -/
def StateReport.connected (r : StateReport) : Bool :=
  !(["starting", "stopped", "failed"].contains r.status)

/-- The statuses that the daemon reports by itself. -/
inductive OwnStatus where
  | starting
  | stopped
  | failed
  deriving DecidableEq, Repr

def OwnStatus.text : OwnStatus → String
  | .starting => "starting"
  | .stopped => "stopped"
  | .failed => "failed"

/-- How a request ends: a network failure has the status 0. -/
inductive ReportAnswer where
  | ok
  | error (status : Nat)
  deriving DecidableEq, Repr

/-- What a resume puts back when the runtime does not start, and where it began. -/
structure Before where
  connected : Bool
  held : Option String
  mark : Nat
  deriving DecidableEq, Repr

/-- A session the daemon manages, and what the gateway accepted of its reports. -/
structure Managed where
  status : String
  connected : Bool
  held : Option String
  reportedMode : Option String
  /-- The reports to send, the first of them in flight, and whether each is retried. -/
  reports : List (StateReport × Bool)
  accepted : List StateReport
  /-- The resumes whose runtime has not started yet. -/
  resumes : List Before
  /-- How much was accepted when each resume began, the last one first. -/
  marks : List Nat
  aborted : Bool
  deriving DecidableEq

namespace Managed

def new : Managed where
  status := "starting"
  connected := false
  held := none
  reportedMode := none
  reports := []
  accepted := []
  resumes := []
  marks := []
  aborted := false

variable (m : Managed)

def reportUntil (body : StateReport) (persistent : Bool) : Managed :=
  { m with reports := m.reports ++ [(body, persistent)] }

def setStatus (status : String) : Managed :=
  let m := { m with status }
  m.reportUntil ⟨status, none⟩ false

/-- A status the runtime reports: held until the session is connected. -/
def adapterStatus (status : String) : Managed :=
  if m.connected then m.setStatus status else { m with held := some status }

/-- The report that connects a session. -/
def connect (fields : String) : Managed :=
  let status := m.held.getD "running"
  let m := { m with
    status
    connected := true
    held := none
    reportedMode := some fields }
  m.reportUntil ⟨status, some fields⟩ true

/-- `managed`: the session is still in the map. The fields are there once the version is. -/
def refreshMode (managed : Bool) : Option String → Managed
  | none => m
  | some fields =>
      if m.aborted || !m.connected || !managed || m.status = "stopped" || m.status = "failed" then m
      else if m.reportedMode = some fields then m
      else
        let m := { m with reportedMode := some fields }
        m.reportUntil ⟨m.status, some fields⟩ true

/-- A resume begins: statuses are held until the session is connected again. -/
def resume : Managed :=
  { m with
    connected := false
    held := none
    resumes := ⟨m.connected, m.held, m.accepted.length⟩ :: m.resumes
    marks := m.accepted.length :: m.marks }

/-- The runtime of a resume has started. -/
def resumeStarted (k : Nat) : Managed := { m with resumes := m.resumes.eraseIdx k }

/-- The runtime of a resume did not start. -/
def resumeFailed (k : Nat) : Managed :=
  match m.resumes[k]? with
  | none => m
  | some before =>
      { m with
        connected := before.connected
        held := before.held
        resumes := m.resumes.eraseIdx k
        marks := m.marks.erase before.mark }

/-- A refused report is not retried. -/
def ReportAnswer.refused : ReportAnswer → Bool
  | .ok => false
  | .error status => 400 ≤ status && status < 500

/-- Whether a report is settled with its answer, or is sent again. -/
def settles (persistent : Bool) (answer : ReportAnswer) : Bool :=
  answer = .ok || !persistent || ReportAnswer.refused answer || m.aborted

/-- The gateway accepted the report in flight `kept` times without the daemon knowing, then it
is answered. -/
def answered (kept : Nat) (answer : ReportAnswer) : Managed :=
  match m.reports with
  | [] => m
  | (body, persistent) :: rest =>
      { m with
        accepted := m.accepted ++ List.replicate kept body ++ if answer = .ok then [body] else []
        reports := if m.settles persistent answer then rest else m.reports }

end Managed

inductive ReportOp where
  | setStatus (status : OwnStatus)
  | adapterStatus (status : String)
  | connect (fields : String)
  | refreshMode (managed : Bool) (fields : Option String)
  | resume
  | resumeStarted (k : Nat)
  | resumeFailed (k : Nat)
  | answered (kept : Nat) (answer : ReportAnswer)
  | abort
  deriving DecidableEq

namespace Managed

def step (m : Managed) : ReportOp → Managed
  | .setStatus status => m.setStatus status.text
  | .adapterStatus status => m.adapterStatus status
  | .connect fields => m.connect fields
  | .refreshMode managed fields => m.refreshMode managed fields
  | .resume => m.resume
  | .resumeStarted k => m.resumeStarted k
  | .resumeFailed k => m.resumeFailed k
  | .answered kept answer => m.answered kept answer
  | .abort => { m with aborted := true }

variable (m : Managed)

/-- How much was accepted when the session was last launched or resumed. -/
def since : Nat := m.marks.headD 0

/-- The reports that carry the mode lead those of a connected session. -/
def ModeFirst (log : List StateReport) : Prop :=
  Led (fun r => r.connected = true) (fun r => r.mode.isSome = true) log

/-- What is to be sent. -/
def bodies : List StateReport := m.reports.map Prod.fst

/-- What was accepted since a mark, and what is to be sent after it. -/
def ahead (mark : Nat) : List StateReport := m.accepted.drop mark ++ m.bodies

/-- A connected session has a report with its mode among these. -/
def Backed (connected : Bool) (log : List StateReport) : Prop :=
  connected = true → ∃ r ∈ log, r.mode.isSome = true

/-- Without the report in flight, a connected status is without a mode, or comes to be. -/
def Needed : Prop :=
  let log := m.accepted.drop m.since ++ m.bodies.tail
  ¬(ModeFirst log ∧ Backed m.connected log)

/-- A connected status may reach the gateway without the mode. -/
def Exposes : ReportOp → Prop
  | .answered kept answer =>
      kept = 0 ∧ answer ≠ .ok ∧ (∃ e ∈ m.reports.head?, m.settles e.2 answer = true) ∧ m.Needed
  | .resume => ¬ModeFirst m.bodies
  | .resumeFailed k =>
      ∃ before ∈ m.resumes[k]?,
        ¬Backed before.connected (m.ahead ((m.marks.erase before.mark).headD 0))
  | _ => False

instance (log : List StateReport) : Decidable (ModeFirst log) :=
  inferInstanceAs (Decidable (Led _ _ log))

instance (connected : Bool) (log : List StateReport) : Decidable (Backed connected log) :=
  inferInstanceAs (Decidable (_ → _))

instance : ∀ op, Decidable (m.Exposes op)
  | .answered _ _ => inferInstanceAs (Decidable (_ ∧ _ ∧ _ ∧ ¬(_ ∧ _)))
  | .resume => inferInstanceAs (Decidable (¬_))
  | .resumeFailed _ => inferInstanceAs (Decidable (∃ _ ∈ _, _))
  | .setStatus _ | .adapterStatus _ | .connect _ | .refreshMode _ _ | .resumeStarted _ | .abort =>
      .isFalse id

/-- What holds of the reports while no step exposes the session. -/
structure Moded (m : Managed) : Prop where
  ordered : ∀ mark ∈ 0 :: m.marks, ModeFirst (m.accepted.drop mark)
  marks : ∀ mark ∈ m.marks, mark ≤ m.since
  sorted : m.marks.Pairwise (· ≥ ·)
  within : m.since ≤ m.accepted.length
  ahead : ModeFirst (m.ahead m.since)
  backed : Backed m.connected (m.ahead m.since)

theorem moded_new : Moded new where
  ordered := by
    intro mark _
    rw [show new.accepted = [] from rfl, List.drop_nil]
    exact led_nil
  marks := fun _ h => absurd h List.not_mem_nil
  sorted := .nil
  within := Nat.zero_le _
  ahead := led_nil
  backed := fun h => absurd h Bool.false_ne_true

variable {m : Managed}

theorem since_mem : m.since ∈ 0 :: m.marks := by
  unfold since
  cases m.marks with
  | nil => exact List.mem_cons_self
  | cons mark marks => exact List.mem_cons_of_mem 0 List.mem_cons_self

theorem Moded.mark_le (h : Moded m) {mark : Nat} (hmark : mark ∈ 0 :: m.marks) : mark ≤ m.since := by
  rcases List.mem_cons.mp hmark with hzero | hmem
  · rw [hzero]
    exact Nat.zero_le _
  · exact h.marks mark hmem

/-- The older a mark, the more comes before what is checked since the last one. -/
theorem Moded.ahead_of_mem (h : Moded m) {mark : Nat} (hmark : mark ∈ 0 :: m.marks) :
    ModeFirst (m.ahead mark) := by
  have hsplit : m.accepted.drop mark
      = (m.accepted.drop mark).take (m.since - mark) ++ m.accepted.drop m.since := by
    have hdrop := List.take_append_drop (m.since - mark) (m.accepted.drop mark)
    rw [List.drop_drop, Nat.add_sub_cancel' (h.mark_le hmark)] at hdrop
    exact hdrop.symm
  have hold := h.ordered mark hmark
  unfold Managed.ahead
  rw [hsplit] at hold ⊢
  exact hold.glue h.ahead

/-! ## Steps that add a report -/

theorem Moded.reportUntil (h : Moded m) {body : StateReport} (persistent : Bool)
    (hbody : body.connected = true → m.connected = true ∨ body.mode.isSome = true) :
    Moded (m.reportUntil body persistent) := by
  have hahead : (m.reportUntil body persistent).ahead m.since = m.ahead m.since ++ [body] := by
    unfold Managed.ahead bodies Managed.reportUntil
    dsimp only
    rw [List.map_append, ← List.append_assoc]
    rfl
  refine ⟨h.ordered, h.marks, h.sorted, h.within, ?_, ?_⟩
  · refine hahead ▸ led_append.mpr ⟨h.ahead, ?_⟩
    by_cases hcon : m.connected = true
    · exact .inl (h.backed hcon)
    · refine .inr (led_singleton.mpr fun hstatus => ?_)
      exact (hbody hstatus).resolve_left hcon
  · intro hcon
    obtain ⟨r, hr, hmode⟩ := h.backed hcon
    exact ⟨r, hahead ▸ List.mem_append_left [body] hr, hmode⟩

/-- The status of a session counts for nothing in what is reported of it. -/
theorem Moded.setStatus (h : Moded m) {status : String}
    (hstatus : (StateReport.mk status none).connected = true → m.connected = true) :
    Moded (m.setStatus status) := by
  have h' : Moded { m with status } := ⟨h.ordered, h.marks, h.sorted, h.within, h.ahead, h.backed⟩
  exact h'.reportUntil false fun hcon => .inl (hstatus hcon)

theorem Moded.adapterStatus (h : Moded m) (status : String) : Moded (m.adapterStatus status) := by
  unfold Managed.adapterStatus
  by_cases hcon : m.connected = true
  · rw [if_pos hcon]
    exact h.setStatus fun _ => hcon
  · rw [if_neg hcon]
    exact ⟨h.ordered, h.marks, h.sorted, h.within, h.ahead, h.backed⟩

theorem Moded.connect (h : Moded m) (fields : String) : Moded (m.connect fields) := by
  have hahead : (m.connect fields).ahead m.since
      = m.ahead m.since ++ [⟨m.held.getD "running", some fields⟩] := by
    unfold Managed.ahead bodies Managed.connect Managed.reportUntil
    dsimp only
    rw [List.map_append, ← List.append_assoc]
    rfl
  refine ⟨h.ordered, h.marks, h.sorted, h.within, ?_, ?_⟩
  · exact hahead ▸ led_append.mpr ⟨h.ahead, .inr (led_singleton.mpr fun _ => rfl)⟩
  · intro _
    refine ⟨⟨m.held.getD "running", some fields⟩, ?_, rfl⟩
    exact hahead ▸ List.mem_append_right _ (List.mem_singleton_self _)

theorem Moded.refreshMode (h : Moded m) (managed : Bool) (fields : Option String) :
    Moded (m.refreshMode managed fields) := by
  cases fields with
  | none => exact h
  | some fields =>
      unfold Managed.refreshMode
      dsimp only
      split
      · exact h
      · split
        · exact h
        · have h' : Moded { m with reportedMode := some fields } :=
            ⟨h.ordered, h.marks, h.sorted, h.within, h.ahead, h.backed⟩
          exact h'.reportUntil true fun _ => .inr rfl

/-! ## Resumes -/

theorem ahead_resume : m.resume.ahead m.resume.since = m.bodies := by
  show m.accepted.drop m.accepted.length ++ m.bodies = m.bodies
  rw [List.drop_length, List.nil_append]

theorem Moded.resume (h : Moded m) (hqueue : ModeFirst m.bodies) : Moded m.resume where
  ordered := by
    intro mark hmark
    rcases List.mem_cons.mp hmark with hzero | hmem
    · rw [hzero]
      exact h.ordered 0 List.mem_cons_self
    · rcases List.mem_cons.mp hmem with hnew | hold
      · rw [hnew]
        refine List.drop_length (l := m.accepted) ▸ led_nil
      · exact h.ordered mark (List.mem_cons_of_mem 0 hold)
  marks := by
    intro mark hmark
    rcases List.mem_cons.mp hmark with hnew | hold
    · exact Nat.le_of_eq hnew
    · exact (h.marks mark hold).trans h.within
  sorted := .cons (fun mark hmark => (h.marks mark hmark).trans h.within) h.sorted
  within := Nat.le_refl _
  ahead := ahead_resume ▸ hqueue
  backed := fun hcon => absurd hcon Bool.false_ne_true

theorem mem_of_headD {marks : List Nat} (hsub : marks ⊆ m.marks) :
    marks.headD 0 ∈ 0 :: m.marks := by
  cases marks with
  | nil => exact List.mem_cons_self
  | cons mark rest => exact List.mem_cons_of_mem 0 (hsub List.mem_cons_self)

/-- The marks from the last one on are in order. -/
theorem le_headD {marks : List Nat} (hsorted : marks.Pairwise (· ≥ ·)) :
    ∀ mark ∈ marks, mark ≤ marks.headD 0 := by
  intro mark hmark
  cases hsorted with
  | nil => cases hmark
  | cons hle _ =>
      rcases List.mem_cons.mp hmark with heq | hmem
      · exact Nat.le_of_eq heq
      · exact hle mark hmem

theorem Moded.resumeFailed (h : Moded m) {k : Nat}
    (hbacked : ∀ before, m.resumes[k]? = some before →
      Backed before.connected (m.ahead ((m.marks.erase before.mark).headD 0))) :
    Moded (m.resumeFailed k) := by
  unfold Managed.resumeFailed
  split
  · exact h
  · rename_i before hbefore
    have hsub : m.marks.erase before.mark ⊆ m.marks := List.erase_subset
    have hsince := mem_of_headD hsub
    have hsorted := h.sorted.sublist (List.erase_sublist (a := before.mark))
    refine ⟨?_, le_headD hsorted, hsorted, ?_, h.ahead_of_mem hsince, hbacked before hbefore⟩
    · intro mark hmark
      rcases List.mem_cons.mp hmark with hzero | hmem
      · exact h.ordered mark (hzero ▸ List.mem_cons_self)
      · exact h.ordered mark (List.mem_cons_of_mem 0 (hsub hmem))
    · exact (h.mark_le hsince).trans h.within

/-! ## Answers -/

/-- A report that stays, is kept or is delivered is in the logs as often as one likes, but not
less than once. -/
theorem ahead_answered (h : m.since ≤ m.accepted.length) {body : StateReport} {persistent : Bool}
    {rest : List (StateReport × Bool)} (hreports : m.reports = (body, persistent) :: rest) {kept : Nat}
    {answer : ReportAnswer} (hkept : kept ≠ 0 ∨ answer = .ok ∨ m.settles persistent answer = false) :
    ∃ n, (m.answered kept answer).ahead m.since
      = m.accepted.drop m.since ++ (List.replicate n body ++ body :: rest.map Prod.fst) := by
  unfold Managed.ahead bodies answered
  rw [hreports]
  dsimp only
  rw [List.append_assoc m.accepted, List.drop_append_of_le_length h]
  by_cases hok : answer = .ok
  · refine ⟨kept, ?_⟩
    have hsettles : m.settles persistent answer = true := by
      rw [hok]
      rfl
    rw [if_pos hok, if_pos hsettles]
    simp only [List.append_assoc, List.singleton_append]
  · rw [if_neg hok, List.append_nil]
    by_cases hsettles : m.settles persistent answer = true
    · have hne : kept ≠ 0 := by
        rcases hkept with hne | heq | hkeeps
        · exact hne
        · exact absurd heq hok
        · rw [hsettles] at hkeeps
          cases hkeeps
      obtain ⟨n, rfl⟩ := Nat.exists_eq_succ_of_ne_zero hne
      refine ⟨n, ?_⟩
      rw [if_pos hsettles, List.replicate_succ']
      simp only [List.append_assoc, List.singleton_append]
    · refine ⟨kept, ?_⟩
      rw [if_neg hsettles, List.map_cons, List.append_assoc]

/-- A report that is given up leaves what the others are. -/
theorem ahead_givenUp {body : StateReport} {persistent : Bool}
    {rest : List (StateReport × Bool)} (hreports : m.reports = (body, persistent) :: rest)
    {answer : ReportAnswer} (hok : answer ≠ .ok) (hsettles : m.settles persistent answer = true) :
    (m.answered 0 answer).ahead m.since = m.accepted.drop m.since ++ m.bodies.tail := by
  unfold Managed.ahead bodies answered
  rw [hreports]
  dsimp only
  rw [if_neg hok, if_pos hsettles, List.replicate_zero, List.append_nil, List.append_nil]
  rfl

theorem answered_frame (kept : Nat) (answer : ReportAnswer) :
    (m.answered kept answer).marks = m.marks ∧ (m.answered kept answer).connected = m.connected := by
  unfold answered
  cases m.reports with
  | nil => exact ⟨rfl, rfl⟩
  | cons e rest => exact ⟨rfl, rfl⟩

/-- What an answer adds to the log is the report in flight. -/
theorem accepted_answered {body : StateReport} {persistent : Bool}
    {rest : List (StateReport × Bool)} (hreports : m.reports = (body, persistent) :: rest) (kept : Nat)
    (answer : ReportAnswer) :
    ∃ n, (m.answered kept answer).accepted = m.accepted ++ List.replicate n body := by
  unfold answered
  rw [hreports]
  dsimp only
  by_cases hok : answer = .ok
  · refine ⟨kept + 1, ?_⟩
    rw [if_pos hok, List.replicate_succ', List.append_assoc]
  · refine ⟨kept, ?_⟩
    rw [if_neg hok, List.append_nil]

theorem Moded.answered (h : Moded m) {kept : Nat} {answer : ReportAnswer}
    (hexp : ¬m.Exposes (.answered kept answer)) : Moded (m.answered kept answer) := by
  cases hreports : m.reports with
  | nil =>
      unfold Managed.answered
      rw [hreports]
      exact h
  | cons e rest =>
      obtain ⟨body, persistent⟩ := e
      obtain ⟨hmarks, hcon⟩ := answered_frame (m := m) kept answer
      obtain ⟨n, haccepted⟩ := accepted_answered hreports kept answer
      have hsince : (m.answered kept answer).since = m.since := by
        unfold since
        rw [hmarks]
      have hcover : ModeFirst ((m.answered kept answer).ahead m.since)
          ∧ Backed m.connected ((m.answered kept answer).ahead m.since) := by
        by_cases hgiven : kept = 0 ∧ answer ≠ .ok ∧ m.settles persistent answer = true
        · obtain ⟨hkept, hok, hsettles⟩ := hgiven
          rw [hkept, ahead_givenUp hreports hok hsettles]
          refine Classical.not_not.mp fun hneeded => hexp ⟨hkept, hok, ⟨(body, persistent), ?_, hsettles⟩, hneeded⟩
          rw [hreports]
          rfl
        · have hstays : kept ≠ 0 ∨ answer = .ok ∨ m.settles persistent answer = false := by
            by_cases hkept : kept = 0
            · by_cases hok : answer = .ok
              · exact .inr (.inl hok)
              · exact .inr (.inr (Bool.eq_false_iff.mpr fun hsettles => hgiven ⟨hkept, hok, hsettles⟩))
            · exact .inl hkept
          obtain ⟨n, hahead⟩ := ahead_answered h.within hreports hstays
          have hold : m.ahead m.since = m.accepted.drop m.since ++ body :: rest.map Prod.fst := by
            unfold Managed.ahead bodies
            rw [hreports, List.map_cons]
          have hfirst := h.ahead
          have hbacked := h.backed
          rw [hold] at hfirst hbacked
          rw [hahead]
          refine ⟨hfirst.repeat n, fun hc => ?_⟩
          obtain ⟨r, hr, hmode⟩ := hbacked hc
          refine ⟨r, ?_, hmode⟩
          rcases List.mem_append.mp hr with hleft | hright
          · exact List.mem_append_left _ hleft
          · exact List.mem_append_right _ (List.mem_append_right _ hright)
      refine ⟨?_, ?_, ?_, ?_, ?_, ?_⟩
      · intro mark hmark
        rw [hmarks] at hmark
        have hled := h.ahead_of_mem hmark
        unfold Managed.ahead bodies at hled
        rw [hreports, List.map_cons] at hled
        have hled := hled.repeat n
        rw [haccepted, List.drop_append_of_le_length ((h.mark_le hmark).trans h.within)]
        rw [← List.append_assoc] at hled
        exact (led_append.mp hled).1
      · rw [hmarks, hsince]
        exact h.marks
      · rw [hmarks]
        exact h.sorted
      · rw [hsince, haccepted, List.length_append]
        exact Nat.le_add_right_of_le h.within
      · rw [hsince]
        exact hcover.1
      · rw [hsince, hcon]
        exact hcover.2

/-! ## Runs -/

theorem OwnStatus.not_connected (status : OwnStatus) :
    (StateReport.mk status.text none).connected = false := by
  cases status <;> decide

/-- **One step** that exposes nothing. -/
theorem Moded.step {op : ReportOp} (h : Moded m) (hexp : ¬m.Exposes op) : Moded (m.step op) := by
  cases op with
  | setStatus status =>
      refine h.setStatus fun hcon => ?_
      rw [OwnStatus.not_connected status] at hcon
      cases hcon
  | adapterStatus status => exact h.adapterStatus status
  | connect fields => exact h.connect fields
  | refreshMode managed fields => exact h.refreshMode managed fields
  | resume => exact h.resume (Classical.not_not.mp hexp)
  | resumeStarted k => exact ⟨h.ordered, h.marks, h.sorted, h.within, h.ahead, h.backed⟩
  | resumeFailed k =>
      refine h.resumeFailed fun before hbefore => ?_
      exact Classical.not_not.mp fun hbacked => hexp ⟨before, hbefore, hbacked⟩
  | answered kept answer => exact h.answered hexp
  | abort => exact ⟨h.ordered, h.marks, h.sorted, h.within, h.ahead, h.backed⟩

theorem moded_run {ops : List ReportOp}
    (h : Along Managed.step (fun m op => ¬m.Exposes op) new ops) : Moded (run Managed.step new ops) :=
  run_invariant Moded (fun _ _ hm hexp => hm.step hexp) moded_new h

/-- **Where no step exposes the session, a report with the mode comes first**: in every state
reached, among the reports accepted since the last launch or resume. -/
theorem mode_first {ops : List ReportOp}
    (h : Along Managed.step (fun m op => ¬m.Exposes op) new ops) :
    let m := run Managed.step new ops
    ModeFirst (m.accepted.drop m.since) :=
  (moded_run h).ordered _ since_mem

/-- A runtime that is connected, waits for its reports, and is resumed. -/
def resumed : List ReportOp :=
  [.setStatus .starting, .answered 0 .ok, .adapterStatus "idle", .connect "enforce",
    .adapterStatus "running", .answered 0 (.error 503), .answered 0 .ok, .answered 0 .ok, .resume,
    .resumeStarted 0, .connect "enforce", .answered 0 (.error 0), .answered 1 .ok]

theorem mode_first_resumed :
    let m := run step new resumed
    ModeFirst (m.accepted.drop m.since) := by
  exact mode_first (by decide +kernel)

/-- The gateway answers the connecting report with too many requests. -/
def throttled : List ReportOp :=
  [.setStatus .starting, .answered 0 .ok, .connect "enforce", .answered 0 (.error 429),
    .adapterStatus "idle", .answered 0 .ok]

theorem not_mode_first : ¬∀ ops : List ReportOp,
    let m := run step new ops
    ModeFirst (m.accepted.drop m.since) := by
  intro h
  have hlog : (run step new throttled).accepted.drop (run step new throttled).since
      = [⟨"starting", none⟩, ⟨"idle", none⟩] := by decide +kernel
  have hled := h throttled
  dsimp only at hled
  rw [hlog] at hled
  obtain ⟨r, hr, hmode⟩ := hled [⟨"starting", none⟩] ⟨"idle", none⟩ [] rfl (by decide)
  rcases List.mem_cons.mp hr with heq | hmem
  · rw [heq] at hmode
    cases hmode
  · rw [List.mem_singleton.mp hmem] at hmode
    cases hmode

/-! ## What an exposed session comes to -/

/-- Every report to send is accepted. -/
def deliverAll : List ReportOp := List.replicate m.reports.length (.answered 0 .ok)

theorem run_deliverAll (m : Managed) :
    (run step m m.deliverAll).accepted = m.accepted ++ m.bodies
      ∧ (run step m m.deliverAll).marks = m.marks := by
  cases hreports : m.reports with
  | nil =>
      unfold deliverAll bodies
      rw [hreports]
      exact ⟨(List.append_nil m.accepted).symm, rfl⟩
  | cons e rest =>
      let next : Managed := { m with accepted := m.accepted ++ [e.1], reports := rest }
      have hstep : m.step (.answered 0 .ok) = next := by
        show m.answered 0 .ok = next
        unfold answered
        rw [hreports]
        dsimp only
        rw [if_pos rfl, List.replicate_zero, List.append_nil]
        rfl
      obtain ⟨haccepted, hmarks⟩ := run_deliverAll next
      have hops : m.deliverAll = .answered 0 .ok :: next.deliverAll := by
        unfold deliverAll
        rw [hreports, List.length_cons, List.replicate_succ]
      rw [hops, run_cons, hstep, haccepted, hmarks]
      refine ⟨?_, rfl⟩
      unfold bodies
      rw [hreports, List.map_cons]
      exact List.append_assoc ..
termination_by m.reports.length
decreasing_by
  rw [hreports]
  exact Nat.lt_succ_self rest.length

/-- What is not led, or not backed, is seen once everything is accepted. -/
theorem exposed_reaches (hwithin : m.since ≤ m.accepted.length)
    (h : ¬(ModeFirst (m.ahead m.since) ∧ Backed m.connected (m.ahead m.since))) :
    ∃ later, ¬ModeFirst ((run step m later).accepted.drop (run step m later).since) := by
  have hall : ∀ m' : Managed, m'.since ≤ m'.accepted.length → ¬ModeFirst (m'.ahead m'.since) →
      ¬ModeFirst ((run step m' m'.deliverAll).accepted.drop (run step m' m'.deliverAll).since) := by
    intro m' hle hnot
    obtain ⟨haccepted, hmarks⟩ := run_deliverAll m'
    have hsince : (run step m' m'.deliverAll).since = m'.since := by
      unfold since
      rw [hmarks]
    rw [haccepted, hsince, List.drop_append_of_le_length hle]
    exact hnot
  by_cases hfirst : ModeFirst (m.ahead m.since)
  · have hbacked : ¬Backed m.connected (m.ahead m.since) := fun hb => h ⟨hfirst, hb⟩
    obtain ⟨hcon, hnone⟩ := Classical.not_imp.mp hbacked
    -- the next status of the runtime goes out as it is
    let idle := m.step (.adapterStatus "idle")
    have hidle : idle = m.setStatus "idle" := if_pos hcon
    have hahead : idle.ahead idle.since = m.ahead m.since ++ [⟨"idle", none⟩] := by
      rw [hidle]
      unfold Managed.ahead bodies Managed.setStatus Managed.reportUntil
      dsimp only
      rw [List.map_append, ← List.append_assoc]
      rfl
    refine ⟨.adapterStatus "idle" :: idle.deliverAll, hall idle ?_ ?_⟩
    · rw [hidle]
      exact hwithin
    · rw [hahead]
      intro hled
      rcases (led_append.mp hled).2 with hmem | hlast
      · exact hnone hmem
      · exact absurd (led_singleton.mp hlast (by decide)) Bool.false_ne_true
  · exact ⟨m.deliverAll, hall m hwithin hfirst⟩

/-- **A step that exposes the session leads to a connected status without the mode.** -/
theorem exposes_reaches {ops : List ReportOp} {op : ReportOp}
    (h : Along Managed.step (fun m op => ¬m.Exposes op) new ops)
    (hexp : (run Managed.step new ops).Exposes op) :
    ∃ later, let m := run Managed.step new (ops ++ op :: later)
      ¬ModeFirst (m.accepted.drop m.since) := by
  have hm := moded_run h
  obtain ⟨m, heq⟩ : ∃ m, m = run Managed.step new ops := ⟨_, rfl⟩
  rw [← heq] at hm hexp
  suffices hafter : (m.step op).since ≤ (m.step op).accepted.length
      ∧ ¬(ModeFirst ((m.step op).ahead (m.step op).since)
        ∧ Backed (m.step op).connected ((m.step op).ahead (m.step op).since)) by
    obtain ⟨later, hlater⟩ := exposed_reaches hafter.1 hafter.2
    refine ⟨later, ?_⟩
    rw [run_append, run_cons, ← heq]
    exact hlater
  cases op with
  | answered kept answer =>
      obtain ⟨hkept, hok, ⟨⟨body, persistent⟩, hhead, hsettles⟩, hneeded⟩ := hexp
      obtain ⟨rest, hreports⟩ := List.head?_eq_some_iff.mp hhead
      obtain ⟨hmarks, hcon⟩ := answered_frame (m := m) 0 answer
      have hsince : (m.answered 0 answer).since = m.since := by
        unfold since
        rw [hmarks]
      obtain ⟨n, haccepted⟩ := accepted_answered hreports 0 answer
      rw [hkept]
      show (m.answered 0 answer).since ≤ (m.answered 0 answer).accepted.length
        ∧ ¬(ModeFirst ((m.answered 0 answer).ahead (m.answered 0 answer).since)
          ∧ Backed (m.answered 0 answer).connected ((m.answered 0 answer).ahead (m.answered 0 answer).since))
      rw [hsince, hcon, ahead_givenUp hreports hok hsettles, haccepted, List.length_append]
      exact ⟨Nat.le_add_right_of_le hm.within, hneeded⟩
  | resume =>
      exact ⟨Nat.le_refl _, fun hboth => hexp (ahead_resume ▸ hboth.1)⟩
  | resumeFailed k =>
      obtain ⟨before, hbefore, hbacked⟩ := hexp
      have hsub : m.marks.erase before.mark ⊆ m.marks := List.erase_subset
      have hstep : m.step (.resumeFailed k) = { m with
          connected := before.connected
          held := before.held
          resumes := m.resumes.eraseIdx k
          marks := m.marks.erase before.mark } := by
        show m.resumeFailed k = _
        unfold Managed.resumeFailed
        rw [Option.mem_def.mp hbefore]
      rw [hstep]
      exact ⟨(hm.mark_le (mem_of_headD hsub)).trans hm.within, fun hboth => hbacked hboth.2⟩
  | _ => exact absurd hexp id

theorem exposes_reaches_throttled :
    ∃ later, let m := run Managed.step new (throttled.take 3 ++ .answered 0 (.error 429) :: later)
      ¬ModeFirst (m.accepted.drop m.since) := by
  exact exposes_reaches (by decide +kernel) (by decide +kernel)

end Managed

end Agenomic.Connector
