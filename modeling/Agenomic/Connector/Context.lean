import Agenomic.Lib.InsertionMap

/-!
# The open actions of a session

A session keeps every action that the gateway admitted until the gateway has its outcome
(`openActions`), with the outcome that was observed once one was. An outcome is reported
when a tool reports, and by settlements: at the end of a turn, once, and at the end of
the session, again and again until the gateway has it or time is up.

**`Keeps`**: an action leaves the open ones only when the gateway has its outcome.
-/

namespace Agenomic.Connector

open Lib

/-- What the adapter must do: run, refuse, or let the native flow decide. -/
inductive Decision where
  | allow
  | deny
  | defer
  deriving DecidableEq, Repr

structure Verdict where
  decision : Decision
  actionId : Option String
  deriving DecidableEq

/-- The action that a verdict admits. -/
def Verdict.admits (v : Verdict) : Option String :=
  match v.decision, v.actionId with
  | .deny, _ => none
  | _, none => none
  | _, some a => if a = "" then none else some a

/-- An outcome that is retained until the gateway acknowledges it. -/
inductive OutcomeKind where
  | completed
  | failed
  | unknown
  deriving DecidableEq, Repr

/-- The outcome observed for an action; the token tells one such entry from the next. -/
structure Outcome where
  token : Nat
  outcome : OutcomeKind
  summary : Option String
  deriving DecidableEq

/-- An action outcome the gateway has not acknowledged, saved across a daemon restart. -/
structure PendingOutcome where
  codingSessionId : String
  actionId : String
  outcome : OutcomeKind
  summary : Option String
  deriving DecidableEq

/-- One action that a settlement has yet to deal with. -/
structure Task where
  action : String
  /-- What was retained for the action when the settlement came to it. -/
  retained : Option Outcome
  summary : String
  /-- The final settlement it belongs to. -/
  owner : Option Nat
  /-- The report that was made for it. -/
  awaiting : Option Nat
  deriving DecidableEq

/-- A final settlement in flight. -/
structure Settlement where
  id : Nat
  ids : List String
  summary : String
  deriving DecidableEq

structure SessionContext where
  id : String
  verdicts : InsertionMap String Verdict
  /-- Admitted actions whose outcome the gateway has not acknowledged yet. -/
  openActions : InsertionMap String (Option Outcome)
  /-- The reports in flight: the token of the entry, and its action. -/
  sends : List (Nat × String)
  tasks : List Task
  finals : List Settlement
  closing : Bool
  next : Nat

namespace SessionContext

def new (id : String) : SessionContext where
  id
  verdicts := .empty
  openActions := .empty
  sends := []
  tasks := []
  finals := []
  closing := false
  next := 0

variable (c : SessionContext)

def opens (action : String) : Bool := c.openActions.has action

/-- The decision that governs a call. -/
def lookup (callId : String) : Option Verdict := c.verdicts.get callId

/-- Keep the verdict of a call. -/
def keepVerdict (nativeId : String) (v : Verdict) : SessionContext :=
  { c with verdicts := c.verdicts.set nativeId v }

/-- An action whose outcome is awaited. -/
def admitCall (action : String) : SessionContext :=
  if c.openActions.has action then c
  else { c with openActions := c.openActions.set action none }

/-- Report an outcome, retained until the gateway acknowledges it. -/
def report (action : String) (outcome : OutcomeKind) (summary : Option String) : SessionContext :=
  { c with
    openActions := c.openActions.set action (some ⟨c.next, outcome, summary⟩)
    sends := c.sends ++ [(c.next, action)]
    next := c.next + 1 }

/-- A report settles. Only the entry it was made for is acknowledged by it. -/
def sendSettled (token : Nat) (action : String) (ok : Bool) : SessionContext :=
  { c with
    sends := c.sends.erase (token, action)
    openActions :=
      if ok ∧ (c.openActions.get action).join.any (fun entry => entry.token = token) then
        c.openActions.delete action
      else c.openActions }

/-- Begin a settlement of the open actions, or of these of them. -/
def settleOpen (summary : String) (only : Option (List String)) (owner : Option Nat) :
    SessionContext :=
  let covered := c.openActions.entries.filter fun e => only.all (e.1 ∈ ·)
  { c with
    tasks := c.tasks ++ covered.map fun e => ⟨e.1, e.2, summary, owner, none⟩ }

def sending (entry : Outcome) : Bool := c.sends.any fun send => send.1 = entry.token

/-- Go on with a task: wait for a report in flight, then deliver what is retained, or `unknown`. -/
def taskStep (t : Task) : SessionContext :=
  let done := { c with tasks := c.tasks.erase t }
  match t.awaiting with
  | some token => if c.sends.any (fun send => send.1 = token) then c else done
  | none =>
      if t.retained.any c.sending then c
      else if c.openActions.get t.action ≠ some t.retained then done
      else
        let reported := match t.retained with
          | some entry => done.report t.action entry.outcome entry.summary
          | none => done.report t.action .unknown (some t.summary)
        { reported with tasks := reported.tasks ++ [{ t with awaiting := some c.next }] }

/-- The actions that a final settlement covers already. -/
def settling : List String := c.finals.flatMap Settlement.ids

/-- The settlement at the end of the session. -/
def settleFinal (summary : String) : SessionContext :=
  let ids := c.openActions.keys.filter fun a => a ∉ c.settling
  if ids ≠ [] ∧ c.closing = false then
    let begun : SessionContext :=
      { c with finals := c.finals ++ [⟨c.next, ids, summary⟩], next := c.next + 1 }
    begun.settleOpen summary (some ids) (some c.next)
  else c

/-- A settlement has been through its actions: it is over, or it goes through what is left. -/
def passOver (s : Settlement) (outOfBudget : Bool) : SessionContext :=
  if c.tasks.any (fun t => t.owner = some s.id) then c
  else
    let left := s.ids.filter c.opens
    if left = [] ∨ c.closing = true ∨ outOfBudget = true then { c with finals := c.finals.erase s }
    else c.settleOpen s.summary (some s.ids) (some s.id)

/-- Whether an outcome is retained because the gateway has not acknowledged it. -/
def unacknowledged : Bool := c.openActions.entries.any fun e => e.2.isSome

/-- The outcomes the gateway has not acknowledged, for the next daemon to deliver. -/
def left (summary : String) : List PendingOutcome :=
  c.openActions.entries.map fun e => match e.2 with
    | some entry => ⟨c.id, e.1, entry.outcome, entry.summary⟩
    | none => ⟨c.id, e.1, .unknown, some summary⟩

/-! ## What is kept -/

/-- What a context goes on with: no open action is let go. -/
structure Keeps (c c' : SessionContext) : Prop where
  id : c'.id = c.id
  opens : ∀ a, c.opens a = true → c'.opens a = true

variable {c}

theorem Keeps.refl (c : SessionContext) : Keeps c c := ⟨rfl, fun _ h => h⟩

theorem Keeps.trans {c₁ c₂ c₃ : SessionContext} (h : Keeps c₁ c₂) (h' : Keeps c₂ c₃) : Keeps c₁ c₃ :=
  ⟨h'.id.trans h.id, fun a ha => h'.opens a (h.opens a ha)⟩

theorem opens_iff {a : String} : c.opens a = true ↔ ∃ entry, c.openActions.get a = some entry :=
  InsertionMap.has_iff

/-- Setting an entry lets nothing go. -/
theorem keeps_set {c' : SessionContext} {action : String} {entry : Option Outcome}
    (hid : c'.id = c.id) (hopen : c'.openActions = c.openActions.set action entry) : Keeps c c' := by
  refine ⟨hid, fun a ha => ?_⟩
  obtain ⟨old, hold⟩ := opens_iff.mp ha
  refine opens_iff.mpr ?_
  rw [hopen, InsertionMap.get_set]
  by_cases h : a = action
  · exact ⟨entry, if_pos h⟩
  · exact ⟨old, by rw [if_neg h, hold]⟩

theorem keeps_of_eq {c' : SessionContext} (hid : c'.id = c.id)
    (hopen : c'.openActions = c.openActions) : Keeps c c' := by
  refine ⟨hid, fun a ha => ?_⟩
  unfold opens at ha ⊢
  rw [hopen]
  exact ha

theorem admitCall_keeps (action : String) : Keeps c (c.admitCall action) := by
  unfold admitCall
  by_cases h : c.openActions.has action = true
  · rw [if_pos h]
    exact .refl c
  · rw [if_neg h]
    exact keeps_set rfl rfl

/-- An admitted action is open. -/
theorem opens_admitCall (action : String) : (c.admitCall action).opens action = true := by
  unfold admitCall
  by_cases h : c.openActions.has action = true
  · rw [if_pos h]
    exact h
  · rw [if_neg h]
    exact opens_iff.mpr ⟨none, InsertionMap.get_set_self _ _ _⟩

theorem report_keeps (action : String) (outcome : OutcomeKind) (summary : Option String) :
    Keeps c (c.report action outcome summary) := keeps_set rfl rfl

theorem settleOpen_keeps (summary : String) (only : Option (List String)) (owner : Option Nat) :
    Keeps c (c.settleOpen summary only owner) := keeps_of_eq rfl rfl

theorem taskStep_keeps (t : Task) : Keeps c (c.taskStep t) := by
  have hdone : Keeps c { c with tasks := c.tasks.erase t } := keeps_of_eq rfl rfl
  unfold taskStep
  dsimp only
  cases t.awaiting with
  | some token =>
      dsimp only
      split
      · exact .refl c
      · exact hdone
  | none =>
      dsimp only
      split
      · exact .refl c
      · split
        · exact hdone
        · cases t.retained with
          | some entry =>
              exact (hdone.trans (report_keeps t.action entry.outcome entry.summary)).trans
                (keeps_of_eq rfl rfl)
          | none =>
              exact (hdone.trans (report_keeps t.action .unknown (some t.summary))).trans
                (keeps_of_eq rfl rfl)

theorem settleFinal_keeps (summary : String) : Keeps c (c.settleFinal summary) := by
  unfold settleFinal
  dsimp only
  split
  · exact keeps_of_eq rfl rfl
  · exact .refl c

theorem passOver_keeps (s : Settlement) (outOfBudget : Bool) : Keeps c (c.passOver s outOfBudget) := by
  unfold passOver
  dsimp only
  split
  · exact .refl c
  · split
    · exact keeps_of_eq rfl rfl
    · exact settleOpen_keeps _ _ _

/-- **A report that settles** lets its own action go at most, and only when the gateway has its
outcome. -/
theorem opens_sendSettled {token : Nat} {action : String} {ok : Bool} {a : String}
    (h : c.opens a = true) (hkept : a ≠ action ∨ ok = false) :
    (c.sendSettled token action ok).opens a = true := by
  obtain ⟨entry, hentry⟩ := opens_iff.mp h
  refine opens_iff.mpr ⟨entry, ?_⟩
  unfold sendSettled
  dsimp only
  split
  · rename_i hdelete
    have hne : a ≠ action := hkept.elim (fun h => h) fun hfalse => by
      rw [hfalse] at hdelete
      exact absurd hdelete.1 (Bool.false_ne_true)
    rw [InsertionMap.get_delete_of_ne _ hne, hentry]
  · exact hentry

/-- What is handed over covers the open actions. -/
theorem exists_left (summary : String) {a : String} (h : c.opens a = true) :
    ∃ o ∈ c.left summary, o.codingSessionId = c.id ∧ o.actionId = a := by
  obtain ⟨entry, hentry⟩ := opens_iff.mp h
  refine ⟨_, List.mem_map.mpr ⟨(a, entry), InsertionMap.mem_entries_iff.mpr hentry, rfl⟩, ?_⟩
  cases entry with
  | some entry => exact ⟨rfl, rfl⟩
  | none => exact ⟨rfl, rfl⟩

end SessionContext

end Agenomic.Connector
