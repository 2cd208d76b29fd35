import Agenomic.Connector.Context
import Agenomic.Lib.Run

/-!
# Delivering the outcomes of a session

The same open actions as a session context keeps, with every await at which its settlements can
be interrupted: a send resolves at any time, and what awaited it goes on at any later time.
An outcome is recorded under a number that stands for the identity of the entry; `settleOpen`
begins a pass over the open actions, and `settleFinal` one pass after the other.

The entries also say for which action they were recorded, and which entry they repeat. The
code does not keep that; the results about runs are stated with it.
-/

namespace Agenomic.Connector

open Lib

/-- What an action is reported to have come to; that it has started is reported too. -/
inductive ReportKind where
  | started
  | completed
  | failed
  | unknown
  deriving DecidableEq, Repr

/-- An exit code is missing, or there and possibly null. -/
structure OutcomeDetail where
  exitCode : Option (Option Int) := none
  durationMs : Option Nat := none
  summary : Option String := none
  deriving DecidableEq, Repr

/-- A recorded outcome. -/
structure OutcomeEntry where
  outcome : ReportKind
  detail : OutcomeDetail
  /-- Its report is in flight. -/
  sending : Bool
  actionId : String
  /-- The entry whose outcome this one repeats, or the entry itself. -/
  origin : Nat
  deriving DecidableEq, Repr

/-- An outcome that is handed over. -/
structure HandedOutcome where
  codingSessionId : String
  actionId : String
  outcome : ReportKind
  detail : OutcomeDetail
  deriving DecidableEq, Repr

/-- A call of send that has not returned. -/
structure OutcomeSend where
  /-- The entry it was made for; none for an action that has started. -/
  entry : Option Nat
  pending : HandedOutcome
  /-- The request was made; it is not after the close. -/
  requested : Bool
  deriving DecidableEq, Repr

/-- A call of settleOpen that has not returned. -/
structure Pass where
  summary : String
  /-- The actions for which it awaits the report in flight, each with its entry. -/
  waiting : List (String × Nat)
  /-- The entries whose report it made and awaits. -/
  reporting : List Nat
  deriving DecidableEq, Repr

/-- Where a final settlement is. -/
inductive FinalPhase where
  | settling (pass : Nat)
  | sleeping
  | returned
  | gone
  deriving DecidableEq, Repr

structure FinalSettlement where
  ids : List String
  summary : String
  deadline : Nat
  delay : Nat
  phase : FinalPhase
  deriving DecidableEq, Repr

structure OutcomeBook where
  id : String
  /-- Admitted actions whose outcome the gateway has not acknowledged yet. -/
  openActions : InsertionMap String (Option Nat)
  /-- Every outcome recorded so far. -/
  entries : List OutcomeEntry
  sends : List OutcomeSend
  /-- Every request made so far. -/
  requests : List HandedOutcome
  passes : List Pass
  finals : List FinalSettlement
  settling : List String
  closing : Bool
  /-- What the calls of close returned. -/
  handed : List (List HandedOutcome)

namespace OutcomeBook

def new (id : String) : OutcomeBook where
  id
  openActions := .empty
  entries := []
  sends := []
  requests := []
  passes := []
  finals := []
  settling := []
  closing := false
  handed := []

variable (b : OutcomeBook)

/-- The report of an entry is in flight. -/
def sending (e : Nat) : Bool := (b.entries[e]?).any (·.sending)

/-- What authorize does about the open actions. -/
def authorized (v : Verdict) : OutcomeBook :=
  match v.admits with
  | none => b
  | some actionId =>
      if b.openActions.has actionId then b
      else { b with openActions := b.openActions.set actionId none }

/-- Nothing is requested once the context is closed: the send comes to false. -/
def send (entry : Option Nat) (actionId : String) (outcome : ReportKind)
    (detail : OutcomeDetail) : OutcomeBook :=
  let pending : HandedOutcome := ⟨b.id, actionId, outcome, detail⟩
  { b with
    sends := b.sends ++ [⟨entry, pending, !b.closing⟩]
    requests := if b.closing then b.requests else b.requests ++ [pending] }

/-- Record an outcome as the one of the action. -/
def record (actionId : String) (outcome : ReportKind) (detail : OutcomeDetail)
    (repeats : Option Nat) : OutcomeBook :=
  { b with
    entries := b.entries ++ [⟨outcome, detail, true, actionId, repeats.getD b.entries.length⟩]
    openActions := b.openActions.set actionId (some b.entries.length) }

/-- Report an outcome, retained until the gateway acknowledges it. -/
def report (actionId : String) (outcome : ReportKind) (detail : OutcomeDetail)
    (repeats : Option Nat) : OutcomeBook :=
  if actionId = "" then b
  else if outcome = .started then b.send none actionId outcome detail
  else
    (b.record actionId outcome detail repeats).send (some b.entries.length) actionId outcome detail

/-- The report of an entry has returned. -/
def entrySent (e : Nat) (actionId : String) (ok : Bool) : OutcomeBook :=
  { b with
    entries := b.entries.modify e fun entry => { entry with sending := false }
    openActions :=
      if ok ∧ b.openActions.get actionId = some (some e) then b.openActions.delete actionId
      else b.openActions }

/-- A send returns what its request came to. -/
def resolved (k : Nat) (ok : Bool) : OutcomeBook :=
  match b.sends[k]? with
  | none => b
  | some s =>
      let b := { b with sends := b.sends.eraseIdx k }
      match s.entry with
      | none => b
      | some e => b.entrySent e s.pending.actionId (s.requested && ok)

/-- A pass comes to an action, or comes back to it: deliver what is retained, or `unknown`. -/
def settle (p : Pass) (actionId : String) (retained : Option Nat) : OutcomeBook × Pass :=
  if b.openActions.get actionId ≠ some retained then (b, p)
  else
    let p := { p with reporting := p.reporting ++ [b.entries.length] }
    match retained with
    | none => (b.report actionId .unknown { summary := some p.summary } none, p)
    | some e =>
        match b.entries[e]? with
        | none => (b, p)
        | some entry => (b.report actionId entry.outcome entry.detail (some entry.origin), p)

/-- A pass comes to an open action. A report in flight is awaited first. -/
def visit (bp : OutcomeBook × Pass) (a : String × Option Nat) : OutcomeBook × Pass :=
  match a.2 with
  | none => bp.1.settle bp.2 a.1 none
  | some e =>
      if bp.1.sending e then (bp.1, { bp.2 with waiting := bp.2.waiting ++ [(a.1, e)] })
      else bp.1.settle bp.2 a.1 (some e)

/-- Report every open action, or these of them. -/
def settleOpen (summary : String) (only : Option (List String)) : OutcomeBook :=
  let covered := b.openActions.entries.filter fun a => only.all (a.1 ∈ ·)
  let (b, p) := covered.foldl visit (b, ⟨summary, [], []⟩)
  { b with passes := b.passes ++ [p] }

/-- A pass goes on with an action once the report it awaited has returned. -/
def resume (i j : Nat) : OutcomeBook :=
  match b.passes[i]? with
  | none => b
  | some p =>
      match p.waiting[j]? with
      | none => b
      | some (actionId, e) =>
          if b.sending e then b
          else
            let (b, p) := b.settle { p with waiting := p.waiting.eraseIdx j } actionId (some e)
            { b with passes := b.passes.set i p }

/-- The pass has returned. -/
def passOver (i : Nat) : Bool :=
  (b.passes[i]?).all fun p => p.waiting.isEmpty && p.reporting.all fun e => !b.sending e

/-- The settlement at the end of the session. -/
def settleFinal (summary : String) (budgetMs firstDelayMs now : Nat) : OutcomeBook :=
  let ids := b.openActions.keys.filter fun id => id ∉ b.settling
  if ids ≠ [] ∧ b.closing = false then
    let f : FinalSettlement :=
      { ids, summary
        deadline := now + budgetMs
        delay := firstDelayMs
        phase := .settling b.passes.length }
    let b := { b with settling := b.settling ++ ids, finals := b.finals ++ [f] }
    b.settleOpen summary (some ids)
  else b

/-- A final settlement goes on when its pass has returned. -/
def passReturned (i now : Nat) : OutcomeBook :=
  match b.finals[i]? with
  | none => b
  | some f =>
      match f.phase with
      | .settling pass =>
          if b.passOver pass then
            let left := f.ids.filter b.openActions.has
            let phase : FinalPhase :=
              if left = [] ∨ b.closing = true ∨ f.deadline ≤ now + f.delay then .returned
              else .sleeping
            { b with finals := b.finals.set i { f with phase } }
          else b
      | _ => b

/-- Its delay is over. -/
def wake (i : Nat) : OutcomeBook :=
  match b.finals[i]? with
  | none => b
  | some f =>
      match f.phase with
      | .sleeping =>
          if b.closing then { b with finals := b.finals.set i { f with phase := .returned } }
          else
            let f := { f with delay := min (f.delay * 2) 60000, phase := .settling b.passes.length }
            let b := { b with finals := b.finals.set i f }
            b.settleOpen f.summary (some f.ids)
      | _ => b

/-- What a final settlement does once it has returned. -/
def released (i : Nat) : OutcomeBook :=
  match b.finals[i]? with
  | none => b
  | some f =>
      match f.phase with
      | .returned =>
          { b with
            settling := b.settling.filter fun id => id ∉ f.ids
            finals := b.finals.set i { f with phase := .gone } }
      | _ => b

/-- The outcome of an open action as it is handed over. -/
def handOver (summary : String) (a : String × Option Nat) : HandedOutcome :=
  match a.2.bind (b.entries[·]?) with
  | some entry => ⟨b.id, a.1, entry.outcome, entry.detail⟩
  | none => ⟨b.id, a.1, .unknown, { summary := some summary }⟩

/-- Stop delivering outcomes and hand over those that are left. -/
def close (summary : String) : OutcomeBook :=
  { b with
    closing := true
    handed := b.handed ++ [b.openActions.entries.map (b.handOver summary)] }

/-- Whatever happens next in a session context. -/
inductive Op where
  | authorized (v : Verdict)
  | report (actionId : Option String) (outcome : ReportKind) (detail : OutcomeDetail)
  | resolved (k : Nat) (ok : Bool)
  | settleOpen (summary : String) (only : Option (List String))
  | resume (pass action : Nat)
  | settleFinal (summary : String) (budgetMs firstDelayMs now : Nat)
  | passReturned (final now : Nat)
  | wake (final : Nat)
  | released (final : Nat)
  | close (summary : String)

def step (b : OutcomeBook) : Op → OutcomeBook
  | .authorized v => b.authorized v
  | .report none _ _ => b
  | .report (some actionId) outcome detail => b.report actionId outcome detail none
  | .resolved k ok => b.resolved k ok
  | .settleOpen summary only => b.settleOpen summary only
  | .resume pass action => b.resume pass action
  | .settleFinal summary budgetMs firstDelayMs now =>
      b.settleFinal summary budgetMs firstDelayMs now
  | .passReturned final now => b.passReturned final now
  | .wake final => b.wake final
  | .released final => b.released final
  | .close summary => b.close summary

end OutcomeBook

end Agenomic.Connector
