import Agenomic.Lib.InsertionMap
import Agenomic.Lib.Run

/-!
# The processes of a session

The commands of the gateway for one coding session: launch starts its runtime, resume
starts it again, and stop_process stops it. They are handled concurrently, and starting a
runtime takes several waits: an adapter is attached to the session before it has a
process, and detached when its start fails, before its process is gone.
-/

namespace Agenomic.Connector

open Lib

inductive Child where
  | none
  | running
  | exited
  deriving DecidableEq, Repr

/-- How far an adapter's start() is. -/
inductive Starting where
  | pending
  | started
  | failed
  deriving DecidableEq, Repr

structure Adapter where
  start : Starting
  child : Child
  /-- The stream of the runtime ended. -/
  ended : Bool
  deriving DecidableEq

namespace Adapter

def new : Adapter := ⟨.pending, .none, false⟩

/-- Whether the process still runs this session. -/
def alive (a : Adapter) : Bool := !a.ended && a.child = .running

end Adapter

inductive CommandKind where
  /-- `accepted`: the workspace, the runtime and the sandbox are there, and a worktree was made. -/
  | launch (accepted : Bool)
  /-- `accepted`: the runtime, the workspace and the sandbox are there. -/
  | resume (accepted : Bool)
  | stopProcess
  deriving DecidableEq, Repr

inductive Status where
  | applied
  | refused
  | unknown
  deriving DecidableEq, Repr

/-- What a runtime is started for: a launch, or a resume, which may manage the session anew. -/
inductive Origin where
  | launch
  | resume (anew : Bool)
  deriving DecidableEq, Repr

/-- Where a command is. -/
inductive Progress where
  /-- A launch reports that the session `m` is starting. -/
  | reporting (m : Nat)
  /-- The adapter `a` of the session `m` starts. -/
  | starting (m a : Nat) (origin : Origin)
  /-- The start has failed, and the process of the adapter is stopped. -/
  | cleaning (a : Nat) (origin : Origin)
  /-- The session is connected, and its prompt delivered. -/
  | connecting
  /-- The process of the adapter is stopped. -/
  | halting (a : Nat)
  | done
  deriving DecidableEq, Repr

structure Command where
  id : String
  progress : Progress
  deriving DecidableEq

/-- What the daemon holds for one coding session. -/
structure Runner where
  adapters : List Adapter
  /-- The adapter that each session record there ever was holds. -/
  managed : List (Option Nat)
  /-- The session, once it is managed. -/
  session : Option Nat
  /-- The persisted record, and whether a native session id is in it. -/
  record : Option Bool
  commands : List Command
  inflight : List String
  /-- The results of the last commands. -/
  finished : InsertionMap String Status

namespace Runner

/-- A daemon that finds this record of an earlier run. -/
def new (record : Option Bool) : Runner where
  adapters := []
  managed := []
  session := none
  record
  commands := []
  inflight := []
  finished := .empty

variable (s : Runner)

/-- The adapter of the session. -/
def attached : Option Nat := s.session.bind fun m => (s.managed[m]?).join

/-- Whether a process still runs the session, as its adapter tells. -/
def alive : Bool := (s.attached.bind fun a => s.adapters[a]?).any Adapter.alive

def setProgress (i : Nat) (progress : Progress) : Runner :=
  { s with commands := s.commands.modify i fun c => { c with progress } }

def onAdapter (a : Nat) (f : Adapter → Adapter) : Runner :=
  { s with adapters := s.adapters.modify a f }

/-- The result of a command; the oldest of 500 others is dropped for it. -/
def result (i : Nat) (id : String) (status : Status) : Runner :=
  let finished := s.finished.set id status
  let posted : Runner :=
    { s with
      finished := if 500 < finished.keys.length then
          finished.keys.head?.elim finished finished.delete
        else finished
      inflight := s.inflight.erase id }
  posted.setProgress i .done

/-- An adapter is made and attached, and its start begins. -/
def startAdapter (i m : Nat) (origin : Origin) : Runner :=
  let started : Runner :=
    { s with
      adapters := s.adapters ++ [Adapter.new]
      managed := s.managed.set m (some s.adapters.length) }
  started.setProgress i (.starting m s.adapters.length origin)

/-- The session is managed from now on. -/
def manage : Runner :=
  { s with managed := s.managed ++ [none], session := some s.managed.length }

/-- A launch is not handled twice. -/
def launchHandled : Bool := s.session.isSome || s.record.isSome

/-- Whether a command is let through to start a runtime. -/
def passes : CommandKind → Bool
  | .launch accepted => !s.launchHandled && accepted
  | .resume accepted => !s.alive && s.record = some true && accepted
  | .stopProcess => false

def launch (i : Nat) (id : String) (accepted : Bool) : Runner :=
  if s.launchHandled then s.result i id (if s.alive then .applied else .unknown)
  else if accepted then
    let recorded : Runner := { s with record := some false }
    recorded.manage.setProgress i (.reporting s.managed.length)
  else s.result i id .refused

def resume (i : Nat) (id : String) (accepted : Bool) : Runner :=
  if s.alive then s.result i id .refused
  else if s.record ≠ some true then s.result i id .refused
  else if accepted then
    match s.session with
    | some m => s.startAdapter i m (.resume false)
    | none => s.manage.startAdapter i s.managed.length (.resume true)
  else s.result i id .refused

def stopProcess (i : Nat) (id : String) : Runner :=
  match s.attached with
  | none => s.result i id .refused
  | some a => s.setProgress i (.halting a)

/-- Whether a command is neither running nor done. -/
def fresh (id : String) : Bool := !(s.inflight.contains id) && !(s.finished.has id)

/-- The gateway delivers a command. -/
def deliver (id : String) (kind : CommandKind) : Runner :=
  if s.fresh id then
    let i := s.commands.length
    let s : Runner :=
      { s with
        commands := s.commands ++ [⟨id, .done⟩]
        inflight := s.inflight ++ [id] }
    match kind with
    | .launch accepted => s.launch i id accepted
    | .resume accepted => s.resume i id accepted
    | .stopProcess => s.stopProcess i id
  else s

/-! ## Steps -/

inductive Op where
  | deliver (id : String) (kind : CommandKind)
  /-- The report that the session is starting was attempted. -/
  | reported (i : Nat)
  /-- A starting adapter obtains its process. -/
  | spawned (a : Nat)
  /-- The native session of a runtime is recorded. -/
  | registered (a : Nat)
  | started (i : Nat)
  | startFailed (i : Nat)
  /-- The process of a failed start is gone, or was waited for long enough. -/
  | cleaned (i : Nat)
  | connected (i : Nat)
  /-- A process that is stopped is gone, or was waited for long enough. -/
  | halted (i : Nat)
  | exited (a : Nat)
  | streamEnded (a : Nat)
  deriving DecidableEq

def step : Op → Runner
  | .deliver id kind => s.deliver id kind
  | .reported i =>
      match (s.commands[i]?).map Command.progress with
      | some (.reporting m) => s.startAdapter i m .launch
      | _ => s
  | .spawned a =>
      s.onAdapter a fun x =>
        if x.start = .pending ∧ x.child = .none then { x with child := .running } else x
  | .registered a =>
      match s.adapters[a]? with
      | some x =>
          if x.start = .pending ∧ x.child ≠ .none then { s with record := s.record.map fun _ => true }
          else s
      | none => s
  | .started i =>
      match (s.commands[i]?).map Command.progress with
      | some (.starting _ a _) =>
          match s.adapters[a]? with
          | some x =>
              if x.child ≠ .none then
                (s.onAdapter a fun x => { x with start := .started }).setProgress i .connecting
              else s
          | none => s
      | _ => s
  | .startFailed i =>
      match (s.commands[i]?).map Command.progress with
      | some (.starting m a origin) =>
          -- Commands no longer reach the adapter, whichever it is by now.
          let detached : Runner := { s with managed := s.managed.set m none }
          (detached.onAdapter a fun x => { x with start := .failed }).setProgress i
            (.cleaning a origin)
      | _ => s
  | .cleaned i =>
      match s.commands[i]? with
      | some c => match c.progress with
        | .cleaning _ .launch =>
            let forgotten : Runner := { s with session := none, record := none }
            forgotten.result i c.id .refused
        | .cleaning _ (.resume anew) =>
            let forgotten : Runner := { s with session := if anew then none else s.session }
            forgotten.result i c.id .refused
        | _ => s
      | none => s
  | .connected i =>
      match s.commands[i]? with
      | some c => if c.progress = .connecting then s.result i c.id .applied else s
      | none => s
  | .halted i =>
      match s.commands[i]? with
      | some c => match c.progress with
        | .halting a =>
            let gone := (s.adapters[a]?).all fun x => x.child ≠ .running
            s.result i c.id (if gone then .applied else .unknown)
        | _ => s
      | none => s
  | .exited a =>
      s.onAdapter a fun x => if x.child = .running then { x with child := .exited } else x
  | .streamEnded a => s.onAdapter a fun x => { x with ended := true }

end Runner

end Agenomic.Connector
