import Agenomic.Connector.Context
import Agenomic.Lib.Run

/-!
# Hook requests of local sessions

The command hooks of a developer's own session ask the daemon over a local socket. The
first request of a native session registers it with the gateway and waits until the report
that connects the session was attempted; the requests after it find the session in a map.
A request waits for the gateway several times, and everything else goes on meanwhile: the
steps of the daemon are the stretches between two waits.

A stop closes the socket, waits for the requests being answered and for the final
settlements, and saves what the gateway has not acknowledged.
-/

namespace Agenomic.Connector

open Lib

/-- What a hook reports. -/
inductive HookEvent where
  | preToolUse (toolUseId : String)
  | postToolUse (toolUseId : String) (failed : Bool)
  | stop
  | sessionEnd
  | other
  deriving DecidableEq, Repr

/-- Where a hook request is; `h` is the session it found. -/
inductive Phase where
  /-- The session is being registered. -/
  | registering
  /-- connect() waits for the version of the runtime. -/
  | waitingVersion (h : Nat)
  /-- connect() waits for the first attempt of the connecting report. -/
  | connecting (h : Nat)
  /-- authorize() waits for the gateway. `waits` says whether a pending approval is waited for, and
  `refused` holds the action whose final refusal is being recorded. -/
  | authorizing (h : Nat) (nativeId : String) (waits : Bool) (refused : Option String)
  /-- authorize() waits for an approval. -/
  | approving (h : Nat) (nativeId : String) (action : String)
  /-- report() waits for the gateway. -/
  | reporting (h : Nat) (token : Nat)
  /-- The session ends: its last report and its events are sent. -/
  | ending (h : Nat)
  | done
  deriving DecidableEq, Repr

structure HookRequest where
  /-- The runtime and its native session id. -/
  key : String
  event : HookEvent
  phase : Phase
  deriving DecidableEq

/-- What the gateway answers to an authorization. -/
inductive Answer where
  | failed
  | pending (action : String)
  | decided (v : Verdict)
  deriving DecidableEq

/-- How far a stop is. -/
inductive StopPhase where
  | running
  /-- Hook requests being answered are waited for. -/
  | stopping
  /-- The final settlements of these contexts are waited for. -/
  | settling (contexts : List Nat)
  | stopped
  deriving DecidableEq

/-- What happened, as far as the gateway or a runtime can tell. -/
inductive Mark where
  /-- The first attempt of a session's connecting report settled. -/
  | attempted (h : Nat)
  | authorize (h : Nat)
  /-- The gateway answered allow or defer, with this action. -/
  | admitted (h : Nat) (session action : String)
  deriving DecidableEq

structure Daemon where
  /-- Every session context there ever was, with the id of its session. -/
  contexts : List SessionContext
  sessions : InsertionMap String Nat
  byNative : InsertionMap String Nat
  hooks : List HookRequest
  /-- Contexts with a final settlement started, or with outcomes that it could not deliver. -/
  settlingContexts : List Nat
  /-- Final settlements that are awaited to forget a context: the context, and the settlements. -/
  waiters : List (Nat × List Nat)
  phase : StopPhase
  /-- Saved outcomes of a previous run, not delivered yet. -/
  saved : List PendingOutcome
  /-- The outcomes file. -/
  outcomes : List PendingOutcome
  /-- The actions whose outcome the gateway acknowledged, or refused for good. -/
  settled : List (String × String)
  log : List Mark

namespace Daemon

/-- A daemon with the outcomes that a previous run saved. -/
def new (saved : List PendingOutcome) : Daemon where
  contexts := []
  sessions := .empty
  byNative := .empty
  hooks := []
  settlingContexts := []
  waiters := []
  phase := .running
  saved
  outcomes := saved
  settled := []
  log := []

variable (d : Daemon)

def onContext (h : Nat) (f : SessionContext → SessionContext) : Daemon :=
  { d with contexts := d.contexts.modify h f }

def setPhase (i : Nat) (phase : Phase) : Daemon :=
  { d with hooks := d.hooks.modify i fun r => { r with phase } }

def addHook (r : HookRequest) : Daemon := { d with hooks := d.hooks ++ [r] }

def mark (m : Mark) : Daemon := { d with log := d.log ++ [m] }

/-- The final settlement of a session's actions; a stop waits for it. -/
def settleFinal (h : Nat) (summary : String) : Daemon :=
  match d.contexts[h]? with
  | none => d
  | some c =>
      let c := c.settleFinal summary
      { d with
        contexts := d.contexts.set h c
        settlingContexts := if h ∈ d.settlingContexts then d.settlingContexts
          else d.settlingContexts ++ [h]
        waiters := d.waiters ++ [(h, c.finals.map Settlement.id)] }

/-- Answer an event of a session that was found. -/
def answerHook (i h : Nat) : HookEvent → Daemon
  | .preToolUse toolUseId =>
      (d.setPhase i (.authorizing h toolUseId true none)).mark (.authorize h)
  | .postToolUse toolUseId failed =>
      match d.contexts[h]? with
      | none => d.setPhase i .done
      | some c => match (c.lookup toolUseId).bind Verdict.actionId with
        | none => d.setPhase i .done
        | some action =>
            if action = "" then d.setPhase i .done
            else
              let outcome := if failed then OutcomeKind.failed else .completed
              (d.onContext h fun c => c.report action outcome none).setPhase i
                (.reporting h c.next)
  | .stop =>
      -- End of a turn, not of the session.
      (d.onContext h fun c => c.settleOpen "turn ended before the tool reported" none none).setPhase
        i .done
  | .sessionEnd =>
      (d.settleFinal h "session ended before the tool reported").setPhase i (.ending h)
  | .other => d.setPhase i .done

/-- A hook request arrives. `inWorkspace` says whether it names a session, with a directory in a
declared workspace. -/
def onLocal (key : String) (event : HookEvent) (inWorkspace : Bool) : Daemon :=
  -- A stopping daemon admits nothing more.
  if d.phase ≠ .running then d
  else
    let i := d.hooks.length
    match d.byNative.get key with
    | some h => (d.addHook ⟨key, event, .done⟩).answerHook i h event
    | none => d.addHook ⟨key, event, if inWorkspace then .registering else .done⟩

/-- A native session is found under this session from now on. -/
def route (key : String) (h : Nat) : Daemon := { d with byNative := d.byNative.set key h }

def manage (id : String) : Daemon :=
  { d with
    contexts := d.contexts ++ [SessionContext.new id]
    sessions := d.sessions.set id d.contexts.length }

/-- A session seen for the first time is managed, and connect() begins. -/
def registerLocal (i : Nat) (r : HookRequest) (id : String) (versionKnown : Bool) : Daemon :=
  match d.sessions.get id with
  | some h => (d.route r.key h).answerHook i h r.event
  | none =>
      let h := d.contexts.length
      ((d.manage id).route r.key h).setPhase i
        (if versionKnown then .connecting h else .waitingVersion h)

/-- The end of a session: it is forgotten, and so is its native session. -/
def delete (key : String) (c : SessionContext) : Daemon :=
  { d with sessions := d.sessions.delete c.id, byNative := d.byNative.delete key }

/-- authorize() is over. Where a final refusal was being recorded, the call is refused whatever the
answer was. -/
def finish (i h : Nat) (nativeId : String) : Option String → Daemon
  | none => d.setPhase i .done
  | some action =>
      (d.onContext h fun c => c.keepVerdict nativeId ⟨.deny, some action⟩).setPhase i .done

/-- The gateway decided: its verdict is kept, and an action it admits is open from now on. -/
def decided (h : Nat) (nativeId : String) (v : Verdict) : Daemon :=
  let kept := d.onContext h fun c => c.keepVerdict nativeId v
  match d.contexts[h]?, v.admits with
  | some c, some action =>
      (kept.onContext h fun c => c.admitCall action).mark (.admitted h c.id action)
  | _, _ => kept

/-- authorize() goes on with the answer of the gateway. -/
def authorized (i h : Nat) (nativeId : String) (waits : Bool) (refused : Option String) :
    Answer → Daemon
  -- Enforce fails closed and the other modes defer; neither is kept.
  | .failed => d.finish i h nativeId refused
  | .pending action =>
      if waits then d.setPhase i (.approving h nativeId action)
      else d.finish i h nativeId refused
  | .decided v => (d.decided h nativeId v).finish i h nativeId refused

/-- What a settled session leaves behind: it is forgotten at its end, and so is its context once
nothing of it is retained. -/
def forget (h : Nat) : Daemon :=
  match d.contexts[h]? with
  | none => d
  | some c =>
      if c.unacknowledged then d
      else { d with settlingContexts := d.settlingContexts.erase h }

/-- The contexts that a stop hands over: those of the sessions, and those being settled. -/
def handedOver : List Nat := (d.sessions.entries.map Prod.snd ++ d.settlingContexts).dedup

/-- The outcomes that the gateway has not acknowledged. -/
def left (contexts : List Nat) : List PendingOutcome :=
  contexts.flatMap fun h => match d.contexts[h]? with
    | some c => c.left "connector stopped before the tool reported"
    | none => []

/-! ## Steps -/

inductive Op where
  | onLocal (key : String) (event : HookEvent) (inWorkspace : Bool)
  /-- The gateway answers a registration, with the id of the session. -/
  | registered (i : Nat) (answer : Option String) (versionKnown : Bool)
  /-- The version is known, or was waited for long enough. -/
  | versionRead (i : Nat)
  /-- The first attempt of the connecting report settles. -/
  | attempted (i : Nat)
  | authorized (i : Nat) (answer : Answer)
  | approval (i : Nat) (approved : Bool)
  /-- A report settles; `ok` says whether the gateway acknowledged it or refused it for good. -/
  | sendSettled (h k : Nat) (ok : Bool)
  | reported (i : Nat)
  | task (h k : Nat)
  /-- A final settlement is through with its actions. -/
  | passOver (h k : Nat) (outOfBudget : Bool)
  | finalsSettled (k : Nat)
  /-- The last report of a session and its events were sent. -/
  | ended (i : Nat)
  | abort
  /-- A stop has waited for the hook requests. -/
  | settleAll
  /-- A stop has waited for the final settlements. -/
  | close
  deriving DecidableEq

def step : Op → Daemon
  | .onLocal key event inWorkspace => d.onLocal key event inWorkspace
  | .registered i answer versionKnown =>
      match d.hooks[i]? with
      | some r => match r.phase, answer with
        | .registering, some id => d.registerLocal i r id versionKnown
        | .registering, none => d.setPhase i .done
        | _, _ => d
      | none => d
  | .versionRead i =>
      match (d.hooks[i]?).map HookRequest.phase with
      | some (.waitingVersion h) => d.setPhase i (.connecting h)
      | _ => d
  | .attempted i =>
      match d.hooks[i]? with
      | some r => match r.phase with
        | .connecting h => (d.mark (.attempted h)).answerHook i h r.event
        | _ => d
      | none => d
  | .authorized i answer =>
      match (d.hooks[i]?).map HookRequest.phase with
      | some (.authorizing h nativeId waits refused) =>
          d.authorized i h nativeId waits refused answer
      | _ => d
  | .approval i approved =>
      match (d.hooks[i]?).map HookRequest.phase with
      | some (.approving h nativeId action) =>
          -- The identical call again; its answer consumes the approval, or records the refusal.
          (d.setPhase i (.authorizing h nativeId false (if approved then none else some action))).mark
            (.authorize h)
      | _ => d
  | .sendSettled h k ok =>
      match d.contexts[h]? with
      | some c => match c.sends[k]? with
        | some (token, action) =>
            { d.onContext h (fun c => c.sendSettled token action ok) with
              settled := if ok then d.settled ++ [(c.id, action)] else d.settled }
        | none => d
      | none => d
  | .reported i =>
      match (d.hooks[i]?).map HookRequest.phase with
      | some (.reporting h token) =>
          if (d.contexts[h]?).any (fun c => c.sends.any fun send => send.1 = token) then d
          else d.setPhase i .done
      | _ => d
  | .task h k =>
      match (d.contexts[h]?).bind fun c => c.tasks[k]? with
      | some t => d.onContext h fun c => c.taskStep t
      | none => d
  | .passOver h k outOfBudget =>
      match (d.contexts[h]?).bind fun c => c.finals[k]? with
      | some s => d.onContext h fun c => c.passOver s outOfBudget
      | none => d
  | .finalsSettled k =>
      match d.waiters[k]? with
      | some (h, ids) =>
          if (d.contexts[h]?).any (fun c => c.finals.any fun s => s.id ∈ ids) then d
          else
            let waited : Daemon := { d with waiters := d.waiters.eraseIdx k }
            waited.forget h
      | none => d
  | .ended i =>
      match d.hooks[i]? with
      | some r => match r.phase with
        | .ending h => match d.contexts[h]? with
          | some c => (d.delete r.key c).setPhase i .done
          | none => d
        | _ => d
      | none => d
  | .abort => if d.phase = .running then { d with phase := .stopping } else d
  | .settleAll =>
      if d.phase = .stopping ∧ d.hooks.all (fun r => r.phase = .done) then
        let settled := (d.sessions.entries.map Prod.snd).foldl
          (fun d h => d.settleFinal h "connector stopped before the tool reported") d
        { settled with phase := .settling settled.handedOver }
      else d
  | .close =>
      match d.phase with
      | .settling contexts =>
          if contexts.all (fun h => (d.contexts[h]?).all fun c => c.finals = []) then
            let left := d.left contexts
            let keep := d.saved.filter fun o => !left.any fun l => l.actionId = o.actionId
            { contexts.foldl (fun d h => d.onContext h fun c => { c with closing := true }) d with
              phase := .stopped
              outcomes :=
                if 0 < left.length ∨ keep.length ≠ d.saved.length then keep ++ left
                else d.outcomes }
          else d
      | _ => d

end Daemon

end Agenomic.Connector
