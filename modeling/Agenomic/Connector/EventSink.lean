import Agenomic.Connector.Events
import Agenomic.Lib.Run

/-!
# The event sink

The events of a session wait in a bounded queue, and are sent in batches; where the queue
is too long, evidence goes to a bounded file and other events are dropped. A flush sends
the file first, then batches of the queue, and waits at several places, where events go
on being emitted: a step of the machine below ends where the flush waits.

How many events were dropped is kept in a counter, and reported in an event, which then
carries the number in place of the counter.
-/

namespace Agenomic.Connector

open Lib

structure SinkOptions where
  maxBuffered : Nat
  maxSpoolBytes : Nat
  batchSize : Nat

/-- The sink of a session. -/
structure SinkConfig extends SinkOptions where
  sessionId : String
  epoch : String

/-- Where the flush is. -/
inductive Flushing where
  | idle
  /-- It reads the spool again. -/
  | reading
  /-- It found the spool empty, and that result is awaited. -/
  | checked
  /-- A batch of the spool is sent: its events, the offset past it, the lines behind it, the
  offset up to which lines were sent, and how much was read. -/
  | spooling (batch : List Json) (stop : Nat) (rest : List Line) (sent total : Nat)
  /-- The batch in flight is sent; `mark` is what the spool took when it left the queue. -/
  | sending (mark : Nat)
  /-- It is over, and its result is awaited. -/
  | ending

/-- An event that was given up, and the room there was for its line in the spool, if it was to be
written there. -/
structure Loss where
  event : CodingEvent
  room : Option Int

structure EventSink where
  queue : List CodingEvent
  /-- The batch being sent, out of the queue until its send settles. -/
  inflight : List CodingEvent
  seq : Nat
  dropped : Nat
  flushing : Flushing
  spool : Bytes
  /-- Every event there was, the reports among them. -/
  made : List CodingEvent
  /-- What the gateway received. -/
  delivered : List Json
  lost : List Loss

/-- The id and the time of an event. -/
structure Stamp where
  eventId : String
  occurredAt : String

/-- What is emitted; the payload is redacted. -/
structure Emission where
  type : EventType
  source : Source
  trust : Trust
  payload : Json.Fields
  extra : Extra
  stamp : Stamp

/-- An event that is to be spilled, and how it was decided. -/
structure Candidate where
  event : CodingEvent
  kept : Bool
  /-- The room there was when it was looked at. -/
  room : Int

def Candidate.loss (cand : Candidate) : Loss := ⟨cand.event, some cand.room⟩

inductive Sent where
  | ok
  /-- `kept`: the gateway received it all the same. -/
  | failed (kept : Bool)
  deriving DecidableEq

namespace EventSink

def new : EventSink where
  queue := []
  inflight := []
  seq := 0
  dropped := 0
  flushing := .idle
  spool := []
  made := []
  delivered := []
  lost := []

/-- Keep the events of one kind whose lines fit in the room left. -/
def pass (evidence : Bool) (room : Int) : List Candidate → List Candidate × Int
  | [] => ([], room)
  | cand :: rest =>
      if cand.event.mandatory ≠ evidence then
        let (rest, room) := pass evidence room rest
        (cand :: rest, room)
      else if room < cand.event.line.length then
        let (rest, left) := pass evidence room rest
        ({ cand with room } :: rest, left)
      else
        let (rest, left) := pass evidence (room - cand.event.line.length) rest
        ({ cand with kept := true, room } :: rest, left)

/-- Which events of a spill are written: evidence first, in their order. -/
def choose (room : Int) (events : List CodingEvent) : List Candidate :=
  let (evidence, left) := pass true room (events.map fun e => ⟨e, false, room⟩)
  (pass false left evidence).1

variable (c : SinkConfig) (s : EventSink)

/-- Events that are dropped from memory. -/
def drop (events : List CodingEvent) : EventSink :=
  { s with
    dropped := s.dropped + events.length
    lost := s.lost ++ events.map fun e => Loss.mk e none }

/-- The room left in the spool. -/
def room : Int := c.maxSpoolBytes - s.spool.length

/-- Append to the spool, or insert at an offset in it. -/
def insertAt (spool : Bytes) (at? : Option Nat) (data : Bytes) : Bytes :=
  match at? with
  | none => spool ++ data
  | some pos =>
      if spool.length ≤ pos then spool ++ data else spool.take pos ++ data ++ spool.drop pos

/-- Write events to the spool; those whose lines do not fit are dropped. -/
def spill (events : List CodingEvent) (at? : Option Nat) : EventSink :=
  let candidates := choose (s.room c) events
  let kept := (candidates.filter Candidate.kept).map Candidate.event
  let others := candidates.filter fun cand => !cand.kept
  { s with
    dropped := s.dropped + others.length
    lost := s.lost ++ others.map Candidate.loss
    spool := insertAt s.spool at? (spoolOf kept) }

/-- Remove the first bytes of the spool. -/
def trimSpool (bytes : Nat) : EventSink := { s with spool := s.spool.drop bytes }

/-- Send the lines of the spool, up to the next batch. -/
def sendLines (batch : List Json) (sent total : Nat) : List Line → EventSink
  | [] =>
      let s := s.trimSpool total
      { s with flushing := .reading }
  | line :: rest =>
      let batch := batch ++ line.event.toList
      if c.batchSize ≤ batch.length ∨ rest.isEmpty then
        if batch.isEmpty then sendLines [] line.stop total rest
        else { s with flushing := .spooling batch line.stop rest sent total }
      else sendLines batch sent total rest

/-- Read the spool, and begin to send it. -/
def flushSpool : EventSink :=
  if s.spool.isEmpty then { s with flushing := .checked }
  else
    let lines := readLines c.sessionId s.spool
    let unreadable := lines.filter fun line => line.event.isNone
    let s := { s with dropped := s.dropped + unreadable.length }
    s.sendLines c [] 0 s.spool.length lines

/-- An event that reports what was dropped. -/
def report (stamp : Stamp) : EventSink :=
  let event : CodingEvent :=
    { eventId := stamp.eventId
      codingSessionId := c.sessionId
      type := .error
      source := .supervisor
      trust := .native
      producerEpoch := c.epoch
      producerSeq := s.seq + 1
      occurredAt := stamp.occurredAt
      extra := {}
      payload := .eventsDropped s.dropped }
  { s with
    seq := s.seq + 1
    dropped := 0
    queue := event :: s.queue
    made := s.made ++ [event] }

def doFlush (stamp : Stamp) : EventSink :=
  let s := if 0 < s.dropped then s.report c stamp else s
  s.flushSpool c

def flush (stamp : Stamp) : EventSink :=
  match s.flushing with
  | .idle => s.doFlush c stamp
  | _ => s

/-- The batch leaves the queue while it is sent. -/
def takeBatch : EventSink :=
  { s with
    queue := s.queue.drop c.batchSize
    inflight := s.queue.take c.batchSize
    flushing := .sending s.spool.length }

/-- The flush goes on after it waited for a result of its own. -/
def resume : EventSink :=
  match s.flushing with
  | .reading => s.flushSpool c
  | .checked =>
      if !s.spool.isEmpty then s.flushSpool c
      else if s.queue.isEmpty then { s with flushing := .ending }
      else s.takeBatch c
  | .ending => { s with flushing := .idle }
  | _ => s

/-- A batch whose send failed goes back ahead of the events emitted after it. -/
def requeue (batch : List CodingEvent) (mark : Nat) : EventSink :=
  if s.spool.length ≤ mark then { s with queue := batch ++ s.queue }
  else
    let s := s.drop (batch.filter fun e => !e.mandatory)
    s.spill c (batch.filter CodingEvent.mandatory) (some mark)

/-- Keep memory bounded while offline: evidence goes to disk. -/
def shed : EventSink :=
  if c.maxBuffered < 2 * s.queue.length then
    let s' := s.drop (s.queue.filter fun e => !e.mandatory)
    let s' := s'.spill c (s.queue.filter CodingEvent.mandatory) none
    { s' with queue := [] }
  else s

/-- What the gateway received of a send. -/
def receive (events : List Json) : EventSink := { s with delivered := s.delivered ++ events }

/-- The send that is awaited settles. -/
def answered (outcome : Sent) : EventSink :=
  match s.flushing, outcome with
  | .spooling batch stop rest _ total, .ok => (s.receive batch).sendLines c [] stop total rest
  | .spooling batch _ _ sent _, .failed kept =>
      let s := (s.receive (if kept then batch else [])).trimSpool sent
      { s with flushing := .ending }
  | .sending _, .ok =>
      let s := s.receive (s.inflight.map CodingEvent.toJson)
      let s := { s with inflight := [] }
      s.flushSpool c
  | .sending mark, .failed kept =>
      let s' := s.receive (if kept then s.inflight.map CodingEvent.toJson else [])
      let s' := (s'.requeue c s.inflight mark).shed c
      { s' with
        inflight := []
        flushing := .ending }
  | _, _ => s

def eventOf (e : Emission) : CodingEvent :=
  { eventId := e.stamp.eventId
    codingSessionId := c.sessionId
    type := e.type
    source := e.source
    trust := e.trust
    producerEpoch := c.epoch
    producerSeq := s.seq + 1
    occurredAt := e.stamp.occurredAt
    extra := e.extra
    payload := .given e.payload }

/-- Make room in the queue; there is none to make where nothing is queued. -/
def makeRoom : Option EventSink :=
  if c.maxBuffered ≤ s.queue.length then
    match s.queue.findIdx? fun e => !e.mandatory with
    | some i =>
        let s' := s.drop (s.queue[i]?).toList
        some { s' with queue := s.queue.eraseIdx i }
    | none =>
        match s.queue with
        | [] => none
        | first :: rest =>
            let s' := { s with queue := rest }
            some (s'.spill c [first] none)
  else some s

/-- Emit an event. With no bound for the queue there is nothing to spill, and the call throws. -/
def emit (e : Emission) (stamp : Stamp) : EventSink :=
  let event := s.eventOf c e
  let s := { s with seq := s.seq + 1 }
  match s.makeRoom c with
  | none => s
  | some s =>
      let s := { s with
        queue := s.queue ++ [event]
        made := s.made ++ [event] }
      if c.batchSize ≤ s.queue.length then s.flush c stamp else s

/-- What close() leaves in the spool. -/
def spillRest : EventSink :=
  let s' := { s with queue := [] }
  s'.spill c s.queue none

end EventSink

/-- `report`: the stamp of the report that a flush may make. -/
inductive SinkOp where
  | emit (e : Emission) (report : Stamp)
  | flush (report : Stamp)
  | resume
  | answered (outcome : Sent)
  | spillRest

namespace EventSink

def step (c : SinkConfig) (s : EventSink) : SinkOp → EventSink
  | .emit e report => s.emit c e report
  | .flush report => s.flush c report
  | .resume => s.resume c
  | .answered outcome => s.answered c outcome
  | .spillRest => s.spillRest c

end EventSink

end Agenomic.Connector
