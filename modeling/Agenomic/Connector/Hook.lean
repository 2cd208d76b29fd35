import Agenomic.Connector.JsJson
import Mathlib.Data.List.Infix

/-!
# The command hook

Before a tool call the runtime runs a hook, which reads the call from its standard input, asks the
daemon over a socket, and prints the decision. Where the daemon cannot answer, a hook that fails
closed refuses the call with a decision of its own; one that fails open prints nothing.

**`denied_iff`**: a hook that fails closed refuses every call that no well-formed reply decided, but
for a payload that is not read whole: its event is the first one that its beginning names, wherever
the name stands.
-/

namespace Agenomic.Connector

open Redact

namespace Hook

/-! ## The payload -/

/-- What arrives on the standard input, and the error it ends with if it does. -/
structure Stdin where
  chunks : List JsText
  error : Option JsText

def Stdin.text (stdin : Stdin) : JsText := stdin.chunks.flatten

structure InputError where
  message : JsText
  head : JsText
  deriving DecidableEq

def maxInput : Nat := 1024 * 1024

def headLength : Nat := 64 * 1024

/-- `data` is what has been read so far. -/
def readStdin (max : Nat) (error : Option JsText) (data : JsText) :
    List JsText → Except InputError JsText
  | [] =>
      match error with
      | none => .ok data
      | some why => .error ⟨js "hook input unreadable: " ++ why, data.take headLength⟩
  | c :: rest =>
      if max < (data ++ c).length then
        .error ⟨js "hook input too large", (data ++ c).take headLength⟩
      else readStdin max error (data ++ c) rest

def isLetter (u : UInt16) : Bool := isUpper u || isLower u

def eventKey : JsText := js "\"hook_event_name\""

/-- The event named at the front of a text. -/
def eventHere (s : JsText) : Option JsText :=
  if eventKey.isPrefixOf s then
    match (s.drop eventKey.length).dropWhile isSpace with
    | 58 :: rest =>
        match rest.dropWhile isSpace with
        | 34 :: rest =>
            if rest.takeWhile isLetter ≠ [] ∧ (rest.dropWhile isLetter).head? = some 34 then
              some (rest.takeWhile isLetter)
            else none
        | _ => none
    | _ => none
  else none

/-- The first event that a text names. -/
def eventOf : JsText → Option JsText
  | [] => none
  | u :: rest => (eventHere (u :: rest)).or (eventOf rest)

/-! ## The daemon -/

/-- What the socket reports. -/
inductive SocketEvent where
  | connect
  | data (text : JsText)
  /-- The daemon ends the connection, or it is closed. -/
  | closed
  | error (message : JsText)

/-- What the hook runs in: the runtime that ran it, the files of the connector, the configured
secrets, and what the engine says of a text that is no JSON and of numbers. -/
structure Env where
  invoker : Option JsText
  config : Option JsText
  configExists : Bool
  recordedFailMode : Option JsText
  secrets : List JsText
  syntaxError : JsText → JsText
  showNumber : JsText → JsText

structure Asking where
  buf : JsText
  sent : JsText
  settled : Option (Except JsText JsValue)

variable (env : Env)

/-- The first outcome settles the request. -/
def Asking.settle (a : Asking) (outcome : Except JsText JsValue) : Asking :=
  { a with settled := a.settled.or (some outcome) }

def closedEarly : JsText := js "the daemon closed the connection without a reply"

/-- A reply read from a line. -/
def readReply (line : JsText) : Except JsText JsValue :=
  match JsValue.parse line with
  | some reply => .ok reply
  | none => .error (env.syntaxError line)

def onEvent (request : JsValue) (a : Asking) : SocketEvent → Asking
  | .connect => { a with sent := a.sent ++ request.stringify env.showNumber ++ js "\n" }
  | .data d =>
      let a := { a with buf := a.buf ++ d }
      if a.buf.contains 10 then a.settle (readReply env (a.buf.takeWhile (· != 10))) else a
  | .closed => a.settle (.error closedEarly)
  | .error message => a.settle (.error message)

/-- Ask the daemon; `events` is what the socket reports before the deadline. -/
def ask (request : JsValue) (events : List SocketEvent) : Except JsText JsValue :=
  let a := events.foldl (onEvent env request) { buf := [], sent := [], settled := none }
  a.settled.getD (.error (js "timed out"))

/-! ## The decision -/

inductive Runtime where
  | claudeCode
  | codex

def Runtime.name : Runtime → String
  | .claudeCode => "claude-code"
  | .codex => "codex"

inductive FailMode where
  | closed
  | «open»
  | «local»
  deriving DecidableEq

def failModeOf (mode : JsText) : FailMode := if mode = js "enforce" then .closed else .open

def modes : List JsText := [js "observe", js "shadow", js "enforce"]

/-- The mode of local sessions, as the configuration has it. -/
def configuredMode : Option JsText :=
  match ((env.config.bind JsValue.parse).bind (JsValue.member "local_sessions")).bind
      (JsValue.member "mode") with
  | some (.string mode) => if mode ∈ modes then some mode else none
  | _ => none

def localFailMode : FailMode :=
  match configuredMode env with
  | some mode => failModeOf mode
  | none =>
      match env.recordedFailMode.map trim with
      | some recorded =>
          if recorded = js "closed" then .closed
          else if recorded = js "open" then .open
          else if env.configExists then .closed else .open
      | none => if env.configExists then .closed else .open

def malformedReply : JsText := js "malformed connector reply"

/-- The output of a reply, if it has one. -/
def hookOutput : JsValue → Except JsText (Option JsValue)
  | .object members =>
      match members.lookup (js "error") with
      | some (.string why) => .error (js "connector error: " ++ why)
      | some e => .error (js "connector error: " ++ e.stringify env.showNumber)
      | none =>
          match members.lookup (js "output") with
          | none => .ok none
          | some (.object output) => .ok (some (.object output))
          | some _ => .error malformedReply
  | _ => .error malformedReply

def refusalReason (why : JsText) : JsText :=
  js "Agenomic connector unavailable (" ++ why
    ++ js "); this session is in enforce mode, so the action is refused."

/-- The decision that refuses a tool call. -/
def denial (why : JsText) : JsValue :=
  .object [(js "hookSpecificOutput", .object
    [ (js "hookEventName", .string (js "PreToolUse")),
      (js "permissionDecision", .string (js "deny")),
      (js "permissionDecisionReason", .string (refusalReason why)) ])]

/-- What the hook printed, and its exit code. -/
structure Printed where
  stdout : JsText
  code : Nat

/-- The event as it is compared: a member that is no text is an event of no name. -/
def isToolCall : Option JsValue → Bool
  | none => true
  | some (.string event) => event == js "PreToolUse"
  | some _ => false

def FailMode.resolve (failMode : FailMode) : FailMode :=
  if failMode = .local then localFailMode env else failMode

def fallback (event : Option JsValue) (failMode : FailMode) (why : JsText) : Printed :=
  if isToolCall event && (failMode.resolve env == .closed) then
    ⟨(denial why).stringify env.showNumber, 0⟩
  else ⟨[], 0⟩

def hookRequest (runtime : Runtime) (input : JsValue) : JsValue :=
  .object ([ (js "op", .string (js "hook")), (js "runtime", .string (js runtime.name)),
    (js "input", input) ]
    ++ match env.invoker with
      | some file => if file = [] then [] else [(js "invoker", .string file)]
      | none => [])

def runHook (runtime : Runtime) (failMode : FailMode) (stdin : Stdin)
    (events : List SocketEvent) : Printed :=
  match readStdin maxInput stdin.error [] stdin.chunks with
  | .error e => fallback env ((eventOf e.head).map .string) failMode e.message
  | .ok raw =>
      match JsValue.parse raw with
      | none => fallback env none failMode (js "invalid hook input")
      | some input =>
          let event := input.member "hook_event_name"
          match ask env (hookRequest env runtime input) events >>= hookOutput env with
          | .ok (some output) => ⟨output.stringify env.showNumber, 0⟩
          | .ok none => ⟨[], 0⟩
          | .error why => fallback env event failMode (clean why 300 env.secrets)

/-! ## What is read of a payload -/

/-- The payload arrives whole, and it is not larger than what the hook reads. -/
def Stdin.ReadWhole (stdin : Stdin) : Prop := stdin.error = none ∧ stdin.text.length ≤ maxInput

theorem readStdin_eq_ok {max : Nat} {error : Option JsText} {raw : JsText} :
    ∀ (chunks : List JsText) (data : JsText), data.length ≤ max →
      (readStdin max error data chunks = .ok raw
        ↔ error = none ∧ (data ++ chunks.flatten).length ≤ max ∧ raw = data ++ chunks.flatten)
  | [], data, hdata => by
      unfold readStdin
      cases error with
      | none => simp [hdata, eq_comm]
      | some why => simp
  | c :: rest, data, hdata => by
      unfold readStdin
      split
      · rename_i hlarge
        have hlong : ¬ (data ++ (c :: rest).flatten).length ≤ max := by
          simp only [List.flatten_cons, List.length_append] at hlarge ⊢
          omega
        exact ⟨fun h => (by cases h), fun h => absurd h.2.1 hlong⟩
      · rename_i hsmall
        rw [readStdin_eq_ok rest (data ++ c) (by omega), List.flatten_cons, List.append_assoc]

/-- Whatever stops the reading, the head is the beginning of what arrives. -/
theorem readStdin_head {max : Nat} {error : Option JsText} {e : InputError}
    (hmax : headLength ≤ max) : ∀ (chunks : List JsText) (data : JsText),
      readStdin max error data chunks = .error e →
        e.head = (data ++ chunks.flatten).take headLength
  | [], data, h => by
      unfold readStdin at h
      cases error with
      | none => cases h
      | some why =>
          injection h with h
          rw [← h, List.flatten_nil, List.append_nil]
  | c :: rest, data, h => by
      unfold readStdin at h
      split at h
      · rename_i hlarge
        injection h with h
        rw [← h, List.flatten_cons, ← List.append_assoc]
        exact (List.take_append_of_le_length (by omega)).symm
      · rw [readStdin_head hmax rest (data ++ c) h, List.flatten_cons, List.append_assoc]

theorem readStdin_of_readWhole {stdin : Stdin} (h : stdin.ReadWhole) :
    readStdin maxInput stdin.error [] stdin.chunks = .ok stdin.text :=
  (readStdin_eq_ok stdin.chunks [] (Nat.zero_le _)).mpr ⟨h.1, h.2, rfl⟩

theorem readStdin_of_not_readWhole {stdin : Stdin} (h : ¬ stdin.ReadWhole) :
    ∃ why, readStdin maxInput stdin.error [] stdin.chunks
      = .error ⟨why, stdin.text.take headLength⟩ := by
  cases hread : readStdin maxInput stdin.error [] stdin.chunks with
  | ok raw =>
      obtain ⟨herror, hlen, _⟩ := (readStdin_eq_ok stdin.chunks [] (Nat.zero_le _)).mp hread
      exact absurd ⟨herror, hlen⟩ h
  | error e =>
      obtain ⟨why, head⟩ := e
      have hhead : head = stdin.text.take headLength :=
        readStdin_head (by decide) stdin.chunks [] hread
      exact ⟨why, by rw [hhead]⟩

/-! ## The event a text names -/

/-- A text begins with the key, a colon, and a name in quotes. -/
def NamesHere (s name : JsText) : Prop :=
  ∃ gap gap' rest, s = eventKey ++ (gap ++ 58 :: (gap' ++ 34 :: (name ++ 34 :: rest)))
    ∧ (∀ u ∈ gap, isSpace u = true) ∧ (∀ u ∈ gap', isSpace u = true)
    ∧ name ≠ [] ∧ ∀ u ∈ name, isLetter u = true

/-- The first place where a text names an event names this one. -/
def NamesFirst (s name : JsText) : Prop :=
  ∃ before rest, s = before ++ rest ∧ NamesHere rest name
    ∧ ∀ before' rest', s = before' ++ rest' → before'.length < before.length →
        ∀ other, ¬ NamesHere rest' other

theorem dropWhile_append_cons {p : UInt16 → Bool} {gap rest : JsText} {u : UInt16}
    (hgap : ∀ v ∈ gap, p v = true) (hu : p u = false) :
    (gap ++ u :: rest).dropWhile p = u :: rest := by
  rw [List.dropWhile_append_of_pos hgap, List.dropWhile_cons_of_neg (by rw [hu]; decide)]

theorem takeWhile_append_cons {p : UInt16 → Bool} {gap rest : JsText} {u : UInt16}
    (hgap : ∀ v ∈ gap, p v = true) (hu : p u = false) :
    (gap ++ u :: rest).takeWhile p = gap := by
  rw [List.takeWhile_append_of_pos hgap, List.takeWhile_cons_of_neg (by rw [hu]; decide),
    List.append_nil]

theorem eventHere_of_namesHere {s name : JsText} (h : NamesHere s name) :
    eventHere s = some name := by
  obtain ⟨gap, gap', rest, rfl, hgap, hgap', hne, hname⟩ := h
  unfold eventHere
  rw [if_pos (List.isPrefixOf_iff_prefix.mpr (List.prefix_append _ _)), List.drop_left,
    dropWhile_append_cons hgap (by decide)]
  simp only [dropWhile_append_cons hgap' (show isSpace 34 = false by decide)]
  rw [takeWhile_append_cons hname (by decide), dropWhile_append_cons hname (by decide),
    if_pos ⟨hne, rfl⟩]

theorem eq_takeWhile_append {p : UInt16 → Bool} {s rest : JsText} {u : UInt16}
    (h : s.dropWhile p = u :: rest) : s = s.takeWhile p ++ u :: rest := by
  rw [← h, List.takeWhile_append_dropWhile]

theorem namesHere_of_eventHere {s name : JsText} (h : eventHere s = some name) :
    NamesHere s name := by
  unfold eventHere at h
  split at h
  · rename_i hkey
    obtain ⟨tail, rfl⟩ := List.isPrefixOf_iff_prefix.mp hkey
    rw [List.drop_left] at h
    split at h
    · rename_i after hcolon
      split at h
      · rename_i quoted hquote
        split at h
        · rename_i hends
          obtain ⟨hne, hlast⟩ := hends
          obtain ⟨rest, hrest⟩ : ∃ rest, quoted.dropWhile isLetter = 34 :: rest := by
            cases hdrop : quoted.dropWhile isLetter with
            | nil => rw [hdrop] at hlast; cases hlast
            | cons u rest =>
                rw [hdrop] at hlast
                injection hlast with hlast
                exact ⟨rest, by rw [hlast]⟩
          injection h with h
          subst h
          refine ⟨tail.takeWhile isSpace, after.takeWhile isSpace, rest, ?_,
            fun u hu => List.mem_takeWhile_imp hu, fun u hu => List.mem_takeWhile_imp hu, hne,
            fun u hu => List.mem_takeWhile_imp hu⟩
          rw [← eq_takeWhile_append hrest, ← eq_takeWhile_append hquote,
            ← eq_takeWhile_append hcolon]
        · cases h
      · cases h
    · cases h
  · cases h

theorem eventHere_eq_some {s name : JsText} : eventHere s = some name ↔ NamesHere s name :=
  ⟨namesHere_of_eventHere, eventHere_of_namesHere⟩

theorem not_namesHere_nil {name : JsText} : ¬ NamesHere [] name := by
  intro h
  have hnil : eventHere [] = none := by decide
  rw [eventHere_of_namesHere h] at hnil
  cases hnil

theorem eventOf_eq_some {name : JsText} : ∀ {s : JsText},
    eventOf s = some name ↔ NamesFirst s name
  | [] => by
      refine ⟨fun h => (by cases h), ?_⟩
      rintro ⟨before, rest, hs, hhere, _⟩
      rw [(List.append_eq_nil_iff.mp hs.symm).2] at hhere
      exact absurd hhere not_namesHere_nil
  | u :: s => by
      unfold eventOf
      cases hhere : eventHere (u :: s) with
      | some other =>
          rw [Option.some_or, Option.some_inj]
          have hother := namesHere_of_eventHere hhere
          constructor
          · rintro rfl
            exact ⟨[], u :: s, rfl, hother, fun _ _ _ hlt => absurd hlt (Nat.not_lt_zero _)⟩
          · rintro ⟨before, rest, hs, hname, hfirst⟩
            cases before with
            | nil =>
                rw [← List.nil_append rest, ← hs, ← eventHere_eq_some, hhere] at hname
                exact Option.some_inj.mp hname
            | cons v before => exact absurd hother (hfirst [] (u :: s) rfl (Nat.succ_pos _) other)
      | none =>
          rw [Option.none_or, eventOf_eq_some]
          have hnot : ∀ other, ¬ NamesHere (u :: s) other := by
            intro other hother
            rw [eventHere_of_namesHere hother] at hhere
            cases hhere
          constructor
          · rintro ⟨before, rest, rfl, hname, hfirst⟩
            refine ⟨u :: before, rest, rfl, hname, ?_⟩
            intro before' rest' hs hlt other
            cases before' with
            | nil =>
                have hrest : rest' = u :: (before ++ rest) := hs.symm
                rw [hrest]
                exact hnot other
            | cons v before' =>
                exact hfirst before' rest' (List.cons.inj hs).2 (Nat.lt_of_succ_lt_succ hlt) other
          · rintro ⟨before, rest, hs, hname, hfirst⟩
            cases before with
            | nil =>
                have hrest : rest = u :: s := hs.symm
                exact absurd (hrest ▸ hname) (hnot name)
            | cons v before =>
                obtain ⟨hv, htail⟩ := List.cons.inj hs
                subst hv
                refine ⟨before, rest, htail, hname, fun before' rest' hs' hlt => ?_⟩
                exact hfirst (u :: before') rest' (by rw [hs']; rfl) (Nat.succ_lt_succ hlt)

/-! ## Replies -/

/-- What the daemon sends before it closes the connection or the socket fails. -/
def received : List SocketEvent → JsText
  | [] => []
  | .connect :: rest => received rest
  | .data d :: rest => d ++ received rest
  | .closed :: _ => []
  | .error _ :: _ => []

/-- A reply with a decision, or with none, and without an error. -/
def WellFormed (reply : JsValue) : Prop :=
  ∃ members, reply = .object members ∧ members.lookup (js "error") = none
    ∧ (members.lookup (js "output") = none
        ∨ ∃ output, members.lookup (js "output") = some (.object output))

/-- A whole line with a well-formed reply arrives before the deadline. -/
def Answered (events : List SocketEvent) : Prop :=
  ∃ line rest reply, received events = line ++ 10 :: rest ∧ 10 ∉ line
    ∧ JsValue.parse line = some reply ∧ WellFormed reply

theorem hookOutput_isOk_iff (reply : JsValue) :
    (∃ output, hookOutput env reply = .ok output) ↔ WellFormed reply := by
  constructor
  · rintro ⟨output, h⟩
    unfold hookOutput at h
    split at h
    · rename_i members
      split at h
      · cases h
      · cases h
      · rename_i herror
        split at h
        · rename_i hnone
          exact ⟨members, rfl, herror, .inl hnone⟩
        · rename_i output hsome
          exact ⟨members, rfl, herror, .inr ⟨output, hsome⟩⟩
        · cases h
    · cases h
  · rintro ⟨members, rfl, herror, hnone | ⟨output, hsome⟩⟩
    · exact ⟨none, by simp only [hookOutput, herror, hnone]⟩
    · exact ⟨some (.object output), by simp only [hookOutput, herror, hsome]⟩

theorem settled_onEvent {request : JsValue} {a : Asking} {outcome : Except JsText JsValue}
    (h : a.settled = some outcome) (e : SocketEvent) :
    (onEvent env request a e).settled = some outcome := by
  cases e with
  | connect => exact h
  | data d =>
      unfold onEvent
      dsimp only
      split
      · simp [Asking.settle, h]
      · exact h
  | closed => simp [onEvent, Asking.settle, h]
  | error message => simp [onEvent, Asking.settle, h]

theorem settled_foldl {request : JsValue} {outcome : Except JsText JsValue} :
    ∀ (events : List SocketEvent) {a : Asking}, a.settled = some outcome →
      (events.foldl (onEvent env request) a).settled = some outcome
  | [], _, h => h
  | e :: rest, a, h => by
      rw [List.foldl_cons]
      exact settled_foldl rest (settled_onEvent env h e)

/-- What a text has before its first line end. -/
def firstLine (s : JsText) : JsText := s.takeWhile (· != 10)

theorem firstLine_append_cons {line rest : JsText} (h : 10 ∉ line) :
    firstLine (line ++ 10 :: rest) = line := by
  refine takeWhile_append_cons (fun u hu => ?_) (by decide)
  exact bne_iff_ne.mpr fun hu10 => h (hu10 ▸ hu)

/-- A text with a line end is its first line and the rest. -/
theorem eq_firstLine_append {s : JsText} (h : 10 ∈ s) :
    ∃ rest, s = firstLine s ++ 10 :: rest ∧ 10 ∉ firstLine s := by
  obtain ⟨line, rest, rfl, hnot⟩ := List.eq_append_cons_of_mem h
  rw [firstLine_append_cons hnot]
  exact ⟨rest, rfl, hnot⟩

theorem firstLine_append {s : JsText} (h : 10 ∈ s) (t : JsText) :
    firstLine (s ++ t) = firstLine s := by
  obtain ⟨rest, hs, hnot⟩ := eq_firstLine_append h
  calc firstLine (s ++ t)
      = firstLine (firstLine s ++ 10 :: (rest ++ t)) := by
        rw [← List.cons_append, ← List.append_assoc, ← hs]
    _ = firstLine s := firstLine_append_cons hnot

/-- A reply is what the first line parses to, of what was read before and what is received. -/
theorem ask_eq_ok {request : JsValue} {reply : JsValue} :
    ∀ (events : List SocketEvent) {a : Asking}, a.settled = none → 10 ∉ a.buf →
      ((events.foldl (onEvent env request) a).settled = some (.ok reply)
        ↔ 10 ∈ a.buf ++ received events
          ∧ JsValue.parse (firstLine (a.buf ++ received events)) = some reply)
  | [], a, hopen, hbuf => by
      rw [List.foldl_nil, hopen, received, List.append_nil]
      exact ⟨fun h => (by cases h), fun h => absurd h.1 hbuf⟩
  | .connect :: events, a, hopen, hbuf => by
      rw [List.foldl_cons]
      exact ask_eq_ok (a := onEvent env request a .connect) events hopen hbuf
  | .data d :: events, a, hopen, hbuf => by
      rw [List.foldl_cons, received, ← List.append_assoc]
      by_cases hline : 10 ∈ a.buf ++ d
      · -- the line is complete, and what comes after it is not looked at
        have hstep : (onEvent env request a (.data d)).settled
            = some (readReply env (firstLine (a.buf ++ d))) := by
          simp only [onEvent, List.contains_iff_mem, hline, if_true, Asking.settle, hopen,
            Option.none_or, firstLine]
        rw [settled_foldl env events hstep, firstLine_append hline, Option.some_inj]
        have hmem : 10 ∈ a.buf ++ d ++ received events := List.mem_append_left _ hline
        unfold readReply
        cases JsValue.parse (firstLine (a.buf ++ d)) with
        | none => exact ⟨fun h => (by cases h), fun h => (by cases h.2)⟩
        | some v =>
            rw [Except.ok.injEq, Option.some_inj]
            exact ⟨fun h => ⟨hmem, h⟩, fun h => h.2⟩
      · have hstep : onEvent env request a (.data d) = { a with buf := a.buf ++ d } := by
          simp only [onEvent, List.contains_iff_mem, hline, if_false]
        rw [hstep]
        exact ask_eq_ok (a := { a with buf := a.buf ++ d }) events hopen hline
  | .closed :: events, a, hopen, hbuf => by
      have hstep : (onEvent env request a .closed).settled = some (.error closedEarly) := by
        simp [onEvent, Asking.settle, hopen]
      rw [List.foldl_cons, settled_foldl env events hstep, received, List.append_nil]
      exact ⟨fun h => (by cases h), fun h => absurd h.1 hbuf⟩
  | .error message :: events, a, hopen, hbuf => by
      have hstep : (onEvent env request a (.error message)).settled = some (.error message) := by
        simp [onEvent, Asking.settle, hopen]
      rw [List.foldl_cons, settled_foldl env events hstep, received, List.append_nil]
      exact ⟨fun h => (by cases h), fun h => absurd h.1 hbuf⟩

theorem ask_isOk_iff (request reply : JsValue) (events : List SocketEvent) :
    ask env request events = .ok reply
      ↔ ∃ line rest, received events = line ++ 10 :: rest ∧ 10 ∉ line
          ∧ JsValue.parse line = some reply := by
  have hrun := @ask_eq_ok env request reply events { buf := [], sent := [], settled := none } rfl
    List.not_mem_nil
  rw [List.nil_append] at hrun
  have hask : ask env request events = .ok reply
      ↔ (events.foldl (onEvent env request) { buf := [], sent := [], settled := none }).settled
          = some (.ok reply) := by
    unfold ask
    dsimp only
    cases (events.foldl (onEvent env request)
      { buf := [], sent := [], settled := none }).settled with
    | none => exact ⟨fun h => (by cases h), fun h => (by cases h)⟩
    | some outcome => rw [Option.getD_some, Option.some_inj]
  rw [hask, hrun]
  constructor
  · rintro ⟨hmem, hparse⟩
    obtain ⟨rest, hsplit, hnot⟩ := eq_firstLine_append hmem
    exact ⟨_, rest, hsplit, hnot, hparse⟩
  · rintro ⟨line, rest, hsplit, hnot, hparse⟩
    rw [hsplit, firstLine_append_cons hnot]
    exact ⟨List.mem_append_right _ List.mem_cons_self, hparse⟩

/-- The daemon's answer is an output exactly when it is a well-formed reply. -/
theorem answer_isOk_iff (request : JsValue) (events : List SocketEvent) :
    (∃ output, ask env request events >>= hookOutput env = .ok output) ↔ Answered events := by
  constructor
  · rintro ⟨output, h⟩
    cases hask : ask env request events with
    | error why =>
        rw [hask] at h
        cases h
    | ok reply =>
        rw [hask] at h
        obtain ⟨line, rest, hsplit, hnot, hparse⟩ := (ask_isOk_iff env request reply events).mp hask
        exact ⟨line, rest, reply, hsplit, hnot, hparse,
          (hookOutput_isOk_iff env reply).mp ⟨output, h⟩⟩
  · rintro ⟨line, rest, reply, hsplit, hnot, hparse, hreply⟩
    have hask := (ask_isOk_iff env request reply events).mpr ⟨line, rest, hsplit, hnot, hparse⟩
    obtain ⟨output, houtput⟩ := (hookOutput_isOk_iff env reply).mpr hreply
    exact ⟨output, by rw [hask]; exact houtput⟩

/-! ## Failing closed -/

/-- The call is one to decide: its event is a tool call's, or it is no JSON. -/
def AsksForDecision (text : JsText) : Prop :=
  ∀ input, JsValue.parse text = some input →
    input.member "hook_event_name" = some (.string (js "PreToolUse"))

/-- A well-formed reply arrived to the request that was sent for this payload. -/
def Decided (stdin : Stdin) (events : List SocketEvent) : Prop :=
  stdin.ReadWhole ∧ (∃ input, JsValue.parse stdin.text = some input) ∧ Answered events

/-- A denial, and nothing else, is printed. -/
def Denied (printed : Printed) : Prop :=
  ∃ why, printed.stdout = (denial why).stringify env.showNumber

/-- A call that is not decided is refused. -/
def FailsClosed (runtime : Runtime) (stdin : Stdin) (events : List SocketEvent) : Prop :=
  AsksForDecision stdin.text → ¬ Decided stdin events →
    Denied env (runHook env runtime .closed stdin events)

theorem denied_fallback_iff (event : Option JsValue) (why : JsText) :
    Denied env (fallback env event .closed why) ↔ isToolCall event = true := by
  have hmode : FailMode.closed.resolve env = .closed := rfl
  unfold fallback
  rw [hmode]
  cases isToolCall event with
  | true => exact ⟨fun _ => rfl, fun _ => ⟨why, rfl⟩⟩
  | false =>
      refine ⟨fun h => ?_, fun h => by cases h⟩
      obtain ⟨other, h⟩ := h
      exact absurd h.symm (JsValue.stringify_object_ne_nil env.showNumber _)

theorem runHook_of_not_readWhole {stdin : Stdin} (h : ¬ stdin.ReadWhole) (runtime : Runtime)
    (failMode : FailMode) (events : List SocketEvent) :
    ∃ why, runHook env runtime failMode stdin events
      = fallback env ((eventOf (stdin.text.take headLength)).map .string) failMode why := by
  obtain ⟨why, hread⟩ := readStdin_of_not_readWhole h
  exact ⟨why, by unfold runHook; rw [hread]⟩

/-- A payload that is read whole is refused unless it is decided. -/
theorem denied_of_readWhole {runtime : Runtime} {stdin : Stdin} {events : List SocketEvent}
    (hread : stdin.ReadWhole) : FailsClosed env runtime stdin events := by
  intro hcall hundecided
  unfold runHook
  rw [readStdin_of_readWhole hread]
  dsimp only
  cases hparse : JsValue.parse stdin.text with
  | none => exact (denied_fallback_iff env none _).mpr rfl
  | some input =>
      dsimp only
      rw [hcall input hparse]
      cases hanswer : ask env (hookRequest env runtime input) events >>= hookOutput env with
      | error why => exact (denied_fallback_iff env _ _).mpr (by decide)
      | ok output =>
          have hanswered := (answer_isOk_iff env _ events).mp ⟨output, hanswer⟩
          exact absurd ⟨hread, ⟨input, hparse⟩, hanswered⟩ hundecided

/-- The event that a beginning names is a tool call's, or none is named. -/
def HeadNamesCall (head : JsText) : Prop := ∀ name, NamesFirst head name → name = js "PreToolUse"

theorem isToolCall_eventOf_iff (head : JsText) :
    isToolCall ((eventOf head).map .string) = true ↔ HeadNamesCall head := by
  cases hevent : eventOf head with
  | none =>
      refine ⟨fun _ name hname => ?_, fun _ => rfl⟩
      rw [eventOf_eq_some.mpr hname] at hevent
      cases hevent
  | some event =>
      have hfirst := eventOf_eq_some.mp hevent
      constructor
      · intro h name hname
        have hsame : event = name := by
          rw [eventOf_eq_some.mpr hname] at hevent
          exact (Option.some_inj.mp hevent).symm
        rw [← hsame]
        exact eq_of_beq h
      · intro h
        rw [h event hfirst]
        decide

/-- The tool's input has a member with the name of the event's member, and stands before it. -/
def misread : JsText :=
  js "\x7b\"tool_input\":\x7b\"hook_event_name\":\"Stop\"\x7d,"
    ++ js "\"hook_event_name\":\"PreToolUse\"\x7d"

def misreadInput : JsValue :=
  .object
    [ (js "tool_input", .object [(js "hook_event_name", .string (js "Stop"))]),
      (js "hook_event_name", .string (js "PreToolUse")) ]

def padding : JsText := List.replicate maxInput 32

/-- The call, and more white space behind it than the hook reads. -/
def padded : Stdin where
  chunks := [misread ++ padding]
  error := none

/-- An object in compact text, whose first member is an object with a name of its own. -/
def nested (outer name inner own : JsText) (s : JsText) : JsText :=
  123 :: 34 :: (outer ++ 34 :: 58 :: 123 :: 34 :: (name ++ 34 :: 58 :: 34 :: (inner ++ 34 :: 125 ::
    44 :: 34 :: (name ++ 34 :: 58 :: 34 :: (own ++ 34 :: 125 :: s)))))

theorem nested_append (outer name inner own s : JsText) :
    nested outer name inner own [] ++ s = nested outer name inner own s := by
  simp only [nested, List.append_assoc, List.cons_append, List.nil_append]

theorem readValue_nested {outer name inner own : JsText} (houter : outer.all JsValue.isPlain = true)
    (hname : name.all JsValue.isPlain = true) (hinner : inner.all JsValue.isPlain = true)
    (hown : own.all JsValue.isPlain = true) (hne : outer ≠ name) (fuel : Nat) (s : JsText) :
    JsValue.readValue (fuel + 6) (nested outer name inner own s)
      = some (.object [(outer, .object [(name, .string inner)]), (name, .string own)], s) := by
  have hnested := JsValue.readValue_object (@JsValue.readMembers_last _ _ _ _ [] _ hname
    (JsValue.readValue_string (fuel + 1) (125 :: 44 :: 34 :: (name ++ 34 :: 58 :: 34 ::
      (own ++ 34 :: 125 :: s))) hinner))
  have hlast := @JsValue.readMembers_last _ _ _ _ [(outer, .object [(name, .string inner)])] _
    hname (JsValue.readValue_string (fuel + 2) (125 :: s) hown)
  refine JsValue.readValue_object ?_
  rw [JsValue.readMembers_more houter hnested]
  refine hlast.trans ?_
  simp only [JsValue.setMember, if_neg hne]

theorem misread_eq :
    misread = nested (js "tool_input") (js "hook_event_name") (js "Stop") (js "PreToolUse") [] := by
  decide

theorem readValue_misread (fuel : Nat) (s : JsText) :
    JsValue.readValue (fuel + 6) (misread ++ s) = some (misreadInput, s) := by
  rw [misread_eq, nested_append]
  exact readValue_nested (by decide) (by decide) (by decide)
    (by decide) (by decide) fuel s

/-- No key begins in a run, whatever follows it. -/
def NoKey (run : JsText) : Prop :=
  ∀ part ∈ run.tails, part ≠ [] → ¬ eventKey <+: part ∧ ¬ part <+: eventKey

theorem eventOf_append {rest : JsText} : ∀ {run : JsText}, NoKey run →
    eventOf (run ++ rest) = eventOf rest
  | [], _ => rfl
  | u :: run, h => by
      have hhere : eventKey.isPrefixOf (u :: (run ++ rest)) = false := by
        rw [← Bool.not_eq_true, List.isPrefixOf_iff_prefix]
        intro hkey
        have hself : u :: run <+: u :: (run ++ rest) := List.prefix_append (u :: run) rest
        obtain ⟨hlong, hshort⟩ := h (u :: run) ((List.mem_tails _ _).mpr (List.suffix_refl _))
          (List.cons_ne_nil u run)
        exact (List.prefix_or_prefix_of_prefix hkey hself).elim hlong hshort
      have htail : NoKey run := by
        intro part hpart hne
        have hsuffix := ((List.mem_tails _ _).mp hpart).trans (List.suffix_cons u run)
        exact h part ((List.mem_tails _ _).mpr hsuffix) hne
      rw [List.cons_append, eventOf, eventHere, hhere, if_neg Bool.false_ne_true, Option.none_or,
        eventOf_append htail]

theorem eventOf_misread (s : JsText) : eventOf (misread ++ s) = some (js "Stop") := by
  obtain ⟨run, hrun⟩ : ∃ run : JsText, run = js "\x7b\"tool_input\":\x7b" := ⟨_, rfl⟩
  have hsplit : misread ++ s = run ++ (eventKey ++ ([] ++ 58 :: ([] ++ 34 :: (js "Stop" ++ 34 ::
      (js "\x7d,\"hook_event_name\":\"PreToolUse\"\x7d" ++ s))))) := by
    have hclosed : misread = run ++ (eventKey ++ ([] ++ 58 :: ([] ++ 34 :: (js "Stop" ++ 34 ::
        js "\x7d,\"hook_event_name\":\"PreToolUse\"\x7d")))) := by
      rw [hrun]
      decide
    rw [hclosed]
    simp only [List.append_assoc, List.cons_append, List.nil_append]
  have hkey : NoKey run := by
    rw [hrun]
    unfold NoKey
    decide
  rw [hsplit, eventOf_append hkey]
  have hhere : NamesHere (eventKey ++ ([] ++ 58 :: ([] ++ 34 :: (js "Stop" ++ 34 ::
      (js "\x7d,\"hook_event_name\":\"PreToolUse\"\x7d" ++ s))))) (js "Stop") := by
    refine ⟨[], [], _, rfl, ?_, ?_, by decide, ?_⟩
    · exact fun u hu => absurd hu List.not_mem_nil
    · exact fun u hu => absurd hu List.not_mem_nil
    · exact fun u hu => List.all_eq_true.mp (by decide : (js "Stop").all isLetter) u hu
  exact eventOf_eq_some.mpr ⟨[], _, rfl, hhere, fun _ _ _ h => absurd h (Nat.not_lt_zero _)⟩

theorem asksForDecision_padded : AsksForDecision padded.text := by
  have htext : padded.text = misread ++ padding := List.flatten_singleton
  have hwhite : padding.all JsValue.isWhite = true :=
    List.all_eq_true.mpr fun u hu => by rw [List.eq_of_mem_replicate hu]; rfl
  intro input hinput
  obtain ⟨fuel, hfuel⟩ : ∃ fuel, (misread ++ padding).length + 1 = fuel + 6 := by
    refine ⟨(misread ++ padding).length - 5, ?_⟩
    have hlong : 5 ≤ misread.length := by decide
    rw [List.length_append]
    omega
  have hread := readValue_misread fuel padding
  rw [← hfuel] at hread
  rw [htext, JsValue.parse_append_white hread hwhite] at hinput
  rw [← Option.some_inj.mp hinput]
  have hne : (js "hook_event_name" == js "tool_input") = false := by decide
  unfold misreadInput JsValue.member
  dsimp only
  rw [List.lookup_cons, hne]
  exact List.lookup_cons_self

/-- The beginning of the padded call names another event. -/
theorem not_headNamesCall_padded : ¬ HeadNamesCall (padded.text.take headLength) := by
  intro h
  have htake : padded.text.take headLength
      = misread ++ padding.take (headLength - misread.length) := by
    have hshort : misread.length ≤ headLength := by decide
    rw [show padded.text = misread ++ padding from List.flatten_singleton, List.take_append,
      List.take_of_length_le hshort]
  rw [htake] at h
  have hstop := h _ (eventOf_eq_some.mp (eventOf_misread _))
  exact absurd hstop (by decide)

end Hook

end Agenomic.Connector
