import Agenomic.Lib.Run

/-!
# Logical clocks

Processes stamp what they do with a clock, and send the stamp along with their messages.
An event happened before another when it came earlier in the same process, or was what
the other received, or by a chain of these (`HappenedBefore`).

**`clock_lt`**: where every stamp is beyond the last one of its process and beyond the
one that was received, what happened before has the smaller stamp. `Clocks` is the
machine that makes such stamps, for any rule to advance a clock, and `Ahead` what it
keeps when every step advances.
-/

namespace Lib.Causality

/-- An event: the process, what it received, by its place in the history, and its stamp. -/
structure Stamped (ρ κ : Type*) where
  process : ρ
  received : Option Nat
  clock : κ

variable {ρ κ ω : Type*}

/-- One event is right before another: in its process, or as what it received. -/
inductive Direct (history : List (Stamped ρ κ)) (i j : Nat) : Prop
  | inProcess {a b : Stamped ρ κ} : i < j → history[i]? = some a → history[j]? = some b →
      a.process = b.process → Direct history i j
  | byMessage {b : Stamped ρ κ} : history[j]? = some b → b.received = some i → Direct history i j

def HappenedBefore (history : List (Stamped ρ κ)) : Nat → Nat → Prop :=
  Relation.TransGen (Direct history)

/-- Every stamp is beyond those right before it, and what was received is there. -/
structure Increasing [LT κ] (history : List (Stamped ρ κ)) : Prop where
  inProcess : ∀ {i j : Nat} {a b : Stamped ρ κ}, i < j → history[i]? = some a → history[j]? = some b →
    a.process = b.process → a.clock < b.clock
  byMessage : ∀ {i j : Nat} {b : Stamped ρ κ}, history[j]? = some b → b.received = some i →
    ∃ a, history[i]? = some a ∧ a.clock < b.clock

theorem Increasing.direct [LT κ] {history : List (Stamped ρ κ)} (h : Increasing history)
    {i j : Nat} (hij : Direct history i j) :
    ∃ a b, history[i]? = some a ∧ history[j]? = some b ∧ a.clock < b.clock := by
  cases hij with
  | inProcess hlt ha hb hp => exact ⟨_, _, ha, hb, h.inProcess hlt ha hb hp⟩
  | byMessage hb hr =>
      obtain ⟨a, ha, hlt⟩ := h.byMessage hb hr
      exact ⟨a, _, ha, hb, hlt⟩

/-- **What happened before has the smaller stamp.** -/
theorem Increasing.clock_lt [Preorder κ] {history : List (Stamped ρ κ)} (h : Increasing history)
    {i j : Nat} (hij : HappenedBefore history i j) :
    ∃ a b, history[i]? = some a ∧ history[j]? = some b ∧ a.clock < b.clock := by
  induction hij with
  | single hd => exact h.direct hd
  | tail _ hd ih =>
      obtain ⟨a, b, ha, hb, hab⟩ := ih
      obtain ⟨b', c, hb', hc, hbc⟩ := h.direct hd
      rw [hb] at hb'
      cases hb'
      exact ⟨a, c, ha, hc, lt_trans hab hbc⟩

/-! ## Processes with clocks -/

/-- The clock of each process, and what has happened. -/
structure Clocks (ρ κ : Type*) where
  clock : ρ → κ
  history : List (Stamped ρ κ)

/-- What a process does: it may receive what was stamped at a place of the history, and reads
the time. -/
structure Action (ρ ω : Type*) where
  process : ρ
  received : Option Nat
  now : ω

namespace Clocks

/-- Nothing has happened. -/
def start (clock : ρ → κ) : Clocks ρ κ := ⟨clock, []⟩

/-- The stamp that is received, when there is such an event. -/
def stampAt (s : Clocks ρ κ) (i : Nat) : Option κ := s.history[i]?.map Stamped.clock

/-- One action, by a rule that gives the next clock, if there is one. Receiving what is not
there, like a rule that gives none, leaves everything as it is. -/
def step [DecidableEq ρ] (advance : κ → Option κ → ω → Option κ) (s : Clocks ρ κ)
    (a : Action ρ ω) : Clocks ρ κ :=
  if ∀ i, a.received = some i → (s.stampAt i).isSome then
    match advance (s.clock a.process) (a.received.bind s.stampAt) a.now with
    | some c => ⟨Function.update s.clock a.process c, s.history ++ [⟨a.process, a.received, c⟩]⟩
    | none => s
  else s

/-- Every stamp is one that its process has reached, and the stamps increase. -/
structure Ahead [Preorder κ] (s : Clocks ρ κ) : Prop where
  reached : ∀ a ∈ s.history, a.clock ≤ s.clock a.process
  increasing : Increasing s.history

/-- The rule gives a clock beyond that of the process and beyond the one received. -/
def Advances [LT κ] (advance : κ → Option κ → ω → Option κ) (s : Clocks ρ κ) (a : Action ρ ω) :
    Prop :=
  ∀ c, advance (s.clock a.process) (a.received.bind s.stampAt) a.now = some c →
    s.clock a.process < c ∧ ∀ r, a.received.bind s.stampAt = some r → r < c

theorem ahead_start [Preorder κ] (clock : ρ → κ) : (start clock).Ahead where
  reached _ h := nomatch h
  increasing := {
    inProcess := fun _ h => nomatch h
    byMessage := fun h => nomatch h }

/-- **One step** that advances keeps the stamps increasing. -/
theorem Ahead.step [DecidableEq ρ] [Preorder κ] {advance : κ → Option κ → ω → Option κ}
    {s : Clocks ρ κ} {a : Action ρ ω} (h : s.Ahead) (ha : s.Advances advance a) :
    (s.step advance a).Ahead := by
  unfold Clocks.step
  split
  · rename_i hthere
    cases hc : advance (s.clock a.process) (a.received.bind s.stampAt) a.now with
    | none => exact h
    | some c =>
        obtain ⟨hlocal, hreceived⟩ := ha c hc
        dsimp only
        have hold : ∀ x ∈ s.history, x.process = a.process → x.clock < c := by
          intro x hx hp
          have hreach := h.reached x hx
          rw [hp] at hreach
          exact lt_of_le_of_lt hreach hlocal
        refine ⟨?_, ⟨?_, ?_⟩⟩
        · intro x hx
          dsimp only at hx ⊢
          rcases List.mem_append.mp hx with hx | hx
          · by_cases hp : x.process = a.process
            · rw [hp, Function.update_self]
              exact le_of_lt (hold x hx hp)
            · rw [Function.update_of_ne hp]
              exact h.reached x hx
          · rw [List.mem_singleton.mp hx, Function.update_self]
        · intro i j x y hij hx hy hp
          dsimp only at hx hy
          by_cases hj : j < s.history.length
          · rw [List.getElem?_append_left hj] at hy
            rw [List.getElem?_append_left (by omega)] at hx
            exact h.increasing.inProcess hij hx hy hp
          · -- the last event is the new one
            have hjlen := (List.getElem?_eq_some_iff.mp hy).1
            rw [List.length_append, List.length_singleton] at hjlen
            have hjeq : j = s.history.length := by omega
            subst hjeq
            rw [List.getElem?_concat_length] at hy
            rw [List.getElem?_append_left hij] at hx
            cases hy
            exact hold x (List.mem_of_getElem? hx) hp
        · intro i j y hy hr
          dsimp only at hy ⊢
          by_cases hj : j < s.history.length
          · rw [List.getElem?_append_left hj] at hy
            obtain ⟨x, hx, hlt⟩ := h.increasing.byMessage hy hr
            have hi := (List.getElem?_eq_some_iff.mp hx).1
            exact ⟨x, by rw [List.getElem?_append_left hi, hx], hlt⟩
          · have hjlen := (List.getElem?_eq_some_iff.mp hy).1
            rw [List.length_append, List.length_singleton] at hjlen
            have hjeq : j = s.history.length := by omega
            subst hjeq
            rw [List.getElem?_concat_length] at hy
            cases hy
            obtain ⟨r, hstamp⟩ := Option.isSome_iff_exists.mp (hthere i hr)
            obtain ⟨x, hx, rfl⟩ := Option.map_eq_some_iff.mp hstamp
            have hi := (List.getElem?_eq_some_iff.mp hx).1
            refine ⟨x, by rw [List.getElem?_append_left hi, hx], hreceived x.clock ?_⟩
            have hr' : a.received = some i := hr
            rw [hr']
            exact hstamp
  · exact h

/-- **Runs**: where every step advances, what happened before has the smaller stamp. -/
theorem run_clock_lt [DecidableEq ρ] [Preorder κ] {advance : κ → Option κ → ω → Option κ}
    {p : Clocks ρ κ → Action ρ ω → Prop} (hp : ∀ s a, p s a → s.Advances advance a)
    {clock : ρ → κ} {actions : List (Action ρ ω)}
    (h : Along (step advance) p (start clock) actions) {i j : Nat}
    (hij : HappenedBefore (run (step advance) (start clock) actions).history i j) :
    ∃ a b, (run (step advance) (start clock) actions).history[i]? = some a
      ∧ (run (step advance) (start clock) actions).history[j]? = some b ∧ a.clock < b.clock :=
  (run_invariant Ahead (fun s a hs ha => hs.step (hp s a ha)) (ahead_start clock) h).increasing.clock_lt hij

end Clocks

end Lib.Causality
