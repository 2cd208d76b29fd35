import Agenomic.Atep.Event
import Agenomic.Lib.Causality

/-!
# Hybrid logical clocks

A clock moves on with every event. Where the wall clock is ahead, the clock takes the wall
time and its counter starts at zero; where it lags, the counter goes up by one. The counter
has 32 bits: when it is full, counting up stops the call or, in a build without overflow
checks, gives zero, and the clock would run backwards.

**`clock_never_backwards_iff`**: that is the only way in which it does.
-/

namespace Agenomic.Atep

open Lib Causality

namespace Hlc

/-- The order of the fields, as it is derived: time, counter, node. -/
def key (c : Hlc) : ℕ ×ₗ ℕ ×ₗ ℕ := toLex (c.physicalMs.toNat, toLex (c.logical.toNat, c.nodeId.toNat))

theorem key_injective : Function.Injective key := by
  intro a b h
  obtain ⟨hphys, hrest⟩ := Prod.mk.inj (toLex.injective h)
  obtain ⟨hlog, hnode⟩ := Prod.mk.inj (toLex.injective hrest)
  obtain ⟨p, l, n⟩ := a
  obtain ⟨p', l', n'⟩ := b
  rw [Hlc.mk.injEq]
  exact ⟨UInt64.toNat_inj.mp hphys, UInt32.toNat_inj.mp hlog, UInt32.toNat_inj.mp hnode⟩

instance : LinearOrder Hlc := LinearOrder.lift' key key_injective

theorem lt_iff {a b : Hlc} : a < b ↔ a.physicalMs < b.physicalMs
    ∨ a.physicalMs = b.physicalMs ∧ (a.logical < b.logical
      ∨ a.logical = b.logical ∧ a.nodeId < b.nodeId) := by
  change key a < key b ↔ _
  unfold key
  rw [Prod.Lex.toLex_lt_toLex, Prod.Lex.toLex_lt_toLex]
  dsimp only
  rw [UInt64.toNat_inj, UInt32.toNat_inj]
  rfl

/-- One more, in a build with or without overflow checks. -/
def countUp (checks : Bool) (n : UInt32) : CliResult UInt32 :=
  if n = 4294967295 ∧ checks = true then .error .overflow else .ok (n + 1)

/-- Advance after an event with a clock was received. -/
def tickAfter (checks : Bool) (self received : Hlc) (nowMs : UInt64) : CliResult Hlc := do
  let maxPhys := max (max self.physicalMs received.physicalMs) nowMs
  let logical ←
    if maxPhys = self.physicalMs ∧ maxPhys = received.physicalMs then
      countUp checks (max self.logical received.logical)
    else if maxPhys = self.physicalMs then countUp checks self.logical
    else if maxPhys = received.physicalMs then countUp checks received.logical
    else .ok 0
  .ok { physicalMs := maxPhys, logical, nodeId := self.nodeId }

/-- Advance without an event that was received. -/
def tick (checks : Bool) (self : Hlc) (nowMs : UInt64) : CliResult Hlc :=
  if nowMs > self.physicalMs then .ok { physicalMs := nowMs, logical := 0, nodeId := self.nodeId }
  else do
    let logical ← countUp checks self.logical
    .ok { physicalMs := self.physicalMs, logical, nodeId := self.nodeId }

/-- The next clock, after an event was received or not. -/
def advance (checks : Bool) (self : Hlc) (received : Option Hlc) (nowMs : UInt64) :
    CliResult Hlc :=
  match received with
  | none => self.tick checks nowMs
  | some received => self.tickAfter checks received nowMs

/-! ## The counter that is counted up -/

/-- The counter the next clock counts up, when the wall clock is not ahead. -/
def counter (self : Hlc) (received : Option Hlc) (nowMs : UInt64) : Option UInt32 :=
  match received with
  | none => if nowMs > self.physicalMs then none else some self.logical
  | some received =>
      let maxPhys := max (max self.physicalMs received.physicalMs) nowMs
      if maxPhys = self.physicalMs ∧ maxPhys = received.physicalMs then
        some (max self.logical received.logical)
      else if maxPhys = self.physicalMs then some self.logical
      else if maxPhys = received.physicalMs then some received.logical
      else none

/-- The counter can be counted up. -/
def CanCount (self : Hlc) (received : Option Hlc) (nowMs : UInt64) : Prop :=
  self.counter received nowMs ≠ some 4294967295

instance (self : Hlc) (received : Option Hlc) (nowMs : UInt64) :
    Decidable (self.CanCount received nowMs) :=
  inferInstanceAs (Decidable (_ ≠ _))

theorem countUp_of_ne (checks : Bool) {n : UInt32} (h : n ≠ 4294967295) :
    countUp checks n = .ok (n + 1) :=
  if_neg fun hn => h hn.1

/-- A full counter is never counted up to something above zero. -/
theorem countUp_full {checks : Bool} {n : UInt32} (h : countUp checks 4294967295 = .ok n) :
    n = 0 := by
  cases checks with
  | true => cases h
  | false =>
      cases h
      rfl

theorem lt_add_one_of_ne {n : UInt32} (h : n ≠ 4294967295) : n < n + 1 := by
  grind

/-- **A local tick** moves on exactly when it can count. -/
theorem tick_lt_iff (checks : Bool) (self : Hlc) (nowMs : UInt64) :
    (∃ c, self.tick checks nowMs = .ok c ∧ self < c) ↔ self.CanCount none nowMs := by
  unfold tick CanCount counter
  dsimp only
  by_cases hnow : nowMs > self.physicalMs
  · rw [if_pos hnow, if_pos hnow]
    exact iff_of_true ⟨_, rfl, lt_iff.mpr (.inl hnow)⟩ nofun
  · rw [if_neg hnow, if_neg hnow]
    by_cases hfull : self.logical = 4294967295
    · refine iff_of_false ?_ fun h => h (congrArg some hfull)
      rintro ⟨c, hc, hlt⟩
      rw [hfull] at hc
      cases hn : countUp checks 4294967295 with
      | error e =>
          rw [hn] at hc
          cases hc
      | ok n =>
          rw [hn] at hc
          cases hc
          -- the counter starts over at zero, in the same millisecond
          rw [countUp_full hn, lt_iff] at hlt
          grind
    · rw [countUp_of_ne checks hfull]
      refine iff_of_true ⟨_, rfl, lt_iff.mpr (.inr ⟨rfl, .inl ?_⟩)⟩ fun h => hfull (Option.some.inj h)
      exact lt_add_one_of_ne hfull

/-- The latest of the two clocks and the wall clock. -/
def maxPhys (self received : Hlc) (nowMs : UInt64) : UInt64 :=
  max (max self.physicalMs received.physicalMs) nowMs

theorem max_u64 (a b : UInt64) : max a b = if a ≤ b then b else a := rfl

theorem max_u32 (a b : UInt32) : max a b = if a ≤ b then b else a := rfl

theorem le_maxPhys (self received : Hlc) (nowMs : UInt64) :
    self.physicalMs ≤ self.maxPhys received nowMs
      ∧ received.physicalMs ≤ self.maxPhys received nowMs := by
  unfold maxPhys
  rw [max_u64, max_u64]
  grind

theorem counter_some (self received : Hlc) (nowMs : UInt64) :
    self.counter (some received) nowMs =
      if self.maxPhys received nowMs = self.physicalMs
          ∧ self.maxPhys received nowMs = received.physicalMs then
        some (max self.logical received.logical)
      else if self.maxPhys received nowMs = self.physicalMs then some self.logical
      else if self.maxPhys received nowMs = received.physicalMs then some received.logical
      else none := rfl

theorem tickAfter_eq (checks : Bool) (self received : Hlc) (nowMs : UInt64) :
    self.tickAfter checks received nowMs =
      ((self.counter (some received) nowMs).elim (.ok 0) (countUp checks)).map fun logical =>
        { physicalMs := self.maxPhys received nowMs, logical, nodeId := self.nodeId } := by
  rw [counter_some]
  unfold tickAfter maxPhys
  dsimp only
  split_ifs <;> rfl

theorem phys_lt_of_counter_none {self received : Hlc} {nowMs : UInt64}
    (h : self.counter (some received) nowMs = none) :
    self.physicalMs < self.maxPhys received nowMs
      ∧ received.physicalMs < self.maxPhys received nowMs := by
  obtain ⟨hself, hreceived⟩ := le_maxPhys self received nowMs
  rw [counter_some] at h
  grind

/-- The counter is that of a clock that is at the latest time. -/
theorem counter_some_mem {self received : Hlc} {nowMs : UInt64} {n : UInt32}
    (h : self.counter (some received) nowMs = some n) :
    self.physicalMs = self.maxPhys received nowMs ∧ self.logical = n
      ∨ received.physicalMs = self.maxPhys received nowMs ∧ received.logical = n := by
  rw [counter_some, max_u32] at h
  grind

/-- Each clock is behind the latest time, or its counter is not above the one to count up. -/
theorem counter_some_le {self received : Hlc} {nowMs : UInt64} {n : UInt32}
    (h : self.counter (some received) nowMs = some n) :
    (self.physicalMs < self.maxPhys received nowMs
        ∨ self.physicalMs = self.maxPhys received nowMs ∧ self.logical ≤ n)
      ∧ (received.physicalMs < self.maxPhys received nowMs
        ∨ received.physicalMs = self.maxPhys received nowMs ∧ received.logical ≤ n) := by
  obtain ⟨hself, hreceived⟩ := le_maxPhys self received nowMs
  rw [counter_some, max_u32] at h
  grind

/-- **A tick after an event was received** moves beyond both clocks exactly when it can count. -/
theorem tickAfter_lt_iff (checks : Bool) (self received : Hlc) (nowMs : UInt64) :
    (∃ c, self.tickAfter checks received nowMs = .ok c ∧ self < c ∧ received < c)
      ↔ self.CanCount (some received) nowMs := by
  rw [tickAfter_eq]
  unfold CanCount
  cases hcount : self.counter (some received) nowMs with
  | none =>
      obtain ⟨hself, hreceived⟩ := phys_lt_of_counter_none hcount
      exact iff_of_true ⟨_, rfl, lt_iff.mpr (.inl hself), lt_iff.mpr (.inl hreceived)⟩ nofun
  | some n =>
      by_cases hfull : n = 4294967295
      · subst hfull
        refine iff_of_false ?_ fun h => h rfl
        rintro ⟨c, hc, hself, hreceived⟩
        rw [Option.elim_some] at hc
        cases hn : countUp checks 4294967295 with
        | error e =>
            rw [hn] at hc
            cases hc
        | ok n =>
            rw [hn] at hc
            cases hc
            -- one of the two clocks has the counter that starts over, in the same millisecond
            rw [countUp_full hn, lt_iff] at hself hreceived
            rcases counter_some_mem hcount with ⟨hp, hl⟩ | ⟨hp, hl⟩ <;> grind
      · rw [Option.elim_some, countUp_of_ne checks hfull]
        have hlt := lt_add_one_of_ne hfull
        obtain ⟨hself, hreceived⟩ := counter_some_le hcount
        refine iff_of_true ⟨_, rfl, lt_iff.mpr ?_, lt_iff.mpr ?_⟩ fun h => hfull (Option.some.inj h)
        · rcases hself with hp | ⟨hp, hl⟩
          · exact .inl hp
          · exact .inr ⟨hp, .inl (UInt32.lt_of_le_of_lt hl hlt)⟩
        · rcases hreceived with hp | ⟨hp, hl⟩
          · exact .inl hp
          · exact .inr ⟨hp, .inl (UInt32.lt_of_le_of_lt hl hlt)⟩

/-- **The clock moves on exactly when it can count.** -/
theorem advance_lt_iff (checks : Bool) (self : Hlc) (received : Option Hlc) (nowMs : UInt64) :
    (∃ c, self.advance checks received nowMs = .ok c ∧ self < c ∧ ∀ r, received = some r → r < c)
      ↔ self.CanCount received nowMs := by
  cases received with
  | none =>
      rw [← tick_lt_iff checks]
      exact exists_congr fun c => and_congr_right fun _ => and_iff_left nofun
  | some r =>
      rw [← tickAfter_lt_iff checks]
      refine exists_congr fun c => and_congr_right fun _ => and_congr_right fun _ => ?_
      exact ⟨fun h => h r rfl, fun h _ hr => Option.some.inj hr ▸ h⟩

/-! ## Runs of message exchanges -/

section Exchanges

variable {ρ : Type}

/-- One event: a process ticks, after what it received if it received something. A call that
stops gives no event. -/
def exchange [DecidableEq ρ] (checks : Bool) : Clocks ρ Hlc → Action ρ UInt64 → Clocks ρ Hlc :=
  Clocks.step fun self received nowMs => (self.advance checks received nowMs).toOption

/-- The counter that the event counts up is not full. -/
def Countable (s : Clocks ρ Hlc) (a : Action ρ UInt64) : Prop :=
  (s.clock a.process).CanCount (a.received.bind s.stampAt) a.now

instance (s : Clocks ρ Hlc) (a : Action ρ UInt64) : Decidable (Countable s a) :=
  inferInstanceAs (Decidable (CanCount _ _ _))

theorem Countable.advances {checks : Bool} {s : Clocks ρ Hlc} {a : Action ρ UInt64}
    (h : Countable s a) :
    s.Advances (fun self received nowMs => (self.advance checks received nowMs).toOption) a := by
  obtain ⟨c, hc, hlocal, hreceived⟩ := (advance_lt_iff checks _ _ _).mpr h
  intro c' hc'
  dsimp only at hc'
  rw [hc] at hc'
  cases hc'
  exact ⟨hlocal, hreceived⟩

/-- The clocks of a run follow what happened before. -/
def Follows (s : Clocks ρ Hlc) : Prop :=
  ∀ i j, HappenedBefore s.history i j →
    ∃ a b, s.history[i]? = some a ∧ s.history[j]? = some b ∧ a.clock < b.clock

end Exchanges

/-- **The clock never runs backwards, except where a full counter is counted up**: a call
returns a clock beyond the local and the received one exactly when it counts up no full
counter, and in a run without such a step what happened before has the smaller clock. -/
theorem clock_never_backwards_iff (checks : Bool) :
    (∀ (self : Hlc) (nowMs : UInt64),
      (∃ c, self.tick checks nowMs = .ok c ∧ self < c) ↔ self.CanCount none nowMs)
    ∧ (∀ (self received : Hlc) (nowMs : UInt64),
      (∃ c, self.tickAfter checks received nowMs = .ok c ∧ self < c ∧ received < c)
        ↔ self.CanCount (some received) nowMs)
    ∧ ∀ (ρ : Type) [DecidableEq ρ] (clock : ρ → Hlc) (actions : List (Action ρ UInt64)),
      Along (exchange checks) Countable (Clocks.start clock) actions →
        Follows (run (exchange checks) (Clocks.start clock) actions) := by
  refine ⟨tick_lt_iff checks, tickAfter_lt_iff checks, ?_⟩
  intro ρ _ clock actions h i j hij
  exact Clocks.run_clock_lt (fun _ _ ha => ha.advances) h hij

/-- Two processes exchange a message in one millisecond. -/
theorem clock_never_backwards_exchange :
    Follows (run (exchange true) (Clocks.start fun n : Nat => ⟨100, 0, UInt32.ofNat n⟩)
      [⟨1, none, 90⟩, ⟨2, some 0, 100⟩]) :=
  (clock_never_backwards_iff true).2.2 Nat _ _ (by decide)

/-- With a full counter a tick gives no clock beyond, in either kind of build. -/
theorem not_clock_never_backwards :
    ¬ ∀ (self : Hlc) (nowMs : UInt64), ∃ checks c, self.tick checks nowMs = .ok c ∧ self < c := by
  intro h
  obtain ⟨checks, hc⟩ := h ⟨0, 4294967295, 0⟩ 0
  exact (tick_lt_iff checks _ _).mp hc rfl

end Hlc

end Agenomic.Atep
