import Agenomic.Connector.EventSink

/-!
# The books of the event sink

Every event that was made is held somewhere, or lost, and each once. The counter and the
reports account for as many events as were lost: a loss adds one to the counter, and a
report takes the counter over. Dropping events and spilling them keeps the books.
-/

namespace Agenomic.Connector

open Lib

namespace EventSink

/-! ## The choice of a spill -/

/-- A candidate was decided: its line is written, or did not fit. -/
def Candidate.Decided (cand : Candidate) : Prop :=
  cand.kept = true ∨ cand.room < cand.event.line.length

theorem pass_events (evidence : Bool) (room : Int) (cands : List Candidate) :
    (pass evidence room cands).1.map Candidate.event = cands.map Candidate.event := by
  induction cands generalizing room with
  | nil => rfl
  | cons cand rest ih =>
      unfold pass
      split
      · exact congrArg (cand.event :: ·) (ih room)
      · split
        · exact congrArg (cand.event :: ·) (ih room)
        · exact congrArg (cand.event :: ·) (ih _)

/-- A pass decides the candidates of its kind, and leaves the others as they are. -/
theorem pass_decides (evidence : Bool) (room : Int) (cands : List Candidate) :
    ∀ cand ∈ (pass evidence room cands).1,
      (cand.event.mandatory ≠ evidence ∧ cand ∈ cands)
        ∨ (cand.event.mandatory = evidence ∧ Candidate.Decided cand) := by
  induction cands generalizing room with
  | nil => exact fun cand h => absurd h List.not_mem_nil
  | cons first rest ih =>
      intro cand hcand
      have hrest : ∀ room, cand ∈ (pass evidence room rest).1 →
          (cand.event.mandatory ≠ evidence ∧ cand ∈ first :: rest)
            ∨ (cand.event.mandatory = evidence ∧ Candidate.Decided cand) := fun room hmem =>
        (ih room cand hmem).imp_left fun h => ⟨h.1, List.mem_cons_of_mem first h.2⟩
      unfold pass at hcand
      split at hcand
      · rename_i hkind
        rcases List.mem_cons.mp hcand with heq | hmem
        · rw [heq]
          exact .inl ⟨hkind, List.mem_cons_self⟩
        · exact hrest _ hmem
      · rename_i hkind
        rw [ne_eq, not_not] at hkind
        split at hcand
        · rename_i hroom
          rcases List.mem_cons.mp hcand with heq | hmem
          · rw [heq]
            exact .inr ⟨hkind, .inr hroom⟩
          · exact hrest _ hmem
        · rcases List.mem_cons.mp hcand with heq | hmem
          · rw [heq]
            exact .inr ⟨hkind, .inl rfl⟩
          · exact hrest _ hmem

theorem choose_events (room : Int) (events : List CodingEvent) :
    (choose room events).map Candidate.event = events := by
  unfold choose
  dsimp only
  rw [pass_events, pass_events, List.map_map]
  exact List.map_id events

/-- **Every event of a spill is decided.** -/
theorem choose_decides (room : Int) (events : List CodingEvent) :
    ∀ cand ∈ choose room events, Candidate.Decided cand := by
  intro cand hcand
  unfold choose at hcand
  dsimp only at hcand
  rcases pass_decides false _ _ cand hcand with ⟨hkind, hmem⟩ | ⟨-, hdecided⟩
  · rcases pass_decides true _ _ cand hmem with ⟨hother, -⟩ | ⟨-, hdecided⟩
    · cases h : cand.event.mandatory with
      | true => exact absurd h hother
      | false => exact absurd h hkind
    · exact hdecided
  · exact hdecided

/-- The events of a spill that are written. -/
def chosen (room : Int) (events : List CodingEvent) : List CodingEvent :=
  ((choose room events).filter Candidate.kept).map Candidate.event

/-- What becomes of the others. -/
def unchosen (room : Int) (events : List CodingEvent) : List Loss :=
  ((choose room events).filter fun cand => !cand.kept).map Candidate.loss

theorem chosen_add_unchosen (room : Int) (events : List CodingEvent) :
    (chosen room events : Multiset CodingEvent) + ↑((unchosen room events).map Loss.event) = ↑events := by
  have hperm := (List.filter_append_perm Candidate.kept (choose room events)).map Candidate.event
  rw [List.map_append, choose_events] at hperm
  rw [Multiset.coe_add, Multiset.coe_eq_coe]
  refine List.Perm.trans (List.Perm.of_eq ?_) hperm
  unfold chosen unchosen
  rw [List.map_map]
  rfl

/-- An event that is not written had too little room. -/
theorem unchosen_room {room : Int} {events : List CodingEvent} {l : Loss}
    (h : l ∈ unchosen room events) : ∃ left, l.room = some left ∧ left < l.event.line.length := by
  obtain ⟨cand, hcand, heq⟩ := List.mem_map.mp h
  obtain ⟨hmem, hkept⟩ := List.mem_filter.mp hcand
  rw [Bool.not_eq_true'] at hkept
  refine ⟨cand.room, by rw [← heq]; rfl, ?_⟩
  rw [← heq]
  refine (choose_decides room events cand hmem).resolve_left fun h => ?_
  rw [hkept] at h
  cases h

/-! ## The books -/

/-- The books, where `held` is what the sink holds or has delivered. -/
structure Books (c : SinkConfig) (s : EventSink) (held : Multiset CodingEvent) : Prop where
  parts : (s.made : Multiset CodingEvent) = held + ↑(s.lost.map Loss.event)
  ordered : s.made.Pairwise fun e f => e.producerSeq < f.producerSeq
  seq : ∀ e ∈ s.made, e.producerSeq ≤ s.seq
  session : ∀ e ∈ s.made, e.codingSessionId = c.sessionId
  evidence : ∀ l ∈ s.lost, l.event.mandatory = true →
    ∃ room, l.room = some room ∧ room < l.event.line.length
  counts : s.lost.length = s.dropped + (s.made.map CodingEvent.count).sum
  reports : ∀ e ∈ s.made, e.reports = true → e.mandatory = true ∧ 0 < e.count

variable {c : SinkConfig} {s : EventSink} {held : Multiset CodingEvent}

theorem Books.mem_made (h : Books c s held) {e : CodingEvent} (he : e ∈ held) : e ∈ s.made := by
  have hmem : e ∈ (s.made : Multiset CodingEvent) := by
    rw [h.parts]
    exact Multiset.mem_add.mpr (.inl he)
  exact hmem

/-- The books are about what was made and lost, and about the counters. -/
theorem Books.of_eq {s' : EventSink} (h : Books c s held) (hmade : s'.made = s.made)
    (hlost : s'.lost = s.lost) (hseq : s.seq ≤ s'.seq) (hdropped : s'.dropped = s.dropped) :
    Books c s' held := by
  refine ⟨?_, ?_, ?_, ?_, ?_, ?_, ?_⟩
  · rw [hmade, hlost]
    exact h.parts
  · rw [hmade]
    exact h.ordered
  · rw [hmade]
    exact fun e he => (h.seq e he).trans hseq
  · rw [hmade]
    exact h.session
  · rw [hlost]
    exact h.evidence
  · rw [hlost, hdropped, hmade]
    exact h.counts
  · rw [hmade]
    exact h.reports

/-- What is added to the losses is added to the counter. -/
theorem Books.lose {s' : EventSink} {losses : List Loss}
    (h : Books c s (held + ↑(losses.map Loss.event))) (hmade : s'.made = s.made)
    (hlost : s'.lost = s.lost ++ losses) (hseq : s'.seq = s.seq)
    (hdropped : s'.dropped = s.dropped + losses.length)
    (hevidence : ∀ l ∈ losses, l.event.mandatory = true →
      ∃ room, l.room = some room ∧ room < l.event.line.length) : Books c s' held := by
  refine ⟨?_, ?_, ?_, ?_, ?_, ?_, ?_⟩
  · rw [hmade, hlost, List.map_append, ← Multiset.coe_add, h.parts]
    abel
  · rw [hmade]
    exact h.ordered
  · rw [hmade, hseq]
    exact h.seq
  · rw [hmade]
    exact h.session
  · intro l hl
    rw [hlost] at hl
    rcases List.mem_append.mp hl with hold | hnew
    · exact h.evidence l hold
    · exact hevidence l hnew
  · have hcounts := h.counts
    rw [hlost, hdropped, hmade, List.length_append]
    omega
  · rw [hmade]
    exact h.reports

/-- **Events that are dropped** are no evidence. -/
theorem Books.drop {events : List CodingEvent} (h : Books c s (held + ↑events))
    (hplain : ∀ e ∈ events, e.mandatory = false) : Books c (s.drop events) held := by
  have hevents : (events.map fun e => Loss.mk e none).map Loss.event = events := by
    rw [List.map_map]
    exact List.map_id events
  have h' : Books c s (held + ↑((events.map fun e => Loss.mk e none).map Loss.event)) := by
    rw [hevents]
    exact h
  refine h'.lose rfl rfl rfl ?_ ?_
  · rw [List.length_map]
    rfl
  · intro l hl hmandatory
    obtain ⟨e, he, heq⟩ := List.mem_map.mp hl
    rw [← heq] at hmandatory
    dsimp only at hmandatory
    rw [hplain e he] at hmandatory
    cases hmandatory

/-- **Events that are spilled** are held, or had no room. -/
theorem Books.spill {events : List CodingEvent} (h : Books c s (held + ↑events)) (at? : Option Nat) :
    Books c (s.spill c events at?) (held + ↑(chosen (s.room c) events)) := by
  have h' : Books c s (held + ↑(chosen (s.room c) events)
      + ↑((unchosen (s.room c) events).map Loss.event)) := by
    rw [add_assoc, chosen_add_unchosen]
    exact h
  refine h'.lose rfl rfl rfl ?_ ?_
  · unfold unchosen
    rw [List.length_map]
    rfl
  · exact fun l hl _ => unchosen_room hl

/-- An event that is made is held. -/
theorem Books.make {s' : EventSink} {e : CodingEvent} (h : Books c s held)
    (hmade : s'.made = s.made ++ [e]) (hlost : s'.lost = s.lost) (hseq : s.seq ≤ s'.seq)
    (hcount : s'.dropped + e.count = s.dropped) (hbehind : ∀ f ∈ s.made, f.producerSeq < e.producerSeq)
    (heseq : e.producerSeq ≤ s'.seq)
    (hsession : e.codingSessionId = c.sessionId)
    (hreports : e.reports = true → e.mandatory = true ∧ 0 < e.count) :
    Books c s' (held + ↑[e]) := by
  refine ⟨?_, ?_, ?_, ?_, ?_, ?_, ?_⟩
  · rw [hmade, hlost, ← Multiset.coe_add, h.parts]
    abel
  · rw [hmade, List.pairwise_append]
    refine ⟨h.ordered, List.pairwise_singleton _ e, fun f hf g hg => ?_⟩
    rw [List.mem_singleton.mp hg]
    exact hbehind f hf
  · intro f hf
    rw [hmade] at hf
    rcases List.mem_append.mp hf with hold | hnew
    · exact (h.seq f hold).trans hseq
    · rw [List.mem_singleton.mp hnew]
      exact heseq
  · intro f hf
    rw [hmade] at hf
    rcases List.mem_append.mp hf with hold | hnew
    · exact h.session f hold
    · rw [List.mem_singleton.mp hnew]
      exact hsession
  · rw [hlost]
    exact h.evidence
  · have hcounts := h.counts
    rw [hlost, hmade, List.map_append, List.sum_append, List.map_singleton, List.sum_singleton]
    omega
  · intro f hf
    rw [hmade] at hf
    rcases List.mem_append.mp hf with hold | hnew
    · exact h.reports f hold
    · rw [List.mem_singleton.mp hnew]
      exact hreports

/-- **A report** takes the counter over. -/
theorem Books.report (h : Books c s held) (hdropped : 0 < s.dropped) (stamp : Stamp) :
    ∃ e, (s.report c stamp).queue = e :: s.queue ∧ Books c (s.report c stamp) (held + ↑[e]) := by
  refine ⟨_, rfl, h.make rfl rfl (Nat.le_succ s.seq) (Nat.zero_add s.dropped) ?_ (Nat.le_refl _) rfl
    fun _ => ⟨rfl, hdropped⟩⟩
  exact fun f hf => Nat.lt_succ_of_le (h.seq f hf)

end EventSink

end Agenomic.Connector
