import Agenomic.Connector.Conservation

/-!
# What the event sink knows of its losses

A report of lost events is an event, and can be lost itself: the spool has no room for its
line. The counter then goes up by one, as for any event, and the number that the report
carried is gone.

**`conserved_iff`**: in a run the sink accounts for what it lost exactly when no step loses
a report that carries a number other than one.
-/

namespace Agenomic.Connector

open Lib

/-- It reports a number of dropped events other than one. -/
def CodingEvent.reportsMore (e : CodingEvent) : Bool := e.reports && e.count != 1

namespace EventSink

/-- The event is on a line of the spool. -/
def Spooled (c : SinkConfig) (s : EventSink) (e : CodingEvent) : Prop :=
  ∃ line ∈ readLines c.sessionId s.spool, line.event = some e.toJson

/-- How many events were lost, reports aside. -/
def lostEvents (s : EventSink) : Nat := (s.lost.filter fun l => !l.event.reports).length

/-- What the reports that are not lost report. -/
def reported (s : EventSink) : Nat :=
  ((s.made.filter fun e => !(s.lost.map fun l => l.event.producerSeq).contains e.producerSeq).map
    CodingEvent.count).sum

/-- Events are conserved, and the losses counted. -/
structure Conserved (c : SinkConfig) (s : EventSink) : Prop where
  covered : ∀ e ∈ s.made, e.toJson ∈ s.delivered ∨ e ∈ s.inflight ∨ e ∈ s.queue ∨ s.Spooled c e
    ∨ e ∈ s.lost.map Loss.event
  evidence : ∀ l ∈ s.lost, l.event.mandatory = true →
    ∃ room, l.room = some room ∧ room < l.event.line.length
  counted : s.lostEvents = s.dropped + s.reported

/-- A spill of these events has no room for a report of more than one of them. -/
def Forgets (c : SinkConfig) (s : EventSink) (events : List CodingEvent) : Prop :=
  ∃ cand ∈ choose (s.room c) events, cand.kept = false ∧ cand.event.reportsMore = true

/-- A step loses such a report. -/
def LosesReport (c : SinkConfig) (s : EventSink) : SinkOp → Prop
  | .emit _ _ => c.maxBuffered ≤ s.queue.length ∧ (∀ e ∈ s.queue, e.mandatory = true)
      ∧ s.Forgets c (s.queue.take 1)
  | .answered (.failed _) =>
      match s.flushing with
      | .sending mark =>
          (mark < s.spool.length ∧ s.Forgets c (s.inflight.filter CodingEvent.mandatory))
            ∨ (c.maxBuffered < 2 * (s.requeue c s.inflight mark).queue.length
              ∧ (s.requeue c s.inflight mark).Forgets c
                ((s.requeue c s.inflight mark).queue.filter CodingEvent.mandatory))
      | _ => False
  | .spillRest => s.Forgets c s.queue
  | _ => False

variable {c : SinkConfig} {s : EventSink} {acked done spooled : List CodingEvent}
  {held : Multiset CodingEvent}

/-! ## Where an event is -/

theorem mem_linesAt {e : CodingEvent} {es : List CodingEvent} (h : e ∈ es) (start : Nat) :
    ∃ line ∈ linesAt start es, line.event = some e.toJson := by
  induction es generalizing start with
  | nil => cases h
  | cons f es ih =>
      rcases List.mem_cons.mp h with heq | hmem
      · rw [heq]
        exact ⟨_, List.mem_cons_self, rfl⟩
      · obtain ⟨line, hline, hevent⟩ := ih hmem (start + f.line.length)
        exact ⟨line, List.mem_cons_of_mem _ hline, hevent⟩

/-- **Every event is somewhere.** -/
theorem Sound.covered (h : Sound c s) : ∀ e ∈ s.made, e.toJson ∈ s.delivered ∨ e ∈ s.inflight
    ∨ e ∈ s.queue ∨ s.Spooled c e ∨ e ∈ s.lost.map Loss.event := by
  obtain ⟨acked, done, spooled, hbooks, hfiled⟩ := h
  intro e he
  have hmem : e ∈ s.holding acked spooled + ↑(s.lost.map Loss.event) := by
    rw [← hbooks.parts]
    exact he
  unfold holding at hmem
  simp only [Multiset.mem_add, Multiset.mem_coe] at hmem
  rcases hmem with (((hacked | hinflight) | hqueue) | hspooled) | hlost
  · exact .inl (hfiled.sent e hacked)
  · exact .inr (.inl hinflight)
  · exact .inr (.inr (.inl hqueue))
  · refine .inr (.inr (.inr (.inl ?_)))
    have hsession : ∀ f ∈ done ++ spooled, f.codingSessionId = c.sessionId := by
      intro f hf
      refine hbooks.session f (hbooks.mem_made ?_)
      unfold holding
      simp only [Multiset.mem_add, Multiset.mem_coe]
      rcases List.mem_append.mp hf with hsent | hthere
      · exact .inl (.inl (.inl (hfiled.behind hsent)))
      · exact .inr hthere
    unfold Spooled
    rw [hfiled.file, readLines_lines hsession]
    exact mem_linesAt (List.mem_append_right done hspooled) 0
  · exact .inr (.inr (.inr (.inr hlost)))

/-! ## The counts -/

/-- The reports that were made and not lost are those that are held. -/
theorem Books.reported_eq (h : Books c s held) : s.reported = (held.map CodingEvent.count).sum := by
  have hnodup : (s.made.map CodingEvent.producerSeq).Nodup :=
    List.pairwise_map.mpr (h.ordered.imp fun hlt => Nat.ne_of_lt hlt)
  have hseqs : (held.map CodingEvent.producerSeq
      + ↑(s.lost.map fun l => l.event.producerSeq) : Multiset Nat).Nodup := by
    have hmap : (held.map CodingEvent.producerSeq + ↑(s.lost.map fun l => l.event.producerSeq) : Multiset Nat)
        = ↑(s.made.map CodingEvent.producerSeq) := by
      rw [← Multiset.map_coe CodingEvent.producerSeq s.made, h.parts, Multiset.map_add, Multiset.map_coe,
        List.map_map]
      rfl
    rw [hmap]
    exact hnodup
  have hdisjoint := (Multiset.nodup_add.mp hseqs).2.2
  have hfilter : (↑(s.made.filter fun e =>
      !(s.lost.map fun l => l.event.producerSeq).contains e.producerSeq) : Multiset CodingEvent) = held := by
    have hcoe := Multiset.filter_coe (fun e : CodingEvent =>
      (!(s.lost.map fun l => l.event.producerSeq).contains e.producerSeq) = true) s.made
    simp only [Bool.decide_eq_true] at hcoe
    rw [← hcoe, h.parts, Multiset.filter_add, Multiset.filter_eq_self.mpr,
      Multiset.filter_eq_nil.mpr, add_zero]
    · intro e he hout
      obtain ⟨l, hl, rfl⟩ := List.mem_map.mp (Multiset.mem_coe.mp he)
      rw [Bool.not_eq_true', List.contains_eq_mem, decide_eq_false_iff_not] at hout
      exact hout (List.mem_map_of_mem hl)
    · intro e he
      rw [Bool.not_eq_true', List.contains_eq_mem, decide_eq_false_iff_not]
      intro hin
      exact Multiset.disjoint_left.mp hdisjoint (Multiset.mem_map_of_mem _ he) hin
  unfold reported
  rw [← Multiset.sum_coe, ← Multiset.map_coe, hfilter]

/-- Each of some elements counts at least one, the others nothing: their number is the sum of the
counts only when each counts one. -/
theorem length_filter_eq_sum_iff {α : Type*} {p : α → Bool} {f : α → Nat} {l : List α}
    (hpos : ∀ x ∈ l, p x = true → 0 < f x) (hzero : ∀ x ∈ l, p x = false → f x = 0) :
    (l.filter p).length ≤ (l.map f).sum
      ∧ ((l.filter p).length = (l.map f).sum ↔ ∀ x ∈ l, p x = true → f x = 1) := by
  induction l with
  | nil => exact ⟨Nat.le_refl 0, fun _ x hx => absurd hx List.not_mem_nil, fun _ => rfl⟩
  | cons x l ih =>
      obtain ⟨hle, hiff⟩ := ih (fun y hy => hpos y (List.mem_cons_of_mem x hy))
        fun y hy => hzero y (List.mem_cons_of_mem x hy)
      rw [List.map_cons, List.sum_cons, List.forall_mem_cons]
      cases hx : p x with
      | true =>
          have hone := hpos x List.mem_cons_self hx
          rw [List.filter_cons_of_pos hx, List.length_cons]
          refine ⟨by omega, fun heq => ?_, fun hall => ?_⟩
          · have htail : (l.filter p).length = (l.map f).sum := by omega
            exact ⟨fun _ => by omega, hiff.mp htail⟩
          · have htail := hiff.mpr hall.2
            have hhead := hall.1 rfl
            omega
      | false =>
          have hnone := hzero x List.mem_cons_self hx
          rw [List.filter_cons_of_neg (by rw [hx]; exact Bool.false_ne_true), hnone, Nat.zero_add]
          exact ⟨hle, fun heq => ⟨(nomatch ·), hiff.mp heq⟩, fun hall => hiff.mpr hall.2⟩

theorem CodingEvent.count_of_plain {e : CodingEvent} (h : e.reports = false) : e.count = 0 := by
  unfold CodingEvent.reports at h
  unfold CodingEvent.count
  cases hpayload : e.payload with
  | given fields => rfl
  | eventsDropped count =>
      rw [hpayload] at h
      cases h

/-- **The losses are counted exactly when no report of more than one event is lost.** -/
theorem Books.counted_iff (h : Books c s held) : s.lostEvents = s.dropped + s.reported
    ↔ ∀ l ∈ s.lost, l.event.reportsMore = false := by
  have hmade : (s.made.map CodingEvent.count).sum
      = (held.map CodingEvent.count).sum + (s.lost.map fun l => l.event.count).sum := by
    rw [← Multiset.sum_coe, ← Multiset.map_coe, h.parts, Multiset.map_add, Multiset.sum_add, Multiset.map_coe,
      Multiset.sum_coe, List.map_map]
    rfl
  have hcounts := h.counts
  have hsplit : s.lost.length = (s.lost.filter fun l => l.event.reports).length + s.lostEvents := by
    unfold lostEvents
    exact (List.length_eq_length_filter_add fun l : Loss => l.event.reports)
  have hlostmade : ∀ l ∈ s.lost, l.event ∈ s.made := by
    intro l hl
    have hmem : l.event ∈ (s.made : Multiset CodingEvent) := by
      rw [h.parts]
      exact Multiset.mem_add.mpr (.inr (List.mem_map_of_mem hl))
    exact hmem
  obtain ⟨-, hiff⟩ := length_filter_eq_sum_iff (p := fun l : Loss => l.event.reports)
    (f := fun l : Loss => l.event.count) (l := s.lost)
    (fun l hl hreports => (h.reports l.event (hlostmade l hl) hreports).2)
    fun l _ hplain => CodingEvent.count_of_plain hplain
  rw [h.reported_eq]
  constructor
  · intro heq l hl
    have hsum : (s.lost.filter fun l => l.event.reports).length = (s.lost.map fun l => l.event.count).sum := by
      omega
    have hone := hiff.mp hsum l hl
    unfold CodingEvent.reportsMore
    cases hreports : l.event.reports with
    | true =>
        rw [hone hreports]
        rfl
    | false => rfl
  · intro hnone
    have hsum := hiff.mpr fun l hl hreports => by
      have hmore := hnone l hl
      unfold CodingEvent.reportsMore at hmore
      rw [hreports, Bool.true_and, bne_eq_false_iff_eq] at hmore
      exact hmore
    omega

/-! ## What the steps lose -/

/-- A report of more than one event was lost. -/
def LostReport (s : EventSink) : Prop := ∃ l ∈ s.lost, l.event.reportsMore = true

theorem Books.conserved (h : Books c s held) (hsound : Sound c s) :
    Conserved c s ↔ ¬s.LostReport := by
  constructor
  · rintro hcon ⟨l, hl, hmore⟩
    rw [h.counted_iff.mp hcon.counted l hl] at hmore
    cases hmore
  · intro hnone
    refine ⟨hsound.covered, h.evidence, h.counted_iff.mpr fun l hl => ?_⟩
    exact Bool.eq_false_iff.mpr fun hmore => hnone ⟨l, hl, hmore⟩

/-- What is no evidence is no report. -/
theorem Books.plain (h : Books c s held) {e : CodingEvent} (he : e ∈ held) (hplain : e.mandatory = false) :
    e.reportsMore = false := by
  unfold CodingEvent.reportsMore
  cases hreports : e.reports with
  | true =>
      rw [(h.reports e (h.mem_made he) hreports).1] at hplain
      cases hplain
  | false => rfl

theorem lostReport_drop {events : List CodingEvent} (hplain : ∀ e ∈ events, e.reportsMore = false) :
    (s.drop events).LostReport ↔ s.LostReport := by
  constructor
  · rintro ⟨l, hl, hmore⟩
    rcases List.mem_append.mp hl with hold | hnew
    · exact ⟨l, hold, hmore⟩
    · obtain ⟨e, he, rfl⟩ := List.mem_map.mp hnew
      rw [hplain e he] at hmore
      cases hmore
  · rintro ⟨l, hl, hmore⟩
    exact ⟨l, List.mem_append_left _ hl, hmore⟩

theorem lostReport_spill (events : List CodingEvent) (at? : Option Nat) :
    (s.spill c events at?).LostReport ↔ s.LostReport ∨ s.Forgets c events := by
  constructor
  · rintro ⟨l, hl, hmore⟩
    rcases List.mem_append.mp hl with hold | hnew
    · exact .inl ⟨l, hold, hmore⟩
    · obtain ⟨cand, hcand, rfl⟩ := List.mem_map.mp hnew
      obtain ⟨hmem, hkept⟩ := List.mem_filter.mp hcand
      rw [Bool.not_eq_true'] at hkept
      exact .inr ⟨cand, hmem, hkept, hmore⟩
  · rintro (⟨l, hl, hmore⟩ | ⟨cand, hcand, hkept, hmore⟩)
    · exact ⟨l, List.mem_append_left _ hl, hmore⟩
    · refine ⟨cand.loss, List.mem_append_right _ (List.mem_map_of_mem (List.mem_filter.mpr ⟨hcand, ?_⟩)), hmore⟩
      rw [hkept]
      rfl

theorem lost_sendLines (lines : List Line) (batch : List Json) (sent total : Nat) :
    (s.sendLines c batch sent total lines).lost = s.lost := by
  obtain ⟨flushing, spool, heq⟩ := @sendLines_eq c s batch sent total lines
  rw [heq]

theorem lost_flushSpool : (s.flushSpool c).lost = s.lost := by
  obtain ⟨flushing, spool, dropped, heq⟩ := @flushSpool_eq c s
  rw [heq]

theorem lost_flush (stamp : Stamp) : (s.flush c stamp).lost = s.lost := by
  unfold EventSink.flush
  split
  · unfold doFlush
    dsimp only
    rw [lost_flushSpool]
    split <;> rfl
  · rfl

theorem lost_resume : (s.resume c).lost = s.lost := by
  unfold EventSink.resume
  split
  · exact lost_flushSpool
  · split
    · exact lost_flushSpool
    · split <;> rfl
  · rfl
  · rfl

theorem LostReport.congr {s' : EventSink} (h : s'.lost = s.lost) : s'.LostReport ↔ s.LostReport := by
  unfold LostReport
  rw [h]

/-- Making room loses a report when a queue of evidence is full and its first event a report. -/
theorem lostReport_makeRoom {s' : EventSink} (hbooks : Books c s (s.holding acked spooled))
    (h : s.makeRoom c = some s') : s'.LostReport ↔ s.LostReport
      ∨ (c.maxBuffered ≤ s.queue.length ∧ (∀ e ∈ s.queue, e.mandatory = true)
        ∧ s.Forgets c (s.queue.take 1)) := by
  unfold makeRoom at h
  split at h
  · rename_i hfull
    split at h
    · rename_i i hfind
      cases h
      obtain ⟨hi, hplain, -⟩ := List.findIdx?_eq_some_iff_getElem.mp hfind
      rw [Bool.not_eq_true'] at hplain
      have hmem : s.queue[i] ∈ s.holding acked spooled := by
        unfold holding
        simp only [Multiset.mem_add, Multiset.mem_coe]
        exact .inl (.inr (List.getElem_mem hi))
      rw [List.getElem?_eq_getElem hi, Option.toList_some]
      refine (LostReport.congr rfl).trans ((lostReport_drop fun e he => ?_).trans ?_)
      · rw [List.mem_singleton.mp he]
        exact hbooks.plain hmem hplain
      · refine (or_iff_left ?_).symm
        rintro ⟨-, hall, -⟩
        rw [hall _ (List.getElem_mem hi)] at hplain
        cases hplain
    · rename_i hfind
      have hall : ∀ e ∈ s.queue, e.mandatory = true := by
        intro e he
        have hevidence := List.findIdx?_eq_none_iff.mp hfind e he
        rw [Bool.not_eq_false'] at hevidence
        exact hevidence
      split at h
      · cases h
      · rename_i first rest hqueue
        cases h
        refine (lostReport_spill [first] none).trans (or_congr (LostReport.congr rfl) ?_)
        rw [hqueue]
        rw [hqueue] at hfull hall
        exact ⟨fun hforgets => ⟨hfull, hall, hforgets⟩, fun hloses => hloses.2.2⟩
  · rename_i hnotfull
    cases h
    exact (or_iff_left fun hloses => hnotfull hloses.1).symm

theorem lostReport_emit (hbooks : Books c s (s.holding acked spooled)) (e : Emission) (stamp : Stamp) :
    (s.emit c e stamp).LostReport ↔ s.LostReport ∨ s.LosesReport c (.emit e stamp) := by
  have hbooks' : Books c { s with seq := s.seq + 1 }
      (holding { s with seq := s.seq + 1 } acked spooled) :=
    hbooks.of_eq rfl rfl (Nat.le_succ s.seq) rfl
  unfold EventSink.emit
  dsimp only
  cases hroom : makeRoom c { s with seq := s.seq + 1 } with
  | none =>
      refine (or_iff_left ?_).symm
      rintro ⟨hfull, hall, cand, hcand, -⟩
      -- the queue is empty
      have hnil : s.queue = [] := by
        unfold makeRoom at hroom
        dsimp only at hroom
        rw [if_pos hfull] at hroom
        split at hroom
        · cases hroom
        · split at hroom
          · rename_i hqueue
            exact hqueue
          · cases hroom
      rw [hnil] at hcand
      exact absurd hcand List.not_mem_nil
  | some s₁ =>
      have hmade := lostReport_makeRoom hbooks' hroom
      dsimp only
      split
      · exact (LostReport.congr (lost_flush stamp)).trans hmade
      · exact hmade

theorem lostReport_requeue {batch : List CodingEvent} (hbooks : Books c s held)
    (hbatch : ∀ e ∈ batch, e ∈ held) (mark : Nat) :
    (s.requeue c batch mark).LostReport ↔ s.LostReport
      ∨ (mark < s.spool.length ∧ s.Forgets c (batch.filter CodingEvent.mandatory)) := by
  unfold requeue
  split
  · rename_i hsmall
    exact (LostReport.congr rfl).trans (or_iff_left fun hloses => absurd hloses.1 (not_lt.mpr hsmall)).symm
  · rename_i hgrown
    refine (lostReport_spill _ _).trans (or_congr (lostReport_drop fun e he => ?_) ?_)
    · exact hbooks.plain (hbatch e (List.mem_of_mem_filter he)) (plain_of_mem e he)
    · exact ⟨fun hforgets => ⟨not_le.mp hgrown, hforgets⟩, fun hloses => hloses.2⟩

theorem lostReport_shed (hbooks : Books c s held) (hqueue : ∀ e ∈ s.queue, e ∈ held) :
    (s.shed c).LostReport ↔ s.LostReport ∨ (c.maxBuffered < 2 * s.queue.length
      ∧ s.Forgets c (s.queue.filter CodingEvent.mandatory)) := by
  unfold shed
  split
  · rename_i hlong
    refine (LostReport.congr rfl).trans ((lostReport_spill _ none).trans
      (or_congr (lostReport_drop fun e he => ?_) ?_))
    · exact hbooks.plain (hqueue e (List.mem_of_mem_filter he)) (plain_of_mem e he)
    · exact ⟨fun hforgets => ⟨hlong, hforgets⟩, fun hloses => hloses.2⟩
  · rename_i hshort
    exact (or_iff_left fun hloses => hshort hloses.1).symm

/-- What the gateway received makes no difference to where a batch goes. -/
theorem requeue_receive (events : List Json) (batch : List CodingEvent) (mark : Nat) :
    (s.receive events).requeue c batch mark = (s.requeue c batch mark).receive events := by
  unfold requeue
  split
  · rename_i hsmall
    rw [if_pos (show s.spool.length ≤ mark from hsmall)]
    rfl
  · rename_i hgrown
    rw [if_neg (show ¬s.spool.length ≤ mark from hgrown)]
    rfl

theorem lostReport_answered (h : Sound c s) (outcome : Sent) :
    (s.answered c outcome).LostReport ↔ s.LostReport ∨ s.LosesReport c (.answered outcome) := by
  obtain ⟨acked, done, spooled, hbooks, hfiled⟩ := h
  unfold EventSink.answered LosesReport
  cases hflushing : s.flushing with
  | spooling batch stop rest sent total =>
      cases outcome with
      | ok => exact (LostReport.congr (lost_sendLines _ _ _ _)).trans (or_iff_left id).symm
      | failed kept => exact (LostReport.congr rfl).trans (or_iff_left id).symm
  | sending mark =>
      cases outcome with
      | ok => exact (LostReport.congr lost_flushSpool).trans (or_iff_left id).symm
      | failed kept =>
          have hmark : mark = 0 := by
            have hplace := hfiled.place
            rw [hflushing] at hplace
            exact hplace.2
          have hfile : s.spool = spoolOf spooled := by
            have hplace := hfiled.place
            rw [hflushing] at hplace
            rw [hfiled.file, hplace.1, List.nil_append]
          have hsame : s.holding acked spooled
              = (↑acked + ↑s.queue + ↑spooled + ↑s.inflight : Multiset CodingEvent) := by
            unfold holding
            abel
          obtain ⟨spooled₁, hbooks₁, -⟩ := books_requeue (hsame ▸ hbooks) hfile
          have hbatch : ∀ e ∈ s.inflight, e ∈ s.holding acked spooled := by
            intro e he
            unfold holding
            simp only [Multiset.mem_add, Multiset.mem_coe]
            exact .inl (.inl (.inr he))
          have hback := lostReport_requeue hbooks hbatch mark
          dsimp only
          rw [requeue_receive]
          rw [hmark] at hback ⊢
          have hreceived : ∀ events, Books c ((s.requeue c s.inflight 0).receive events)
              (↑acked + ↑(s.requeue c s.inflight 0).queue + ↑spooled₁) := fun events =>
            hbooks₁.of_eq rfl rfl (Nat.le_refl _) rfl
          refine (LostReport.congr rfl).trans ((lostReport_shed (hreceived _) fun e he => ?_).trans ?_)
          · simp only [Multiset.mem_add, Multiset.mem_coe]
            exact .inl (.inr he)
          · rw [← or_assoc]
            exact or_congr ((LostReport.congr rfl).trans hback) Iff.rfl
  | _ =>
      cases outcome with
      | ok => exact (or_iff_left id).symm
      | failed kept => exact (or_iff_left id).symm

/-- **One step** loses a report of more than one event exactly when it is said to. -/
theorem lostReport_step (h : Sound c s) (op : SinkOp) :
    (step c s op).LostReport ↔ s.LostReport ∨ s.LosesReport c op := by
  cases op with
  | emit e report =>
      obtain ⟨acked, done, spooled, hbooks, -⟩ := h
      exact lostReport_emit hbooks e report
  | flush report => exact (LostReport.congr (lost_flush report)).trans (or_iff_left id).symm
  | resume => exact (LostReport.congr lost_resume).trans (or_iff_left id).symm
  | answered outcome => exact lostReport_answered h outcome
  | spillRest => exact (lostReport_spill s.queue none).trans (or_congr (LostReport.congr rfl) Iff.rfl)

theorem lostReport_run (h : Sound c s) (ops : List SinkOp) :
    ¬(run (step c) s ops).LostReport
      ↔ ¬s.LostReport ∧ Along (step c) (fun s op => ¬s.LosesReport c op) s ops := by
  induction ops generalizing s with
  | nil => exact ⟨fun hnone => ⟨hnone, trivial⟩, fun hboth => hboth.1⟩
  | cons op ops ih =>
      rw [run_cons, ih (h.step op), lostReport_step h op, not_or, and_assoc]
      rfl

/-- **The sink accounts for its losses exactly as long as no step loses a report of more than one
event.** -/
theorem conserved_iff (c : SinkConfig) (ops : List SinkOp) : Conserved c (run (step c) new ops)
    ↔ Along (step c) (fun s op => ¬s.LosesReport c op) new ops := by
  have hsound := sound_run c ops
  obtain ⟨acked, done, spooled, hbooks, -⟩ := id hsound
  rw [hbooks.conserved hsound, lostReport_run (sound_new c)]
  refine and_iff_right ?_
  rintro ⟨l, hl, -⟩
  cases hl

/-- A sink whose spool has no room. -/
def fullSink : SinkConfig :=
  { maxBuffered := 1, maxSpoolBytes := 0, batchSize := 100, sessionId := "s", epoch := "e" }

/-- Two events are dropped, the report of them cannot be sent, and is lost in its turn. -/
def offline : List SinkOp :=
  let stamp : Stamp := ⟨"id", "now"⟩
  let usage : Emission := ⟨.usage, .runtime, .native, [], {}, stamp⟩
  [.emit usage stamp, .emit usage stamp, .emit usage stamp, .flush stamp, .resume,
    .answered (.failed false)]

theorem not_conserved : ¬∀ (c : SinkConfig) (ops : List SinkOp), Conserved c (run (step c) new ops) := by
  intro h
  exact absurd (h fullSink offline).counted (by decide +kernel)

end EventSink

end Agenomic.Connector
