import Agenomic.Connector.Order
import Agenomic.Connector.SinkLosses

/-!
# Closing the event sink

`close` waits for the flush under way, or begins one, and then writes what is left of the queue
to the spool, once. Nothing keeps the sink from being used further: events that are emitted then,
and a batch of another flush that comes back then, stay in the queue, and what is dropped then is
counted and reported nowhere.

**`kept_run`**: in a run without these, once `close` has resolved and nothing is being sent, every
event is delivered, in the spool, or accounted for by a report that is.
-/

namespace Agenomic.Connector

open Lib

/-- Where close() is. -/
inductive Closing where
  | not
  /-- It awaits the flush that it found, or began. -/
  | flushing
  /-- That flush is over. -/
  | flushed
  | closed
  deriving DecidableEq

structure ClosingSink where
  sink : EventSink
  closing : Closing

inductive ClosingOp where
  | emit (e : Emission) (report : Stamp)
  | flush (report : Stamp)
  | resume
  | answered (outcome : Sent)
  | close (report : Stamp)
  /-- close() goes on after it waited. -/
  | finish

namespace EventSink

/-- A send is in flight. -/
def sending (s : EventSink) : Bool :=
  match s.flushing with
  | .spooling .. | .sending _ => true
  | _ => false

end EventSink

namespace ClosingSink

def new : ClosingSink := ⟨.new, .not⟩

variable (c : SinkConfig) (s : ClosingSink)

def close (stamp : Stamp) : ClosingSink :=
  match s.closing with
  | .not =>
      { sink := s.sink.flush c stamp
        closing := .flushing }
  | _ => s

/-- The end of the flush that close() awaits is the first after its call. -/
def resume : ClosingSink :=
  { sink := s.sink.resume c
    closing := match s.closing, s.sink.flushing with
      | .flushing, .ending => .flushed
      | closing, _ => closing }

def finish : ClosingSink :=
  match s.closing with
  | .flushed =>
      { sink := s.sink.spillRest c
        closing := .closed }
  | _ => s

def step (c : SinkConfig) (s : ClosingSink) : ClosingOp → ClosingSink
  | .emit e report => { s with sink := s.sink.emit c e report }
  | .flush report => { s with sink := s.sink.flush c report }
  | .resume => s.resume c
  | .answered outcome => { s with sink := s.sink.answered c outcome }
  | .close report => s.close c report
  | .finish => s.finish c

end ClosingSink

namespace EventSink

/-! ## What is safe -/

/-- It is delivered, or in the spool. -/
def Safe (c : SinkConfig) (s : EventSink) (e : CodingEvent) : Prop :=
  e.toJson ∈ s.delivered ∨ s.Spooled c e

/-- Every event is safe, but for as many as the safe reports report. -/
def Accounted (s : EventSink) (safe : CodingEvent → Prop) : Prop :=
  ∃ gone rs : List CodingEvent, (∀ e ∈ s.made, e.reports = false → safe e ∨ e ∈ gone)
    ∧ rs.Sublist s.made ∧ (∀ r ∈ rs, r.reports = true ∧ safe r)
    ∧ gone.length ≤ (rs.map CodingEvent.count).sum

/-- Nothing is only in memory. -/
def Kept (c : SinkConfig) (s : EventSink) : Prop := s.Accounted (s.Safe c)

/-- Nothing is only in memory, but for the batch in flight. -/
def Held (c : SinkConfig) (s : EventSink) : Prop := s.Accounted fun e => s.Safe c e ∨ e ∈ s.inflight

variable {c : SinkConfig} {s s' : EventSink} {sent done spooled : List CodingEvent}

theorem Accounted.mono {safe safe' : CodingEvent → Prop} (h : s.Accounted safe)
    (hmade : s.made.Sublist s'.made) (hplain : ∀ e ∈ s'.made, e.reports = false → e ∈ s.made)
    (hsafe : ∀ e ∈ s.made, safe e → safe' e) : s'.Accounted safe' := by
  obtain ⟨gone, rs, hall, hrs, hreports, hcount⟩ := h
  refine ⟨gone, rs, fun e he hplain' => ?_, hrs.trans hmade, fun r hr => ?_, hcount⟩
  · have hold := hplain e he hplain'
    exact (hall e hold hplain').imp_left (hsafe e hold)
  · obtain ⟨hreport, hrsafe⟩ := hreports r hr
    exact ⟨hreport, hsafe r (hrs.subset hr) hrsafe⟩

theorem event_mem_linesAt {line : Line} {es : List CodingEvent} {start : Nat} (h : line ∈ linesAt start es) :
    ∃ f ∈ es, line.event = some f.toJson := by
  induction es generalizing start with
  | nil => cases h
  | cons f es ih =>
      rcases List.mem_cons.mp h with heq | hmem
      · rw [heq]
        exact ⟨f, List.mem_cons_self, rfl⟩
      · obtain ⟨g, hg, hevent⟩ := ih hmem
        exact ⟨g, List.mem_cons_of_mem f hg, hevent⟩

/-- What is on a line of the spool. -/
theorem spooled_iff {es : List CodingEvent} (hspool : s.spool = spoolOf es)
    (hsession : ∀ f ∈ es, f.codingSessionId = c.sessionId) {e : CodingEvent} :
    s.Spooled c e ↔ ∃ f ∈ es, f.toJson = e.toJson := by
  unfold Spooled
  rw [hspool, readLines_lines hsession]
  constructor
  · rintro ⟨line, hline, hevent⟩
    obtain ⟨f, hf, hread⟩ := event_mem_linesAt hline
    rw [hread] at hevent
    exact ⟨f, hf, Option.some.inj hevent⟩
  · rintro ⟨f, hf, heq⟩
    rw [← heq]
    exact mem_linesAt hf 0

theorem safe_iff (hfiled : s.Filed sent done spooled) (hlined : s.Lined sent spooled)
    (hsession : ∀ f ∈ s.made, f.codingSessionId = c.sessionId) {e : CodingEvent} :
    s.Safe c e ↔ ∃ f ∈ sent ++ spooled, f.toJson = e.toJson := by
  have hfile : ∀ f ∈ done ++ spooled, f.codingSessionId = c.sessionId := by
    intro f hf
    refine hsession f (hlined.made f ?_)
    rcases List.mem_append.mp hf with hsent | hthere
    · exact List.mem_append_left _ (hfiled.behind hsent)
    · exact List.mem_append_right _ (List.mem_append_right _ (List.mem_append_left _ hthere))
  unfold Safe
  rw [spooled_iff hfiled.file hfile, hlined.delivered, List.mem_map]
  constructor
  · rintro (⟨f, hf, heq⟩ | ⟨f, hf, heq⟩)
    · exact ⟨f, List.mem_append_left _ hf, heq⟩
    · rcases List.mem_append.mp hf with hsent | hthere
      · exact ⟨f, List.mem_append_left _ (hfiled.behind hsent), heq⟩
      · exact ⟨f, List.mem_append_right _ hthere, heq⟩
  · rintro ⟨f, hf, heq⟩
    rcases List.mem_append.mp hf with hsent | hthere
    · exact .inl ⟨f, hsent, heq⟩
    · exact .inr ⟨f, List.mem_append_right _ hthere, heq⟩

/-- **What is safe stays safe.** -/
theorem Safe.step {e : CodingEvent} (h : s.Safe c e) (hsound : Sound c s) (hline : s.InLine) (op : SinkOp) :
    (step c s op).Safe c e := by
  obtain ⟨sent, done, spooled, hfiled, hlined⟩ := hline
  obtain ⟨sent', done', spooled', hfiled', hlined', hsent, hspooled⟩ := onward_step hsound hfiled hlined op
  obtain ⟨_, _, _, hbooks, -⟩ := id hsound
  obtain ⟨_, _, _, hbooks', -⟩ := hsound.step op
  rw [safe_iff hfiled hlined hbooks.session] at h
  rw [safe_iff hfiled' hlined' hbooks'.session]
  obtain ⟨f, hf, heq⟩ := h
  refine ⟨f, ?_, heq⟩
  rcases List.mem_append.mp hf with hold | hthere
  · exact List.mem_append_left _ (hsent hold)
  · exact hspooled hthere

/-! ## What a spill has room for -/

/-- The events of one kind. -/
def ofKind (evidence : Bool) (es : List CodingEvent) : List CodingEvent :=
  es.filter fun e => e.mandatory == evidence

theorem size_cons (e : CodingEvent) (es : List CodingEvent) : size (e :: es) = e.line.length + size es := by
  unfold size
  rw [spoolOf_cons, List.length_append]

theorem size_ofKind (es : List CodingEvent) : size (ofKind true es) + size (ofKind false es) = size es := by
  induction es with
  | nil => rfl
  | cons e es ih =>
      unfold ofKind at ih ⊢
      rw [size_cons]
      cases hkind : e.mandatory with
      | true =>
          rw [List.filter_cons_of_pos (by rw [hkind]; rfl), List.filter_cons_of_neg (by rw [hkind]; decide),
            size_cons]
          omega
      | false =>
          rw [List.filter_cons_of_neg (by rw [hkind]; decide), List.filter_cons_of_pos (by rw [hkind]; rfl),
            size_cons]
          omega

/-- A pass leaves the other kind as it is. -/
theorem pass_leaves {evidence : Bool} {cand : Candidate} (hkind : cand.event.mandatory ≠ evidence) :
    ∀ {cands : List Candidate} {room : Int}, cand ∈ cands → cand ∈ (pass evidence room cands).1 := by
  intro cands
  induction cands with
  | nil => exact fun h => absurd h List.not_mem_nil
  | cons first rest ih =>
      intro room h
      unfold pass
      rcases List.mem_cons.mp h with rfl | hmem
      · rw [if_pos hkind]
        exact List.mem_cons_self
      · split
        · exact List.mem_cons_of_mem _ (ih hmem)
        · split
          · exact List.mem_cons_of_mem _ (ih hmem)
          · exact List.mem_cons_of_mem _ (ih hmem)

/-- What follows makes no difference to the candidates in front. -/
theorem pass_front {evidence : Bool} {cand : Candidate} {rest : List Candidate} :
    ∀ {first : List Candidate} {room : Int}, cand ∈ (pass evidence room first).1 →
      cand ∈ (pass evidence room (first ++ rest)).1 := by
  intro first
  induction first with
  | nil => exact fun h => absurd h List.not_mem_nil
  | cons cand' first ih =>
      intro room h
      rw [List.cons_append]
      unfold pass at h ⊢
      by_cases hkind : cand'.event.mandatory ≠ evidence
      · rw [if_pos hkind] at h ⊢
        exact List.mem_cons.mpr ((List.mem_cons.mp h).imp_right ih)
      · rw [if_neg hkind] at h ⊢
        by_cases hroom : room < cand'.event.line.length
        · rw [if_pos hroom] at h ⊢
          exact List.mem_cons.mpr ((List.mem_cons.mp h).imp_right ih)
        · rw [if_neg hroom] at h ⊢
          exact List.mem_cons.mpr ((List.mem_cons.mp h).imp_right ih)

/-- **What fits is kept**: the events of the kind, when there is room for them all. -/
theorem pass_fits {evidence : Bool} {cands : List Candidate} {room : Int}
    (h : (size (ofKind evidence (cands.map Candidate.event)) : Int) ≤ room) :
    (∀ cand ∈ (pass evidence room cands).1, cand.event.mandatory = evidence → cand.kept = true)
      ∧ (pass evidence room cands).2 = room - size (ofKind evidence (cands.map Candidate.event)) := by
  induction cands generalizing room with
  | nil =>
      refine ⟨fun cand hcand => absurd hcand List.not_mem_nil, ?_⟩
      show room = room - ((0 : Nat) : Int)
      omega
  | cons first rest ih =>
      unfold ofKind at h ih ⊢
      rw [List.map_cons] at h ⊢
      unfold pass
      by_cases hkind : first.event.mandatory = evidence
      · rw [List.filter_cons_of_pos (by rw [hkind]; exact beq_self_eq_true evidence), size_cons] at h ⊢
        obtain ⟨hkept, hleft⟩ := @ih (room - first.event.line.length) (by push_cast at h; omega)
        rw [if_neg (not_not.mpr hkind), if_neg (by push_cast at h; omega)]
        refine ⟨fun cand hcand hkind' => ?_, ?_⟩
        · rcases List.mem_cons.mp hcand with rfl | hmem
          · rfl
          · exact hkept cand hmem hkind'
        · dsimp only
          rw [hleft]
          push_cast
          omega
      · rw [List.filter_cons_of_neg (by rw [beq_iff_eq]; exact hkind)] at h ⊢
        obtain ⟨hkept, hleft⟩ := ih h
        rw [if_pos hkind]
        refine ⟨fun cand hcand hkind' => ?_, hleft⟩
        rcases List.mem_cons.mp hcand with rfl | hmem
        · exact absurd hkind' hkind
        · exact hkept cand hmem hkind'

/-- A spill that fits is written as a whole. -/
theorem choose_fits {room : Int} {events : List CodingEvent} (h : (size events : Int) ≤ room) :
    ∀ cand ∈ choose room events, cand.kept = true := by
  intro cand hcand
  have hsizes := size_ofKind events
  have hevents : (events.map fun e => Candidate.mk e false room).map Candidate.event = events := by
    rw [List.map_map]
    exact List.map_id events
  unfold choose at hcand
  dsimp only at hcand
  obtain ⟨hevidence, hleft⟩ := @pass_fits true (events.map fun e => ⟨e, false, room⟩) room (by
    rw [hevents]
    omega)
  obtain ⟨hothers, -⟩ := @pass_fits false (pass true room (events.map fun e => ⟨e, false, room⟩)).1
    (pass true room (events.map fun e => ⟨e, false, room⟩)).2 (by
      rw [pass_events, hleft, hevents]
      omega)
  cases hkind : cand.event.mandatory with
  | false => exact hothers cand hcand hkind
  | true =>
      rcases pass_decides false _ _ cand hcand with ⟨-, hmem⟩ | ⟨hfalse, -⟩
      · exact hevidence cand hmem hkind
      · rw [hkind] at hfalse
        cases hfalse

/-- Evidence that stands first and fits is written. -/
theorem mem_chosen_front {room : Int} {es fs : List CodingEvent} (hkind : ∀ e ∈ es, e.mandatory = true)
    (h : (size es : Int) ≤ room) : ∀ e ∈ es, e ∈ chosen room (es ++ fs) := by
  intro e he
  have hevents : (es.map fun e => Candidate.mk e false room).map Candidate.event = es := by
    rw [List.map_map]
    exact List.map_id es
  have hall : ofKind true es = es := by
    unfold ofKind
    refine List.filter_eq_self.mpr fun f hf => ?_
    rw [hkind f hf]
    rfl
  have hmem : e ∈ (pass true room (es.map fun e => Candidate.mk e false room)).1.map Candidate.event := by
    rw [pass_events, hevents]
    exact he
  obtain ⟨cand, hcand, rfl⟩ := List.mem_map.mp hmem
  have hkept : cand.kept = true := by
    refine (@pass_fits true (es.map fun e => ⟨e, false, room⟩) room ?_).1 cand hcand (hkind _ he)
    rw [hevents, hall]
    exact h
  unfold chosen choose
  dsimp only
  refine List.mem_map.mpr ⟨cand, List.mem_filter.mpr ⟨?_, hkept⟩, rfl⟩
  refine pass_leaves (fun hfalse => ?_) ?_
  · rw [hkind _ he] at hfalse
    cases hfalse
  · rw [List.map_append]
    exact pass_front hcand

/-! ## The batch in flight -/

/-- All of the batch in flight goes to the spool when its send fails: it is evidence, there is room
for it, and the spool grew meanwhile or the queue is shed. -/
def SpoolsBatch (c : SinkConfig) (s : EventSink) (mark : Nat) : Prop :=
  (∀ e ∈ s.inflight, e.mandatory = true) ∧ (size s.inflight : Int) ≤ s.room c
    ∧ (mark < s.spool.length ∨ c.maxBuffered < 2 * (s.inflight ++ s.queue).length)

theorem made_sendLines (batch : List Json) (sent total : Nat) (lines : List Line) :
    (s.sendLines c batch sent total lines).made = s.made := by
  obtain ⟨flushing, spool, heq⟩ := @sendLines_eq c s batch sent total lines
  rw [heq]

theorem made_flushSpool : (s.flushSpool c).made = s.made := by
  obtain ⟨flushing, spool, dropped, heq⟩ := @flushSpool_eq c s
  rw [heq]

theorem inflight_flushSpool : (s.flushSpool c).inflight = s.inflight := by
  obtain ⟨flushing, spool, dropped, heq⟩ := @flushSpool_eq c s
  rw [heq]

theorem delivered_flushSpool : (s.flushSpool c).delivered = s.delivered := by
  obtain ⟨flushing, spool, dropped, heq⟩ := @flushSpool_eq c s
  rw [heq]

/-- Only reports are made where nothing is emitted. -/
theorem made_flush (stamp : Stamp) : s.made.Sublist (s.flush c stamp).made
    ∧ ∀ e ∈ (s.flush c stamp).made, e.reports = false → e ∈ s.made := by
  unfold EventSink.flush
  split
  · unfold doFlush
    dsimp only
    rw [made_flushSpool]
    split
    · refine ⟨List.sublist_append_left s.made _, fun e he hplain => ?_⟩
      rcases List.mem_append.mp he with hold | hnew
      · exact hold
      · rw [List.mem_singleton.mp hnew] at hplain
        cases hplain
    · exact ⟨List.Sublist.refl _, fun e he _ => he⟩
  · exact ⟨List.Sublist.refl _, fun e he _ => he⟩

theorem made_requeue (batch : List CodingEvent) (mark : Nat) : (s.requeue c batch mark).made = s.made := by
  unfold requeue
  split <;> rfl

theorem made_shed : (s.shed c).made = s.made := by
  unfold shed
  split <;> rfl

theorem made_step {op : SinkOp} (hop : ∀ e report, op ≠ .emit e report) :
    s.made.Sublist (step c s op).made ∧ ∀ e ∈ (step c s op).made, e.reports = false → e ∈ s.made := by
  have hsame : (step c s op).made = s.made → s.made.Sublist (step c s op).made
      ∧ ∀ e ∈ (step c s op).made, e.reports = false → e ∈ s.made := by
    intro heq
    rw [heq]
    exact ⟨List.Sublist.refl _, fun e he _ => he⟩
  cases op with
  | emit e report => exact absurd rfl (hop e report)
  | flush report => exact made_flush report
  | resume =>
      refine hsame ?_
      unfold EventSink.step EventSink.resume
      dsimp only
      split
      · exact made_flushSpool
      · split
        · exact made_flushSpool
        · split <;> rfl
      · rfl
      · rfl
  | answered outcome =>
      refine hsame ?_
      unfold EventSink.step EventSink.answered
      dsimp only
      split
      · rw [made_sendLines]
        rfl
      · rfl
      · rw [made_flushSpool]
        rfl
      · dsimp only
        rw [made_shed, made_requeue]
        rfl
      · rfl
  | spillRest => exact hsame rfl

/-- **A batch that goes to the spool** is there as a whole. -/
theorem mem_spool_of_spoolsBatch (h : s.SpoolsBatch c 0) (events : List Json) :
    ∀ e ∈ s.inflight,
      e ∈ shedded c ((s.receive events).requeue c s.inflight 0) (requeued c s spooled) := by
  intro e he
  obtain ⟨hkind, hroom, hgoes⟩ := h
  have hall : s.inflight.filter CodingEvent.mandatory = s.inflight := List.filter_eq_self.mpr hkind
  by_cases hempty : s.spool.length ≤ 0
  · -- the batch goes back to the queue, which is shed
    have hlong := hgoes.resolve_left (by omega)
    rw [requeue_receive]
    unfold shedded requeue
    rw [if_pos hempty]
    split
    · refine List.mem_append_right _ ?_
      show e ∈ chosen (s.room c) ((s.inflight ++ s.queue).filter CodingEvent.mandatory)
      rw [List.filter_append, hall]
      exact mem_chosen_front hkind hroom e he
    · rename_i hshort
      exact absurd hlong hshort
  · refine subset_shedded ?_
    unfold requeued
    rw [if_neg hempty, hall]
    refine List.mem_append_left _ ?_
    rw [← List.append_nil s.inflight]
    exact mem_chosen_front hkind hroom e he

/-- **The batch in flight** stays so, or is safe when its send settles. -/
theorem inflight_step (hsound : Sound c s) (hline : s.InLine) {op : SinkOp}
    (hop : ∀ e report, op ≠ .emit e report)
    (hback : op = .answered (.failed false) → ∀ mark, s.flushing = .sending mark → s.SpoolsBatch c mark)
    {e : CodingEvent} (he : e ∈ s.inflight) : (step c s op).Safe c e ∨ e ∈ (step c s op).inflight := by
  obtain ⟨sent, done, spooled, hfiled, hlined⟩ := hline
  have hidle := hfiled.idle
  cases op with
  | emit e report => exact absurd rfl (hop e report)
  | flush report =>
      right
      unfold EventSink.step EventSink.flush
      dsimp only
      split
      · unfold doFlush
        dsimp only
        rw [inflight_flushSpool]
        split <;> exact he
      · exact he
  | resume =>
      right
      unfold EventSink.step EventSink.resume
      cases hflushing : s.flushing with
      | reading | checked | ending =>
          rw [hflushing] at hidle
          rw [hidle rfl] at he
          cases he
      | _ => exact he
  | answered outcome =>
      cases hflushing : s.flushing with
      | spooling batch stop rest upTo total =>
          rw [hflushing] at hidle
          rw [hidle rfl] at he
          cases he
      | sending mark =>
          left
          have hreceived : e.toJson ∈ s.delivered ++ s.inflight.map CodingEvent.toJson :=
            List.mem_append_right _ (List.mem_map_of_mem he)
          cases outcome with
          | ok =>
              left
              unfold EventSink.step EventSink.answered
              rw [hflushing]
              dsimp only
              rw [delivered_flushSpool]
              exact hreceived
          | failed kept =>
              cases kept with
              | true =>
                  left
                  unfold EventSink.step EventSink.answered
                  rw [hflushing]
                  dsimp only
                  rw [delivered_shed, delivered_requeue]
                  exact hreceived
              | false =>
                  have hmark : mark = 0 := by
                    have hplace := hfiled.place
                    rw [hflushing] at hplace
                    exact hplace.2
                  have hspools := hback rfl mark hflushing
                  rw [hmark] at hspools
                  obtain ⟨_, _, _, hbooks, -⟩ := hsound.step (.answered (.failed false))
                  obtain ⟨sent', hfiled', hlined', -⟩ := @filed_failed c _ _ _ _ hfiled hlined _ hflushing false
                  refine (safe_iff hfiled' hlined' hbooks.session).mpr ⟨e, List.mem_append_right _ ?_, rfl⟩
                  exact mem_spool_of_spoolsBatch hspools _ e he
      | _ =>
          right
          unfold EventSink.step EventSink.answered
          rw [hflushing]
          cases outcome with
          | ok => exact he
          | failed kept => exact he
  | spillRest => exact .inr he

/-- **What is held goes on being held** while nothing is emitted. -/
theorem Held.step (h : s.Held c) (hsound : Sound c s) (hline : s.InLine) {op : SinkOp}
    (hop : ∀ e report, op ≠ .emit e report)
    (hback : op = .answered (.failed false) → ∀ mark, s.flushing = .sending mark → s.SpoolsBatch c mark) :
    (step c s op).Held c := by
  obtain ⟨hmade, hplain⟩ := @made_step c s op hop
  refine h.mono hmade hplain fun e _ hsafe => ?_
  rcases hsafe with hsafe | hinflight
  · exact .inl (hsafe.step hsound hline op)
  · exact inflight_step hsound hline hop hback hinflight

/-! ## The last spill -/

theorem sum_count_reports (es : List CodingEvent) :
    ((es.filter CodingEvent.reports).map CodingEvent.count).sum = (es.map CodingEvent.count).sum := by
  induction es with
  | nil => rfl
  | cons e es ih =>
      cases hreports : e.reports with
      | true =>
          rw [List.filter_cons_of_pos hreports, List.map_cons, List.map_cons, List.sum_cons, List.sum_cons, ih]
      | false =>
          rw [List.filter_cons_of_neg (by rw [hreports]; exact Bool.false_ne_true), List.map_cons, List.sum_cons,
            CodingEvent.count_of_plain hreports, Nat.zero_add, ih]

/-- **The last spill** leaves nothing in the queue. It accounts for all that was lost where the
counter is zero, and the queue fits in the spool. -/
theorem held_spillRest (hsound : Sound c s) (hnone : ¬s.LostReport) (hdropped : s.dropped = 0)
    (hfits : (size s.queue : Int) ≤ s.room c) : (s.spillRest c).Held c := by
  have hkept := choose_fits hfits
  have hothers : (choose (s.room c) s.queue).filter (fun cand => !cand.kept) = [] := by
    refine List.filter_eq_nil_iff.mpr fun cand hcand => ?_
    rw [hkept cand hcand]
    exact Bool.false_ne_true
  have hnone' : ¬(s.spillRest c).LostReport := by
    intro hlost
    rcases (lostReport_spill s.queue none).mp hlost with hold | ⟨cand, hcand, hleft, -⟩
    · exact hnone hold
    · rw [hkept cand hcand] at hleft
      cases hleft
  have hcounter : (s.spillRest c).dropped = 0 := by
    show s.dropped + ((choose (s.room c) s.queue).filter fun cand => !cand.kept).length = 0
    rw [hothers, hdropped]
    rfl
  have hcovered := hsound.spillRest.covered
  obtain ⟨_, _, _, hbooks, -⟩ := hsound.spillRest
  have hcounted : (s.spillRest c).lostEvents = (s.spillRest c).dropped + (s.spillRest c).reported := by
    refine hbooks.counted_iff.mpr fun l hl => ?_
    exact Bool.eq_false_iff.mpr fun hmore => hnone' ⟨l, hl, hmore⟩
  rw [hcounter, Nat.zero_add] at hcounted
  refine ⟨((s.spillRest c).lost.filter fun l => !l.event.reports).map Loss.event,
    ((s.spillRest c).made.filter fun e => !((s.spillRest c).lost.map fun l => l.event.producerSeq).contains
      e.producerSeq).filter CodingEvent.reports, fun e he hplain => ?_,
    List.filter_sublist.trans List.filter_sublist, fun r hr => ?_, ?_⟩
  · rcases hcovered e he with hsent | hinflight | hqueue | hspooled | hlost
    · exact .inl (.inl (.inl hsent))
    · exact .inl (.inr hinflight)
    · cases hqueue
    · exact .inl (.inl (.inr hspooled))
    · obtain ⟨l, hl, rfl⟩ := List.mem_map.mp hlost
      refine .inr (List.mem_map_of_mem (List.mem_filter.mpr ⟨hl, ?_⟩))
      rw [hplain]
      rfl
  · obtain ⟨hmem, hreport⟩ := List.mem_filter.mp hr
    obtain ⟨hmade, hthere⟩ := List.mem_filter.mp hmem
    refine ⟨hreport, ?_⟩
    rcases hcovered r hmade with hsent | hinflight | hqueue | hspooled | hlost
    · exact .inl (.inl hsent)
    · exact .inr hinflight
    · cases hqueue
    · exact .inl (.inr hspooled)
    · obtain ⟨l, hl, rfl⟩ := List.mem_map.mp hlost
      rw [Bool.not_eq_true', List.contains_eq_mem, decide_eq_false_iff_not] at hthere
      exact absurd (List.mem_map_of_mem hl) hthere
  · rw [List.length_map, sum_count_reports]
    exact Nat.le_of_eq hcounted

/-- With no send in flight, what is held is kept. -/
theorem Held.kept (h : s.Held c) (hline : s.InLine) (hsending : s.sending = false) : s.Kept c := by
  obtain ⟨sent, done, spooled, hfiled, -⟩ := hline
  have hinflight : s.inflight = [] := by
    refine hfiled.idle ?_
    unfold sending at hsending
    cases hflushing : s.flushing with
    | sending mark =>
        rw [hflushing] at hsending
        cases hsending
    | _ => rfl
  refine h.mono (List.Sublist.refl _) (fun e he _ => he) fun e _ hsafe => ?_
  rw [hinflight] at hsafe
  exact hsafe.resolve_right List.not_mem_nil

end EventSink

namespace ClosingSink

open EventSink (Sound size)

/-- Nothing is left only in memory by the step: no report of more than one event is lost before
close() has resolved, all that is left then fits in the spool and nothing is counted that was not
reported, and from then on no event is emitted, and no batch comes back to the queue. -/
def Careful (c : SinkConfig) (s : ClosingSink) : ClosingOp → Prop
  | .emit e report => s.closing ≠ .closed ∧ ¬s.sink.LosesReport c (.emit e report)
  | .answered outcome =>
      (s.closing ≠ .closed → ¬s.sink.LosesReport c (.answered outcome))
        ∧ (s.closing = .closed → outcome = .failed false →
          ∀ mark, s.sink.flushing = .sending mark → s.sink.SpoolsBatch c mark)
  | .finish => s.closing = .flushed → s.sink.dropped = 0 ∧ (size s.sink.queue : Int) ≤ s.sink.room c
  | _ => True

/-- **The invariant**: what is accounted for is so when close() has resolved. -/
structure Orderly (c : SinkConfig) (s : ClosingSink) : Prop where
  sound : Sound c s.sink
  line : s.sink.InLine
  reports : s.closing ≠ .closed → ¬s.sink.LostReport
  held : s.closing = .closed → s.sink.Held c

variable {c : SinkConfig} {s : ClosingSink}

theorem orderly_new (c : SinkConfig) : Orderly c new := by
  refine ⟨EventSink.sound_new c, EventSink.inLine_new, fun _ hlost => ?_, fun hclosed => nomatch hclosed⟩
  obtain ⟨l, hl, -⟩ := hlost
  cases hl

/-- The sink takes a step of its own. -/
theorem Orderly.move (h : s.Orderly c) (op : SinkOp) {closing : Closing}
    (hreports : closing ≠ .closed → s.closing ≠ .closed ∧ ¬s.sink.LosesReport c op)
    (hheld : closing = .closed → (EventSink.step c s.sink op).Held c) :
    Orderly c ⟨EventSink.step c s.sink op, closing⟩ := by
  refine ⟨h.sound.step op, h.line.step h.sound op, fun hopen => ?_, hheld⟩
  obtain ⟨hopen', hloses⟩ := hreports hopen
  rw [EventSink.lostReport_step h.sound op, not_or]
  exact ⟨h.reports hopen', hloses⟩

theorem closing_resume : (s.resume c).closing = .closed ↔ s.closing = .closed := by
  unfold resume
  dsimp only
  split
  · rename_i hclosing _
    rw [hclosing]
    exact ⟨(nomatch ·), (nomatch ·)⟩
  · exact Iff.rfl

/-- **One step** that is careful. -/
theorem Orderly.step (h : s.Orderly c) (op : ClosingOp) (hcareful : s.Careful c op) :
    Orderly c (step c s op) := by
  cases op with
  | emit e report =>
      obtain ⟨hopen, hloses⟩ := hcareful
      exact h.move (.emit e report) (fun _ => ⟨hopen, hloses⟩) fun hclosed => absurd hclosed hopen
  | flush report =>
      refine h.move (.flush report) (fun hopen => ⟨hopen, fun hloses => hloses⟩) fun hclosed => ?_
      exact (h.held hclosed).step h.sound h.line (fun _ _ => (nomatch ·)) (nomatch ·)
  | resume =>
      refine h.move .resume (fun hopen => ⟨fun hclosed => hopen ((closing_resume (c := c)).mpr hclosed),
        fun hloses => hloses⟩) fun hclosed => ?_
      exact (h.held ((closing_resume (c := c)).mp hclosed)).step h.sound h.line (fun _ _ => (nomatch ·)) (nomatch ·)
  | answered outcome =>
      obtain ⟨hloses, hback⟩ := hcareful
      refine h.move (.answered outcome) (fun hopen => ⟨hopen, hloses hopen⟩) fun hclosed => ?_
      refine (h.held hclosed).step h.sound h.line (fun _ _ => (nomatch ·)) fun heq => ?_
      injection heq with houtcome
      exact hback hclosed houtcome
  | close report =>
      unfold ClosingSink.step close
      dsimp only
      split
      · rename_i hclosing
        refine h.move (.flush report) (fun _ => ⟨?_, fun hloses => hloses⟩) (nomatch ·)
        rw [hclosing]
        exact (nomatch ·)
      · exact h
  | finish =>
      unfold ClosingSink.step finish
      dsimp only
      split
      · rename_i hclosing
        obtain ⟨hdropped, hfits⟩ := hcareful hclosing
        refine h.move .spillRest (fun hopen => absurd rfl hopen) fun _ => ?_
        refine EventSink.held_spillRest h.sound (h.reports ?_) hdropped hfits
        rw [hclosing]
        exact (nomatch ·)
      · exact h

/-- **Closing leaves nothing only in memory**, in a run that is careful. -/
theorem kept_run (c : SinkConfig) (ops : List ClosingOp) (h : Along (step c) (Careful c) new ops) :
    let s := run (step c) new ops
    s.closing = .closed → s.sink.sending = false → s.sink.Kept c := by
  intro s hclosed hsending
  have horderly : Orderly c s :=
    run_invariant (Orderly c) (fun s op hs hop => hs.step op hop) (orderly_new c) h
  exact (horderly.held hclosed).kept horderly.line hsending

/-- An event whose send fails while the sink is closed. -/
def closeOffline : List ClosingOp :=
  let stamp : Stamp := ⟨"id", "now"⟩
  let usage : Emission := ⟨.usage, .runtime, .native, [], {}, stamp⟩
  [.emit usage stamp, .close stamp, .resume, .answered (.failed false), .resume, .finish]

theorem along_closeOffline :
    Along (step EventSink.roomySink) (Careful EventSink.roomySink) new closeOffline := by
  unfold closeOffline
  simp [Along, Careful, step, close, resume, new, EventSink.emit, EventSink.makeRoom, EventSink.flush,
    EventSink.doFlush, EventSink.flushSpool, EventSink.resume, EventSink.takeBatch, EventSink.answered,
    EventSink.receive, EventSink.requeue, EventSink.shed, EventSink.new, EventSink.roomySink, EventSink.eventOf,
    EventSink.LosesReport]
  decide +kernel

theorem kept_run_closeOffline : (run (step EventSink.roomySink) new closeOffline).closing = .closed
    ∧ (run (step EventSink.roomySink) new closeOffline).sink.Kept EventSink.roomySink := by
  have hclosed : (run (step EventSink.roomySink) new closeOffline).closing = .closed
      ∧ (run (step EventSink.roomySink) new closeOffline).sink.sending = false := by
    unfold closeOffline
    simp [step, close, resume, finish, new, EventSink.emit, EventSink.makeRoom, EventSink.flush,
      EventSink.doFlush, EventSink.flushSpool, EventSink.resume, EventSink.takeBatch, EventSink.answered,
      EventSink.receive, EventSink.requeue, EventSink.shed, EventSink.new, EventSink.roomySink,
      EventSink.eventOf, EventSink.spillRest, EventSink.spill, EventSink.sending]
  exact ⟨hclosed.1, kept_run EventSink.roomySink closeOffline along_closeOffline hclosed.1 hclosed.2⟩

/-- An event that is emitted when the sink is closed. -/
def emitLate : List ClosingOp :=
  let stamp : Stamp := ⟨"id", "now"⟩
  [.close stamp, .resume, .resume, .finish, .emit ⟨.toolFailed, .runtime, .native, [], {}, stamp⟩ stamp]

theorem run_emitLate : (run (step EventSink.roomySink) new emitLate).closing = .closed
    ∧ (run (step EventSink.roomySink) new emitLate).sink.sending = false
    ∧ (run (step EventSink.roomySink) new emitLate).sink.delivered = []
    ∧ (run (step EventSink.roomySink) new emitLate).sink.spool = []
    ∧ ∃ e, (run (step EventSink.roomySink) new emitLate).sink.made = [e] ∧ e.reports = false := by
  unfold emitLate
  simp [step, close, resume, finish, new, EventSink.emit, EventSink.makeRoom, EventSink.flush,
    EventSink.doFlush, EventSink.flushSpool, EventSink.resume, EventSink.new, EventSink.roomySink,
    EventSink.eventOf, EventSink.spillRest, EventSink.spill, EventSink.choose, EventSink.pass,
    EventSink.insertAt, EventSink.sending]
  rfl

/-- It is in the queue of a sink that nothing flushes. -/
theorem not_kept : ¬∀ (c : SinkConfig) (ops : List ClosingOp),
    let s := run (step c) new ops
    s.closing = .closed → s.sink.sending = false → s.sink.Kept c := by
  intro h
  obtain ⟨hclosed, hsending, hdelivered, hspool, e, hmade, hplain⟩ := run_emitLate
  obtain ⟨gone, rs, hall, hrs, hreports, hcount⟩ := h EventSink.roomySink emitLate hclosed hsending
  rw [hmade] at hall hrs
  have hunsafe : ¬(run (step EventSink.roomySink) new emitLate).sink.Safe EventSink.roomySink e := by
    rintro (hsent | ⟨line, hline, -⟩)
    · rw [hdelivered] at hsent
      cases hsent
    · rw [hspool] at hline
      cases hline
  have hgone : 0 < gone.length :=
    List.length_pos_of_mem ((hall e List.mem_cons_self hplain).resolve_left hunsafe)
  have hnone : rs = [] := by
    refine List.eq_nil_iff_forall_not_mem.mpr fun r hr => ?_
    have hreport := (hreports r hr).1
    rw [List.mem_singleton.mp (hrs.subset hr), hplain] at hreport
    cases hreport
  rw [hnone] at hcount
  exact absurd hcount (Nat.not_le.mpr hgone)

end ClosingSink

end Agenomic.Connector
