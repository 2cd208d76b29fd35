import Agenomic.Connector.Conservation
import Agenomic.Lib.InOrder

/-!
# The event sink sends in order

An event waits in the batch in flight, in the spool or in the queue. The batch in flight is older
than the spool, and the spool older than the queue: the steps move events along this line, or
drop them out of it. Reports of dropped events are put in front of the queue, and stand in no
order with the others.

**`firstDelivery_lt`**: the events of a run are first delivered in the order in which they were
emitted, reports aside.
-/

namespace Agenomic.Connector

open Lib

namespace EventSink

/-- The events among them that are no reports. -/
def plain (es : List CodingEvent) : List CodingEvent := es.filter fun e => !e.reports

/-- What waits to be sent, the oldest first. -/
def waiting (s : EventSink) (spooled : List CodingEvent) : List CodingEvent :=
  s.inflight ++ (spooled ++ s.queue)

/-- What waits stands in line, behind what was sent. -/
structure Lined (s : EventSink) (sent spooled : List CodingEvent) : Prop where
  delivered : s.delivered = sent.map CodingEvent.toJson
  made : ∀ e ∈ sent ++ s.waiting spooled, e ∈ s.made
  order : InOrder CodingEvent.producerSeq (plain sent) (plain (s.waiting spooled))

/-- **The invariant**: the spool is as it should be, and the events stand in line. -/
def InLine (s : EventSink) : Prop := ∃ sent done spooled, s.Filed sent done spooled ∧ s.Lined sent spooled

/-- A step leads here: what was sent stays so, and what was in the spool is there, or was sent. -/
def Onward (sent spooled : List CodingEvent) (s : EventSink) : Prop :=
  ∃ sent' done' spooled', s.Filed sent' done' spooled' ∧ s.Lined sent' spooled'
    ∧ sent ⊆ sent' ∧ spooled ⊆ sent' ++ spooled'

/-- An event is delivered for the first time. -/
structure FirstDelivery (s : EventSink) (e : CodingEvent) (i : Nat) : Prop where
  here : s.delivered[i]? = some e.toJson
  before : ∀ j < i, s.delivered[j]? ≠ some e.toJson

theorem inLine_new : new.InLine := by
  refine ⟨[], [], [], ⟨?_, List.nil_subset _, rfl, rfl, fun _ => rfl⟩, rfl, ?_, .nil⟩
  · exact fun e he => absurd he List.not_mem_nil
  · exact fun e he => absurd he List.not_mem_nil

variable {c : SinkConfig} {s : EventSink} {sent done spooled : List CodingEvent}

theorem plain_append (es fs : List CodingEvent) : plain (es ++ fs) = plain es ++ plain fs :=
  List.filter_append es fs

theorem plain_sublist {es fs : List CodingEvent} (h : es.Sublist fs) : (plain es).Sublist (plain fs) :=
  h.filter _

/-- What is written of a spill keeps its order. -/
theorem chosen_sublist (room : Int) (events : List CodingEvent) : (chosen room events).Sublist events := by
  have hsub := (List.filter_sublist (p := Candidate.kept) (l := choose room events)).map Candidate.event
  rw [choose_events] at hsub
  exact hsub

/-! ## Keeping in line -/

theorem Lined.received (h : s.Lined sent spooled) : ∀ e ∈ sent, e.toJson ∈ s.delivered := by
  intro e he
  rw [h.delivered]
  exact List.mem_map_of_mem he

/-- Events may leave the line. -/
theorem Lined.leave {s' : EventSink} {spooled' : List CodingEvent} (h : s.Lined sent spooled)
    (hdelivered : s'.delivered = s.delivered) (hmade : s'.made = s.made)
    (hwaiting : (s'.waiting spooled').Sublist (s.waiting spooled)) : s'.Lined sent spooled' := by
  refine ⟨?_, fun e he => ?_, h.order.sublist (plain_sublist hwaiting)⟩
  · rw [hdelivered]
    exact h.delivered
  · rw [hmade]
    refine h.made e (List.mem_append.mpr ?_)
    exact (List.mem_append.mp he).imp_right fun hmem => hwaiting.subset hmem

/-- A new event gets in line behind the others. -/
theorem Lined.push {s' : EventSink} {e : CodingEvent} (h : s.Lined sent spooled)
    (hdelivered : s'.delivered = s.delivered) (hmade : s'.made = s.made ++ [e])
    (hwaiting : s'.waiting spooled = s.waiting spooled ++ [e]) (hplain : e.reports = false)
    (hseq : ∀ f ∈ s.made, f.producerSeq < e.producerSeq) : s'.Lined sent spooled := by
  have hone : plain [e] = [e] := by
    unfold plain
    rw [List.filter_cons_of_pos (by rw [hplain]; rfl), List.filter_nil]
  have hbehind : ∀ es, (∀ f ∈ es, f ∈ sent ++ s.waiting spooled) →
      ∀ f ∈ plain es, f.producerSeq < e.producerSeq :=
    fun es hes f hf => hseq f (h.made f (hes f (List.mem_of_mem_filter hf)))
  refine ⟨?_, fun f hf => ?_, ?_⟩
  · rw [hdelivered]
    exact h.delivered
  · rw [hwaiting, ← List.append_assoc] at hf
    rw [hmade]
    exact List.mem_append.mpr ((List.mem_append.mp hf).imp_left (h.made f))
  · rw [hwaiting, plain_append, hone]
    exact h.order.push (hbehind sent fun f hf => List.mem_append_left _ hf)
      (hbehind _ fun f hf => List.mem_append_right _ hf)

/-- A report gets in line anywhere. -/
theorem Lined.report {s' : EventSink} {e : CodingEvent} (h : s.Lined sent spooled)
    (hdelivered : s'.delivered = s.delivered) (hmade : s'.made = s.made ++ [e])
    (hinflight : s'.inflight = s.inflight) (hqueue : s'.queue = e :: s.queue) (hreports : e.reports = true) :
    s'.Lined sent spooled := by
  refine ⟨?_, fun f hf => ?_, ?_⟩
  · rw [hdelivered]
    exact h.delivered
  · rw [hmade]
    unfold waiting at hf
    rw [hinflight, hqueue] at hf
    by_cases hnew : f = e
    · rw [hnew]
      exact List.mem_append_right _ (List.mem_singleton.mpr rfl)
    · refine List.mem_append_left _ (h.made f ?_)
      unfold waiting
      simp only [List.mem_append, List.mem_cons, hnew, false_or] at hf ⊢
      exact hf
  · have hsame : plain (s'.waiting spooled) = plain (s.waiting spooled) := by
      unfold waiting
      rw [hinflight, hqueue, plain_append, plain_append, plain_append, plain_append]
      unfold plain
      rw [List.filter_cons_of_neg (by rw [hreports]; exact Bool.false_ne_true)]
    rw [hsame]
    exact h.order

/-- **A batch is delivered**, and goes on waiting until it is known. -/
theorem Lined.deliver {s' : EventSink} {batch rest : List CodingEvent} (h : s.Lined sent spooled)
    (hbatch : s.waiting spooled = batch ++ rest)
    (hdelivered : s'.delivered = s.delivered ++ batch.map CodingEvent.toJson) (hmade : s'.made = s.made)
    (hwaiting : s'.waiting spooled = s.waiting spooled) : s'.Lined (sent ++ batch) spooled := by
  refine ⟨?_, fun e he => ?_, ?_⟩
  · rw [hdelivered, h.delivered, List.map_append]
  · rw [hwaiting, List.append_assoc] at he
    rw [hmade]
    refine h.made e ?_
    rw [hbatch] at he ⊢
    simp only [List.mem_append] at he ⊢
    tauto
  · have horder := h.order
    rw [hbatch, plain_append] at horder
    rw [hwaiting, plain_append, hbatch, plain_append]
    exact horder.send

theorem Onward.trans {s' : EventSink} {sent' spooled' : List CodingEvent} (h : Onward sent' spooled' s')
    (hsent : sent ⊆ sent') (hspooled : spooled ⊆ sent' ++ spooled') : Onward sent spooled s' := by
  obtain ⟨sent'', done'', spooled'', hfiled, hlined, hsent', hspooled'⟩ := h
  refine ⟨sent'', done'', spooled'', hfiled, hlined, fun e he => hsent' (hsent he), fun e he => ?_⟩
  rcases List.mem_append.mp (hspooled he) with hmem | hmem
  · exact List.mem_append_left _ (hsent' hmem)
  · exact hspooled' hmem

/-- Nothing of the spool was sent. -/
theorem Onward.same {s' : EventSink} {done' : List CodingEvent} (hfiled : s'.Filed sent done' spooled)
    (hlined : s'.Lined sent spooled) : Onward sent spooled s' :=
  ⟨sent, done', spooled, hfiled, hlined, fun _ he => he, fun _ he => List.mem_append_right sent he⟩

/-! ## The steps of a flush -/

/-- **Reading the spool.** -/
theorem Lined.flushSpool (h : s.Lined sent spooled) (hsession : ∀ e ∈ s.made, e.codingSessionId = c.sessionId)
    (hinflight : s.inflight = []) (hspool : s.spool = spoolOf spooled) : Onward sent spooled (s.flushSpool c) := by
  have hspooled : ∀ e ∈ spooled, e.codingSessionId = c.sessionId := by
    intro e he
    refine hsession e (h.made e ?_)
    exact List.mem_append_right _ (List.mem_append_right _ (List.mem_append_left _ he))
  obtain ⟨⟨flushing, spool, heq⟩, done', hfiled⟩ :=
    filed_flushSpool hspooled hinflight h.received hspool
  refine Onward.same hfiled ?_
  rw [heq]
  exact h.leave rfl rfl (List.Sublist.refl _)

theorem onward_flush (hfiled : s.Filed sent done spooled) (hlined : s.Lined sent spooled)
    (hsession : ∀ e ∈ s.made, e.codingSessionId = c.sessionId) (stamp : Stamp) :
    Onward sent spooled (s.flush c stamp) := by
  unfold EventSink.flush
  cases hflushing : s.flushing with
  | idle =>
      have hinflight : s.inflight = [] := hfiled.idle (by rw [hflushing]; rfl)
      have hdone : done = [] := by
        have hplace := hfiled.place
        rw [hflushing] at hplace
        exact hplace
      have hfile : s.spool = spoolOf spooled := by
        rw [hfiled.file, hdone, List.nil_append]
      dsimp only
      unfold doFlush
      dsimp only
      split
      · have hreported : (s.report c stamp).Lined sent spooled := hlined.report rfl rfl rfl rfl rfl
        refine hreported.flushSpool (fun e he => ?_) hinflight hfile
        rcases List.mem_append.mp he with hold | hnew
        · exact hsession e hold
        · rw [List.mem_singleton.mp hnew]
      · exact hlined.flushSpool hsession hinflight hfile
  | _ => exact Onward.same hfiled hlined

theorem onward_resume (hfiled : s.Filed sent done spooled) (hlined : s.Lined sent spooled)
    (hsession : ∀ e ∈ s.made, e.codingSessionId = c.sessionId) : Onward sent spooled (s.resume c) := by
  have hplace := hfiled.place
  have hidle := hfiled.idle
  unfold EventSink.resume
  cases hflushing : s.flushing with
  | reading =>
      rw [hflushing] at hplace hidle
      refine hlined.flushSpool hsession (hidle rfl) ?_
      rw [hfiled.file, show done = [] from hplace, List.nil_append]
  | checked =>
      rw [hflushing] at hplace hidle
      have hfile : s.spool = spoolOf spooled := by
        rw [hfiled.file, show done = [] from hplace, List.nil_append]
      have hinflight := hidle rfl
      dsimp only
      split
      · exact hlined.flushSpool hsession hinflight hfile
      · rename_i hempty
        split
        · refine @Onward.same sent spooled _ [] ⟨hlined.received, List.nil_subset _, hfile, rfl, fun _ => hinflight⟩ ?_
          exact hlined.leave rfl rfl (List.Sublist.refl _)
        · have hnil : s.spool = [] := by
            rw [Bool.not_eq_true, Bool.not_eq_false', List.isEmpty_iff] at hempty
            exact hempty
          have hspooled : spooled = [] := spoolOf_eq_nil_iff.mp (hfile.symm.trans hnil)
          refine @Onward.same sent spooled _ [] ⟨hlined.received, List.nil_subset _, hfile, ⟨rfl, ?_⟩,
            fun hsending => nomatch (show true = false from hsending)⟩ (hlined.leave rfl rfl ?_)
          · rw [hnil]
            rfl
          -- the batch leaves the queue where nothing stands between them
          · unfold waiting takeBatch
            rw [hspooled, hinflight, List.nil_append, List.nil_append, List.nil_append,
              List.take_append_drop]
  | ending =>
      rw [hflushing] at hplace hidle
      refine @Onward.same sent spooled _ done ?_ (hlined.leave rfl rfl (List.Sublist.refl _))
      exact ⟨hfiled.sent, hfiled.behind, hfiled.file, hplace, fun _ => hidle rfl⟩
  | _ => exact Onward.same hfiled hlined

/-! ## Sends that settle -/

/-- What the spool has when a batch went back: the evidence of the batch in front, where there is
a spool. -/
def requeued (c : SinkConfig) (s : EventSink) (spooled : List CodingEvent) : List CodingEvent :=
  if s.spool.length ≤ 0 then spooled
  else chosen (s.room c) (s.inflight.filter CodingEvent.mandatory) ++ spooled

/-- What the spool has when the queue was shed. -/
def shedded (c : SinkConfig) (s : EventSink) (spooled : List CodingEvent) : List CodingEvent :=
  if c.maxBuffered < 2 * s.queue.length then
    spooled ++ chosen (s.room c) (s.queue.filter CodingEvent.mandatory)
  else spooled

theorem subset_requeued : spooled ⊆ requeued c s spooled := by
  unfold requeued
  split
  · exact fun e he => he
  · exact fun e he => List.mem_append_right _ he

theorem subset_shedded : spooled ⊆ shedded c s spooled := by
  unfold shedded
  split
  · exact fun e he => List.mem_append_left _ he
  · exact fun e he => he

theorem spool_requeue (hspool : s.spool = spoolOf spooled) :
    (s.requeue c s.inflight 0).spool = spoolOf (requeued c s spooled) := by
  unfold requeue requeued
  split
  · exact hspool
  · rename_i hnonempty
    show insertAt s.spool (some 0) _ = _
    unfold insertAt
    dsimp only
    rw [if_neg hnonempty, List.take_zero, List.drop_zero, List.nil_append, spoolOf_append, hspool]
    rfl

theorem spool_shed (hspool : s.spool = spoolOf spooled) :
    (s.shed c).spool = spoolOf (shedded c s spooled) := by
  unfold shed shedded
  split
  · show s.spool ++ _ = _
    rw [spoolOf_append, hspool]
    rfl
  · exact hspool

/-- **A batch goes back** in front of the spool, or of the queue where there is no spool. -/
theorem lined_requeue (hlined : s.Lined sent spooled) (hspool : s.spool = spoolOf spooled) :
    Lined { s.requeue c s.inflight 0 with inflight := [] } sent (requeued c s spooled) := by
  unfold requeue requeued
  split
  · rename_i hempty
    have hspooled : spooled = [] :=
      spoolOf_eq_nil_iff.mp (hspool.symm.trans (List.eq_nil_of_length_eq_zero (Nat.le_zero.mp hempty)))
    refine hlined.leave rfl rfl ?_
    rw [hspooled]
    exact List.Sublist.refl _
  · refine hlined.leave rfl rfl ?_
    unfold waiting
    show (_ ++ spooled ++ s.queue).Sublist _
    rw [List.append_assoc]
    exact ((chosen_sublist _ _).trans List.filter_sublist).append_right _

/-- Shedding does not look at the batch in flight. -/
theorem shed_inflight (batch : List CodingEvent) :
    shed c { s with inflight := batch } = { s.shed c with inflight := batch } := by
  unfold shed
  by_cases hlong : c.maxBuffered < 2 * s.queue.length
  · rw [if_pos hlong, if_pos hlong]
    rfl
  · rw [if_neg hlong, if_neg hlong]

/-- **The queue is shed** behind the spool. -/
theorem lined_shed (hlined : s.Lined sent spooled) : (s.shed c).Lined sent (shedded c s spooled) := by
  unfold shed shedded
  split
  · refine hlined.leave rfl rfl ?_
    unfold waiting
    rw [List.append_nil]
    exact (((chosen_sublist _ _).trans List.filter_sublist).append_left spooled).append_left s.inflight
  · exact hlined

/-- What a failed send of a batch leaves: the batch in the queue or in the spool. -/
theorem filed_failed (hfiled : s.Filed sent done spooled) (hlined : s.Lined sent spooled) {mark : Nat}
    (hflushing : s.flushing = .sending mark) (kept : Bool) :
    let received := s.receive (if kept then s.inflight.map CodingEvent.toJson else [])
    let spooled' := shedded c (received.requeue c s.inflight 0) (requeued c s spooled)
    ∃ sent', (s.answered c (.failed kept)).Filed sent' [] spooled'
      ∧ (s.answered c (.failed kept)).Lined sent' spooled' ∧ sent ⊆ sent' := by
  intro received spooled'
  have hplace := hfiled.place
  rw [hflushing] at hplace
  obtain ⟨hdone, hmark⟩ := hplace
  have hfile : received.spool = spoolOf spooled := by
    show s.spool = spoolOf spooled
    rw [hfiled.file, hdone, List.nil_append]
  obtain ⟨sent', hreceived, hsent⟩ : ∃ sent', received.Lined sent' spooled ∧ sent ⊆ sent' := by
    cases kept with
    | true =>
        exact ⟨sent ++ s.inflight, hlined.deliver rfl rfl rfl rfl, List.subset_append_left sent s.inflight⟩
    | false =>
        exact ⟨sent, hlined.leave (List.append_nil _) rfl (List.Sublist.refl _), fun _ he => he⟩
  have hlined' : Lined (shed c { received.requeue c s.inflight 0 with inflight := [] }) sent' spooled' :=
    lined_shed (lined_requeue hreceived hfile)
  have hspool' : ((received.requeue c s.inflight 0).shed c).spool = spoolOf spooled' :=
    spool_shed (spool_requeue hfile)
  rw [shed_inflight] at hlined'
  unfold EventSink.answered
  rw [hflushing, hmark]
  refine ⟨sent', ?_, hlined'.leave rfl rfl (List.Sublist.refl _), hsent⟩
  exact ⟨hlined'.received, List.nil_subset _, hspool', rfl, fun _ => rfl⟩

theorem onward_answered (hfiled : s.Filed sent done spooled) (hlined : s.Lined sent spooled)
    (hsession : ∀ e ∈ s.made, e.codingSessionId = c.sessionId) (outcome : Sent) :
    Onward sent spooled (s.answered c outcome) := by
  have hplace := hfiled.place
  have hidle := hfiled.idle
  unfold EventSink.answered
  cases hflushing : s.flushing with
  | spooling batch stop rest upTo total =>
      rw [hflushing] at hplace hidle
      have hinflight := hidle rfl
      obtain ⟨now, later, fresh, rfl, rfl, rfl, rfl, rfl, rfl⟩ := hplace
      have hfront : s.waiting (now ++ (later ++ fresh)) = now ++ (later ++ fresh ++ s.queue) := by
        unfold waiting
        rw [hinflight, List.nil_append, List.append_assoc]
      have hgiven : (s.receive (now.map CodingEvent.toJson)).Lined (sent ++ now) (now ++ (later ++ fresh)) :=
        hlined.deliver hfront rfl rfl rfl
      cases outcome with
      | ok =>
          dsimp only
          have hgone : (s.receive (now.map CodingEvent.toJson)).Lined (sent ++ now) (later ++ fresh) := by
            refine hgiven.leave rfl rfl ?_
            exact ((List.sublist_append_right now _).append_right s.queue).append_left s.inflight
          have hbehind : done ++ now ⊆ sent ++ now := List.append_subset.mpr
            ⟨fun e he => List.mem_append_left now (hfiled.behind he), fun e he => List.mem_append_right sent he⟩
          have hfile : (s.receive (now.map CodingEvent.toJson)).spool
              = spoolOf (done ++ now ++ ([] ++ (later ++ fresh))) := by
            show s.spool = _
            rw [hfiled.file, List.append_assoc, List.nil_append]
          obtain ⟨done', hfiled'⟩ := @filed_sendLines c (s.receive (now.map CodingEvent.toJson)) _ (done ++ now) later [] fresh hinflight
            hgone.received hbehind hfile fun _ => rfl
          obtain ⟨flushing, spool, heq⟩ := @sendLines_eq c (s.receive (now.map CodingEvent.toJson)) []
            (size (done ++ now)) (size (done ++ now ++ later)) (linesAt (size (done ++ now)) later)
          rw [List.append_nil, List.nil_append] at hfiled'
          refine ⟨sent ++ now, done', later ++ fresh, hfiled', ?_, List.subset_append_left sent now, ?_⟩
          · rw [heq]
            exact hgone.leave rfl rfl (List.Sublist.refl _)
          · rw [List.append_assoc]
            exact List.subset_append_right sent _
      | failed kept =>
          dsimp only
          have hfile : s.spool.drop (size done) = spoolOf (now ++ (later ++ fresh)) := by
            rw [hfiled.file, spoolOf_drop_size]
          cases kept with
          | true =>
              refine ⟨sent ++ now, [], now ++ (later ++ fresh), ?_, hgiven.leave rfl rfl (List.Sublist.refl _),
                List.subset_append_left sent now, List.subset_append_right _ _⟩
              exact ⟨hgiven.received, List.nil_subset _, hfile, rfl, fun _ => hinflight⟩
          | false =>
              have hnone : (s.receive []).Lined sent (now ++ (later ++ fresh)) :=
                hlined.leave (List.append_nil _) rfl (List.Sublist.refl _)
              refine @Onward.same sent _ _ [] ?_ (hnone.leave rfl rfl (List.Sublist.refl _))
              exact ⟨hnone.received, List.nil_subset _, hfile, rfl, fun _ => hinflight⟩
  | sending mark =>
      rw [hflushing] at hplace
      obtain ⟨hdone, -⟩ := hplace
      have hfile : s.spool = spoolOf spooled := by
        rw [hfiled.file, hdone, List.nil_append]
      have hgiven : (s.receive (s.inflight.map CodingEvent.toJson)).Lined (sent ++ s.inflight) spooled :=
        hlined.deliver rfl rfl rfl rfl
      cases outcome with
      | ok =>
          dsimp only
          have hgone : Lined { s.receive (s.inflight.map CodingEvent.toJson) with inflight := [] }
              (sent ++ s.inflight) spooled :=
            hgiven.leave rfl rfl (List.sublist_append_right s.inflight _)
          exact (hgone.flushSpool hsession rfl hfile).trans (List.subset_append_left sent s.inflight)
            (List.subset_append_right _ spooled)
      | failed kept =>
          dsimp only
          obtain ⟨sent', hfiled', hlined', hsent⟩ := @filed_failed c _ _ _ _ hfiled hlined _ hflushing kept
          unfold EventSink.answered at hfiled' hlined'
          rw [hflushing] at hfiled' hlined'
          refine ⟨sent', [], _, hfiled', hlined', hsent, fun e he => ?_⟩
          exact List.mem_append_right _ (subset_shedded (subset_requeued he))
  | _ =>
      cases outcome with
      | ok => exact Onward.same hfiled hlined
      | failed kept => exact Onward.same hfiled hlined

/-! ## Emitting -/

/-- What is made room for leaves the line, or is the first to be spilled. -/
theorem lined_makeRoom {s' : EventSink} (hfiled : s.Filed sent done spooled) (hlined : s.Lined sent spooled)
    (hroom : s.makeRoom c = some s') : s'.made = s.made
      ∧ ∃ spooled', s'.Filed sent done spooled' ∧ s'.Lined sent spooled' ∧ spooled ⊆ spooled' := by
  unfold makeRoom at hroom
  split at hroom
  · split at hroom
    · rename_i i _
      cases hroom
      refine ⟨rfl, spooled, hfiled.of_eq rfl rfl rfl rfl, hlined.leave rfl rfl ?_, fun _ he => he⟩
      exact ((List.eraseIdx_sublist s.queue i).append_left spooled).append_left s.inflight
    · split at hroom
      · cases hroom
      · rename_i first rest hqueue
        cases hroom
        have hfiled' : Filed { s with queue := rest } sent done spooled := hfiled.of_eq rfl rfl rfl rfl
        refine ⟨rfl, _, hfiled'.spill [first], hlined.leave rfl rfl ?_, List.subset_append_left spooled _⟩
        unfold waiting
        show (s.inflight ++ (spooled ++ _ ++ rest)).Sublist _
        rw [hqueue, List.append_assoc]
        exact (((chosen_sublist _ [first]).append_right rest).append_left spooled).append_left s.inflight
  · cases hroom
    exact ⟨rfl, spooled, hfiled, hlined, fun _ he => he⟩

theorem onward_emit (hfiled : s.Filed sent done spooled) (hlined : s.Lined sent spooled)
    (hseq : ∀ f ∈ s.made, f.producerSeq ≤ s.seq) (hsession : ∀ f ∈ s.made, f.codingSessionId = c.sessionId)
    (e : Emission) (stamp : Stamp) : Onward sent spooled (s.emit c e stamp) := by
  have hfiled' : Filed { s with seq := s.seq + 1 } sent done spooled := hfiled.of_eq rfl rfl rfl rfl
  have hlined' : Lined { s with seq := s.seq + 1 } sent spooled :=
    hlined.leave rfl rfl (List.Sublist.refl _)
  unfold EventSink.emit
  dsimp only
  cases hroom : makeRoom c { s with seq := s.seq + 1 } with
  | none => exact Onward.same hfiled' hlined'
  | some s₁ =>
      obtain ⟨hmade, spooled₁, hfiled₁, hlined₁, hspooled⟩ := lined_makeRoom hfiled' hlined' hroom
      have hbehind : ∀ f ∈ s₁.made, f.producerSeq < (s.eventOf c e).producerSeq := by
        rw [hmade]
        exact fun f hf => Nat.lt_succ_of_le (hseq f hf)
      have hqueued : Lined { s₁ with
          queue := s₁.queue ++ [s.eventOf c e]
          made := s₁.made ++ [s.eventOf c e] } sent spooled₁ := by
        refine hlined₁.push rfl rfl ?_ rfl hbehind
        unfold waiting
        rw [List.append_assoc, List.append_assoc]
      have hheld : Filed { s₁ with
          queue := s₁.queue ++ [s.eventOf c e]
          made := s₁.made ++ [s.eventOf c e] } sent done spooled₁ := hfiled₁.of_eq rfl rfl rfl rfl
      have hsub : spooled ⊆ sent ++ spooled₁ := fun f hf => List.mem_append_right sent (hspooled hf)
      dsimp only
      split
      · refine (onward_flush hheld hqueued (fun f hf => ?_) stamp).trans (fun _ hf => hf) hsub
        rcases List.mem_append.mp hf with hold | hnew
        · rw [hmade] at hold
          exact hsession f hold
        · rw [List.mem_singleton.mp hnew]
          rfl
      · exact (Onward.same hheld hqueued).trans (fun _ hf => hf) hsub

theorem onward_spillRest (hfiled : s.Filed sent done spooled) (hlined : s.Lined sent spooled) :
    Onward sent spooled (s.spillRest c) := by
  have hfiled' : Filed { s with queue := [] } sent done spooled := hfiled.of_eq rfl rfl rfl rfl
  refine ⟨sent, done, _, hfiled'.spill s.queue, hlined.leave rfl rfl ?_, fun _ he => he, fun e he => ?_⟩
  · unfold waiting
    show (s.inflight ++ (spooled ++ _ ++ [])).Sublist _
    rw [List.append_nil]
    exact ((chosen_sublist _ s.queue).append_left spooled).append_left s.inflight
  · exact List.mem_append_right sent (List.mem_append_left _ he)

/-- **One step** keeps the events in line, and the spool until it is sent. -/
theorem onward_step (hsound : Sound c s) (hfiled : s.Filed sent done spooled) (hlined : s.Lined sent spooled)
    (op : SinkOp) : Onward sent spooled (step c s op) := by
  obtain ⟨acked, done', spooled', hbooks, -⟩ := hsound
  cases op with
  | emit e report => exact onward_emit hfiled hlined hbooks.seq hbooks.session e report
  | flush report => exact onward_flush hfiled hlined hbooks.session report
  | resume => exact onward_resume hfiled hlined hbooks.session
  | answered outcome => exact onward_answered hfiled hlined hbooks.session outcome
  | spillRest => exact onward_spillRest hfiled hlined

theorem InLine.step (h : s.InLine) (hsound : Sound c s) (op : SinkOp) : (step c s op).InLine := by
  obtain ⟨sent, done, spooled, hfiled, hlined⟩ := h
  obtain ⟨sent', done', spooled', hfiled', hlined', -⟩ := onward_step hsound hfiled hlined op
  exact ⟨sent', done', spooled', hfiled', hlined'⟩

theorem inLine_run (c : SinkConfig) (ops : List SinkOp) : (run (step c) new ops).InLine := by
  suffices hrun : ∀ s, Sound c s → InLine s → InLine (run (EventSink.step c) s ops) from
    hrun new (sound_new c) inLine_new
  induction ops with
  | nil => exact fun s _ hs => hs
  | cons op ops ih => exact fun s hsound hs => ih _ (hsound.step op) (hs.step hsound op)

/-! ## First deliveries -/

theorem lookup_producerSeq (e : CodingEvent) :
    Json.lookup "producer_seq" e.toFields = some (.num e.producerSeq) := by
  unfold CodingEvent.toFields
  cases e.payload with
  | given fields =>
      dsimp only
      rw [List.append_assoc, Json.lookup_append]
      simp
  | eventsDropped count => simp

theorem producerSeq_of_toJson_eq {e f : CodingEvent} (h : e.toJson = f.toJson) :
    e.producerSeq = f.producerSeq := by
  have hfields : e.toFields = f.toFields := Json.obj.inj h
  have hseq := (lookup_producerSeq e).symm.trans ((congrArg _ hfields).trans (lookup_producerSeq f))
  injection hseq with hnum
  injection hnum with hcast
  omega

/-- What was sent is known by what was received. -/
theorem Lined.known (h : s.Lined sent spooled)
    (hordered : s.made.Pairwise fun e f => e.producerSeq < f.producerSeq) {e : CodingEvent}
    (he : e ∈ s.made) {i : Nat} (hi : s.delivered[i]? = some e.toJson) : sent[i]? = some e := by
  rw [h.delivered, List.getElem?_map] at hi
  obtain ⟨f, hf, heq⟩ := Option.map_eq_some_iff.mp hi
  have hmade : f ∈ s.made := h.made f (List.mem_append_left _ (List.mem_of_getElem? hf))
  have hnodup : (s.made.map CodingEvent.producerSeq).Nodup :=
    List.pairwise_map.mpr (hordered.imp fun hlt => Nat.ne_of_lt hlt)
  rw [← List.inj_on_of_nodup_map hnodup hmade he (producerSeq_of_toJson_eq heq)]
  exact hf

/-- **Events are first delivered in the order in which they were emitted.** -/
theorem firstDelivery_lt (c : SinkConfig) (ops : List SinkOp) :
    let s := run (step c) new ops
    ∀ e ∈ s.made, ∀ f ∈ s.made, e.reports = false → f.reports = false →
      e.producerSeq < f.producerSeq →
      ∀ i j, s.FirstDelivery e i → s.FirstDelivery f j → i < j := by
  intro s e he f hf hplain hplain' hlt i j hfirst hfirst'
  obtain ⟨acked, done, spooled, hbooks, -⟩ : Sound c s := sound_run c ops
  obtain ⟨sent, -, spooled, -, hlined⟩ : s.InLine := inLine_run c ops
  have hsent := hlined.known hbooks.ordered he hfirst.here
  have hsent' := hlined.known hbooks.ordered hf hfirst'.here
  -- what was sent before the event at its first delivery
  have hsplit : plain sent = plain (sent.take j) ++ f :: plain (sent.drop (j + 1)) := by
    obtain ⟨hj, hget⟩ := List.getElem?_eq_some_iff.mp hsent'
    have hall : sent.take j ++ f :: sent.drop (j + 1) = sent := by
      rw [← hget, ← List.drop_eq_getElem_cons hj, List.take_append_drop]
    have hkeep : plain (f :: sent.drop (j + 1)) = f :: plain (sent.drop (j + 1)) :=
      List.filter_cons_of_pos (by rw [hplain']; rfl)
    rw [← hkeep, ← plain_append, hall]
  have hmem : e ∈ plain sent := by
    refine List.mem_filter.mpr ⟨List.mem_of_getElem? hsent, ?_⟩
    rw [hplain]
    rfl
  have hbefore := List.mem_of_mem_filter (hlined.order.first _ f _ hsplit e hmem hlt)
  obtain ⟨k, hk, hget⟩ := List.mem_take_iff_getElem.mp hbefore
  have hearlier : s.delivered[k]? = some e.toJson := by
    rw [hlined.delivered, List.getElem?_map, List.getElem?_eq_getElem (by omega), hget]
    rfl
  by_contra hnot
  exact hfirst.before k (by omega) hearlier

/-- A sink with room for what it is given. -/
def roomySink : SinkConfig :=
  { maxBuffered := 10, maxSpoolBytes := 1000, batchSize := 100, sessionId := "s", epoch := "e" }

/-- The first of two events is sent, its answer is lost, and it is sent again with the second. -/
def answerLost : List SinkOp :=
  let stamp : Stamp := ⟨"id", "now"⟩
  let usage : Emission := ⟨.usage, .runtime, .native, [], {}, stamp⟩
  [.emit usage stamp, .flush stamp, .resume, .emit usage stamp, .answered (.failed true), .resume,
    .flush stamp, .resume, .answered .ok]

theorem run_answerLost : ∃ e f, (run (step roomySink) new answerLost).made = [e, f]
    ∧ (run (step roomySink) new answerLost).delivered = [e.toJson, e.toJson, f.toJson]
    ∧ e.reports = false ∧ f.reports = false ∧ e.producerSeq = 1 ∧ f.producerSeq = 2 := by
  unfold answerLost
  simp [run_cons, run_nil, step, emit, makeRoom, flush, doFlush, flushSpool, resume, takeBatch, answered,
    receive, requeue, shed, new, roomySink, eventOf]
  exact ⟨rfl, rfl⟩

theorem firstDelivery_lt_answerLost : ∃ e f, (run (step roomySink) new answerLost).FirstDelivery e 0
    ∧ (run (step roomySink) new answerLost).FirstDelivery f 2 ∧ 0 < 2 := by
  obtain ⟨e, f, hmade, hdelivered, hplain, hplain', he, hf⟩ := run_answerLost
  have hfirst : (run (step roomySink) new answerLost).FirstDelivery e 0 := by
    refine ⟨?_, fun j hj => absurd hj (Nat.not_lt_zero j)⟩
    rw [hdelivered]
    rfl
  have hsecond : (run (step roomySink) new answerLost).FirstDelivery f 2 := by
    refine ⟨?_, fun j hj heq => ?_⟩
    · rw [hdelivered]
      rfl
    · have hother : [e.toJson, e.toJson, f.toJson][j]? = some e.toJson := by
        interval_cases j
        · rfl
        · rfl
      rw [hdelivered, hother] at heq
      have hseq := producerSeq_of_toJson_eq (Option.some.inj heq)
      omega
  refine ⟨e, f, hfirst, hsecond, ?_⟩
  refine firstDelivery_lt roomySink answerLost e ?_ f ?_ hplain hplain' (by omega) 0 2 hfirst hsecond
  · rw [hmade]
    exact List.mem_cons_self
  · rw [hmade]
    exact List.mem_cons_of_mem e List.mem_cons_self

end EventSink

end Agenomic.Connector
