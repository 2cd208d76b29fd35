import Agenomic.Connector.SinkBooks

/-!
# The event sink conserves events

In every state of a run an event is delivered, in flight, in the queue or in the spool, or
it is lost, and evidence is lost only where its line did not fit. The spool holds the
lines of events, in front of which stand lines that were sent already while a flush of it
is under way (`Place`).

**`conserved_iff`**: the losses are accounted for exactly as long as no report of more
than one dropped event is lost.
-/

namespace Agenomic.Connector

open Lib

namespace EventSink

/-- What these events take in the spool. -/
def size (es : List CodingEvent) : Nat := (spoolOf es).length

/-- Where a flush is in the spool: behind the events that it sent and did not cut off yet. -/
def Place : Flushing → List CodingEvent → List CodingEvent → Prop
  | .spooling batch stop rest sent total, done, spooled =>
      ∃ now later fresh, spooled = now ++ (later ++ fresh) ∧ batch = now.map CodingEvent.toJson
        ∧ stop = size (done ++ now) ∧ rest = linesAt stop later ∧ sent = size done
        ∧ total = size (done ++ now ++ later)
  | .sending mark, done, _ => done = [] ∧ mark = 0
  | _, done, _ => done = []

def Flushing.isSending : Flushing → Bool
  | .sending _ => true
  | _ => false

/-- The spool has the lines of events, the first of which were sent already. -/
structure Filed (s : EventSink) (acked done spooled : List CodingEvent) : Prop where
  sent : ∀ e ∈ acked, e.toJson ∈ s.delivered
  behind : done ⊆ acked
  file : s.spool = spoolOf (done ++ spooled)
  place : Place s.flushing done spooled
  idle : Flushing.isSending s.flushing = false → s.inflight = []

/-- What the sink holds or has delivered. -/
def holding (s : EventSink) (acked spooled : List CodingEvent) : Multiset CodingEvent :=
  ↑acked + ↑s.inflight + ↑s.queue + ↑spooled

/-- **The invariant**: the books are kept, and the spool is as it should be. -/
def Sound (c : SinkConfig) (s : EventSink) : Prop :=
  ∃ acked done spooled, Books c s (s.holding acked spooled) ∧ s.Filed acked done spooled

theorem sound_new (c : SinkConfig) : Sound c new := by
  refine ⟨[], [], [], ⟨rfl, .nil, ?_, ?_, ?_, rfl, ?_⟩, ⟨?_, ?_, rfl, rfl, fun _ => rfl⟩⟩
  · exact fun e he => absurd he List.not_mem_nil
  · exact fun e he => absurd he List.not_mem_nil
  · exact fun l hl => absurd hl List.not_mem_nil
  · exact fun e he => absurd he List.not_mem_nil
  · exact fun e he => absurd he List.not_mem_nil
  · exact fun e he => he

variable {c : SinkConfig} {s : EventSink} {acked done spooled : List CodingEvent}

/-! ## The spool -/

theorem Place.append {flushing : Flushing} (h : Place flushing done spooled)
    (more : List CodingEvent) : Place flushing done (spooled ++ more) := by
  cases flushing with
  | spooling batch stop rest sent total =>
      obtain ⟨now, later, fresh, hspooled, hrest⟩ := h
      refine ⟨now, later, fresh ++ more, ?_, hrest⟩
      rw [hspooled, List.append_assoc, List.append_assoc]
  | _ => exact h

/-- The spool is about what was delivered, and about the flush. -/
theorem Filed.of_eq {s' : EventSink} (h : s.Filed acked done spooled)
    (hdelivered : s'.delivered = s.delivered) (hspool : s'.spool = s.spool)
    (hflushing : s'.flushing = s.flushing) (hinflight : s'.inflight = s.inflight) :
    s'.Filed acked done spooled := by
  refine ⟨?_, h.behind, ?_, ?_, ?_⟩
  · rw [hdelivered]
    exact h.sent
  · rw [hspool]
    exact h.file
  · rw [hflushing]
    exact h.place
  · rw [hflushing, hinflight]
    exact h.idle

/-- What is appended to the spool comes last in it. -/
theorem Filed.spill (h : s.Filed acked done spooled) (events : List CodingEvent) :
    (s.spill c events none).Filed acked done (spooled ++ chosen (s.room c) events) := by
  refine ⟨h.sent, h.behind, ?_, h.place.append _, h.idle⟩
  show s.spool ++ spoolOf (chosen (s.room c) events) = _
  rw [h.file, ← List.append_assoc, spoolOf_append (done ++ spooled)]

theorem session_of_filed {held : Multiset CodingEvent} (h : Books c s held)
    (hspooled : ∀ e ∈ spooled, e ∈ held) : ∀ e ∈ spooled, e.codingSessionId = c.sessionId :=
  fun e he => h.session e (h.mem_made (hspooled e he))

theorem spoolOf_drop_size (es fs : List CodingEvent) : (spoolOf (es ++ fs)).drop (size es) = spoolOf fs := by
  rw [spoolOf_append]
  exact List.drop_left

theorem linesAt_readable (start : Nat) (es : List CodingEvent) :
    (linesAt start es).filter (fun line => line.event.isNone) = [] := by
  induction es generalizing start with
  | nil => rfl
  | cons e es ih => exact ih _

/-! ## Flushing the spool -/

theorem books_idle (h : Books c s (↑acked + ↑s.queue + ↑spooled)) (hinflight : s.inflight = []) :
    Books c s (s.holding acked spooled) := by
  unfold holding
  rw [hinflight, Multiset.coe_nil, add_zero]
  exact h

/-- Sending the lines changes the flush and the spool only. -/
theorem sendLines_eq (batch : List Json) (sent total : Nat) (lines : List Line) :
    ∃ flushing spool, s.sendLines c batch sent total lines = { s with flushing, spool } := by
  induction lines generalizing batch sent with
  | nil => exact ⟨.reading, s.spool.drop total, rfl⟩
  | cons line rest ih =>
      unfold sendLines
      dsimp only
      split
      · split
        · exact ih _ _
        · exact ⟨_, s.spool, rfl⟩
      · exact ih _ _

/-- Reading the spool changes the counter besides. -/
theorem flushSpool_eq : ∃ flushing spool dropped,
    s.flushSpool c = { s with flushing, spool, dropped } := by
  unfold flushSpool
  split
  · exact ⟨.checked, s.spool, s.dropped, rfl⟩
  · dsimp only
    obtain ⟨flushing, spool, heq⟩ := sendLines_eq (c := c) [] 0 s.spool.length
      (readLines c.sessionId s.spool)
    exact ⟨flushing, spool, _, heq⟩

/-- **Sending the lines of the spool.** Some events of the file were sent (`done`), some are
gathered (`now`), some were read and follow (`later`), some were appended since (`fresh`). -/
theorem filed_sendLines (done later : List CodingEvent) : ∀ (now fresh : List CodingEvent),
    s.inflight = [] → (∀ e ∈ acked, e.toJson ∈ s.delivered) → done ⊆ acked →
    s.spool = spoolOf (done ++ (now ++ (later ++ fresh))) → (later = [] → now = []) →
    ∃ done', (s.sendLines c (now.map CodingEvent.toJson) (size done) (size (done ++ now ++ later))
      (linesAt (size (done ++ now)) later)).Filed acked done' (now ++ (later ++ fresh)) := by
  induction later with
  | nil =>
      intro now fresh hinflight hacked hdone hspool hnow
      rw [hnow rfl] at hspool ⊢
      have hfresh : s.spool.drop (size (done ++ [] ++ [])) = spoolOf fresh := by
        rw [List.append_nil, List.append_nil, hspool]
        exact spoolOf_drop_size done fresh
      exact ⟨[], hacked, List.nil_subset _, hfresh, rfl, fun _ => hinflight⟩
  | cons e later ih =>
      intro now fresh hinflight hacked hdone hspool _
      have hmove : now ++ (e :: later ++ fresh) = (now ++ [e]) ++ (later ++ fresh) := by
        rw [List.append_assoc]
        rfl
      have hstop : size (done ++ now) + e.line.length = size (done ++ (now ++ [e])) := by
        unfold size
        rw [← List.append_assoc, spoolOf_append (done ++ now), List.length_append, spoolOf_cons,
          spoolOf_nil, List.append_nil]
      have hbatch : now.map CodingEvent.toJson ++ (some e.toJson).toList
          = (now ++ [e]).map CodingEvent.toJson := by
        rw [List.map_append]
        rfl
      have htotal : done ++ now ++ e :: later = done ++ (now ++ [e]) ++ later := by
        simp only [List.append_assoc, List.singleton_append]
      rw [hmove] at hspool ⊢
      unfold linesAt sendLines
      dsimp only
      rw [hbatch, hstop, htotal]
      split
      · rw [if_neg (by simp)]
        exact ⟨done, hacked, hdone, hspool, ⟨now ++ [e], later, fresh, rfl, rfl, rfl, rfl, rfl, rfl⟩,
          fun _ => hinflight⟩
      · rename_i hcond
        refine ih _ _ hinflight hacked hdone hspool fun hlater => ?_
        -- the last line ends a batch
        rw [hlater] at hcond
        exact absurd (.inr rfl) hcond

theorem sound_sendLines (done later now fresh : List CodingEvent)
    (hbooks : Books c s (↑acked + ↑s.queue + ↑(now ++ (later ++ fresh)))) (hinflight : s.inflight = [])
    (hacked : ∀ e ∈ acked, e.toJson ∈ s.delivered) (hdone : done ⊆ acked)
    (hspool : s.spool = spoolOf (done ++ (now ++ (later ++ fresh)))) (hnow : later = [] → now = []) :
    Sound c (s.sendLines c (now.map CodingEvent.toJson) (size done) (size (done ++ now ++ later))
      (linesAt (size (done ++ now)) later)) := by
  obtain ⟨done', hfiled⟩ :=
    @filed_sendLines c s acked done later now fresh hinflight hacked hdone hspool hnow
  obtain ⟨flushing, spool, heq⟩ := @sendLines_eq c s (now.map CodingEvent.toJson) (size done)
    (size (done ++ now ++ later)) (linesAt (size (done ++ now)) later)
  refine ⟨acked, done', now ++ (later ++ fresh), ?_, hfiled⟩
  rw [heq]
  exact (books_idle hbooks hinflight).of_eq rfl rfl (Nat.le_refl _) rfl

/-- **Reading the spool**, where nothing of it was sent: each of its lines is readable. -/
theorem filed_flushSpool (hsession : ∀ e ∈ spooled, e.codingSessionId = c.sessionId)
    (hinflight : s.inflight = []) (hacked : ∀ e ∈ acked, e.toJson ∈ s.delivered)
    (hspool : s.spool = spoolOf spooled) :
    (∃ flushing spool, s.flushSpool c = { s with flushing, spool })
      ∧ ∃ done', (s.flushSpool c).Filed acked done' spooled := by
  unfold flushSpool
  split
  · exact ⟨⟨.checked, s.spool, rfl⟩, [], hacked, List.nil_subset _, hspool, rfl, fun _ => hinflight⟩
  · have hlines : readLines c.sessionId s.spool = linesAt 0 spooled := by
      rw [hspool]
      exact readLines_lines hsession
    have htotal : s.spool.length = size ([] ++ [] ++ spooled) := by
      rw [hspool]
      rfl
    dsimp only
    rw [hlines, linesAt_readable, htotal]
    refine ⟨sendLines_eq [] 0 _ (linesAt 0 spooled), ?_⟩
    have hfiled := @filed_sendLines c s acked [] spooled [] [] hinflight hacked (List.nil_subset _) ?_
      fun _ => rfl
    · rw [List.nil_append, List.append_nil] at hfiled
      exact hfiled
    · rw [List.nil_append, List.nil_append, List.append_nil]
      exact hspool

theorem sound_flushSpool (hbooks : Books c s (↑acked + ↑s.queue + ↑spooled)) (hinflight : s.inflight = [])
    (hacked : ∀ e ∈ acked, e.toJson ∈ s.delivered) (hspool : s.spool = spoolOf spooled) :
    Sound c (s.flushSpool c) := by
  have hsession := session_of_filed hbooks fun e he => Multiset.mem_add.mpr (.inr he)
  obtain ⟨⟨flushing, spool, heq⟩, done', hfiled⟩ := filed_flushSpool hsession hinflight hacked hspool
  refine ⟨acked, done', spooled, ?_, hfiled⟩
  rw [heq]
  exact (books_idle hbooks hinflight).of_eq rfl rfl (Nat.le_refl _) rfl

theorem Sound.flush (h : Sound c s) (stamp : Stamp) : Sound c (s.flush c stamp) := by
  obtain ⟨acked, done, spooled, hbooks, hfiled⟩ := h
  unfold EventSink.flush
  cases hflushing : s.flushing with
  | idle =>
      have hinflight : s.inflight = [] := hfiled.idle (by rw [hflushing]; rfl)
      have hdone : done = [] := by
        have hplace := hfiled.place
        rw [hflushing] at hplace
        exact hplace
      have hfile : s.spool = spoolOf spooled := by
        rw [hfiled.file, hdone, List.nil_append]
      have hheld : Books c s (↑acked + ↑s.queue + ↑spooled) := by
        unfold holding at hbooks
        rw [hinflight, Multiset.coe_nil, add_zero] at hbooks
        exact hbooks
      dsimp only
      unfold doFlush
      dsimp only
      split
      · rename_i hdropped
        obtain ⟨e, hqueue, hreported⟩ := hheld.report hdropped stamp
        have hsame : (↑acked + ↑(s.report c stamp).queue + ↑spooled : Multiset CodingEvent)
            = ↑acked + ↑s.queue + ↑spooled + ↑[e] := by
          rw [hqueue, ← List.singleton_append, ← Multiset.coe_add]
          abel
        rw [← hsame] at hreported
        exact sound_flushSpool hreported hinflight hfiled.sent hfile
      · exact sound_flushSpool hheld hinflight hfiled.sent hfile
  | _ => exact ⟨acked, done, spooled, hbooks, hfiled⟩

/-! ## Going on -/

theorem Sound.resume (h : Sound c s) : Sound c (s.resume c) := by
  obtain ⟨acked, done, spooled, hbooks, hfiled⟩ := h
  have hplace := hfiled.place
  have hidle := hfiled.idle
  unfold EventSink.resume
  cases hflushing : s.flushing with
  | reading =>
      rw [hflushing] at hplace hidle
      have hinflight := hidle rfl
      unfold holding at hbooks
      rw [hinflight, Multiset.coe_nil, add_zero] at hbooks
      refine sound_flushSpool hbooks hinflight hfiled.sent ?_
      rw [hfiled.file, show done = [] from hplace, List.nil_append]
  | checked =>
      rw [hflushing] at hplace hidle
      have hinflight := hidle rfl
      have hfile : s.spool = spoolOf spooled := by
        rw [hfiled.file, show done = [] from hplace, List.nil_append]
      unfold holding at hbooks
      rw [hinflight, Multiset.coe_nil, add_zero] at hbooks
      dsimp only
      split
      · exact sound_flushSpool hbooks hinflight hfiled.sent hfile
      · rename_i hempty
        split
        · refine ⟨acked, [], spooled, ?_, hfiled.sent, List.nil_subset _, hfile, rfl, fun _ => hinflight⟩
          exact (books_idle hbooks hinflight).of_eq rfl rfl (Nat.le_refl _) rfl
        · have hnil : s.spool = [] := by
            rw [Bool.not_eq_true, Bool.not_eq_false', List.isEmpty_iff] at hempty
            exact hempty
          refine ⟨acked, [], spooled, ?_, hfiled.sent, List.nil_subset _, hfile, ⟨rfl, ?_⟩,
            fun hsending => nomatch (show true = false from hsending)⟩
          · have hsame : (↑acked + ↑s.queue + ↑spooled : Multiset CodingEvent)
                = ↑acked + ↑(s.queue.take c.batchSize) + ↑(s.queue.drop c.batchSize) + ↑spooled := by
              nth_rewrite 1 [← List.take_append_drop c.batchSize s.queue]
              rw [← Multiset.coe_add, ← add_assoc]
            rw [hsame] at hbooks
            exact hbooks.of_eq rfl rfl (Nat.le_refl _) rfl
          · rw [hnil]
            rfl
  | ending =>
      rw [hflushing] at hplace hidle
      exact ⟨acked, done, spooled, hbooks.of_eq rfl rfl (Nat.le_refl _) rfl, hfiled.sent, hfiled.behind,
        hfiled.file, hplace, fun _ => hidle rfl⟩
  | _ => exact ⟨acked, done, spooled, hbooks, hfiled⟩

/-! ## Sends that settle -/

theorem plain_add_evidence (events : List CodingEvent) :
    ((events.filter CodingEvent.mandatory : List CodingEvent) : Multiset CodingEvent)
      + ↑(events.filter fun e => !e.mandatory) = ↑events := by
  rw [Multiset.coe_add, Multiset.coe_eq_coe]
  exact List.filter_append_perm CodingEvent.mandatory events

theorem plain_of_mem {events : List CodingEvent} :
    ∀ e ∈ events.filter (fun e => !e.mandatory), e.mandatory = false := by
  intro e he
  have hplain := (List.mem_filter.mp he).2
  rw [Bool.not_eq_true'] at hplain
  exact hplain

/-- **A batch goes back**, where the spool was empty when it was taken. -/
theorem books_requeue {batch : List CodingEvent}
    (hbooks : Books c s (↑acked + ↑s.queue + ↑spooled + ↑batch)) (hspool : s.spool = spoolOf spooled) :
    ∃ spooled', Books c (s.requeue c batch 0) (↑acked + ↑(s.requeue c batch 0).queue + ↑spooled')
      ∧ (s.requeue c batch 0).spool = spoolOf spooled' := by
  unfold requeue
  split
  · refine ⟨spooled, ?_, hspool⟩
    have hsame : (↑acked + ↑s.queue + ↑spooled + ↑batch : Multiset CodingEvent)
        = ↑acked + ↑(batch ++ s.queue) + ↑spooled := by
      rw [← Multiset.coe_add]
      abel
    rw [hsame] at hbooks
    exact hbooks.of_eq rfl rfl (Nat.le_refl _) rfl
  · rename_i hnonempty
    rw [← plain_add_evidence batch, ← add_assoc] at hbooks
    have hspilled := (hbooks.drop plain_of_mem).spill (some 0)
    refine ⟨chosen (room c (s.drop (batch.filter fun e => !e.mandatory)))
      (batch.filter CodingEvent.mandatory) ++ spooled, ?_, ?_⟩
    · rw [← Multiset.coe_add, add_comm (↑(chosen _ _) : Multiset CodingEvent), ← add_assoc]
      exact hspilled
    · show insertAt s.spool (some 0) _ = _
      unfold insertAt
      dsimp only
      rw [if_neg hnonempty, List.take_zero, List.drop_zero, List.nil_append, spoolOf_append, hspool]
      rfl

/-- **The queue is shed.** -/
theorem books_shed (hbooks : Books c s (↑acked + ↑s.queue + ↑spooled))
    (hspool : s.spool = spoolOf spooled) :
    ∃ spooled', Books c (s.shed c) (↑acked + ↑(s.shed c).queue + ↑spooled')
      ∧ (s.shed c).spool = spoolOf spooled' := by
  unfold shed
  split
  · have hsame : (↑acked + ↑s.queue + ↑spooled : Multiset CodingEvent) = ↑acked + ↑spooled
        + ↑(s.queue.filter CodingEvent.mandatory) + ↑(s.queue.filter fun e => !e.mandatory) := by
      rw [← plain_add_evidence s.queue]
      abel
    rw [hsame] at hbooks
    have hspilled := (hbooks.drop plain_of_mem).spill none
    refine ⟨spooled ++ chosen (room c (s.drop (s.queue.filter fun e => !e.mandatory)))
      (s.queue.filter CodingEvent.mandatory), ?_, ?_⟩
    · have hheld : (↑acked + ↑([] : List CodingEvent) + ↑(spooled ++ chosen
          (room c (s.drop (s.queue.filter fun e => !e.mandatory)))
          (s.queue.filter CodingEvent.mandatory)) : Multiset CodingEvent) = ↑acked + ↑spooled
            + ↑(chosen (room c (s.drop (s.queue.filter fun e => !e.mandatory)))
              (s.queue.filter CodingEvent.mandatory)) := by
        rw [Multiset.coe_nil, add_zero, ← Multiset.coe_add, add_assoc]
      dsimp only
      rw [hheld]
      exact hspilled.of_eq rfl rfl (Nat.le_refl _) rfl
    · show s.spool ++ _ = _
      rw [spoolOf_append, hspool]
      rfl
  · exact ⟨spooled, hbooks, hspool⟩

theorem delivered_requeue (batch : List CodingEvent) (mark : Nat) :
    (s.requeue c batch mark).delivered = s.delivered := by
  unfold requeue
  split <;> rfl

theorem delivered_shed : (s.shed c).delivered = s.delivered := by
  unfold shed
  split <;> rfl

theorem Sound.answered (h : Sound c s) (outcome : Sent) : Sound c (s.answered c outcome) := by
  obtain ⟨acked, done, spooled, hbooks, hfiled⟩ := h
  have hplace := hfiled.place
  have hidle := hfiled.idle
  unfold EventSink.answered
  cases hflushing : s.flushing with
  | spooling batch stop rest sent total =>
      rw [hflushing] at hplace hidle
      have hinflight := hidle rfl
      obtain ⟨now, later, fresh, rfl, rfl, rfl, rfl, rfl, rfl⟩ := hplace
      unfold holding at hbooks
      rw [hinflight, Multiset.coe_nil, add_zero] at hbooks
      cases outcome with
      | ok =>
          dsimp only
          have hsame : (↑acked + ↑s.queue + ↑(now ++ (later ++ fresh)) : Multiset CodingEvent)
              = ↑(acked ++ now) + ↑s.queue + ↑(([] : List CodingEvent) ++ (later ++ fresh)) := by
            rw [← Multiset.coe_add, ← Multiset.coe_add acked, List.nil_append]
            abel
          rw [hsame] at hbooks
          have hbehind : size (done ++ now) = size (done ++ now ++ []) := by rw [List.append_nil]
          have htotal : done ++ now ++ later = done ++ now ++ [] ++ later := by rw [List.append_nil]
          rw [htotal]
          nth_rewrite 2 [hbehind]
          refine sound_sendLines (done ++ now) later [] fresh (hbooks.of_eq rfl rfl (Nat.le_refl _) rfl)
            hinflight ?_ ?_ ?_ fun _ => rfl
          · intro e he
            rcases List.mem_append.mp he with hold | hnow
            · exact List.mem_append_left _ (hfiled.sent e hold)
            · exact List.mem_append_right _ (List.mem_map_of_mem hnow)
          · exact List.append_subset.mpr
              ⟨fun e he => List.mem_append_left now (hfiled.behind he), fun e he => List.mem_append_right acked he⟩
          · show s.spool = _
            rw [hfiled.file, List.append_assoc, List.nil_append]
      | failed kept =>
          dsimp only
          refine ⟨acked, [], now ++ (later ++ fresh), ?_, ?_, List.nil_subset _, ?_, rfl,
            fun _ => hinflight⟩
          · exact (books_idle hbooks hinflight).of_eq rfl rfl (Nat.le_refl _) rfl
          · exact fun e he => List.mem_append_left _ (hfiled.sent e he)
          · show s.spool.drop (size done) = _
            rw [hfiled.file, spoolOf_drop_size, List.nil_append]
  | sending mark =>
      rw [hflushing] at hplace
      obtain ⟨hdone, hmark⟩ := hplace
      have hfile : s.spool = spoolOf spooled := by
        rw [hfiled.file, hdone, List.nil_append]
      cases outcome with
      | ok =>
          dsimp only
          have hsame : s.holding acked spooled
              = (↑(acked ++ s.inflight) + ↑s.queue + ↑spooled : Multiset CodingEvent) := by
            unfold holding
            rw [← Multiset.coe_add]
          rw [hsame] at hbooks
          refine sound_flushSpool (hbooks.of_eq rfl rfl (Nat.le_refl _) rfl) rfl ?_ hfile
          intro e he
          rcases List.mem_append.mp he with hold | hnow
          · exact List.mem_append_left _ (hfiled.sent e hold)
          · exact List.mem_append_right _ (List.mem_map_of_mem hnow)
      | failed kept =>
          dsimp only
          have hsame : s.holding acked spooled
              = (↑acked + ↑s.queue + ↑spooled + ↑s.inflight : Multiset CodingEvent) := by
            unfold holding
            abel
          rw [hsame] at hbooks
          obtain ⟨received, hreceived⟩ :
              ∃ received, received = s.receive (if kept then s.inflight.map CodingEvent.toJson else []) :=
            ⟨_, rfl⟩
          have hheld : Books c received (↑acked + ↑received.queue + ↑spooled + ↑s.inflight) := by
            rw [hreceived]
            exact hbooks.of_eq rfl rfl (Nat.le_refl _) rfl
          have hfile' : received.spool = spoolOf spooled := by
            rw [hreceived]
            exact hfile
          rw [hmark, ← hreceived]
          obtain ⟨spooled₁, hbooks₁, hspool₁⟩ := books_requeue hheld hfile'
          obtain ⟨spooled₂, hbooks₂, hspool₂⟩ := books_shed hbooks₁ hspool₁
          refine ⟨acked, [], spooled₂, ?_, ?_, List.nil_subset _, hspool₂, rfl, fun _ => rfl⟩
          · have hidle₂ : Books c { (received.requeue c s.inflight 0).shed c with inflight := [] } _ :=
              hbooks₂.of_eq rfl rfl (Nat.le_refl _) rfl
            exact (books_idle hidle₂ rfl).of_eq rfl rfl (Nat.le_refl _) rfl
          · intro e he
            show e.toJson ∈ ((received.requeue c s.inflight 0).shed c).delivered
            rw [delivered_shed, delivered_requeue, hreceived]
            exact List.mem_append_left _ (hfiled.sent e he)
  | _ => exact ⟨acked, done, spooled, hbooks, hfiled⟩

/-! ## Emitting -/

/-- What is made room for is dropped or spilled. -/
theorem makeRoom_sound {s' : EventSink} (hbooks : Books c s (s.holding acked spooled))
    (hfiled : s.Filed acked done spooled) (h : s.makeRoom c = some s') :
    s'.made = s.made ∧ s'.seq = s.seq
      ∧ ∃ spooled', Books c s' (s'.holding acked spooled') ∧ s'.Filed acked done spooled' := by
  unfold makeRoom at h
  split at h
  · split at h
    · rename_i i hfind
      cases h
      obtain ⟨hi, hplain, -⟩ := List.findIdx?_eq_some_iff_getElem.mp hfind
      refine ⟨rfl, rfl, spooled, ?_, hfiled.of_eq rfl rfl rfl rfl⟩
      have hsame : s.holding acked spooled = (↑acked + ↑s.inflight + ↑(s.queue.eraseIdx i) + ↑spooled
          + ↑[s.queue[i]] : Multiset CodingEvent) := by
        have hperm : (s.queue : Multiset CodingEvent) = ↑[s.queue[i]] + ↑(s.queue.eraseIdx i) :=
          Multiset.coe_eq_coe.mpr (List.getElem_cons_eraseIdx_perm hi).symm
        unfold holding
        rw [hperm]
        abel
      rw [hsame] at hbooks
      have hdropped := hbooks.drop fun e he => by
        rw [List.mem_singleton.mp he]
        rw [Bool.not_eq_true'] at hplain
        exact hplain
      rw [List.getElem?_eq_getElem hi, Option.toList_some]
      exact hdropped.of_eq rfl rfl (Nat.le_refl _) rfl
    · split at h
      · cases h
      · rename_i first rest hqueue
        cases h
        have hsame : s.holding acked spooled
            = (↑acked + ↑s.inflight + ↑rest + ↑spooled + ↑[first] : Multiset CodingEvent) := by
          unfold holding
          rw [hqueue, ← List.singleton_append, ← Multiset.coe_add]
          abel
        rw [hsame] at hbooks
        have hrest : Books c { s with queue := rest } _ := hbooks.of_eq rfl rfl (Nat.le_refl _) rfl
        have hfiled' : Filed { s with queue := rest } acked done spooled := hfiled.of_eq rfl rfl rfl rfl
        refine ⟨rfl, rfl, _, ?_, hfiled'.spill [first]⟩
        have hspilled := hrest.spill none
        rw [add_assoc, Multiset.coe_add] at hspilled
        exact hspilled
  · cases h
    exact ⟨rfl, rfl, spooled, hbooks, hfiled⟩

theorem Sound.emit (h : Sound c s) (e : Emission) (stamp : Stamp) : Sound c (s.emit c e stamp) := by
  obtain ⟨acked, done, spooled, hbooks, hfiled⟩ := h
  have hbooks' : Books c { s with seq := s.seq + 1 } (s.holding acked spooled) :=
    hbooks.of_eq rfl rfl (Nat.le_succ s.seq) rfl
  have hfiled' : Filed { s with seq := s.seq + 1 } acked done spooled := hfiled.of_eq rfl rfl rfl rfl
  unfold EventSink.emit
  dsimp only
  cases hroom : makeRoom c { s with seq := s.seq + 1 } with
  | none => exact ⟨acked, done, spooled, hbooks', hfiled'⟩
  | some s₁ =>
      obtain ⟨hmade, hseq, spooled₁, hbooks₁, hfiled₁⟩ := makeRoom_sound hbooks' hfiled' hroom
      have hbehind : ∀ f ∈ s₁.made, f.producerSeq < (s.eventOf c e).producerSeq := by
        rw [hmade]
        exact fun f hf => Nat.lt_succ_of_le (hbooks.seq f hf)
      have hlast : (s.eventOf c e).producerSeq ≤ s₁.seq := Nat.le_of_eq hseq.symm
      have hqueued : Sound c { s₁ with
          queue := s₁.queue ++ [s.eventOf c e]
          made := s₁.made ++ [s.eventOf c e] } := by
        refine ⟨acked, done, spooled₁, ?_, hfiled₁.of_eq rfl rfl rfl rfl⟩
        have hmake : Books c { s₁ with
            queue := s₁.queue ++ [s.eventOf c e]
            made := s₁.made ++ [s.eventOf c e] } _ :=
          hbooks₁.make rfl rfl (Nat.le_refl _) rfl hbehind hlast rfl fun hreports => nomatch hreports
        have hsame : s₁.holding acked spooled₁ + ↑[s.eventOf c e] = (↑acked + ↑s₁.inflight
            + ↑(s₁.queue ++ [s.eventOf c e]) + ↑spooled₁ : Multiset CodingEvent) := by
          unfold holding
          rw [← Multiset.coe_add s₁.queue]
          abel
        rw [hsame] at hmake
        exact hmake
      dsimp only
      split
      · exact hqueued.flush stamp
      · exact hqueued

theorem Sound.spillRest (h : Sound c s) : Sound c (s.spillRest c) := by
  obtain ⟨acked, done, spooled, hbooks, hfiled⟩ := h
  have hsame : s.holding acked spooled = (↑acked + ↑s.inflight + ↑([] : List CodingEvent) + ↑spooled
      + ↑s.queue : Multiset CodingEvent) := by
    unfold holding
    rw [Multiset.coe_nil]
    abel
  rw [hsame] at hbooks
  have hrest : Books c { s with queue := [] } _ := hbooks.of_eq rfl rfl (Nat.le_refl _) rfl
  have hfiled' : Filed { s with queue := [] } acked done spooled := hfiled.of_eq rfl rfl rfl rfl
  refine ⟨acked, done, _, ?_, hfiled'.spill s.queue⟩
  have hspilled := hrest.spill none
  rw [add_assoc, Multiset.coe_add] at hspilled
  exact hspilled

/-- **One step** keeps the books and the spool. -/
theorem Sound.step (h : Sound c s) (op : SinkOp) : Sound c (step c s op) := by
  cases op with
  | emit e report => exact h.emit e report
  | flush report => exact h.flush report
  | resume => exact h.resume
  | answered outcome => exact h.answered outcome
  | spillRest => exact h.spillRest

theorem sound_run (c : SinkConfig) (ops : List SinkOp) : Sound c (run (step c) new ops) := by
  suffices hrun : ∀ s, Sound c s → Sound c (run (EventSink.step c) s ops) from hrun new (sound_new c)
  induction ops with
  | nil => exact fun s hs => hs
  | cons op ops ih => exact fun s hs => ih _ (hs.step op)

end EventSink

end Agenomic.Connector
