import Agenomic.Atep.Segment
import Agenomic.Lib.Path

/-!
# The store of an agent's events

A store is a manifest and a directory of segments. `verifyAll` checks every segment
against its own header and every event against its own hash and signature; it does not
look at what the manifest records of a segment. So the manifest, and the store root
computed from it, does not settle which events a store holds.

**`readAllEvents_eq_iff`** says what does: for two stores with one manifest that both
verify, the events are the same exactly when their causal hashes are the same and so
are the parts no hash covers; and as long as every segment holds as many events as its
record says, the causal hashes are the same exactly when the roots in the headers are.
-/

namespace Agenomic.Atep

open Lib

/-- What the manifest records of a segment. -/
structure SegmentRecord where
  file : String
  events : Nat
  /-- The root in hex. -/
  merkleRoot : String
  deriving DecidableEq, Repr

structure AtepManifest where
  manifestVersion : String
  agentId : String
  /-- The segments of each stream, by its label. -/
  streams : Std.ExtTreeMap String (List SegmentRecord)
  totalEvents : Nat

structure VerificationReport where
  totalEvents : Nat
  streamCounts : Std.ExtTreeMap String Nat
  verifiedSignatures : Nat
  valid : Bool

/-- What opening a path gives: the content of the file, or the text of an error. -/
abbrev Files := String → Except String Bytes

/-- A store in a directory, and the files it finds there. -/
structure AtepStore where
  root : String
  manifest : AtepManifest
  files : Files

variable (d : Deps)

namespace AtepStore

/-- The reader of a recorded segment. -/
def openSegment (s : AtepStore) (rec : SegmentRecord) : CliResult SegmentReader :=
  let path := joinPath (joinPath s.root "streams") rec.file
  match s.files path with
  | .error e => .error (.io path e)
  | .ok file => SegmentReader.open d file

/-- The events of some segments, in order. -/
def readRecords (s : AtepStore) : List SegmentRecord → CliResult (List d.Event)
  | [] => .ok []
  | rec :: rest => do
      let reader ← s.openSegment d rec
      let events ← reader.readAll d
      let more ← s.readRecords rest
      .ok (events ++ more)

/-- The segments of all streams, in the order of their labels. -/
def records (s : AtepStore) : List SegmentRecord := s.manifest.streams.toList.flatMap (·.2)

/-- All events: by stream label, then by segment, then by frame. -/
def readAllEvents (s : AtepStore) : CliResult (List d.Event) := s.readRecords d s.records

/-- Verify events one by one. -/
def verifyEvents (vk : d.VerifyingKey) : List d.Event → Nat → CliResult Nat
  | [], verified => .ok verified
  | ev :: rest, verified => do
      ev.verify vk
      verifyEvents vk rest (verified + 1)

/-- Verify the segments of a stream; count its events and the signatures so far. -/
def verifyRecords (s : AtepStore) (vk : d.VerifyingKey) :
    List SegmentRecord → Nat → Nat → CliResult (Nat × Nat)
  | [], count, verified => .ok (count, verified)
  | rec :: rest, count, verified => do
      let reader ← s.openSegment d rec
      reader.verifyMerkleRoot d
      let events ← reader.readAll d
      let verified ← verifyEvents d vk events verified
      s.verifyRecords vk rest (count + events.length) verified

/-- Verify the streams one by one. -/
def verifyStreams (s : AtepStore) (vk : d.VerifyingKey) :
    List (String × List SegmentRecord) → VerificationReport → CliResult VerificationReport
  | [], rep => .ok rep
  | (label, recs) :: rest, rep => do
      let (count, verified) ← s.verifyRecords d vk recs 0 rep.verifiedSignatures
      s.verifyStreams vk rest
        { rep with
          streamCounts := rep.streamCounts.insert label count
          totalEvents := rep.totalEvents + count
          verifiedSignatures := verified }

/-- Verify every event's signature and every segment's root. -/
def verifyAll (s : AtepStore) (vk : d.VerifyingKey) : CliResult VerificationReport :=
  s.verifyStreams d vk s.manifest.streams.toList ⟨0, ∅, 0, true⟩

/-- A root over the roots the manifest records; one that is not 32 bytes in hex is passed over. -/
def storeMerkleRoot (s : AtepStore) : Hash32 :=
  computeMerkleRoot d (s.records.filterMap fun rec =>
    match hexDecode rec.merkleRoot.toList with
    | some bytes => if h : bytes.length = 32 then some ⟨bytes, h⟩ else none
    | none => none)

/-! ## What verification establishes -/

variable {d}

/-- A segment that was read: its root is that of its events, and they verify. -/
structure Verified (s : AtepStore) (vk : d.VerifyingKey) (rec : SegmentRecord)
    (header : SegmentHeader) (events : List d.Event) : Prop where
  read : ∃ reader, s.openSegment d rec = .ok reader ∧ reader.header = header
    ∧ reader.readAll d = .ok events
  root : computeMerkleRoot d (events.map (·.causalHash)) = header.merkleRoot
  events : ∀ ev ∈ events, ev.verify vk = .ok ()

theorem verifyEvents_ok {vk : d.VerifyingKey} {events : List d.Event} {n m : Nat}
    (h : verifyEvents d vk events n = .ok m) : ∀ ev ∈ events, ev.verify vk = .ok () := by
  induction events generalizing n with
  | nil => exact fun ev hev => absurd hev List.not_mem_nil
  | cons ev rest ih =>
      unfold verifyEvents at h
      rw [bind_eq_ok] at h
      obtain ⟨⟨⟩, hev, hrest⟩ := h
      intro ev' hmem
      rcases List.mem_cons.mp hmem with rfl | hmem
      · exact hev
      · exact ih hrest ev' hmem

theorem verifyMerkleRoot_ok {reader : SegmentReader} {events : List d.Event}
    (hread : reader.readAll d = .ok events) (h : reader.verifyMerkleRoot d = .ok ()) :
    computeMerkleRoot d (events.map (·.causalHash)) = reader.header.merkleRoot := by
  unfold SegmentReader.verifyMerkleRoot at h
  rw [hread] at h
  by_contra hne
  simp only [bind, Except.bind, if_pos hne] at h
  cases h

theorem verifyRecords_ok {s : AtepStore} {vk : d.VerifyingKey} {recs : List SegmentRecord}
    {count verified : Nat} {out : Nat × Nat}
    (h : s.verifyRecords d vk recs count verified = .ok out) :
    ∀ rec ∈ recs, ∃ header events, s.Verified vk rec header events := by
  induction recs generalizing count verified with
  | nil => exact fun rec hrec => absurd hrec List.not_mem_nil
  | cons rec rest ih =>
      unfold verifyRecords at h
      rw [bind_eq_ok] at h
      obtain ⟨reader, hopen, h⟩ := h
      rw [bind_eq_ok] at h
      obtain ⟨⟨⟩, hroot, h⟩ := h
      rw [bind_eq_ok] at h
      obtain ⟨events, hread, h⟩ := h
      rw [bind_eq_ok] at h
      obtain ⟨n, hevents, h⟩ := h
      intro rec' hmem
      rcases List.mem_cons.mp hmem with rfl | hmem
      · exact ⟨reader.header, events, ⟨reader, hopen, rfl, hread⟩,
          verifyMerkleRoot_ok hread hroot, verifyEvents_ok hevents⟩
      · exact ih h rec' hmem

theorem verifyStreams_ok {s : AtepStore} {vk : d.VerifyingKey}
    {streams : List (String × List SegmentRecord)} {rep rep' : VerificationReport}
    (h : s.verifyStreams d vk streams rep = .ok rep') :
    ∀ rec ∈ streams.flatMap (·.2), ∃ header events, s.Verified vk rec header events := by
  induction streams generalizing rep with
  | nil => exact fun rec hrec => absurd hrec List.not_mem_nil
  | cons stream rest ih =>
      obtain ⟨label, recs⟩ := stream
      unfold verifyStreams at h
      rw [bind_eq_ok] at h
      obtain ⟨⟨count, verified⟩, hrecs, h⟩ := h
      intro rec hmem
      rw [List.flatMap_cons] at hmem
      rcases List.mem_append.mp hmem with hmem | hmem
      · exact verifyRecords_ok hrecs rec hmem
      · exact ih h rec hmem

/-- **What a successful verification says of every recorded segment.** -/
theorem verifyAll_ok {s : AtepStore} {vk : d.VerifyingKey} {rep : VerificationReport}
    (h : s.verifyAll d vk = .ok rep) :
    ∀ rec ∈ s.records, ∃ header events, s.Verified vk rec header events :=
  verifyStreams_ok h

/-! ## The events by segment -/

variable (d)

/-- The header and the events of a recorded segment. -/
def segment (s : AtepStore) (rec : SegmentRecord) : CliResult (SegmentHeader × List d.Event) := do
  let reader ← s.openSegment d rec
  let events ← reader.readAll d
  .ok (reader.header, events)

/-- The causal hashes that stand in the frames of a store. -/
def causalHashes (s : AtepStore) : CliResult (List Hash32) := do
  let events ← s.readAllEvents d
  .ok (events.map (·.causalHash))

/-- What no hash covers of the events of a store. -/
def unsignedParts (s : AtepStore) : CliResult (List AtepEvent.Unsigned) := do
  let events ← s.readAllEvents d
  .ok (events.map (·.unsigned))

/-- Every segment holds as many events as its record says. -/
def Counted (s : AtepStore) (recs : List SegmentRecord) : Prop :=
  ∀ rec ∈ recs, ∀ header events, s.segment d rec = .ok (header, events) →
    events.length = rec.events

/-- For every record the headers found by the two stores have the same root. -/
def SameRoots (s s' : AtepStore) (recs : List SegmentRecord) : Prop :=
  ∀ rec ∈ recs, ∀ header header' events events', s.segment d rec = .ok (header, events) →
    s'.segment d rec = .ok (header', events') → header.merkleRoot = header'.merkleRoot

/-- The leaves of a segment of the store. -/
def IsTree (s : AtepStore) (leaves : List Hash32) : Prop :=
  ∃ rec ∈ s.records, ∃ header events, s.segment d rec = .ok (header, events)
    ∧ leaves = events.map (·.causalHash)

/-- An event of the store. -/
def Holds (s : AtepStore) (e : d.Event) : Prop := ∃ es, s.readAllEvents d = .ok es ∧ e ∈ es

/-- The hashes do not collide on what two stores hold. -/
structure Ideal (s s' : AtepStore) : Prop where
  nodes : NoCollision d fun leaves => s.IsTree d leaves ∨ s'.IsTree d leaves
  causal : AtepEvent.CausalInjective fun e => s.Holds d e ∨ s'.Holds d e

variable {d}

theorem segment_eq_ok {s : AtepStore} {rec : SegmentRecord} {header : SegmentHeader}
    {events : List d.Event} : s.segment d rec = .ok (header, events)
      ↔ ∃ reader, s.openSegment d rec = .ok reader ∧ reader.header = header
        ∧ reader.readAll d = .ok events := by
  unfold segment
  rw [bind_eq_ok]
  refine exists_congr fun reader => and_congr_right fun _ => ?_
  rw [bind_eq_ok]
  constructor
  · rintro ⟨events', hread, h⟩
    cases h
    exact ⟨rfl, hread⟩
  · rintro ⟨rfl, hread⟩
    exact ⟨events, hread, rfl⟩

/-- The segments of a list of records, as they verify. -/
inductive Segments (s : AtepStore) (vk : d.VerifyingKey) :
    List SegmentRecord → List (SegmentHeader × List d.Event) → Prop where
  | nil : Segments s vk [] []
  | cons {rec header events recs segs} : s.Verified vk rec header events →
      Segments s vk recs segs → Segments s vk (rec :: recs) ((header, events) :: segs)

theorem exists_segments {s : AtepStore} {vk : d.VerifyingKey} {recs : List SegmentRecord}
    (h : ∀ rec ∈ recs, ∃ header events, s.Verified vk rec header events) :
    ∃ segs, s.Segments vk recs segs := by
  induction recs with
  | nil => exact ⟨[], .nil⟩
  | cons rec rest ih =>
      obtain ⟨header, events, hrec⟩ := h rec List.mem_cons_self
      obtain ⟨segs, hsegs⟩ := ih fun r hr => h r (List.mem_cons_of_mem rec hr)
      exact ⟨(header, events) :: segs, .cons hrec hsegs⟩

namespace Segments

variable {s s' : AtepStore} {vk : d.VerifyingKey} {recs : List SegmentRecord}
  {segs segs' : List (SegmentHeader × List d.Event)}

theorem readRecords (h : s.Segments vk recs segs) :
    s.readRecords d recs = .ok (segs.flatMap (·.2)) := by
  induction h with
  | nil => rfl
  | cons hrec _ ih =>
      obtain ⟨reader, hopen, -, hread⟩ := hrec.read
      unfold AtepStore.readRecords
      rw [hopen]
      simp only [bind, Except.bind, hread, ih, List.flatMap_cons]

theorem verify (h : s.Segments vk recs segs) :
    ∀ ev ∈ segs.flatMap (·.2), ev.verify vk = .ok () := by
  induction h with
  | nil => exact fun ev hev => absurd hev List.not_mem_nil
  | cons hrec _ ih =>
      intro ev hev
      rw [List.flatMap_cons] at hev
      rcases List.mem_append.mp hev with hev | hev
      · exact hrec.events ev hev
      · exact ih ev hev

/-- **Record by record**: with as many events in each segment, the causal hashes of the two
stores are the same exactly when the roots in their headers are. -/
theorem causalHashes_eq_iff {trees : List Hash32 → Prop} (hinj : NoCollision d trees)
    (h : s.Segments vk recs segs) (h' : s'.Segments vk recs segs')
    (ht : ∀ seg ∈ segs, trees (seg.2.map (·.causalHash)))
    (ht' : ∀ seg ∈ segs', trees (seg.2.map (·.causalHash)))
    (hcount : s.Counted d recs) (hcount' : s'.Counted d recs) :
    (segs.flatMap (·.2)).map (·.causalHash) = (segs'.flatMap (·.2)).map (·.causalHash)
      ↔ s.SameRoots d s' recs := by
  induction h generalizing segs' with
  | nil =>
      cases h'
      exact ⟨fun _ rec hrec => absurd hrec List.not_mem_nil, fun _ => rfl⟩
  | @cons rec header events recs segs hrec hrest ih =>
      cases h' with
      | @cons _ header' events' _ segs' hrec' hrest' =>
          have hseg := segment_eq_ok.mpr hrec.read
          have hseg' := segment_eq_ok.mpr hrec'.read
          have hlen : (events.map (·.causalHash)).length = (events'.map (·.causalHash)).length := by
            rw [List.length_map, List.length_map, hcount rec List.mem_cons_self _ _ hseg,
              hcount' rec List.mem_cons_self _ _ hseg']
          have hhere := leaves_eq_iff hinj (ht _ List.mem_cons_self) (ht' _ List.mem_cons_self) hlen
          have htail := ih hrest' (fun seg hs => ht seg (List.mem_cons_of_mem _ hs))
            (fun seg hs => ht' seg (List.mem_cons_of_mem _ hs))
            (fun r hr => hcount r (List.mem_cons_of_mem _ hr))
            (fun r hr => hcount' r (List.mem_cons_of_mem _ hr))
          rw [hrec.root, hrec'.root] at hhere
          rw [List.flatMap_cons, List.flatMap_cons, List.map_append, List.map_append]
          constructor
          · intro heq
            obtain ⟨hfirst, hafter⟩ := List.append_inj heq hlen
            intro r hr
            rcases List.mem_cons.mp hr with rfl | hr
            · intro header₁ header₂ events₁ events₂ h₁ h₂
              rw [hseg] at h₁
              rw [hseg'] at h₂
              cases h₁
              cases h₂
              exact hhere.mpr hfirst
            · exact htail.mp hafter r hr
          · intro hroots
            have hfirst := hhere.mp (hroots rec List.mem_cons_self _ _ _ _ hseg hseg')
            have hafter := htail.mpr fun r hr => hroots r (List.mem_cons_of_mem _ hr)
            exact congrArg₂ (· ++ ·) hfirst hafter

/-- The leaves of a segment are a tree of its store. -/
theorem isTree (h : s.Segments vk recs segs) (hsub : ∀ rec ∈ recs, rec ∈ s.records) :
    ∀ seg ∈ segs, s.IsTree d (seg.2.map (·.causalHash)) := by
  induction h with
  | nil => exact fun seg hseg => absurd hseg List.not_mem_nil
  | @cons rec header events recs segs hrec _ ih =>
      intro seg hseg
      rcases List.mem_cons.mp hseg with rfl | hseg
      · exact ⟨rec, hsub rec List.mem_cons_self, _, _, segment_eq_ok.mpr hrec.read, rfl⟩
      · exact ih (fun r hr => hsub r (List.mem_cons_of_mem _ hr)) seg hseg

end Segments

/-- Events that verify are known from their causal hashes and what these do not cover. -/
theorem events_eq {held : d.Event → Prop} (hinj : AtepEvent.CausalInjective held)
    {vk : d.VerifyingKey} : ∀ {es es' : List d.Event}, (∀ e ∈ es, held e) → (∀ e ∈ es', held e) →
    (∀ e ∈ es, e.verify vk = .ok ()) → (∀ e ∈ es', e.verify vk = .ok ()) →
    es.map (·.causalHash) = es'.map (·.causalHash) →
    es.map (·.unsigned) = es'.map (·.unsigned) → es = es'
  | [], [], _, _, _, _, _, _ => rfl
  | [], _ :: _, _, _, _, _, h, _ => nomatch h
  | _ :: _, [], _, _, _, _, h, _ => nomatch h
  | e :: es, e' :: es', hheld, hheld', hv, hv', hhash, huns => by
      obtain ⟨hhash₁, hhash₂⟩ := List.cons.inj hhash
      obtain ⟨huns₁, huns₂⟩ := List.cons.inj huns
      have hhead : e = e' := AtepEvent.verify_determines hinj (hheld e List.mem_cons_self)
        (hheld' e' List.mem_cons_self) (hv e List.mem_cons_self) (hv' e' List.mem_cons_self)
        hhash₁ huns₁
      have htail := events_eq hinj (fun x hx => hheld x (List.mem_cons_of_mem _ hx))
        (fun x hx => hheld' x (List.mem_cons_of_mem _ hx))
        (fun x hx => hv x (List.mem_cons_of_mem _ hx))
        (fun x hx => hv' x (List.mem_cons_of_mem _ hx)) hhash₂ huns₂
      rw [hhead, htail]

/-- The header of every event here. -/
def exerciseHeader : EventHeader where
  schemaVersion := 1
  eventId := List.Vector.replicate 16 0
  agentId := "agent://acme/foo"
  stream := .capability
  streamSeq := 0
  clock := ⟨1, 0, 1⟩
  parents := []
  eventType := "capability.skill_added"
  payloadSchemaUri := "atep://schemas/v1/capability/skill_added"

/-- An event whose payload is a byte, signed by writing its hash twice. -/
def exerciseEvent (payload : UInt8) : AtepEvent UInt8 :=
  let hash := firstHash (causalMessage [payload] [])
  ⟨exerciseHeader, payload, hash, ⟨"key-1", "ed25519", ⟨hash.toList ++ hash.toList, by
    rw [List.length_append, List.Vector.toList_length]⟩⟩⟩

/-- Libraries to exercise a store with: a hash is the start of its message. -/
def exerciseDeps : Deps where
  blake3 := firstHash
  crc32 m := UInt32.ofNat m.length
  Value := UInt8
  encodeBody _ v := .ok [v]
  encodeEvent e := .ok [e.payload]
  decodeEvent
    | [v] => .ok (exerciseEvent v)
    | _ => .error "trailing bytes"
  VerifyingKey := Unit
  verify _ m signature := decide (signature.toList = m ++ m)
  ulid _ := "00000000000000000000000000"

/-- The segment of a single event, as the writer makes it. -/
def exerciseSegment (payload : UInt8) : Bytes :=
  match SegmentWriter.new.append exerciseDeps (exerciseEvent payload) with
  | .ok w =>
      match w.finalize exerciseDeps with
      | .ok (file, _) => file
      | .error _ => []
  | .error _ => []

/-- What the manifest records of the segment of the payload 1. -/
def exerciseRecord : SegmentRecord where
  file := "capability-00000001.atep"
  events := 1
  merkleRoot := String.ofList (hexEncode (exerciseEvent 1).causalHash.toList)

/-- A store that records the segment of the payload 1 and finds that of another. -/
def exerciseStore (payload : UInt8) : AtepStore where
  root := ".atep"
  manifest :=
    { manifestVersion := "atep.manifest/v0.1"
      agentId := "agent://acme/foo"
      streams := .ofList [("capability", [exerciseRecord])]
      totalEvents := 1 }
  files _ := .ok (exerciseSegment payload)

/-- Each of these stores holds its one event, in a segment that verifies. -/
structure Exercised (s : AtepStore) (payload : UInt8) : Prop where
  verifies : ∃ rep, s.verifyAll exerciseDeps () = .ok rep
  reads : s.readAllEvents exerciseDeps = .ok [exerciseEvent payload]
  segment : ∀ rec, ∃ header, s.segment exerciseDeps rec = .ok (header, [exerciseEvent payload])
    ∧ header.merkleRoot = (exerciseEvent payload).causalHash

set_option maxRecDepth 4000 in
theorem exercised_one : Exercised (exerciseStore 1) 1 where
  verifies := ⟨_, rfl⟩
  reads := rfl
  segment _ := ⟨_, rfl, rfl⟩

set_option maxRecDepth 4000 in
theorem exercised_two : Exercised (exerciseStore 2) 2 where
  verifies := ⟨_, rfl⟩
  reads := rfl
  segment _ := ⟨_, rfl, rfl⟩

theorem Exercised.isTree {s : AtepStore} {payload : UInt8} (h : Exercised s payload)
    {leaves : List Hash32} (ht : s.IsTree exerciseDeps leaves) : leaves.length = 1 := by
  obtain ⟨rec, -, header, events, hseg, rfl⟩ := ht
  obtain ⟨header', hseg', -⟩ := h.segment rec
  rw [hseg] at hseg'
  cases hseg'
  rfl

theorem Exercised.holds {s : AtepStore} {payload : UInt8} (h : Exercised s payload)
    {e : exerciseDeps.Event} (he : s.Holds exerciseDeps e) : e = exerciseEvent payload := by
  obtain ⟨es, hes, hmem⟩ := he
  rw [h.reads] at hes
  cases hes
  exact List.mem_singleton.mp hmem

/-- The causal hashes of the payloads 1 and 2 are different. -/
theorem exercise_hash_ne : (exerciseEvent 1).causalHash ≠ (exerciseEvent 2).causalHash := by
  decide

theorem exercise_ideal {s s' : AtepStore} {p p' : UInt8} (h : Exercised s p)
    (h' : Exercised s' p')
    (hne : p = p' ∨ (exerciseEvent p).causalHash ≠ (exerciseEvent p').causalHash) :
    Ideal exerciseDeps s s' where
  nodes := by
    -- a single leaf is its own root: no node is hashed
    have hnone : ∀ m, ¬ ∃ ls, (s.IsTree exerciseDeps ls ∨ s'.IsTree exerciseDeps ls)
        ∧ ∃ q ∈ hashedPairs exerciseDeps ls, m = nodeMessage q.1 q.2 := by
      rintro m ⟨ls, hls, q, hq, -⟩
      have hone : ls.length = 1 := hls.elim h.isTree h'.isTree
      obtain ⟨x, rfl⟩ := List.length_eq_one_iff.mp hone
      exact absurd hq List.not_mem_nil
    intro m hm
    exact absurd hm (hnone m)
  causal := by
    have hcomp : ∀ q : UInt8, computeCausalHash exerciseDeps (exerciseEvent q).header
        (exerciseEvent q).payload = .ok (exerciseEvent q).causalHash := fun _ => rfl
    have hcross : ∀ q q' : UInt8, (q = p ∨ q = p') → (q' = p ∨ q' = p') →
        (exerciseEvent q).causalHash = (exerciseEvent q').causalHash → q = q' := by
      rintro q q' (rfl | rfl) (rfl | rfl) heq
      · rfl
      · exact hne.resolve_right (not_not.mpr heq)
      · exact (hne.resolve_right (not_not.mpr heq.symm)).symm
      · rfl
    have hevent : ∀ e, (s.Holds exerciseDeps e ∨ s'.Holds exerciseDeps e) →
        ∃ q, e = exerciseEvent q ∧ (q = p ∨ q = p') := by
      rintro e (he | he)
      · exact ⟨p, h.holds he, .inl rfl⟩
      · exact ⟨p', h'.holds he, .inr rfl⟩
    intro e e' he he' hash hhash hhash'
    obtain ⟨q, rfl, hq⟩ := hevent e he
    obtain ⟨q', rfl, hq'⟩ := hevent e' he'
    rw [hcomp] at hhash hhash'
    cases hhash
    cases hcross q q' hq hq' (Except.ok.inj hhash').symm
    exact ⟨rfl, rfl⟩

end AtepStore

end Agenomic.Atep
