import Agenomic.Atep.RoundTrip

/-!
# The layout of a segment, and what an accepted one promises

The module's drawing of a segment says what its fields mean: as many frames as the count
says, right behind the header and up to the trailer, whose index offset says where it
stands; and the clocks of the first and the last event. The reader uses the index offset
alone, and reads frames until it is reached or passed.

**`accepted_consistent_iff`**: what the reader accepts is consistent with its header and
trailer exactly when the file is laid out as the drawing says (`LaidOut`).
-/

namespace Agenomic.Atep

open Lib

/-! ## Bytes -/

theorem ofLeBytes_cons (b : UInt8) (bs : Bytes) :
    ofLeBytes (b :: bs) = b.toNat + 256 * ofLeBytes bs := rfl

theorem ofLeBytes_lt : ∀ bs : Bytes, ofLeBytes bs < 256 ^ bs.length
  | [] => by decide
  | b :: bs => by
      have ih := ofLeBytes_lt bs
      have hb := b.toNat_lt
      rw [ofLeBytes_cons, List.length_cons, Nat.pow_succ]
      omega

/-- So many bytes survive the round trip through the number they spell. -/
theorem leBytes_ofLeBytes : ∀ bs : Bytes, leBytes bs.length (ofLeBytes bs) = bs
  | [] => rfl
  | b :: bs => by
      have ih := leBytes_ofLeBytes bs
      have hb := b.toNat_lt
      have hdiv : (b.toNat + 256 * ofLeBytes bs) / 256 = ofLeBytes bs := by omega
      have hmod : UInt8.ofNat (b.toNat + 256 * ofLeBytes bs) = b := by
        apply UInt8.toNat_inj.mp
        rw [UInt8.toNat_ofNat']
        omega
      rw [ofLeBytes_cons, List.length_cons, leBytes, hdiv, hmod, ih]

/-! ## Frames by their bodies -/

/-- The bytes of the frame of a body. -/
def frameOf (body : Bytes) : Bytes := leBytes 4 body.length ++ body

/-- The bytes of some frames. -/
def framesOf (bodies : List Bytes) : Bytes := bodies.flatMap frameOf

theorem frameOf_length (body : Bytes) : (frameOf body).length = 4 + body.length := by
  unfold frameOf
  rw [List.length_append, leBytes_length]

theorem framesOf_cons (body : Bytes) (bodies : List Bytes) :
    framesOf (body :: bodies) = frameOf body ++ framesOf bodies := List.flatMap_cons

variable {d : Deps}

/-- Bodies that decode to events, one by one. -/
abbrev Decode (d : Deps) : List Bytes → List d.Event → Prop :=
  List.Forall₂ fun body e => d.decodeEvent body = .ok e

namespace SegmentReader

/-- Where reading frames stops: the position after the last frame that was read. -/
def stopFrames (framesEnd : Nat) : Nat → Nat → Bytes → Nat
  | 0, pos, _ => pos
  | fuel + 1, pos, rest =>
      if pos < framesEnd then
        let len := ofLeBytes (rest.take 4)
        stopFrames framesEnd fuel (pos + 4 + len) (rest.drop (4 + len))
      else pos

/-- Where `readAll` stops. -/
def stop (r : SegmentReader) : Nat :=
  stopFrames r.indexOffset (r.reader.length + 1) r.framesStart (r.reader.drop r.framesStart)

/-- The number before a body is its length, and the body and the rest follow. -/
theorem frameOf_parts {body : Bytes} (hfits : body.length < 4294967296) (rest : Bytes) :
    ofLeBytes ((frameOf body ++ rest).take 4) = body.length
      ∧ slice (frameOf body ++ rest) 4 body.length = body
      ∧ (frameOf body ++ rest).drop (4 + body.length) = rest := by
  have hlen := frameOf_length body
  refine ⟨?_, ?_, ?_⟩
  · unfold frameOf
    rw [List.append_assoc, List.take_left' (leBytes_length _ _), ofLeBytes_leBytes hfits]
  · unfold frameOf
    exact slice_eq (List.append_assoc _ _ _) (leBytes_length _ _) rfl
  · rw [← hlen, List.drop_left]

/-- One frame is read: it is there, and what it decodes to comes before the rest. -/
theorem readFrames_frameOf {framesEnd fuel pos : Nat} {body rest : Bytes}
    (hlt : pos < framesEnd) (hfits : body.length < 4294967296) :
    readFrames d framesEnd (fuel + 1) pos (frameOf body ++ rest) =
      (match d.decodeEvent body with
      | .error e => .error (.atepIntegrity s!"frame decode: {e}")
      | .ok ev => (readFrames d framesEnd fuel (pos + (frameOf body).length) rest).map (ev :: ·)) := by
  obtain ⟨hnum, hbody, hrest⟩ := frameOf_parts hfits rest
  have hlen := frameOf_length body
  rw [readFrames, if_pos hlt, if_neg (by rw [List.length_append]; omega)]
  dsimp only
  rw [hnum, hbody, hrest, if_neg (Nat.lt_irrefl _), hlen, Nat.add_assoc]
  cases d.decodeEvent body with
  | error e => rfl
  | ok ev => cases readFrames d framesEnd fuel (pos + (4 + body.length)) rest <;> rfl

theorem stopFrames_frameOf {framesEnd fuel pos : Nat} {body rest : Bytes}
    (hlt : pos < framesEnd) (hfits : body.length < 4294967296) :
    stopFrames framesEnd (fuel + 1) pos (frameOf body ++ rest)
      = stopFrames framesEnd fuel (pos + (frameOf body).length) rest := by
  obtain ⟨hnum, hbody, hrest⟩ := frameOf_parts hfits rest
  rw [stopFrames, if_pos hlt]
  dsimp only
  rw [hnum, hrest, frameOf_length, Nat.add_assoc]

/-- What is read before the end of the frames starts with a frame. -/
theorem starts_with_frame {framesEnd fuel pos : Nat} {rest : Bytes} {events : List d.Event}
    (hlt : pos < framesEnd) (h : readFrames d framesEnd (fuel + 1) pos rest = .ok events) :
    ∃ body rest', rest = frameOf body ++ rest' ∧ body.length < 4294967296 := by
  rw [readFrames, if_pos hlt] at h
  by_cases hfour : rest.length < 4
  · rw [if_pos hfour] at h
    cases h
  · rw [if_neg hfour] at h
    dsimp only at h
    by_cases hshort : (slice rest 4 (ofLeBytes (rest.take 4))).length < ofLeBytes (rest.take 4)
    · rw [if_pos hshort] at h
      cases h
    · -- the four bytes spell the length of the body behind them
      have htake : (rest.take 4).length = 4 := by
        rw [List.length_take]
        omega
      have hnum := leBytes_ofLeBytes (rest.take 4)
      have hlt := ofLeBytes_lt (rest.take 4)
      have hlen : (slice rest 4 (ofLeBytes (rest.take 4))).length = ofLeBytes (rest.take 4) := by
        have hle := List.length_take_le (ofLeBytes (rest.take 4)) (rest.drop 4)
        unfold slice at hshort ⊢
        omega
      rw [htake] at hnum hlt
      refine ⟨slice rest 4 (ofLeBytes (rest.take 4)),
        (rest.drop 4).drop (ofLeBytes (rest.take 4)), ?_, ?_⟩
      · unfold frameOf
        rw [hlen, hnum, List.append_assoc]
        unfold slice
        rw [List.take_append_drop, List.take_append_drop]
      · rw [hlen]
        exact hlt

/-- **What is read is frames**: the bodies they have decode to the events, and reading stops
behind the last one. -/
theorem readFrames_ok {framesEnd : Nat} : ∀ {fuel pos : Nat} {rest : Bytes} {events : List d.Event},
    rest.length < fuel → readFrames d framesEnd fuel pos rest = .ok events →
    ∃ bodies rest', rest = framesOf bodies ++ rest' ∧ (∀ b ∈ bodies, b.length < 4294967296)
      ∧ Decode d bodies events
      ∧ stopFrames framesEnd fuel pos rest = pos + (framesOf bodies).length
  | 0, _, _, _, hfuel, _ => absurd hfuel (Nat.not_lt_zero _)
  | fuel + 1, pos, rest, events, hfuel, h => by
      by_cases hlt : pos < framesEnd
      · obtain ⟨body, rest', rfl, hfits⟩ := starts_with_frame hlt h
        rw [readFrames_frameOf hlt hfits] at h
        rw [List.length_append, frameOf_length] at hfuel
        cases hev : d.decodeEvent body with
        | error e =>
            rw [hev] at h
            cases h
        | ok ev =>
            rw [hev] at h
            dsimp only at h
            cases hread : readFrames d framesEnd fuel (pos + (frameOf body).length) rest' with
            | error e =>
                rw [hread] at h
                cases h
            | ok later =>
                rw [hread] at h
                cases h
                obtain ⟨bodies, tail, rfl, hsizes, hdecode, hstop⟩ :=
                  readFrames_ok (by omega) hread
                refine ⟨body :: bodies, tail, ?_, ?_, .cons hev hdecode, ?_⟩
                · rw [framesOf_cons, List.append_assoc]
                · intro b hb
                  rcases List.mem_cons.mp hb with rfl | hb
                  · exact hfits
                  · exact hsizes b hb
                · rw [stopFrames_frameOf hlt hfits, hstop, framesOf_cons, List.length_append]
                  omega
      · rw [readFrames, if_neg hlt] at h
        cases h
        refine ⟨[], rest, rfl, nofun, .nil, ?_⟩
        rw [stopFrames, if_neg hlt]
        rfl

/-- **Frames that fill their place are what is read**, and reading stops there. -/
theorem readFrames_framesOf {framesEnd : Nat} {tail : Bytes} : ∀ {bodies : List Bytes}
    {fuel pos : Nat} {events : List d.Event}, (framesOf bodies ++ tail).length < fuel →
    (∀ b ∈ bodies, b.length < 4294967296) → framesEnd = pos + (framesOf bodies).length →
    readFrames d framesEnd fuel pos (framesOf bodies ++ tail) = .ok events →
    Decode d bodies events ∧ stopFrames framesEnd fuel pos (framesOf bodies ++ tail) = framesEnd
  | _, 0, _, _, hfuel, _, _, _ => absurd hfuel (Nat.not_lt_zero _)
  | [], fuel + 1, pos, events, _, _, hend, h => by
      have hnot : ¬ pos < framesEnd := by
        rw [hend]
        exact Nat.lt_irrefl _
      rw [readFrames, if_neg hnot] at h
      rw [stopFrames, if_neg hnot]
      cases h
      exact ⟨.nil, hend.symm⟩
  | body :: bodies, fuel + 1, pos, events, hfuel, hsizes, hend, h => by
      have hfits := hsizes body List.mem_cons_self
      rw [framesOf_cons, List.append_assoc] at h hfuel ⊢
      rw [framesOf_cons, List.length_append] at hend
      rw [List.length_append] at hfuel
      have hlen := frameOf_length body
      have hlt : pos < framesEnd := by omega
      rw [readFrames_frameOf hlt hfits] at h
      rw [stopFrames_frameOf hlt hfits]
      cases hev : d.decodeEvent body with
      | error e =>
          rw [hev] at h
          cases h
      | ok ev =>
          rw [hev] at h
          dsimp only at h
          cases hread : readFrames d framesEnd fuel (pos + (frameOf body).length)
              (framesOf bodies ++ tail) with
          | error e =>
              rw [hread] at h
              cases h
          | ok later =>
              rw [hread] at h
              cases h
              obtain ⟨hdecode, hstop⟩ := readFrames_framesOf (by omega)
                (fun b hb => hsizes b (List.mem_cons_of_mem body hb)) (by omega) hread
              exact ⟨.cons hev hdecode, hstop⟩

/-- The reader accepts a file, and reads these events. -/
structure Accepts (d : Deps) (file : Bytes) (r : SegmentReader) (events : List d.Event) :
    Prop where
  opens : SegmentReader.open d file = .ok r
  reads : r.readAll d = .ok events
  verifies : r.verifyMerkleRoot d = .ok ()

/-- What was read is what the header and the trailer say. -/
structure Consistent (r : SegmentReader) (events : List d.Event) : Prop where
  count : r.header.eventCount = events.length
  first : ∀ e, events.head? = some e → r.header.firstHlc = e.header.clock
  last : ∀ e, events.getLast? = some e → r.header.lastHlc = e.header.clock
  /-- The frames fill the bytes from the header to the index offset. -/
  filled : r.stop = r.indexOffset
  /-- The index offset is where the trailer stands. -/
  trailer : r.indexOffset = r.reader.length - 24

end SegmentReader

open SegmentReader

/-- The file is laid out as the module draws it, with the frames of these bodies. -/
structure LaidOut (d : Deps) (file : Bytes) (bodies : List Bytes) : Prop where
  count : ofLeBytes (slice file 8 4) = bodies.length
  frames : slice file headerSize (file.length - 24 - headerSize) = framesOf bodies
  sizes : ∀ b ∈ bodies, b.length < 4294967296
  indexOffset : ofLeBytes (slice file (file.length - 24) 8) = file.length - 24
  first : ∀ b e, bodies.head? = some b → d.decodeEvent b = .ok e →
    Hlc.fromLeBytes (slice file 12 16) = e.header.clock
  last : ∀ b e, bodies.getLast? = some b → d.decodeEvent b = .ok e →
    Hlc.fromLeBytes (slice file 28 16) = e.header.clock

/-- What opening takes from a file. -/
theorem open_ok {file : Bytes} {r : SegmentReader} (h : SegmentReader.open d file = .ok r) :
    headerSize + 24 ≤ file.length ∧ r.reader = file ∧ r.framesStart = headerSize
      ∧ r.header.eventCount = ofLeBytes (slice file 8 4)
      ∧ r.header.firstHlc = Hlc.fromLeBytes (slice file 12 16)
      ∧ r.header.lastHlc = Hlc.fromLeBytes (slice file 28 16)
      ∧ r.indexOffset = ofLeBytes (slice file (file.length - 24) 8) := by
  unfold SegmentReader.open at h
  simp only [bind, Except.bind] at h
  split_ifs at h with hshort hmagic hversion hsmall htail hcrc
  cases h
  exact ⟨by omega, rfl, rfl, rfl, rfl, rfl, rfl⟩

theorem Decode.head {bodies : List Bytes} {events : List d.Event} (h : Decode d bodies events) :
    Option.Rel (fun b e => d.decodeEvent b = .ok e) bodies.head? events.head? := by
  cases h with
  | nil => exact .none
  | cons hb _ => exact .some hb

theorem Decode.getLast {bodies : List Bytes} {events : List d.Event} (h : Decode d bodies events) :
    Option.Rel (fun b e => d.decodeEvent b = .ok e) bodies.getLast? events.getLast? := by
  rw [← List.head?_reverse, ← List.head?_reverse]
  exact Decode.head (List.forall₂_reverse_iff.mpr h)

/-- A clock is that of the event at one end exactly when it is that of what the body there
decodes to. -/
theorem clock_at_iff {body : Option Bytes} {event : Option d.Event} {clock : Hlc}
    (h : Option.Rel (fun b e => d.decodeEvent b = .ok e) body event) :
    (∀ e, event = some e → clock = e.header.clock)
      ↔ ∀ b e, body = some b → d.decodeEvent b = .ok e → clock = e.header.clock := by
  cases h with
  | none => exact iff_of_true nofun nofun
  | some hb =>
      constructor
      · rintro hclock b e ⟨⟩ he
        rw [hb] at he
        cases he
        exact hclock _ rfl
      · rintro hclock e ⟨⟩
        exact hclock _ _ rfl hb

/-- **What is accepted is consistent exactly when it is laid out as the module draws it.** -/
theorem accepted_consistent_iff (d : Deps) (file : Bytes) (r : SegmentReader)
    (events : List d.Event) (h : Accepts d file r events) :
    r.Consistent events ↔ ∃ bodies, LaidOut d file bodies := by
  obtain ⟨hlen, rfl, hstart, hcount, hfirst, hlast, hindex⟩ := open_ok h.opens
  have hfuel : (r.reader.drop r.framesStart).length < r.reader.length + 1 := by
    rw [List.length_drop]
    omega
  have hread := h.reads
  unfold readAll at hread
  -- the bytes from the header to the trailer start the bytes the reader walks through
  have harea : ∀ area tail, r.reader.drop r.framesStart = area ++ tail →
      headerSize + area.length = r.reader.length - 24 →
      slice r.reader headerSize (r.reader.length - 24 - headerSize) = area := by
    intro area tail hdrop harea
    unfold slice
    rw [← hstart, hdrop, hstart]
    exact List.take_left' (by omega)
  constructor
  · intro hcons
    obtain ⟨bodies, tail, hrest, hsizes, hdecode, hstop⟩ := readFrames_ok hfuel hread
    have hfilled : headerSize + (framesOf bodies).length = r.reader.length - 24 := by
      rw [← hcons.trailer, ← hcons.filled, ← hstart]
      exact hstop.symm
    refine ⟨bodies, ?_, harea _ _ hrest hfilled, hsizes, ?_, ?_, ?_⟩
    · rw [← hcount, hcons.count, hdecode.length_eq]
    · rw [← hindex, hcons.trailer]
    · rw [← hfirst]
      exact (clock_at_iff hdecode.head).mp hcons.first
    · rw [← hlast]
      exact (clock_at_iff hdecode.getLast).mp hcons.last
  · rintro ⟨bodies, hlaid⟩
    have htrailer : r.indexOffset = r.reader.length - 24 := by rw [hindex, hlaid.indexOffset]
    have hsplit : r.reader.drop r.framesStart
        = framesOf bodies ++ r.reader.drop (r.reader.length - 24) := by
      have hdrop : r.reader.drop (r.reader.length - 24)
          = (r.reader.drop headerSize).drop (r.reader.length - 24 - headerSize) := by
        rw [List.drop_drop]
        congr 1
        omega
      rw [← hlaid.frames, hstart, hdrop]
      exact (List.take_append_drop _ _).symm
    have hend : r.indexOffset = r.framesStart + (framesOf bodies).length := by
      rw [← hlaid.frames, htrailer, hstart]
      unfold slice
      rw [List.length_take, List.length_drop]
      omega
    rw [hsplit] at hread hfuel
    obtain ⟨hdecode, hstop⟩ := readFrames_framesOf hfuel hlaid.sizes hend hread
    refine ⟨?_, ?_, ?_, ?_, htrailer⟩
    · rw [hcount, hlaid.count, hdecode.length_eq]
    · rw [hfirst]
      exact (clock_at_iff hdecode.head).mpr hlaid.first
    · rw [hlast]
      exact (clock_at_iff hdecode.getLast).mpr hlaid.last
    · unfold stop
      rw [hsplit]
      exact hstop

/-! ## What the writer writes -/

theorem framesOf_eventBytes (events : List d.Event) :
    framesOf (events.map (eventBytes d)) = frames d events := by
  unfold framesOf
  rw [List.flatMap_map]
  rfl

/-- The bytes of an event that was encoded decode to it again. -/
theorem decodeEvent_eventBytes {e : d.Event} (hframed : Framed d e)
    (hcbor : ∀ buf, d.encodeEvent e = .ok buf → d.decodeEvent buf = .ok e) :
    d.decodeEvent (eventBytes d e) = .ok e := by
  obtain ⟨buf, hbuf, _⟩ := hframed
  rw [eventBytes_eq hbuf]
  exact hcbor buf hbuf

/-- **The writer lays a segment out** as the module draws it. -/
theorem segmentBytes_laidOut {events : List d.Event} (hframed : ∀ e ∈ events, Framed d e)
    (hcbor : ∀ e ∈ events, ∀ buf, d.encodeEvent e = .ok buf → d.decodeEvent buf = .ok e)
    (hcount : events.length < 4294967296)
    (hbytes : framesEnd d events + 24 < 18446744073709551616) :
    LaidOut d (segmentBytes d events) (events.map (eventBytes d)) := by
  obtain ⟨_, _, _, hevents, hfirst, hlast, hindex⟩ :=
    open_ok (open_segmentBytes (d := d) hcount (by omega))
  have hlen := segmentBytes_length events
  have hsub : framesEnd d events + 24 - 24 = framesEnd d events := Nat.add_sub_cancel _ _
  have hdecode : Decode d (events.map (eventBytes d)) events := by
    rw [Decode, List.forall₂_map_left_iff, List.forall₂_same]
    exact fun e he => decodeEvent_eventBytes (hframed e he) (hcbor e he)
  refine ⟨?_, ?_, ?_, ?_, ?_, ?_⟩
  · rw [← hevents, List.length_map]
    rfl
  · have hfill : framesEnd d events - headerSize = (frames d events).length :=
      Nat.add_sub_cancel_left _ _
    rw [framesOf_eventBytes, hlen, hsub, hfill]
    refine slice_eq (a := headerBytes d events) (c := leBytes 8 (framesEnd d events) ++ leBytes 8 0
      ++ leBytes 4 (d.crc32 (checkedBytes d events)).toNat ++ segmentMagicTail) ?_
      (buildHeaderBytes_length _ _ _ _) rfl
    unfold segmentBytes checkedBytes
    simp only [List.append_assoc]
  · intro b hb
    obtain ⟨e, he, rfl⟩ := List.mem_map.mp hb
    obtain ⟨buf, hbuf, hfits⟩ := hframed e he
    rw [eventBytes_eq hbuf]
    exact hfits
  · rw [← hindex, hlen, hsub]
    rfl
  · rw [← hfirst]
    refine (clock_at_iff hdecode.head).mp fun e he => ?_
    change ((events.head?.map (·.header.clock)).getD ⟨0, 0, 0⟩) = _
    rw [he]
    rfl
  · rw [← hlast]
    refine (clock_at_iff hdecode.getLast).mp fun e he => ?_
    change ((events.getLast?.map (·.header.clock)).getD ⟨0, 0, 0⟩) = _
    rw [he]
    rfl

/-- A segment of two events is accepted, laid out, and so consistent. -/
theorem accepted_consistent_exercise :
    (segmentReader AtepStore.exerciseDeps
        [AtepStore.exerciseEvent 1, AtepStore.exerciseEvent 2]).Consistent
      (d := AtepStore.exerciseDeps) [AtepStore.exerciseEvent 1, AtepStore.exerciseEvent 2] := by
  have hframed : ∀ e ∈ [AtepStore.exerciseEvent 1, AtepStore.exerciseEvent 2],
      Framed AtepStore.exerciseDeps e := by
    intro e _
    refine ⟨[e.payload], rfl, ?_⟩
    change 1 < 4294967296
    decide
  have hcbor : ∀ e ∈ [AtepStore.exerciseEvent 1, AtepStore.exerciseEvent 2], ∀ buf,
      AtepStore.exerciseDeps.encodeEvent e = .ok buf →
        AtepStore.exerciseDeps.decodeEvent buf = .ok e := by
    intro e he buf hbuf
    cases hbuf
    rcases List.mem_cons.mp he with rfl | he
    · rfl
    · cases List.mem_singleton.mp he
      rfl
  have hread := readAll_segmentReader (d := AtepStore.exerciseDeps) hframed hcbor
  refine (accepted_consistent_iff AtepStore.exerciseDeps (segmentBytes AtepStore.exerciseDeps
    [AtepStore.exerciseEvent 1, AtepStore.exerciseEvent 2]) _ _ ⟨?_, hread, ?_⟩).mpr
    ⟨_, segmentBytes_laidOut hframed hcbor (by decide) (by decide)⟩
  · exact open_segmentBytes (by decide) (by decide)
  · unfold verifyMerkleRoot
    rw [hread]
    rfl

/-- A file without a frame, whose header counts one event. -/
def overcounted (d : Deps) : Bytes :=
  let checked := buildHeaderBytes 1 ⟨0, 0, 0⟩ ⟨0, 0, 0⟩ zeroHash ++ leBytes 8 headerSize ++ leBytes 8 0
  checked ++ (leBytes 4 (d.crc32 checked).toNat ++ segmentMagicTail)

theorem open_overcounted (d : Deps) : SegmentReader.open d (overcounted d) =
    .ok { reader := overcounted d
          header := ⟨1, 0, 1, ⟨0, 0, 0⟩, ⟨0, 0, 0⟩, zeroHash⟩
          framesStart := headerSize
          indexOffset := headerSize } := by
  obtain ⟨hmagic, hversion, hflags, hevents, hfirst, hlast, hroot⟩ :=
    header_slices 1 ⟨0, 0, 0⟩ ⟨0, 0, 0⟩ zeroHash ((overcounted d).drop headerSize)
  have hfile : buildHeaderBytes 1 ⟨0, 0, 0⟩ ⟨0, 0, 0⟩ zeroHash ++ (overcounted d).drop headerSize
      = overcounted d := rfl
  rw [hfile] at hmagic hversion hflags hevents hfirst hlast hroot
  have hlen : (overcounted d).length = 100 := rfl
  have htail : slice (overcounted d) 96 4 = segmentMagicTail := rfl
  have hindex : slice (overcounted d) 76 8 = leBytes 8 headerSize := rfl
  have hcrc : ofLeBytes (slice (overcounted d) 92 4)
      = (d.crc32 (slice (overcounted d) 0 92)).toNat := by
    have hlt : (d.crc32 (slice (overcounted d) 0 92)).toNat < 256 ^ 4 := UInt32.toNat_lt _
    have hslice : slice (overcounted d) 92 4
        = leBytes 4 (d.crc32 (slice (overcounted d) 0 92)).toNat := rfl
    rw [hslice, ofLeBytes_leBytes hlt]
  unfold SegmentReader.open
  simp only [bind, Except.bind]
  rw [hlen, hmagic, hversion, hflags, hevents, hfirst, hlast, hroot, htail, hcrc, hindex,
    Hlc.fromLeBytes_toLeBytes, firstHash_toList, if_neg (by decide), if_neg (not_not.mpr rfl),
    if_neg (by decide), if_neg (by decide), if_neg (not_not.mpr rfl), if_neg (not_not.mpr rfl)]
  rfl

/-- The header counts an event that is not there, and the file is accepted. -/
theorem not_accepted_consistent : ¬ ∀ (d : Deps) (file : Bytes) (r : SegmentReader)
    (events : List d.Event), Accepts d file r events → r.Consistent events := by
  intro h
  have hcount := (h AtepStore.exerciseDeps _ _ [] ⟨open_overcounted _, rfl, rfl⟩).count
  cases hcount

end Agenomic.Atep
