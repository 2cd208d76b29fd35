import Agenomic.Atep.Store

/-!
# What a finished segment reads back as

The writer reserves the header, writes a frame for each event, and patches the header
when it knows what to put there; the reader finds the trailer from the end of the file
and the frames from the end of the header. Both agree on every position.

* **`writeSegment_eq`**: the bytes of a finished segment, part by part.
* **`readAll_written`**: what these bytes read back as, for any segment below 2^64 bytes.
* **`segment_round_trip`**: in particular for fewer than 2^32 frames of less than 4 GiB.
-/

namespace Agenomic.Atep

open Lib

/-! ## Clocks and slices -/

@[simp] theorem Hlc.toLeBytes_length (c : Hlc) : c.toLeBytes.length = 16 := by
  unfold Hlc.toLeBytes
  simp only [List.length_append, leBytes_length]

theorem Hlc.fromLeBytes_toLeBytes (c : Hlc) : Hlc.fromLeBytes c.toLeBytes = c := by
  obtain ⟨physicalMs, logical, nodeId⟩ := c
  have hp : physicalMs.toNat < 256 ^ 8 := physicalMs.toNat_lt
  have hl : logical.toNat < 256 ^ 4 := logical.toNat_lt
  have hn : nodeId.toNat < 256 ^ 4 := nodeId.toNat_lt
  unfold fromLeBytes toLeBytes
  simp only [Hlc.mk.injEq]
  refine ⟨?_, ?_, ?_⟩
  · rw [List.append_assoc, List.take_left' (leBytes_length _ _), ofLeBytes_leBytes hp,
      UInt64.ofNat_toNat]
  · rw [List.append_assoc, List.drop_left' (leBytes_length _ _),
      List.take_left' (leBytes_length _ _), ofLeBytes_leBytes hl, UInt32.ofNat_toNat]
  · rw [List.drop_left' (by simp only [List.length_append, leBytes_length]),
      List.take_of_length_le (leBytes_length _ _).le, ofLeBytes_leBytes hn, UInt32.ofNat_toNat]

/-- The slice of a file that is known in three parts. -/
theorem slice_eq {file a b c : Bytes} {start len : Nat} (hfile : file = a ++ (b ++ c))
    (ha : a.length = start) (hb : b.length = len) : slice file start len = b := by
  unfold slice
  rw [hfile, List.drop_left' ha, List.take_left' hb]

theorem firstHash_toList (h : Hash32) : firstHash h.toList = h := by
  refine List.Vector.toList_injective ?_
  change (h.toList ++ List.replicate 32 0).take 32 = h.toList
  exact List.take_left' (List.Vector.toList_length h)

/-! ## The parts of a segment -/

variable (d : Deps)

/-- The bytes of an event, none where it has no encoding. -/
def eventBytes (e : d.Event) : Bytes :=
  match d.encodeEvent e with
  | .ok buf => buf
  | .error _ => []

/-- A frame: the length of the bytes of an event, and these bytes. -/
def frame (e : d.Event) : Bytes := leBytes 4 (eventBytes d e).length ++ eventBytes d e

def frames (events : List d.Event) : Bytes := events.flatMap (frame d)

/-- Write a segment of some events. -/
def writeSegment (events : List d.Event) : CliResult (Bytes × SegmentSummary) := do
  let w ← events.foldlM (fun w ev => SegmentWriter.append d w ev) SegmentWriter.new
  w.finalize d

/-- The event has an encoding, and its length fits its prefix. -/
def Framed (e : d.Event) : Prop := ∃ buf, d.encodeEvent e = .ok buf ∧ buf.length < 4294967296

variable {d}

theorem eventBytes_eq {e : d.Event} {buf : Bytes} (h : d.encodeEvent e = .ok buf) :
    eventBytes d e = buf := by
  unfold eventBytes
  rw [h]

theorem frame_length (e : d.Event) : (frame d e).length = 4 + (eventBytes d e).length := by
  unfold frame
  rw [List.length_append, leBytes_length]

theorem frames_append (es es' : List d.Event) : frames d (es ++ es') = frames d es ++ frames d es' :=
  List.flatMap_append

theorem frames_singleton (e : d.Event) : frames d [e] = frame d e := by
  unfold frames
  rw [List.flatMap_singleton]

/-- Every event takes at least the four bytes of its length. -/
theorem length_le_frames (events : List d.Event) : events.length ≤ (frames d events).length := by
  induction events with
  | nil => exact Nat.zero_le _
  | cons e rest ih =>
      unfold frames at ih ⊢
      rw [List.flatMap_cons, List.length_append, frame_length, List.length_cons]
      omega

variable (d)

/-- The clock of the first event. -/
def firstClock (events : List d.Event) : Option Hlc := events.head?.map (·.header.clock)

/-- The clock of the last event, zero where there is none. -/
def lastClock (events : List d.Event) : Hlc :=
  (events.getLast?.map (·.header.clock)).getD ⟨0, 0, 0⟩

/-- The header of a segment of some events. -/
def segmentHeader (events : List d.Event) : SegmentHeader where
  version := segmentVersion
  flags := 0
  eventCount := events.length
  firstHlc := (firstClock d events).getD ⟨0, 0, 0⟩
  lastHlc := lastClock d events
  merkleRoot := computeMerkleRoot d (events.map (·.causalHash))

def headerBytes (events : List d.Event) : Bytes :=
  buildHeaderBytes events.length ((firstClock d events).getD ⟨0, 0, 0⟩) (lastClock d events)
    (computeMerkleRoot d (events.map (·.causalHash)))

/-- Where the frames end. -/
def framesEnd (events : List d.Event) : Nat := headerSize + (frames d events).length

/-- What the checksum is taken over. -/
def checkedBytes (events : List d.Event) : Bytes :=
  headerBytes d events ++ (frames d events ++ (leBytes 8 (framesEnd d events) ++ leBytes 8 0))

/-- A segment, part by part. -/
def segmentBytes (events : List d.Event) : Bytes :=
  checkedBytes d events ++ leBytes 4 (d.crc32 (checkedBytes d events)).toNat ++ segmentMagicTail

/-- What is returned with it. -/
def segmentSummary (events : List d.Event) : SegmentSummary where
  eventCount := events.length
  firstHlc := (firstClock d events).getD ⟨0, 0, 0⟩
  lastHlc := lastClock d events
  merkleRoot := computeMerkleRoot d (events.map (·.causalHash))
  bytesWritten := framesEnd d events + 24

variable {d}

theorem segmentMagicHead_length : segmentMagicHead.length = 4 := rfl

theorem segmentMagicTail_length : segmentMagicTail.length = 4 := rfl

theorem buildHeaderBytes_length (n : Nat) (first last : Hlc) (root : Hash32) :
    (buildHeaderBytes n first last root).length = headerSize := by
  unfold buildHeaderBytes
  simp only [List.length_append, leBytes_length, Hlc.toLeBytes_length, segmentMagicHead_length,
    List.Vector.toList_length]
  rfl

theorem checkedBytes_length (events : List d.Event) :
    (checkedBytes d events).length = framesEnd d events + 16 := by
  unfold checkedBytes headerBytes framesEnd
  simp only [List.length_append, leBytes_length, buildHeaderBytes_length]
  omega

theorem segmentBytes_length (events : List d.Event) :
    (segmentBytes d events).length = framesEnd d events + 24 := by
  unfold segmentBytes
  rw [List.length_append, List.length_append, checkedBytes_length, leBytes_length,
    segmentMagicTail_length]

/-! ## The writer -/

theorem addU32_lt {a b n : Nat} (h : addU32 a b = .ok n) : a + b < 4294967296 := by
  unfold addU32 at h
  split at h
  · assumption
  · cases h

namespace SegmentWriter

variable (d)

/-- The writer after some events. -/
def after (events : List d.Event) : SegmentWriter where
  writer := List.replicate headerSize 0 ++ frames d events
  eventCount := events.length
  firstHlc := firstClock d events
  lastHlc := lastClock d events
  leafHashes := events.map (·.causalHash)
  bytes := framesEnd d events

variable {d}

theorem firstClock_append (events : List d.Event) (e : d.Event) :
    some ((firstClock d events).getD e.header.clock) = firstClock d (events ++ [e]) := by
  cases events <;> rfl

theorem lastClock_append (events : List d.Event) (e : d.Event) :
    lastClock d (events ++ [e]) = e.header.clock := by
  unfold lastClock
  rw [List.getLast?_append_of_ne_nil _ (List.cons_ne_nil e [])]
  rfl

theorem framesEnd_append (events : List d.Event) (e : d.Event) :
    framesEnd d (events ++ [e]) = framesEnd d events + (4 + (eventBytes d e).length) := by
  unfold framesEnd
  rw [frames_append, frames_singleton, List.length_append, frame_length]
  omega

/-- One more event. -/
theorem append_after {events : List d.Event} {e : d.Event} (hframed : Framed d e)
    (hcount : (events ++ [e]).length < 4294967296)
    (hbytes : framesEnd d (events ++ [e]) < 18446744073709551616) :
    (after d events).append d e = .ok (after d (events ++ [e])) := by
  obtain ⟨buf, hbuf, hfits⟩ := hframed
  have heq := eventBytes_eq hbuf
  rw [framesEnd_append, heq] at hbytes
  rw [List.length_append, List.length_singleton] at hcount
  unfold append
  rw [hbuf]
  dsimp only
  rw [if_pos hfits]
  have hadd : addU64 (after d events).bytes (4 + buf.length)
      = .ok (framesEnd d events + (4 + buf.length)) := addU64_ok hbytes
  have hnext : addU32 (after d events).eventCount 1 = .ok (events.length + 1) := addU32_ok hcount
  rw [hadd, hnext]
  simp only [bind, Except.bind]
  unfold after
  rw [frames_append, frames_singleton, framesEnd_append, lastClock_append, ← firstClock_append,
    List.map_append, List.length_append, heq]
  unfold frame
  rw [heq, List.append_assoc, List.append_assoc]
  rfl

/-- **All events**: appending keeps the writer at what it stands for. -/
theorem foldlM_append_after {events : List d.Event} (hframed : ∀ e ∈ events, Framed d e)
    (hcount : events.length < 4294967296)
    (hbytes : framesEnd d events < 18446744073709551616) :
    events.foldlM (fun w ev => SegmentWriter.append d w ev) SegmentWriter.new
      = .ok (after d events) := by
  induction events using List.reverseRecOn with
  | nil => rfl
  | append_singleton events e ih =>
      have hlen : (events ++ [e]).length = events.length + 1 := by
        rw [List.length_append, List.length_singleton]
      have hend := framesEnd_append events e
      have hfirst := ih (fun x hx => hframed x (List.mem_append_left [e] hx)) (by omega) (by omega)
      rw [List.foldlM_append, hfirst]
      have hlast := append_after (hframed e List.mem_concat_self) hcount hbytes
      simp only [bind, Except.bind, List.foldlM_cons, List.foldlM_nil, hlast]
      rfl

/-- The header is patched over the bytes reserved for it, and the checksum covers all that is
before it. -/
theorem finalize_after {events : List d.Event}
    (hbytes : framesEnd d events + 24 < 18446744073709551616) :
    (after d events).finalize d = .ok (segmentBytes d events, segmentSummary d events) := by
  have hpre : addU64 (after d events).bytes 16 = .ok (framesEnd d events + 16) :=
    addU64_ok (a := framesEnd d events) (by omega)
  have hall : addU64 (framesEnd d events + 16) 8 = .ok (framesEnd d events + 24) :=
    addU64_ok (by omega)
  have hdrop : ((after d events).writer ++ leBytes 8 (after d events).bytes ++ leBytes 8 0).drop
      headerSize = frames d events ++ (leBytes 8 (framesEnd d events) ++ leBytes 8 0) := by
    change (List.replicate headerSize 0 ++ frames d events ++ leBytes 8 (framesEnd d events)
      ++ leBytes 8 0).drop headerSize = _
    rw [List.append_assoc, List.append_assoc, List.drop_left' List.length_replicate]
  have htake : (checkedBytes d events).take (framesEnd d events + 16) = checkedBytes d events :=
    List.take_of_length_le (checkedBytes_length events).le
  unfold finalize
  dsimp only
  rw [hpre, hdrop]
  simp only [bind, Except.bind]
  rw [hall]
  dsimp only
  change Except.ok (checkedBytes d events
    ++ leBytes 4 (d.crc32 ((checkedBytes d events).take (framesEnd d events + 16))).toNat
    ++ segmentMagicTail, segmentSummary d events) = _
  rw [htake]
  rfl

end SegmentWriter

/-- What an event that was appended satisfied. -/
theorem SegmentWriter.append_ok {w w' : SegmentWriter} {e : d.Event}
    (h : w.append d e = .ok w') :
    Framed d e ∧ w.bytes + (4 + (eventBytes d e).length) < 18446744073709551616
      ∧ w.eventCount + 1 < 4294967296 := by
  unfold append at h
  cases hbuf : d.encodeEvent e with
  | error err =>
      rw [hbuf] at h
      cases h
  | ok buf =>
      rw [hbuf] at h
      dsimp only at h
      by_cases hfits : buf.length < 4294967296
      · rw [if_pos hfits, bind_eq_ok] at h
        obtain ⟨bytes, hbytes, h⟩ := h
        rw [bind_eq_ok] at h
        obtain ⟨count, hcount, -⟩ := h
        rw [eventBytes_eq hbuf]
        exact ⟨⟨buf, hbuf, hfits⟩, addU64_lt hbytes, addU32_lt hcount⟩
      · rw [if_neg hfits] at h
        cases h

/-- What events that were appended satisfied. -/
theorem SegmentWriter.foldlM_append_ok {events : List d.Event} {w : SegmentWriter}
    (h : events.foldlM (fun w ev => SegmentWriter.append d w ev) SegmentWriter.new = .ok w) :
    (∀ e ∈ events, Framed d e) ∧ events.length < 4294967296
      ∧ framesEnd d events < 18446744073709551616 := by
  induction events using List.reverseRecOn generalizing w with
  | nil => exact ⟨fun e he => absurd he List.not_mem_nil, Nat.zero_lt_of_ne_zero (by decide),
      show headerSize + 0 < 18446744073709551616 by decide⟩
  | append_singleton events e ih =>
      rw [List.foldlM_append, bind_eq_ok] at h
      obtain ⟨w₁, hfirst, h⟩ := h
      obtain ⟨hframed, hcount, hbytes⟩ := ih hfirst
      rw [foldlM_append_after hframed hcount hbytes] at hfirst
      cases hfirst
      rw [List.foldlM_cons, bind_eq_ok] at h
      obtain ⟨w₂, hlast, -⟩ := h
      obtain ⟨hframed', hbytes', hcount'⟩ := append_ok hlast
      refine ⟨fun x hx => ?_, ?_, ?_⟩
      · rcases List.mem_append.mp hx with hx | hx
        · exact hframed x hx
        · rw [List.mem_singleton.mp hx]
          exact hframed'
      · rw [List.length_append, List.length_singleton]
        exact hcount'
      · rw [framesEnd_append]
        exact hbytes'

/-- **The bytes of a finished segment.** -/
theorem writeSegment_eq {events : List d.Event} (hframed : ∀ e ∈ events, Framed d e)
    (hcount : events.length < 4294967296)
    (hbytes : framesEnd d events + 24 < 18446744073709551616) :
    writeSegment d events = .ok (segmentBytes d events, segmentSummary d events) := by
  unfold writeSegment
  rw [SegmentWriter.foldlM_append_after hframed hcount (by omega)]
  exact SegmentWriter.finalize_after hbytes

/-- What the events of a finished segment satisfied. -/
theorem writeSegment_ok {events : List d.Event} {out : Bytes × SegmentSummary}
    (h : writeSegment d events = .ok out) :
    (∀ e ∈ events, Framed d e) ∧ events.length < 4294967296
      ∧ framesEnd d events + 24 < 18446744073709551616 := by
  unfold writeSegment at h
  rw [bind_eq_ok] at h
  obtain ⟨w, happend, h⟩ := h
  obtain ⟨hframed, hcount, hbytes⟩ := SegmentWriter.foldlM_append_ok happend
  rw [SegmentWriter.foldlM_append_after hframed hcount hbytes] at happend
  cases happend
  unfold SegmentWriter.finalize at h
  dsimp only at h
  rw [bind_eq_ok] at h
  obtain ⟨preCrcEnd, hpre, h⟩ := h
  rw [bind_eq_ok] at h
  obtain ⟨bytesWritten, hall, -⟩ := h
  have heq : preCrcEnd = framesEnd d events + 16 := addU64_eq hpre
  have hlt := addU64_lt hall
  rw [heq] at hlt
  exact ⟨hframed, hcount, hlt⟩

/-! ## The reader -/

/-- The reader of a finished segment. -/
def segmentReader (d : Deps) (events : List d.Event) : SegmentReader where
  reader := segmentBytes d events
  header := segmentHeader d events
  framesStart := headerSize
  indexOffset := framesEnd d events

/-- The fields of the header stand where the reader looks for them. -/
theorem header_slices (n : Nat) (first last : Hlc) (root : Hash32) (rest : Bytes) :
    let file := buildHeaderBytes n first last root ++ rest
    slice file 0 4 = segmentMagicHead ∧ slice file 4 2 = leBytes 2 segmentVersion
      ∧ slice file 6 2 = leBytes 2 0 ∧ slice file 8 4 = leBytes 4 n
      ∧ slice file 12 16 = first.toLeBytes ∧ slice file 28 16 = last.toLeBytes
      ∧ slice file 44 32 = root.toList := by
  unfold buildHeaderBytes
  dsimp only
  refine ⟨?_, ?_, ?_, ?_, ?_, ?_, ?_⟩
  · exact slice_eq (a := []) (by simp only [List.append_assoc, List.nil_append]; rfl) rfl rfl
  · exact slice_eq (a := segmentMagicHead) (by simp only [List.append_assoc]; rfl) rfl
      (leBytes_length _ _)
  · exact slice_eq (a := segmentMagicHead ++ leBytes 2 segmentVersion)
      (by simp only [List.append_assoc]; rfl) rfl (leBytes_length _ _)
  · exact slice_eq (a := segmentMagicHead ++ leBytes 2 segmentVersion ++ leBytes 2 0)
      (by simp only [List.append_assoc]; rfl) rfl (leBytes_length _ _)
  · exact slice_eq (a := segmentMagicHead ++ leBytes 2 segmentVersion ++ leBytes 2 0 ++ leBytes 4 n)
      (by simp only [List.append_assoc]; rfl)
      (by simp only [List.length_append, leBytes_length, segmentMagicHead_length])
      (Hlc.toLeBytes_length _)
  · exact slice_eq (a := segmentMagicHead ++ leBytes 2 segmentVersion ++ leBytes 2 0 ++ leBytes 4 n
        ++ first.toLeBytes)
      (by simp only [List.append_assoc]; rfl)
      (by simp only [List.length_append, leBytes_length, segmentMagicHead_length,
        Hlc.toLeBytes_length])
      (Hlc.toLeBytes_length _)
  · exact slice_eq (a := segmentMagicHead ++ leBytes 2 segmentVersion ++ leBytes 2 0 ++ leBytes 4 n
        ++ first.toLeBytes ++ last.toLeBytes)
      (by simp only [List.append_assoc]; rfl)
      (by simp only [List.length_append, leBytes_length, segmentMagicHead_length,
        Hlc.toLeBytes_length])
      (List.Vector.toList_length _)

/-- The trailer stands where the reader looks for it, counting from the end. -/
theorem trailer_slices (events : List d.Event) :
    slice (segmentBytes d events) (framesEnd d events + 20) 4 = segmentMagicTail
      ∧ slice (segmentBytes d events) (framesEnd d events + 16) 4
          = leBytes 4 (d.crc32 (checkedBytes d events)).toNat
      ∧ slice (segmentBytes d events) 0 (framesEnd d events + 16) = checkedBytes d events
      ∧ slice (segmentBytes d events) (framesEnd d events) 8
          = leBytes 8 (framesEnd d events) := by
  have hlen := checkedBytes_length events
  refine ⟨?_, ?_, ?_, ?_⟩
  · refine slice_eq (a := checkedBytes d events ++ leBytes 4 (d.crc32 (checkedBytes d events)).toNat)
      (c := []) ?_ ?_ rfl
    · unfold segmentBytes
      rw [List.append_nil]
    · rw [List.length_append, hlen, leBytes_length]
  · refine slice_eq (a := checkedBytes d events) (c := segmentMagicTail) ?_ hlen (leBytes_length _ _)
    unfold segmentBytes
    rw [List.append_assoc]
  · refine slice_eq (a := []) (c := leBytes 4 (d.crc32 (checkedBytes d events)).toNat
      ++ segmentMagicTail) ?_ rfl hlen
    unfold segmentBytes
    rw [List.append_assoc, List.nil_append]
  · refine slice_eq (a := headerBytes d events ++ frames d events) (c := leBytes 8 0
      ++ (leBytes 4 (d.crc32 (checkedBytes d events)).toNat ++ segmentMagicTail)) ?_ ?_
      (leBytes_length _ _)
    · unfold segmentBytes
      simp only [List.append_assoc, checkedBytes]
    · unfold headerBytes framesEnd
      rw [List.length_append, buildHeaderBytes_length]

/-- **Opening**: every check passes and every field of the header is found again. -/
theorem open_segmentBytes {events : List d.Event} (hcount : events.length < 4294967296)
    (hbytes : framesEnd d events < 18446744073709551616) :
    SegmentReader.open d (segmentBytes d events) = .ok (segmentReader d events) := by
  have hlen := segmentBytes_length events
  have hend : headerSize ≤ framesEnd d events := Nat.le_add_right _ _
  obtain ⟨hmagic, hversion, hflags, hevents, hfirst, hlast, hroot⟩ :=
    header_slices events.length ((firstClock d events).getD ⟨0, 0, 0⟩) (lastClock d events)
      (computeMerkleRoot d (events.map (·.causalHash)))
      ((frames d events ++ (leBytes 8 (framesEnd d events) ++ leBytes 8 0))
        ++ leBytes 4 (d.crc32 (checkedBytes d events)).toNat ++ segmentMagicTail)
  have hfile : buildHeaderBytes events.length ((firstClock d events).getD ⟨0, 0, 0⟩)
      (lastClock d events) (computeMerkleRoot d (events.map (·.causalHash)))
      ++ ((frames d events ++ (leBytes 8 (framesEnd d events) ++ leBytes 8 0))
        ++ leBytes 4 (d.crc32 (checkedBytes d events)).toNat ++ segmentMagicTail)
      = segmentBytes d events := by
    simp only [segmentBytes, checkedBytes, headerBytes, List.append_assoc]
  rw [hfile] at hmagic hversion hflags hevents hfirst hlast hroot
  obtain ⟨htail, hcrc, hchecked, hindex⟩ := trailer_slices events
  have hcrcLt : (d.crc32 (checkedBytes d events)).toNat < 256 ^ 4 :=
    (d.crc32 (checkedBytes d events)).toNat_lt
  have hcountLt : events.length < 256 ^ 4 := hcount
  have hbytesLt : framesEnd d events < 256 ^ 8 := hbytes
  have hversionLt : segmentVersion < 256 ^ 2 := by decide
  unfold SegmentReader.open
  dsimp only
  rw [hlen, show framesEnd d events + 24 - 4 = framesEnd d events + 20 by omega,
    show framesEnd d events + 24 - 8 = framesEnd d events + 16 by omega,
    show framesEnd d events + 24 - 24 = framesEnd d events by omega,
    hmagic, hversion, hflags, hevents, hfirst, hlast, hroot, htail, hcrc, hchecked, hindex,
    ofLeBytes_leBytes hcrcLt, ofLeBytes_leBytes hcountLt, ofLeBytes_leBytes hbytesLt,
    ofLeBytes_leBytes hversionLt,
    Hlc.fromLeBytes_toLeBytes, Hlc.fromLeBytes_toLeBytes, firstHash_toList]
  simp only [bind, Except.bind]
  rw [if_neg (by omega), if_neg (not_not.mpr rfl), if_neg (not_not.mpr rfl), if_neg (by omega),
    if_neg (not_not.mpr rfl), if_neg (not_not.mpr rfl)]
  rfl

/-- What the frame of an event is read back as. -/
def reread (d : Deps) (e : d.Event) : CliResult d.Event :=
  match d.decodeEvent (eventBytes d e) with
  | .error err => .error (.atepIntegrity s!"frame decode: {err}")
  | .ok ev => .ok ev

/-- Events whose encodings are read back are read back. -/
theorem mapM_reread {events : List d.Event} (hframed : ∀ e ∈ events, Framed d e)
    (hcbor : ∀ e ∈ events, ∀ buf, d.encodeEvent e = .ok buf → d.decodeEvent buf = .ok e) :
    events.mapM (reread d) = .ok events := by
  induction events with
  | nil => rfl
  | cons e events ih =>
      obtain ⟨buf, hbuf, -⟩ := hframed e List.mem_cons_self
      have hhead : reread d e = .ok e := by
        unfold reread
        rw [eventBytes_eq hbuf, hcbor e List.mem_cons_self buf hbuf]
      have htail := ih (fun x hx => hframed x (List.mem_cons_of_mem e hx))
        (fun x hx => hcbor x (List.mem_cons_of_mem e hx))
      rw [List.mapM_cons, hhead, htail]
      rfl

/-- **The frames**: reading from where they start to where they end reads each event back. -/
theorem readFrames_reread {events : List d.Event} (hframed : ∀ e ∈ events, Framed d e)
    {fuel : Nat} (hfuel : events.length ≤ fuel) (pos : Nat) (rest : Bytes) :
    SegmentReader.readFrames d (pos + (frames d events).length) fuel pos (frames d events ++ rest)
      = events.mapM (reread d) := by
  induction events generalizing fuel pos with
  | nil =>
      cases fuel with
      | zero => rfl
      | succ fuel =>
          unfold SegmentReader.readFrames
          exact if_neg (Nat.lt_irrefl pos)
  | cons e events ih =>
      cases fuel with
      | zero => exact absurd hfuel (Nat.not_succ_le_zero _)
      | succ fuel =>
          obtain ⟨buf, hbuf, hfits⟩ := hframed e List.mem_cons_self
          have hframe : frame d e = leBytes 4 buf.length ++ buf := by
            unfold frame
            rw [eventBytes_eq hbuf]
          have hall : frames d (e :: events) = leBytes 4 buf.length ++ (buf ++ frames d events) := by
            unfold frames
            rw [List.flatMap_cons, hframe, List.append_assoc]
          have hnum : ofLeBytes (leBytes 4 buf.length) = buf.length := ofLeBytes_leBytes hfits
          have hslice : slice (leBytes 4 buf.length ++ (buf ++ (frames d events ++ rest))) 4
              buf.length = buf := slice_eq rfl (leBytes_length _ _) rfl
          have hdrop : (leBytes 4 buf.length ++ (buf ++ (frames d events ++ rest))).drop
              (4 + buf.length) = frames d events ++ rest := by
            rw [← List.append_assoc]
            refine List.drop_left' ?_
            rw [List.length_append, leBytes_length]
          have hfuelTail : events.length ≤ fuel := by
            rw [List.length_cons] at hfuel
            omega
          have hlater := ih (fun x hx => hframed x (List.mem_cons_of_mem e hx)) hfuelTail
            (pos + 4 + buf.length)
          rw [hall, List.length_append, List.length_append, leBytes_length]
          rw [List.append_assoc, List.append_assoc]
          unfold SegmentReader.readFrames
          rw [if_pos (by omega), if_neg (by rw [List.length_append, leBytes_length]; omega)]
          dsimp only
          rw [List.take_left' (leBytes_length _ _), hnum, hslice, if_neg (Nat.lt_irrefl _),
            hdrop, show pos + (4 + (buf.length + (frames d events).length))
              = pos + 4 + buf.length + (frames d events).length by omega, List.mapM_cons]
          unfold reread
          rw [eventBytes_eq hbuf]
          cases d.decodeEvent buf with
          | error err => rfl
          | ok ev =>
              dsimp only
              rw [hlater]
              rfl

/-- A finished segment gives back what its frames are read back as. -/
theorem readAll_reread {events : List d.Event} (hframed : ∀ e ∈ events, Framed d e) :
    (segmentReader d events).readAll d = events.mapM (reread d) := by
  have hrest : (segmentBytes d events).drop headerSize = frames d events
      ++ (leBytes 8 (framesEnd d events) ++ leBytes 8 0
        ++ leBytes 4 (d.crc32 (checkedBytes d events)).toNat ++ segmentMagicTail) := by
    have hheader : (headerBytes d events).length = headerSize := buildHeaderBytes_length _ _ _ _
    unfold segmentBytes
    conv_lhs => rw [checkedBytes, List.append_assoc, List.append_assoc]
    rw [List.drop_left' hheader]
    simp only [checkedBytes, List.append_assoc]
  have hfuel : events.length ≤ (segmentBytes d events).length + 1 := by
    have hle := length_le_frames events
    rw [segmentBytes_length]
    unfold framesEnd
    omega
  unfold SegmentReader.readAll
  change SegmentReader.readFrames d (framesEnd d events) _ headerSize
    ((segmentBytes d events).drop headerSize) = _
  rw [hrest]
  exact readFrames_reread hframed hfuel headerSize _

theorem readAll_segmentReader {events : List d.Event} (hframed : ∀ e ∈ events, Framed d e)
    (hcbor : ∀ e ∈ events, ∀ buf, d.encodeEvent e = .ok buf → d.decodeEvent buf = .ok e) :
    (segmentReader d events).readAll d = .ok events := by
  rw [readAll_reread hframed, mapM_reread hframed hcbor]

/-- **What a finished segment reads back as**, below 2^64 bytes. -/
theorem readAll_written {events : List d.Event} (hframed : ∀ e ∈ events, Framed d e)
    (hcbor : ∀ e ∈ events, ∀ buf, d.encodeEvent e = .ok buf → d.decodeEvent buf = .ok e)
    (hcount : events.length < 4294967296)
    (hbytes : framesEnd d events + 24 < 18446744073709551616) :
    ∃ file summary reader, writeSegment d events = .ok (file, summary)
      ∧ SegmentReader.open d file = .ok reader ∧ reader.readAll d = .ok events
      ∧ reader.verifyMerkleRoot d = .ok () ∧ reader.header = segmentHeader d events := by
  have hread := readAll_segmentReader hframed hcbor
  refine ⟨_, _, segmentReader d events, writeSegment_eq hframed hcount hbytes,
    open_segmentBytes hcount (by omega), hread, ?_, rfl⟩
  unfold SegmentReader.verifyMerkleRoot
  rw [hread]
  simp only [bind, Except.bind]
  exact if_neg (not_not.mpr rfl)

/-- So many frames below 4 GiB stay below 2^64 bytes. -/
theorem frames_length_le {events : List d.Event} {limit : Nat}
    (h : ∀ e ∈ events, (frame d e).length ≤ limit) :
    (frames d events).length ≤ events.length * limit := by
  induction events with
  | nil => exact Nat.zero_le _
  | cons e rest ih =>
      have hhead := h e List.mem_cons_self
      have htail := ih fun x hx => h x (List.mem_cons_of_mem e hx)
      unfold frames at htail ⊢
      rw [List.flatMap_cons, List.length_append, List.length_cons, Nat.succ_mul]
      omega

/-- **Segments round-trip**: any fewer than 2^32 events whose frames are below 4 GiB each. -/
theorem segment_round_trip (events : List d.Event) (hcount : events.length < 4294967296)
    (hframed : ∀ e ∈ events, ∃ buf, d.encodeEvent e = .ok buf
      ∧ (leBytes 4 buf.length ++ buf).length < 4294967296)
    (hcbor : ∀ e ∈ events, ∀ buf, d.encodeEvent e = .ok buf → d.decodeEvent buf = .ok e) :
    ∃ file summary reader, writeSegment d events = .ok (file, summary)
      ∧ SegmentReader.open d file = .ok reader ∧ reader.readAll d = .ok events
      ∧ reader.verifyMerkleRoot d = .ok () ∧ reader.header.eventCount = events.length
      ∧ (∀ e, events.head? = some e → reader.header.firstHlc = e.header.clock)
      ∧ (∀ e, events.getLast? = some e → reader.header.lastHlc = e.header.clock) := by
  have hfits : ∀ e ∈ events, Framed d e := by
    intro e he
    obtain ⟨buf, hbuf, hlt⟩ := hframed e he
    rw [List.length_append] at hlt
    exact ⟨buf, hbuf, by omega⟩
  have hlimit : (frames d events).length ≤ events.length * 4294967295 := by
    refine frames_length_le fun e he => ?_
    obtain ⟨buf, hbuf, hlt⟩ := hframed e he
    unfold frame
    rw [eventBytes_eq hbuf]
    omega
  have hbytes : framesEnd d events + 24 < 18446744073709551616 := by
    change headerSize + _ + 24 < _
    unfold headerSize
    omega
  obtain ⟨file, summary, reader, hwrite, hopen, hread, hroot, hheader⟩ :=
    readAll_written hfits hcbor hcount hbytes
  refine ⟨file, summary, reader, hwrite, hopen, hread, hroot, ?_, ?_, ?_⟩
  · rw [hheader]
    rfl
  · intro e he
    rw [hheader]
    change ((events.head?.map (·.header.clock)).getD ⟨0, 0, 0⟩) = _
    rw [he]
    rfl
  · intro e he
    rw [hheader]
    change ((events.getLast?.map (·.header.clock)).getD ⟨0, 0, 0⟩) = _
    rw [he]
    rfl

theorem segment_round_trip_exercise :
    ∃ file summary reader, writeSegment AtepStore.exerciseDeps
        [AtepStore.exerciseEvent 1, AtepStore.exerciseEvent 2] = .ok (file, summary)
      ∧ SegmentReader.open AtepStore.exerciseDeps file = .ok reader
      ∧ reader.readAll AtepStore.exerciseDeps
          = .ok [AtepStore.exerciseEvent 1, AtepStore.exerciseEvent 2]
      ∧ reader.verifyMerkleRoot AtepStore.exerciseDeps = .ok () ∧ reader.header.eventCount = 2
      ∧ (∀ e, some (AtepStore.exerciseEvent 1) = some e → reader.header.firstHlc = e.header.clock)
      ∧ (∀ e, some (AtepStore.exerciseEvent 2) = some e →
          reader.header.lastHlc = e.header.clock) := by
  refine segment_round_trip (d := AtepStore.exerciseDeps)
    [AtepStore.exerciseEvent 1, AtepStore.exerciseEvent 2] (by decide) (fun e _ => ?_)
    (fun e he buf hbuf => ?_)
  · refine ⟨[e.payload], rfl, ?_⟩
    rw [List.length_append, leBytes_length]
    change 4 + 1 < 4294967296
    decide
  · cases hbuf
    rcases List.mem_cons.mp he with rfl | he
    · rfl
    · cases List.mem_singleton.mp he
      rfl

end Agenomic.Atep
