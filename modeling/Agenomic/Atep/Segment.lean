import Agenomic.Atep.Event
import Agenomic.Lib.Merkle

/-!
# Segment files

A segment is a header of 76 bytes, the frames of its events, and a trailer: where the
frames end, a checksum, a magic number. The header's Merkle root is taken over the
causal hashes of the events, without separating leaves from nodes and without their
number, so what it says of the events depends on how many there are:
**`leaves_eq_iff`**: segments with as many events each have the same root exactly
when they have the same leaves.
-/

namespace Agenomic.Atep

open Lib

variable (d : Deps)

/-! ## The Merkle root -/

def nodeMessage (l r : Hash32) : Bytes :=
  utf8Encode "ATEP-NODE-v1".toList ++ [0] ++ l.toList ++ r.toList

def nodeHash (l r : Hash32) : Hash32 := d.blake3 (nodeMessage l r)

/-- Thirty-two zero bytes. -/
def zeroHash : Hash32 := List.Vector.replicate 32 0

/-- The root over the causal hashes of a segment. -/
def computeMerkleRoot (leaves : List Hash32) : Hash32 :=
  if leaves = [] then zeroHash
  else (Merkle.climb (nodeHash d) leaves.length leaves).headD zeroHash

/-! ## The format -/

def segmentMagicHead : Bytes := utf8Encode "ATEP".toList

def segmentMagicTail : Bytes := utf8Encode "PETA".toList

def segmentVersion : Nat := 1

def headerSize : Nat := 76

structure SegmentHeader where
  version : Nat
  flags : Nat
  eventCount : Nat
  firstHlc : Hlc
  lastHlc : Hlc
  merkleRoot : Hash32
  deriving DecidableEq

/-- The bytes of a header; the flags are written as zero. -/
def buildHeaderBytes (eventCount : Nat) (firstHlc lastHlc : Hlc) (merkleRoot : Hash32) : Bytes :=
  segmentMagicHead ++ leBytes 2 segmentVersion ++ leBytes 2 0 ++ leBytes 4 eventCount
    ++ firstHlc.toLeBytes ++ lastHlc.toLeBytes ++ merkleRoot.toList

/-! ## The writer -/

/-- A 32-bit unsigned addition that stops the call when it leaves its range. -/
def addU32 (a b : Nat) : CliResult Nat :=
  if a + b < 4294967296 then .ok (a + b) else .error .overflow

theorem addU32_ok {a b : Nat} (h : a + b < 4294967296) : addU32 a b = .ok (a + b) := if_pos h

/-- What is returned for a finished segment. -/
structure SegmentSummary where
  eventCount : Nat
  firstHlc : Hlc
  lastHlc : Hlc
  merkleRoot : Hash32
  bytesWritten : Nat
  deriving DecidableEq

structure SegmentWriter where
  /-- What has been written so far, the reserved header included. -/
  writer : Bytes
  eventCount : Nat
  firstHlc : Option Hlc
  lastHlc : Hlc
  leafHashes : List Hash32
  bytes : Nat

namespace SegmentWriter

/-- A segment with room for its header. -/
def new : SegmentWriter where
  writer := List.replicate headerSize 0
  eventCount := 0
  firstHlc := none
  lastHlc := ⟨0, 0, 0⟩
  leafHashes := []
  bytes := headerSize

/-- Write the frame of an event. -/
def append (w : SegmentWriter) (event : d.Event) : CliResult SegmentWriter :=
  match d.encodeEvent event with
  | .error e => .error (.internal s!"cbor encode event: {e}")
  | .ok buf =>
      if buf.length < 4294967296 then do
        let bytes ← addU64 w.bytes (4 + buf.length)
        let eventCount ← addU32 w.eventCount 1
        .ok { writer := w.writer ++ leBytes 4 buf.length ++ buf
              eventCount
              firstHlc := some (w.firstHlc.getD event.header.clock)
              lastHlc := event.header.clock
              leafHashes := w.leafHashes ++ [event.causalHash]
              bytes }
      else .error (.internal "event frame too large (>4GiB)")

/-- Write the trailer, patch the header and close with the checksum. -/
def finalize (w : SegmentWriter) : CliResult (Bytes × SegmentSummary) := do
  let written := w.writer ++ leBytes 8 w.bytes ++ leBytes 8 0
  let merkleRoot := computeMerkleRoot d w.leafHashes
  let first := w.firstHlc.getD ⟨0, 0, 0⟩
  let patched := buildHeaderBytes w.eventCount first w.lastHlc merkleRoot
    ++ written.drop headerSize
  let preCrcEnd ← addU64 w.bytes 16
  let bytesWritten ← addU64 preCrcEnd 8
  .ok (patched ++ leBytes 4 (d.crc32 (patched.take preCrcEnd)).toNat ++ segmentMagicTail,
    ⟨w.eventCount, first, w.lastHlc, merkleRoot, bytesWritten⟩)

end SegmentWriter

/-! ## The reader -/

/-- The error of a read past the end. -/
def failedToFill : String := "failed to fill whole buffer"

/-- A number in hexadecimal, as the alternate form writes it. -/
def hexNumber (n : Nat) : String := "0x" ++ String.ofList (Nat.toDigits 16 n)

/-- Some bytes of a file. -/
def slice (file : Bytes) (start len : Nat) : Bytes := (file.drop start).take len

/-- The first 32 of some bytes. -/
def firstHash (bs : Bytes) : Hash32 := ⟨(bs ++ List.replicate 32 0).take 32, by
  rw [List.length_take, List.length_append, List.length_replicate]
  omega⟩

structure SegmentReader where
  /-- The content of the file. -/
  reader : Bytes
  header : SegmentHeader
  /-- The position behind the header. -/
  framesStart : Nat
  indexOffset : Nat

namespace SegmentReader

/-- Read the header and the trailer of a segment and check its checksum. -/
def «open» (file : Bytes) : CliResult SegmentReader := do
  if file.length < headerSize then
    .error (.atepIntegrity s!"cannot read header: {failedToFill}")
  if slice file 0 4 ≠ segmentMagicHead then
    .error (.atepIntegrity "bad magic head")
  let version := ofLeBytes (slice file 4 2)
  if version ≠ segmentVersion then
    .error (.atepIntegrity s!"unsupported segment version {version}")
  let totalLen := file.length
  if totalLen < headerSize + 24 then
    .error (.atepIntegrity "segment too short")
  if slice file (totalLen - 4) 4 ≠ segmentMagicTail then
    .error (.atepIntegrity "bad magic tail")
  let preCrcEnd := totalLen - 8
  let storedCrc := ofLeBytes (slice file preCrcEnd 4)
  let computed := (d.crc32 (slice file 0 preCrcEnd)).toNat
  if computed ≠ storedCrc then
    .error (.atepIntegrity
      s!"crc mismatch: stored {hexNumber storedCrc} computed {hexNumber computed}")
  .ok { reader := file
        header :=
          { version
            flags := ofLeBytes (slice file 6 2)
            eventCount := ofLeBytes (slice file 8 4)
            firstHlc := Hlc.fromLeBytes (slice file 12 16)
            lastHlc := Hlc.fromLeBytes (slice file 28 16)
            merkleRoot := firstHash (slice file 44 32) }
        framesStart := headerSize
        indexOffset := ofLeBytes (slice file (totalLen - 24) 8) }

/-- Read frames from a position on until the end of the frames is reached or passed.
The fuel outlasts the bytes that are left. -/
def readFrames (framesEnd : Nat) : Nat → Nat → Bytes → CliResult (List d.Event)
  | 0, _, _ => .ok []
  | fuel + 1, pos, rest =>
      if pos < framesEnd then
        if rest.length < 4 then .error (.atepIntegrity s!"frame_len read: {failedToFill}")
        else
          let len := ofLeBytes (rest.take 4)
          let frame := slice rest 4 len
          if frame.length < len then .error (.atepIntegrity s!"frame read: {failedToFill}")
          else match d.decodeEvent frame with
            | .error e => .error (.atepIntegrity s!"frame decode: {e}")
            | .ok ev => do
                let events ← readFrames framesEnd fuel (pos + 4 + len) (rest.drop (4 + len))
                .ok (ev :: events)
      else .ok []

/-- All events of a segment. -/
def readAll (r : SegmentReader) : CliResult (List d.Event) :=
  readFrames d r.indexOffset (r.reader.length + 1) r.framesStart (r.reader.drop r.framesStart)

/-- Recompute the root over the causal hashes. -/
def verifyMerkleRoot (r : SegmentReader) : CliResult Unit := do
  let events ← r.readAll d
  let computed := computeMerkleRoot d (events.map (·.causalHash))
  if computed ≠ r.header.merkleRoot then
    .error (.atepIntegrity (s!"merkle root mismatch: " ++
      s!"stored {String.ofList (hexEncode r.header.merkleRoot.toList)} " ++
      s!"computed {String.ofList (hexEncode computed.toList)}"))
  .ok ()

end SegmentReader

/-! ## What a root says -/

variable {d}

theorem nodeMessage_injective {l r l' r' : Hash32} (h : nodeMessage l r = nodeMessage l' r') :
    l = l' ∧ r = r' := by
  unfold nodeMessage at h
  rw [List.append_assoc, List.append_assoc _ l'.toList] at h
  have hlen : l.toList.length = l'.toList.length := by
    rw [List.Vector.toList_length, List.Vector.toList_length]
  obtain ⟨hl, hr⟩ := List.append_inj (List.append_cancel_left h) hlen
  exact ⟨List.Vector.toList_injective hl, List.Vector.toList_injective hr⟩

/-- The pairs of nodes that are hashed for some leaves. -/
def hashedPairs (d : Deps) (leaves : List Hash32) : List (Hash32 × Hash32) :=
  Merkle.climbPairs (nodeHash d) leaves.length leaves

/-- BLAKE3 does not collide on the nodes of these trees. -/
def NoCollision (d : Deps) (leaves : List Hash32 → Prop) : Prop :=
  Set.InjOn d.blake3 {m | ∃ ls, leaves ls ∧ ∃ p ∈ hashedPairs d ls, m = nodeMessage p.1 p.2}

/-- **As many leaves with the same root are the same leaves.** -/
theorem leaves_eq_iff {trees : List Hash32 → Prop} (hinj : NoCollision d trees)
    {xs ys : List Hash32} (hx : trees xs) (hy : trees ys) (hlen : xs.length = ys.length) :
    computeMerkleRoot d xs = computeMerkleRoot d ys ↔ xs = ys := by
  constructor
  · intro h
    by_cases hne : xs = []
    · subst hne
      exact (List.length_eq_zero_iff.mp hlen.symm).symm
    · have hne' : ys ≠ [] := by
        intro hys
        rw [hys] at hlen
        exact hne (List.length_eq_zero_iff.mp hlen)
      unfold computeMerkleRoot at h
      rw [if_neg hne, if_neg hne'] at h
      have htop : Merkle.climb (nodeHash d) xs.length xs
          = Merkle.climb (nodeHash d) xs.length ys := by
        obtain ⟨x, hroot⟩ := List.length_eq_one_iff.mp
          (Merkle.length_climb (nodeHash d) le_rfl hne)
        obtain ⟨y, hroot'⟩ := List.length_eq_one_iff.mp
          (Merkle.length_climb (nodeHash d) le_rfl hne')
        rw [hroot, hroot'] at h
        rw [hroot, hlen, hroot']
        exact congrArg (fun z => [z]) h
      refine Merkle.climb_injective_of_length hlen (fun p q hp hq hpq => ?_) htop
      have hq' : q ∈ hashedPairs d ys := by
        unfold hashedPairs
        rw [← hlen]
        exact hq
      obtain ⟨h1, h2⟩ := nodeMessage_injective
        (hinj ⟨xs, hx, p, hp, rfl⟩ ⟨ys, hy, q, hq', rfl⟩ hpq)
      exact Prod.ext h1 h2
  · intro h
    rw [h]

end Agenomic.Atep
