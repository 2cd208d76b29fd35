import Agenomic.Lib.Bytes

/-!
# Logs of length-prefixed, checksummed frames

A record is written as a *frame*: the length of its payload, a checksum of its
payload, the payload. A log is frames back to back. The reader walks the log
frame by frame and stops at the first one that does not check out, so what a log
means depends on where its first bad frame sits.

Three facts carry every argument about such a log:

* **`scan_append`** — behind a clean log the reader carries on with whatever
  follows, as if it started there;
* **`scan_cut`** — a frame that was cut short reads as torn, and everything
  before it is kept;
* **`scan_take`** — cutting a log at the end of its good prefix leaves a clean
  log with the same records.

Together they say what any prefix of a log of whole frames reads as: the records
whose frames lie inside it (**`scan_prefix`**).
-/

namespace Lib

/-- How records become payloads, and which payloads the reader takes. -/
structure FrameFormat (α : Type) where
  encode : α → Bytes
  decode : Bytes → Option α
  /-- The payload of a record decodes to that record. -/
  decode_encode : ∀ a, decode (encode a) = some a
  checksum : Bytes → UInt32
  /-- The longest payload the reader believes. -/
  cap : Nat
  cap_lt : cap < 4294967296

namespace FrameFormat

variable {α : Type} (f : FrameFormat α)

/-- The frame around a payload. -/
def wrap (payload : Bytes) : Bytes :=
  le32 payload.length ++ le32 (f.checksum payload).toNat ++ payload

/-- The frame of a record. -/
def frame (a : α) : Bytes := f.wrap (f.encode a)

/-- The frames of a list of records, back to back. -/
def frames (as : List α) : Bytes := as.flatMap f.frame

/-- The reader takes this record back. -/
def Fits (a : α) : Prop := (f.encode a).length ≤ f.cap

instance (a : α) : Decidable (f.Fits a) := inferInstanceAs (Decidable (_ ≤ _))

/-- What stands at the front of a log. -/
inductive Head (α : Type) where
  | done
  | torn
  | undecodable
  | frame (a : α) (size : Nat) (rest : Bytes)

/-- Read one frame. -/
def head : Bytes → Head α
  | [] => .done
  | l0 :: l1 :: l2 :: l3 :: c0 :: c1 :: c2 :: c3 :: rest =>
      let len := ofLe32 l0 l1 l2 l3
      if f.cap < len ∨ rest.length < len then .torn
      else if (f.checksum (rest.take len)).toNat ≠ ofLe32 c0 c1 c2 c3 then .torn
      else match f.decode (rest.take len) with
        | none => .undecodable
        | some a => .frame a (8 + len) (rest.drop len)
  | _ :: _ => .torn

/-- What a reader made of a log. -/
structure Scan (α : Type) where
  records : List α
  /-- The offset behind the last good frame. -/
  goodEnd : Nat
  /-- The log does not end with a good frame. -/
  torn : Bool
  deriving DecidableEq, Repr

/-- Put a good frame in front of what was read behind it. -/
def Scan.cons (a : α) (size : Nat) (s : Scan α) : Scan α :=
  ⟨a :: s.records, size + s.goodEnd, s.torn⟩

/-- Put a run of good frames in front of what was read behind them. -/
def Scan.after (as : List α) (size : Nat) (s : Scan α) : Scan α :=
  ⟨as ++ s.records, size + s.goodEnd, s.torn⟩

/-- Read at most `fuel` frames. -/
def scanFuel : Nat → Bytes → Option (Scan α)
  | 0, _ => some ⟨[], 0, true⟩
  | fuel + 1, bs =>
      match f.head bs with
      | .done => some ⟨[], 0, false⟩
      | .torn => some ⟨[], 0, true⟩
      | .undecodable => none
      | .frame a size rest => (scanFuel fuel rest).map (Scan.cons a size)

/-- Read a log up to its first bad frame; `none` when a good frame holds no record. -/
def scan (bs : Bytes) : Option (Scan α) := f.scanFuel (bs.length + 1) bs

/-! ## One frame -/

@[simp] theorem wrap_length (p : Bytes) : (f.wrap p).length = 8 + p.length := by
  simp [wrap]; omega

@[simp] theorem frame_length (a : α) : (f.frame a).length = 8 + (f.encode a).length :=
  f.wrap_length _

@[simp] theorem frames_nil : f.frames [] = [] := rfl

@[simp] theorem frames_cons (a : α) (as : List α) :
    f.frames (a :: as) = f.frame a ++ f.frames as := rfl

/-- The shapes a log can have at its front, read off the bytes. -/
theorem head_cases (bs : Bytes) :
    (bs = [] ∧ f.head bs = .done)
    ∨ (bs ≠ [] ∧ f.head bs = .torn)
    ∨ (f.head bs = .undecodable)
    ∨ (∃ a p rest, bs = f.wrap p ++ rest ∧ p.length ≤ f.cap ∧ f.decode p = some a
        ∧ f.head bs = .frame a (8 + p.length) rest) := by
  rcases bs with _ | ⟨l0, _ | ⟨l1, _ | ⟨l2, _ | ⟨l3, _ | ⟨c0, _ | ⟨c1, _ | ⟨c2, _ | ⟨c3, rest⟩⟩⟩⟩⟩⟩⟩⟩
  · exact Or.inl ⟨rfl, rfl⟩
  all_goals try exact Or.inr (Or.inl ⟨by simp, rfl⟩)
  rw [head]
  by_cases hlen : f.cap < ofLe32 l0 l1 l2 l3 ∨ rest.length < ofLe32 l0 l1 l2 l3
  · rw [if_pos hlen]
    exact Or.inr (Or.inl ⟨by simp, rfl⟩)
  rw [if_neg hlen]
  by_cases hcrc : (f.checksum (rest.take (ofLe32 l0 l1 l2 l3))).toNat ≠ ofLe32 c0 c1 c2 c3
  · rw [if_pos hcrc]
    exact Or.inr (Or.inl ⟨by simp, rfl⟩)
  rw [if_neg hcrc]
  cases hd : f.decode (rest.take (ofLe32 l0 l1 l2 l3)) with
  | none => exact Or.inr (Or.inr (Or.inl rfl))
  | some a =>
      have hl : (rest.take (ofLe32 l0 l1 l2 l3)).length = ofLe32 l0 l1 l2 l3 := by
        rw [List.length_take]; omega
      refine Or.inr (Or.inr (Or.inr ⟨a, rest.take (ofLe32 l0 l1 l2 l3),
        rest.drop (ofLe32 l0 l1 l2 l3), ?_, by omega, hd, by rw [hl]⟩))
      have hc : (f.checksum (rest.take (ofLe32 l0 l1 l2 l3))).toNat = ofLe32 c0 c1 c2 c3 :=
        not_not.mp hcrc
      rw [wrap, hl, hc, le32_ofLe32, le32_ofLe32]
      simp

/-- A whole frame the reader believes, with anything behind it. -/
theorem head_wrap {p : Bytes} {a : α} (hp : p.length ≤ f.cap) (hd : f.decode p = some a)
    (rest : Bytes) : f.head (f.wrap p ++ rest) = .frame a (8 + p.length) rest := by
  have hlen : ofLe32 (UInt8.ofNat p.length) (UInt8.ofNat (p.length / 256))
      (UInt8.ofNat (p.length / 65536)) (UInt8.ofNat (p.length / 16777216)) = p.length :=
    ofLe32_le32 (Nat.lt_of_le_of_lt hp f.cap_lt)
  have hcrc := ofLe32_le32 (n := (f.checksum p).toNat) (f.checksum p).toNat_lt
  simp only [wrap, le32, List.cons_append, List.nil_append, head, hlen, hcrc]
  rw [if_neg (by simp; omega), List.take_left, if_neg (by simp), hd]
  simp

/-- A record's own frame reads back, whatever follows it. -/
theorem head_frame {a : α} (h : f.Fits a) (rest : Bytes) :
    f.head (f.frame a ++ rest) = .frame a (f.frame a).length rest := by
  rw [frame_length]; exact f.head_wrap h (f.decode_encode a) rest

/-- A frame that was cut short is torn. -/
theorem head_cut {a : α} (h : f.Fits a) {k : Nat} (hk : 0 < k) (hlt : k < (f.frame a).length) :
    f.head ((f.frame a).take k) = .torn := by
  rw [frame_length] at hlt
  have hlen : ofLe32 (UInt8.ofNat (f.encode a).length) (UInt8.ofNat ((f.encode a).length / 256))
      (UInt8.ofNat ((f.encode a).length / 65536)) (UInt8.ofNat ((f.encode a).length / 16777216))
      = (f.encode a).length :=
    ofLe32_le32 (Nat.lt_of_le_of_lt h f.cap_lt)
  unfold frame wrap le32
  rcases k with _ | _ | _ | _ | _ | _ | _ | _ | k
  · omega
  all_goals simp only [List.cons_append, List.nil_append, List.take_succ_cons, List.take_zero, head]
  rw [hlen, if_pos]
  rw [List.length_take]
  omega

/-- A frame with a payload above the cap is torn, whatever follows it. -/
theorem head_oversized {a : α} (hcap : f.cap < (f.encode a).length)
    (hlen : (f.encode a).length < 4294967296) (rest : Bytes) :
    f.head (f.frame a ++ rest) = .torn := by
  have hread := ofLe32_le32 hlen
  simp only [frame, wrap, le32, List.cons_append, List.nil_append, head, hread]
  rw [if_pos (Or.inl hcap)]

/-! ## The whole log -/

theorem head_frame_rest_lt {bs rest : Bytes} {a : α} {size : Nat}
    (h : f.head bs = .frame a size rest) : rest.length < bs.length := by
  rcases f.head_cases bs with ⟨_, h'⟩ | ⟨_, h'⟩ | h' | ⟨a', p, rest', hbs, _, _, h'⟩
  all_goals rw [h'] at h
  · cases h
  · cases h
  · cases h
  · cases h
    rw [hbs]
    simp

/-- Fuel beyond the length of the log changes nothing. -/
theorem scanFuel_stable : ∀ (n m : Nat) (bs : Bytes), bs.length < n → bs.length < m →
    f.scanFuel n bs = f.scanFuel m bs := by
  intro n
  induction n with
  | zero => intro m bs hn _; exact absurd hn (Nat.not_lt_zero _)
  | succ n ih =>
      intro m bs hn hm
      cases m with
      | zero => exact absurd hm (Nat.not_lt_zero _)
      | succ m =>
          simp only [scanFuel]
          cases hh : f.head bs with
          | done => rfl
          | torn => rfl
          | undecodable => rfl
          | frame a size rest =>
              have hr := f.head_frame_rest_lt hh
              dsimp only
              rw [ih m rest (by omega) (by omega)]

/-- The reader, one frame at a time. -/
theorem scan_eq (bs : Bytes) :
    f.scan bs = match f.head bs with
      | .done => some ⟨[], 0, false⟩
      | .torn => some ⟨[], 0, true⟩
      | .undecodable => none
      | .frame a size rest => (f.scan rest).map (Scan.cons a size) := by
  unfold scan
  rw [scanFuel]
  cases hh : f.head bs with
  | done => rfl
  | torn => rfl
  | undecodable => rfl
  | frame a size rest =>
      have hr := f.head_frame_rest_lt hh
      dsimp only
      rw [f.scanFuel_stable _ (rest.length + 1) rest (by omega) (by omega)]

theorem scan_oversized {a : α} (hcap : f.cap < (f.encode a).length)
    (hlen : (f.encode a).length < 4294967296) (rest : Bytes) :
    f.scan (f.frame a ++ rest) = some ⟨[], 0, true⟩ := by
  rw [scan_eq, f.head_oversized hcap hlen]

@[simp] theorem scan_nil : f.scan [] = some ⟨[], 0, false⟩ := rfl

/-- Induction over a log, frame by frame. -/
theorem scan_induction {motive : Bytes → Prop}
    (stop : ∀ bs, (∀ a size rest, f.head bs ≠ .frame a size rest) → motive bs)
    (step : ∀ a p rest, p.length ≤ f.cap → f.decode p = some a → motive rest →
      motive (f.wrap p ++ rest)) : ∀ bs, motive bs := by
  intro bs
  induction hn : bs.length using Nat.strongRecOn generalizing bs with
  | ind n ih =>
      rcases f.head_cases bs with ⟨_, h⟩ | ⟨_, h⟩ | h | ⟨a, p, rest, rfl, hp, hd, h⟩
      · exact stop bs (by rw [h]; simp)
      · exact stop bs (by rw [h]; simp)
      · exact stop bs (by rw [h]; simp)
      · refine step a p rest hp hd (ih rest.length ?_ rest rfl)
        rw [← hn]
        simp

/-- The bytes of a log are all good frames, and these are their records. -/
def Clean (bs : Bytes) (as : List α) : Prop := f.scan bs = some ⟨as, bs.length, false⟩

theorem clean_nil : f.Clean [] [] := rfl

/-- The good prefix ends inside the log; it is the whole log exactly when nothing is torn. -/
theorem scan_goodEnd : ∀ (bs : Bytes) {s : Scan α}, f.scan bs = some s →
    s.goodEnd ≤ bs.length ∧ (s.torn = false → s.goodEnd = bs.length) := by
  intro bs
  induction bs using f.scan_induction with
  | stop bs hstop =>
      intro s hs
      rw [scan_eq] at hs
      rcases f.head_cases bs with ⟨rfl, h⟩ | ⟨_, h⟩ | h | ⟨a, p, rest, _, _, _, h⟩
      · rw [h] at hs; cases hs; exact ⟨Nat.le_refl _, fun _ => rfl⟩
      · rw [h] at hs; cases hs; exact ⟨Nat.zero_le _, fun hf => by cases hf⟩
      · rw [h] at hs; cases hs
      · exact absurd h (hstop _ _ _)
  | step a p rest hp hd ih =>
      intro s hs
      rw [scan_eq, f.head_wrap hp hd] at hs
      obtain ⟨s', hs', rfl⟩ := Option.map_eq_some_iff.mp hs
      obtain ⟨h1, h2⟩ := ih hs'
      simp only [Scan.cons, List.length_append, wrap_length]
      exact ⟨by omega, fun ht => by rw [h2 ht]⟩

/-- A scan that is not torn read the whole log. -/
theorem clean_of_scan {bs : Bytes} {s : Scan α} (hs : f.scan bs = some s)
    (ht : s.torn = false) : f.Clean bs s.records := by
  unfold Clean
  rw [hs, ← (f.scan_goodEnd bs hs).2 ht, ← ht]

/-- **Behind a clean log the reader carries on.** -/
theorem scan_append : ∀ (bs : Bytes) {as : List α}, f.Clean bs as → ∀ t : Bytes,
    f.scan (bs ++ t) = (f.scan t).map (Scan.after as bs.length) := by
  intro bs
  induction bs using f.scan_induction with
  | stop bs hstop =>
      intro as hc t
      unfold Clean at hc
      rw [scan_eq] at hc
      rcases f.head_cases bs with ⟨rfl, h⟩ | ⟨_, h⟩ | h | ⟨a, p, rest, _, _, _, h⟩
      · rw [h] at hc
        cases hc
        have : (Scan.after [] ([] : Bytes).length : Scan α → Scan α) = id := by
          funext s; simp [Scan.after]
        rw [this]
        simp
      · rw [h] at hc; simp at hc
      · rw [h] at hc; cases hc
      · exact absurd h (hstop _ _ _)
  | step a p rest hp hd ih =>
      intro as hc t
      unfold Clean at hc
      rw [scan_eq, f.head_wrap hp hd] at hc
      obtain ⟨s', hs', hcons⟩ := Option.map_eq_some_iff.mp hc
      obtain ⟨rfl, hlen, htorn⟩ := Scan.mk.inj hcons
      have hrest := ih (f.clean_of_scan hs' htorn) t
      rw [List.append_assoc, scan_eq, f.head_wrap hp hd]
      dsimp only
      rw [hrest, Option.map_map]
      congr 1
      funext s
      simp [Scan.after, Scan.cons]
      omega

/-- Clean logs concatenate. -/
theorem Clean.append {bs t : Bytes} {as as' : List α} (h : f.Clean bs as) (h' : f.Clean t as') :
    f.Clean (bs ++ t) (as ++ as') := by
  unfold Clean at h' ⊢
  rw [f.scan_append bs h, h']
  simp [Scan.after]

/-- A record's own frame is a clean log. -/
theorem clean_frame {a : α} (h : f.Fits a) : f.Clean (f.frame a) [a] := by
  have hh := f.head_frame h []
  rw [List.append_nil] at hh
  unfold Clean
  rw [scan_eq, hh]
  rfl

/-- **A frame cut short reads as torn, and everything before it is kept.** -/
theorem scan_cut {bs : Bytes} {as : List α} (hc : f.Clean bs as) {a : α} (h : f.Fits a)
    {k : Nat} (hk : 0 < k) (hlt : k < (f.frame a).length) :
    f.scan (bs ++ (f.frame a).take k) = some ⟨as, bs.length, true⟩ := by
  rw [f.scan_append bs hc, scan_eq, f.head_cut h hk hlt]
  simp [Scan.after]

/-- **Cut at the end of its good prefix, a log is clean and holds the same records.** -/
theorem scan_take : ∀ (bs : Bytes) {s : Scan α}, f.scan bs = some s →
    f.Clean (bs.take s.goodEnd) s.records := by
  intro bs
  induction bs using f.scan_induction with
  | stop bs hstop =>
      intro s hs
      rw [scan_eq] at hs
      rcases f.head_cases bs with ⟨rfl, h⟩ | ⟨_, h⟩ | h | ⟨a, p, rest, _, _, _, h⟩
      · rw [h] at hs; cases hs; exact f.clean_nil
      · rw [h] at hs; cases hs; exact f.clean_nil
      · rw [h] at hs; cases hs
      · exact absurd h (hstop _ _ _)
  | step a p rest hp hd ih =>
      intro s hs
      rw [scan_eq, f.head_wrap hp hd] at hs
      obtain ⟨s', hs', rfl⟩ := Option.map_eq_some_iff.mp hs
      have hrest := ih hs'
      have htake : (f.wrap p ++ rest).take (8 + p.length + s'.goodEnd)
          = f.wrap p ++ rest.take s'.goodEnd := by
        rw [← f.wrap_length p, List.take_length_add_append]
      simp only [Scan.cons, htake]
      have hone : f.Clean (f.wrap p) [a] := by
        have hh := f.head_wrap hp hd []
        rw [List.append_nil] at hh
        unfold Clean
        rw [scan_eq, hh]
        simp [Scan.cons]
      exact Clean.append f hone hrest

/-! ## Every prefix of a log -/

/-- The records whose frames lie inside the first bytes. -/
def inside : Nat → List α → List α
  | _, [] => []
  | k, a :: as =>
      if (f.frame a).length ≤ k then a :: inside (k - (f.frame a).length) as else []

theorem inside_isPrefix : ∀ (k : Nat) (as : List α), f.inside k as <+: as
  | _, [] => List.prefix_rfl
  | k, a :: as => by
      unfold inside
      by_cases h : (f.frame a).length ≤ k
      · rw [if_pos h]
        exact (List.prefix_cons_inj a).mpr (inside_isPrefix _ as)
      · rw [if_neg h]
        exact List.nil_prefix

/-- A record is inside exactly when its frame ends there. -/
theorem lt_length_inside : ∀ (as : List α) (k i : Nat), i < as.length →
    (i < (f.inside k as).length ↔ (f.frames (as.take (i + 1))).length ≤ k)
  | [], k, i, hi => absurd hi (Nat.not_lt_zero i)
  | a :: as, k, i, hi => by
      have hpos := f.frame_length a
      unfold inside
      rw [List.take_succ_cons, frames_cons, List.length_append]
      by_cases h : (f.frame a).length ≤ k
      · rw [if_pos h, List.length_cons]
        cases i with
        | zero =>
            rw [List.take_zero, frames_nil, List.length_nil]
            omega
        | succ i =>
            have ih := lt_length_inside as (k - (f.frame a).length) i
              (Nat.lt_of_succ_lt_succ (by rw [List.length_cons] at hi; exact hi))
            omega
      · rw [if_neg h, List.length_nil]
        omega

/-- **A prefix of a log of whole frames** reads as the records inside it, and is torn when it
ends behind the last of them. -/
theorem scan_prefix : ∀ {as : List α}, (∀ a ∈ as, f.Fits a) → ∀ k, k ≤ (f.frames as).length →
    f.scan ((f.frames as).take k) = some ⟨f.inside k as, (f.frames (f.inside k as)).length,
      decide ((f.frames (f.inside k as)).length < k)⟩
  | [], _, k, hk => by
      rw [frames_nil, List.length_nil] at hk
      obtain rfl : k = 0 := Nat.le_zero.mp hk
      rfl
  | a :: as, hfits, k, hk => by
      have hfit := hfits a List.mem_cons_self
      rw [frames_cons, List.length_append] at hk
      rw [frames_cons]
      unfold inside
      by_cases h : (f.frame a).length ≤ k
      · have ih := scan_prefix (fun b hb => hfits b (List.mem_cons_of_mem a hb))
          (k - (f.frame a).length) (by omega)
        have htake : (f.frame a ++ f.frames as).take k
            = f.frame a ++ (f.frames as).take (k - (f.frame a).length) := by
          rw [List.take_append, List.take_of_length_le h]
        rw [if_pos h, htake, f.scan_append _ (f.clean_frame hfit), ih]
        simp only [Option.map_some, Scan.after, List.singleton_append, frames_cons,
          List.length_append]
        congr 2
        rw [decide_eq_decide]
        omega
      · have htake : (f.frame a ++ f.frames as).take k = (f.frame a).take k := by
          rw [List.take_append_of_le_length (by omega)]
        rw [if_neg h, htake, frames_nil, List.length_nil]
        rcases Nat.eq_zero_or_pos k with rfl | hpos
        · rfl
        · have hcut := f.scan_cut f.clean_nil hfit hpos (Nat.lt_of_not_le h)
          rw [List.nil_append] at hcut
          rw [hcut, List.length_nil, decide_eq_true hpos]

end FrameFormat

end Lib
