import Agenomic.Lib.Bytes

/-!
# Text: encodings, numerals and the string tests programs make

Text is a list of code points. It reaches a file as UTF-8, numbers reach it as
decimal numerals, digests as lower-case hex. Each of these has a reader that
undoes it.

Fixed-width numerals are also how file names carry an order: as long as every
number fits the width, comparing the names compares the numbers
(`padded_lt_padded`).
-/

namespace Lib

/-! ## UTF-8 -/

/-- The UTF-8 bytes of a text. -/
def utf8Encode (cs : List Char) : Bytes := cs.flatMap String.utf8EncodeChar

/-- The text of a byte string, when it is valid UTF-8. -/
def utf8Decode (bs : Bytes) : Option (List Char) := bs.toByteArray.utf8Decode?.map Array.toList

@[simp] theorem utf8Encode_nil : utf8Encode [] = [] := rfl

@[simp] theorem utf8Encode_append (a b : List Char) :
    utf8Encode (a ++ b) = utf8Encode a ++ utf8Encode b := by
  simp [utf8Encode]

/-- Text survives the round trip through its bytes. -/
theorem utf8Decode_utf8Encode (cs : List Char) : utf8Decode (utf8Encode cs) = some cs := by
  have h : (utf8Encode cs).toByteArray = cs.utf8Encode := rfl
  unfold utf8Decode
  rw [h, List.utf8Decode?_utf8Encode]
  simp

theorem utf8Encode_injective {a b : List Char} (h : utf8Encode a = utf8Encode b) : a = b := by
  have := congrArg utf8Decode h
  rw [utf8Decode_utf8Encode, utf8Decode_utf8Encode] at this
  exact Option.some.inj this

/-- Text that is read from bytes is written as those bytes. -/
theorem utf8Encode_of_utf8Decode {bs : Bytes} {cs : List Char} (h : utf8Decode bs = some cs) :
    utf8Encode cs = bs := by
  unfold utf8Decode at h
  obtain ⟨chars, hchars, rfl⟩ := Option.map_eq_some_iff.mp h
  have hsome : bs.toByteArray.utf8Decode?.isSome := by
    rw [hchars]
    rfl
  have hget : bs.toByteArray.utf8Decode?.get hsome = chars := by
    simp only [hchars, Option.get_some]
  have hbytes := ByteArray.utf8Encode_get_utf8Decode? (h := hsome)
  rw [hget] at hbytes
  have hlist : (utf8Encode chars.toList).toByteArray = bs.toByteArray := hbytes
  have hdata := congrArg (fun b => b.data.toList) hlist
  simpa using hdata

/-- A byte that continues a character. -/
def isContinuation (b : UInt8) : Bool := 128 ≤ b && b < 192

/-- The second byte may follow the first byte of a long character. -/
def mayFollow (a b : UInt8) : Bool :=
  if a = 224 then 160 ≤ b && b < 192
  else if a = 237 then 128 ≤ b && b < 160
  else if a = 240 then 144 ≤ b && b < 192
  else if a = 244 then 128 ≤ b && b < 144
  else 225 ≤ a && a ≤ 243 && isContinuation b

/-- How many bytes at the front, where no character stands, are given up at once: the
longest start of a character, or one byte. -/
def badPrefix : Bytes → Nat
  | a :: b :: c :: _ =>
      if !mayFollow a b then 1
      else if 240 ≤ a && isContinuation c then 3
      else 2
  | [a, b] => if mayFollow a b then 2 else 1
  | _ => 1

/-- The characters of a byte string, a replacement character for each bad prefix. -/
def decodeReplacing : Nat → Bytes → List Char
  | 0, _ => []
  | _, [] => []
  | n + 1, bs =>
      match bs.toByteArray.utf8DecodeChar? 0 with
      | some c => c :: decodeReplacing n (bs.drop c.utf8Size)
      | none => Char.ofNat 65533 :: decodeReplacing n (bs.drop (badPrefix bs))

/-- The text of a byte string, with replacement characters where it is no UTF-8. -/
def utf8DecodeLossy (bs : Bytes) : List Char :=
  match utf8Decode bs with
  | some cs => cs
  | none => decodeReplacing bs.length bs

@[simp] theorem utf8DecodeLossy_utf8Encode (cs : List Char) :
    utf8DecodeLossy (utf8Encode cs) = cs := by
  rw [utf8DecodeLossy, utf8Decode_utf8Encode]

/-- A character takes at most four bytes. -/
theorem utf8Encode_length_le (cs : List Char) : (utf8Encode cs).length ≤ 4 * cs.length := by
  induction cs with
  | nil => exact Nat.le_refl _
  | cons c cs ih =>
      have hc : (String.utf8EncodeChar c).length ≤ 4 := by
        rw [String.length_utf8EncodeChar]
        exact c.utf8Size_le_four
      have hcons : utf8Encode (c :: cs) = String.utf8EncodeChar c ++ utf8Encode cs := rfl
      rw [hcons, List.length_append, List.length_cons]
      omega

/-- A character takes a byte at least. -/
theorem length_le_utf8Encode (cs : List Char) : cs.length ≤ (utf8Encode cs).length := by
  induction cs with
  | nil => exact Nat.le_refl _
  | cons c cs ih =>
      have hc : 1 ≤ (String.utf8EncodeChar c).length := by
        rw [String.length_utf8EncodeChar]
        exact Char.utf8Size_pos c
      rw [utf8Encode, List.flatMap_cons, List.length_append, List.length_cons]
      unfold utf8Encode at ih
      omega

/-- An ASCII byte in the encoding of a character is that character. -/
theorem mem_utf8EncodeChar_ascii {c : Char} {b : UInt8} (hb : b.toNat < 128)
    (h : b ∈ String.utf8EncodeChar c) : c.toNat = b.toNat := by
  unfold String.utf8EncodeChar at h
  have hc : c.val.toNat = c.toNat := rfl
  simp only [hc] at h
  split at h
  · rw [List.mem_singleton] at h
    subst h
    rw [UInt8.toNat_ofNat']
    omega
  split at h
  · exfalso
    simp only [List.mem_cons, List.not_mem_nil, or_false] at h
    rcases h with rfl | rfl <;> rw [UInt8.toNat_ofNat'] at hb <;> omega
  split at h
  · exfalso
    simp only [List.mem_cons, List.not_mem_nil, or_false] at h
    rcases h with rfl | rfl | rfl <;> rw [UInt8.toNat_ofNat'] at hb <;> omega
  · exfalso
    simp only [List.mem_cons, List.not_mem_nil, or_false] at h
    rcases h with rfl | rfl | rfl | rfl <;> rw [UInt8.toNat_ofNat'] at hb <;> omega

/-- A text without NUL has no zero byte. -/
theorem zero_notMem_utf8Encode {cs : List Char} (h : Char.ofNat 0 ∉ cs) : 0 ∉ utf8Encode cs := by
  intro hmem
  obtain ⟨ch, hch, hbyte⟩ := List.mem_flatMap.mp hmem
  have hzero : ch.toNat = 0 := mem_utf8EncodeChar_ascii (by decide) hbyte
  refine h ?_
  have hnul : ch = Char.ofNat 0 := Char.toNat_inj.mp hzero
  rw [← hnul]
  exact hch

/-- The first zero byte separates what is in front of it from what comes after. -/
theorem append_zero_injective : ∀ {as bs as' bs' : Bytes}, 0 ∉ as → 0 ∉ bs →
    as ++ 0 :: as' = bs ++ 0 :: bs' → as = bs ∧ as' = bs'
  | [], [], _, _, _, _, h => ⟨rfl, (List.cons.inj h).2⟩
  | [], b :: _, _, _, _, hb, h => by
      have hzero : (0 : UInt8) = b := (List.cons.inj h).1
      exact absurd (hzero ▸ List.mem_cons_self) hb
  | a :: _, [], _, _, ha, _, h => by
      have hzero : a = (0 : UInt8) := (List.cons.inj h).1
      exact absurd (hzero ▸ List.mem_cons_self) ha
  | a :: as, b :: bs, _, _, ha, hb, h => by
      obtain ⟨hhead, htail⟩ := List.cons.inj h
      obtain ⟨hrest, hafter⟩ := append_zero_injective (fun hm => ha (List.mem_cons_of_mem a hm))
        (fun hm => hb (List.mem_cons_of_mem b hm)) htail
      exact ⟨by rw [hhead, hrest], hafter⟩

/-! ## Decimal numerals -/

/-- The character of a decimal digit. -/
def digit (d : Nat) : Char := Char.ofNat (48 + d)

/-- The value of a digit character. -/
def digitValue (c : Char) : Nat := c.toNat - 48

/-- A number as a decimal numeral without leading zeros. -/
def decimal (n : Nat) : List Char :=
  if n = 0 then [digit 0] else ((Nat.digits 10 n).map digit).reverse

/-- The number a decimal numeral spells, leading zeros allowed. -/
def ofDecimal (cs : List Char) : Nat := cs.foldl (fun acc c => acc * 10 + digitValue c) 0

/-- A numeral padded with zeros on the left to a width. -/
def padded (w n : Nat) : List Char :=
  List.replicate (w - (decimal n).length) (digit 0) ++ decimal n

theorem digit_toNat {d : Nat} (h : d < 10) : (digit d).toNat = 48 + d := by
  revert d; decide

theorem digitValue_digit {d : Nat} (h : d < 10) : digitValue (digit d) = d := by
  rw [digitValue, digit_toNat h]; omega

theorem digit_isDigit {d : Nat} (h : d < 10) : (digit d).isDigit = true := by
  revert d; decide

theorem digit_lt_digit {d e : Nat} (h : d < e) (he : e < 10) : digit d < digit e := by
  rw [Char.lt_def, UInt32.lt_iff_toNat_lt]
  show (digit d).toNat < (digit e).toNat
  rw [digit_toNat he, digit_toNat (by omega)]
  omega

theorem digits_lt {n d : Nat} (h : d ∈ Nat.digits 10 n) : d < 10 :=
  Nat.digits_lt_base (by decide) h

theorem decimal_ne_nil (n : Nat) : decimal n ≠ [] := by
  unfold decimal
  split
  · simp
  · rename_i h
    intro hnil
    rw [List.reverse_eq_nil_iff, List.map_eq_nil_iff] at hnil
    exact h (Nat.digits_eq_nil_iff_eq_zero.mp hnil)

theorem decimal_isDigit {n : Nat} {c : Char} (h : c ∈ decimal n) : c.isDigit = true := by
  unfold decimal at h
  split at h
  · rw [List.mem_singleton] at h; subst h; exact digit_isDigit (by decide)
  · rw [List.mem_reverse, List.mem_map] at h
    obtain ⟨d, hd, rfl⟩ := h
    exact digit_isDigit (digits_lt hd)

theorem ofDecimal_reverse : ∀ ds : List Nat, (∀ d ∈ ds, d < 10) →
    ofDecimal (ds.map digit).reverse = Nat.ofDigits 10 ds
  | [], _ => rfl
  | d :: ds, h => by
      have ih := ofDecimal_reverse ds fun e he => h e (List.mem_cons_of_mem _ he)
      unfold ofDecimal at ih ⊢
      rw [List.map_cons, List.reverse_cons, List.foldl_append, ih, List.foldl_cons,
        List.foldl_nil, digitValue_digit (h d List.mem_cons_self), Nat.ofDigits_cons]
      omega

/-- A number survives the round trip through its numeral. -/
theorem ofDecimal_decimal (n : Nat) : ofDecimal (decimal n) = n := by
  unfold decimal
  split
  · rename_i h; subst h; decide
  · rw [ofDecimal_reverse _ fun d hd => digits_lt hd, Nat.ofDigits_digits]

/-- The last digit of a numeral stands behind the numeral of the rest. -/
theorem decimal_step {n : Nat} (h : 10 ≤ n) :
    decimal n = decimal (n / 10) ++ [digit (n % 10)] := by
  have h1 : n ≠ 0 := by omega
  have h2 : n / 10 ≠ 0 := by omega
  unfold decimal
  rw [if_neg h1, if_neg h2, Nat.digits_def' (by decide) (by omega)]
  simp

theorem decimal_small {n : Nat} (h : n < 10) : decimal n = [digit n] := by
  revert n; decide

/-- Zeros on the left change nothing. -/
theorem ofDecimal_padded (w n : Nat) : ofDecimal (padded w n) = n := by
  unfold padded
  generalize w - (decimal n).length = k
  induction k with
  | zero => rw [List.replicate_zero, List.nil_append, ofDecimal_decimal]
  | succ k ih =>
      rw [List.replicate_succ, List.cons_append]
      have h0 : (0 : Nat) * 10 + digitValue (digit 0) = 0 := by decide
      unfold ofDecimal at ih ⊢
      rw [List.foldl_cons, h0]
      exact ih

theorem padded_isDigit {w n : Nat} {c : Char} (h : c ∈ padded w n) : c.isDigit = true := by
  unfold padded at h
  rcases List.mem_append.mp h with h | h
  · rw [List.eq_of_mem_replicate h]; exact digit_isDigit (by decide)
  · exact decimal_isDigit h

theorem padded_ne_nil (w n : Nat) : padded w n ≠ [] := by
  unfold padded
  simp [decimal_ne_nil]

/-- Padding to one more place puts the last digit behind the padded rest. -/
theorem padded_step {w n : Nat} (hw : 0 < w) :
    padded (w + 1) n = padded w (n / 10) ++ [digit (n % 10)] := by
  rcases Nat.lt_or_ge n 10 with h | h
  · have h0 : n / 10 = 0 := by omega
    have hm : n % 10 = n := by omega
    have hrep : List.replicate w (digit 0) = List.replicate (w - 1) (digit 0) ++ [digit 0] := by
      obtain ⟨v, rfl⟩ : ∃ v, w = v + 1 := ⟨w - 1, by omega⟩
      rw [Nat.add_sub_cancel, List.replicate_succ']
    unfold padded
    rw [h0, hm, decimal_small h, decimal_small (by decide : 0 < 10)]
    simp only [List.length_cons, List.length_nil, Nat.zero_add, Nat.add_sub_cancel]
    rw [hrep]
  · unfold padded
    rw [decimal_step h]
    have hl : w + 1 - (decimal (n / 10) ++ [digit (n % 10)]).length
        = w - (decimal (n / 10)).length := by
      rw [List.length_append, List.length_singleton]; omega
    rw [hl, List.append_assoc]

theorem padded_length {w n : Nat} (hw : 0 < w) (h : n < 10 ^ w) : (padded w n).length = w := by
  induction w generalizing n with
  | zero => omega
  | succ w ih =>
      rcases Nat.eq_zero_or_pos w with rfl | hw'
      · unfold padded; rw [decimal_small (by omega)]; rfl
      · rw [padded_step hw', List.length_append, ih hw' (by rw [pow_succ] at h; omega)]
        rfl

theorem decimal_length_le {w n : Nat} (hw : 0 < w) (h : n < 10 ^ w) : (decimal n).length ≤ w := by
  have hlen := padded_length hw h
  rw [padded, List.length_append] at hlen
  omega

theorem append_lt_append_of_lt {a b : List Char} (h : a < b) (hl : a.length = b.length)
    (c d : List Char) : a ++ c < b ++ d := by
  induction a generalizing b with
  | nil =>
      cases b with
      | nil => exact absurd h (List.lt_irrefl _)
      | cons => simp at hl
  | cons x a ih =>
      cases b with
      | nil => simp at hl
      | cons y b =>
          rw [List.cons_append, List.cons_append, List.cons_lt_cons_iff]
          rcases List.cons_lt_cons_iff.mp h with hxy | ⟨rfl, hab⟩
          · exact Or.inl hxy
          · exact Or.inr ⟨rfl, ih hab (by simpa using hl)⟩

theorem append_left_lt {a b : List Char} (p : List Char) (h : a < b) : p ++ a < p ++ b := by
  induction p with
  | nil => exact h
  | cons x p ih => exact List.cons_lt_cons_iff.mpr (Or.inr ⟨rfl, ih⟩)

/-- **Comparing fixed-width numerals compares the numbers.** -/
theorem padded_lt_padded {w i j : Nat} (hw : 0 < w) (h : i < j) (hj : j < 10 ^ w) :
    padded w i < padded w j := by
  induction w generalizing i j with
  | zero => omega
  | succ w ih =>
      rcases Nat.eq_zero_or_pos w with rfl | hw'
      · have hi1 : padded 1 i = [digit i] := by unfold padded; rw [decimal_small (by omega)]; rfl
        have hj1 : padded 1 j = [digit j] := by unfold padded; rw [decimal_small (by omega)]; rfl
        rw [Nat.zero_add, hi1, hj1]
        exact List.cons_lt_cons_iff.mpr (Or.inl (digit_lt_digit h (by omega)))
      · rw [pow_succ] at hj
        rw [padded_step hw', padded_step hw']
        rcases Nat.lt_or_ge (i / 10) (j / 10) with hlt | hge
        · refine append_lt_append_of_lt (ih hw' hlt (by omega)) ?_ _ _
          rw [padded_length hw' (by omega), padded_length hw' (by omega)]
        · have heq : i / 10 = j / 10 := by omega
          rw [heq]
          refine append_left_lt _ (List.cons_lt_cons_iff.mpr (Or.inl ?_))
          exact digit_lt_digit (by omega) (by omega)

/-! ## Hex -/

/-- The lower-case hex digit of a value below sixteen. -/
def hexDigit (d : Nat) : Char := if d < 10 then Char.ofNat (48 + d) else Char.ofNat (87 + d)

/-- The value of a hex digit of either case. -/
def hexValue (c : Char) : Option Nat :=
  if 48 ≤ c.toNat ∧ c.toNat ≤ 57 then some (c.toNat - 48)
  else if 97 ≤ c.toNat ∧ c.toNat ≤ 102 then some (c.toNat - 87)
  else if 65 ≤ c.toNat ∧ c.toNat ≤ 70 then some (c.toNat - 55)
  else none

/-- The two hex digits of every byte. -/
def hexEncode (bs : Bytes) : List Char :=
  bs.flatMap fun b => [hexDigit (b.toNat / 16), hexDigit (b.toNat % 16)]

/-- The bytes pairs of hex digits spell. -/
def hexDecode : List Char → Option Bytes
  | [] => some []
  | [_] => none
  | hi :: lo :: rest => do
      let h ← hexValue hi
      let l ← hexValue lo
      let bs ← hexDecode rest
      some (UInt8.ofNat (16 * h + l) :: bs)

/-- An ASCII hex digit of either case. -/
def isHexDigit (c : Char) : Bool := (hexValue c).isSome

theorem hexValue_hexDigit {d : Nat} (h : d < 16) : hexValue (hexDigit d) = some d := by
  revert d; decide

@[simp] theorem hexEncode_length (bs : Bytes) : (hexEncode bs).length = 2 * bs.length := by
  induction bs with
  | nil => rfl
  | cons b bs ih =>
      show (hexDigit _ :: hexDigit _ :: hexEncode bs).length = _
      simp only [List.length_cons, ih]
      omega

theorem hexEncode_isHexDigit {bs : Bytes} {c : Char} (h : c ∈ hexEncode bs) :
    isHexDigit c = true := by
  obtain ⟨b, _, hc⟩ := List.mem_flatMap.mp h
  have hb := b.toNat_lt
  simp only [List.mem_cons, List.not_mem_nil, or_false] at hc
  unfold isHexDigit
  rcases hc with rfl | rfl <;> rw [hexValue_hexDigit (by omega)] <;> rfl

/-- Bytes survive the round trip through hex. -/
theorem hexDecode_hexEncode (bs : Bytes) : hexDecode (hexEncode bs) = some bs := by
  induction bs with
  | nil => rfl
  | cons b bs ih =>
      have hb := b.toNat_lt
      show hexDecode (hexDigit (b.toNat / 16) :: hexDigit (b.toNat % 16) :: hexEncode bs) = _
      rw [hexDecode, hexValue_hexDigit (by omega), hexValue_hexDigit (by omega), ih]
      have : UInt8.ofNat (16 * (b.toNat / 16) + b.toNat % 16) = b := by
        rw [Nat.div_add_mod]; exact UInt8.ofNat_toNat
      simp only [Option.bind_eq_bind, Option.bind_some, this]

theorem hexEncode_injective {a b : Bytes} (h : hexEncode a = hexEncode b) : a = b := by
  have := congrArg hexDecode h
  rw [hexDecode_hexEncode, hexDecode_hexEncode] at this
  exact Option.some.inj this

/-! ## Tests on strings -/

/-- What follows a leading part, when the text starts with it. -/
def stripPrefix? (p s : String) : Option String :=
  if p.toList.isPrefixOf s.toList then some (String.ofList (s.toList.drop p.toList.length)) else none

/-- What stands before a trailing part, when the text ends with it. -/
def stripSuffix? (p s : String) : Option String :=
  if p.toList.isSuffixOf s.toList then
    some (String.ofList (s.toList.take (s.toList.length - p.toList.length)))
  else none

theorem stripPrefix?_append (p : String) (cs : List Char) :
    stripPrefix? p (String.ofList (p.toList ++ cs)) = some (String.ofList cs) := by
  unfold stripPrefix?
  rw [String.toList_ofList, if_pos (by simp)]
  simp

theorem stripPrefix?_eq_some {p s rest : String} (h : stripPrefix? p s = some rest) :
    s.toList = p.toList ++ rest.toList := by
  unfold stripPrefix? at h
  by_cases hstart : p.toList.isPrefixOf s.toList = true
  · rw [if_pos hstart] at h
    cases h
    obtain ⟨cs, hcs⟩ := List.isPrefixOf_iff_prefix.mp hstart
    rw [String.toList_ofList, ← hcs, List.drop_left]
  · rw [if_neg hstart] at h
    cases h

theorem stripSuffix?_append (p : String) (cs : List Char) :
    stripSuffix? p (String.ofList (cs ++ p.toList)) = some (String.ofList cs) := by
  unfold stripSuffix?
  rw [String.toList_ofList, if_pos (by simp)]
  simp

/-- The code points with the `White_Space` property. -/
def isWhiteSpace (c : Char) : Bool :=
  let n := c.toNat
  (9 ≤ n && n ≤ 13) || n == 32 || n == 133 || n == 160 || n == 5760 || (8192 ≤ n && n ≤ 8202)
    || n == 8232 || n == 8233 || n == 8239 || n == 8287 || n == 12288

/-- Nothing is left of the text once white space is trimmed off both ends. -/
def isBlank (s : String) : Bool := s.toList.all isWhiteSpace

/-- The code points of the control category. -/
def isControl (c : Char) : Bool := c.toNat < 32 || (127 ≤ c.toNat && c.toNat ≤ 159)

end Lib
