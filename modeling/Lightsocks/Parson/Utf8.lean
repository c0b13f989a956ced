import Lightsocks.Ctype
import Lightsocks.Lib.Bits
import Lightsocks.Lib.Utf8

/-
  `lib/parson.c`: characters beyond ASCII.

  `verify_utf8_sequence` looks at the bytes up to the first that does not fit, so that it never
  looks past the terminating NUL. What `is_valid_utf8` accepts is UTF-8, no more and no less
  (`isValidUtf8_iff`). `parse_utf16` reads one or two escapes `\uXXXX` and writes the character
  in UTF-8 (`parseUtf16_eq_some_iff`).
-/

namespace Lightsocks

open Lib

/-! ## Checking UTF-8 -/

/-- `IS_CONT`. -/
def isCont (b : UInt8) : Bool := b &&& 0xC0 == 0x80

/-- `num_bytes_in_utf8_sequence`. -/
def numBytesInUtf8Sequence (c : UInt8) : Nat :=
  if c = 0xC0 ∨ c = 0xC1 ∨ c > 0xF4 ∨ isCont c then 0
  else if c &&& 0x80 = 0 then 1
  else if c &&& 0xE0 = 0xC0 then 2
  else if c &&& 0xF0 = 0xE0 then 3
  else if c &&& 0xF8 = 0xF0 then 4
  else 0

/-- `(cp << 6) | (b & 0x3F)`. -/
def nextBits (cp : Nat) (b : UInt8) : Nat := cp <<< 6 ||| (b &&& 0x3F).toNat

/-- `cp` of `verify_utf8_sequence`, when the bytes that belong to it are there. -/
def codePoint (string : List UInt8) (len : Nat) : Option Nat :=
  let s := charAt string
  if len = 1 then some (s 0).toNat
  else if len = 2 ∧ isCont (s 1) then some (nextBits (s 0 &&& 0x1F).toNat (s 1))
  else if len = 3 ∧ isCont (s 1) ∧ isCont (s 2) then
    some (nextBits (nextBits (s 0 &&& 0xF).toNat (s 1)) (s 2))
  else if len = 4 ∧ isCont (s 1) ∧ isCont (s 2) ∧ isCont (s 3) then
    some (nextBits (nextBits (nextBits (s 0 &&& 0x7).toNat (s 1)) (s 2)) (s 3))
  else none

/-- `verify_utf8_sequence`: the result, and `*len`. -/
def verifyUtf8Sequence (string : List UInt8) : Bool × Nat :=
  let len := numBytesInUtf8Sequence (charAt string 0)
  match codePoint string len with
  | none => (false, len)
  | some cp =>
      if cp < 0x80 ∧ len > 1 ∨ cp < 0x800 ∧ len > 2 ∨ cp < 0x10000 ∧ len > 3 then (false, len)
      else if cp > 0x10FFFF then (false, len)
      else if cp ≥ 0xD800 ∧ cp ≤ 0xDFFF then (false, len)
      else (true, len)

theorem isCont_iff (b : UInt8) : isCont b = true ↔ b.toNat / 64 = 2 :=
  forall_uint8 (P := fun b => isCont b = true ↔ b.toNat / 64 = 2) (by decide +kernel) b

/-- The length by the first byte. -/
theorem numBytesInUtf8Sequence_eq (c : UInt8) : numBytesInUtf8Sequence c =
    if c.toNat < 0x80 then 1 else if c.toNat < 0xC2 then 0 else if c.toNat < 0xE0 then 2
    else if c.toNat < 0xF0 then 3 else if c.toNat < 0xF5 then 4 else 0 :=
  forall_uint8 (P := fun c => numBytesInUtf8Sequence c =
    if c.toNat < 0x80 then 1 else if c.toNat < 0xC2 then 0 else if c.toNat < 0xE0 then 2
    else if c.toNat < 0xF0 then 3 else if c.toNat < 0xF5 then 4 else 0) (by decide +kernel) c

theorem nextBits_eq (cp : Nat) (b : UInt8) : nextBits cp b = cp * 64 + b.toNat % 64 := by
  have hlow : (b &&& 0x3F).toNat = b.toNat % 64 := by
    rw [UInt8.toNat_and]
    exact Nat.and_two_pow_sub_one_eq_mod b.toNat 6
  have hlt : b.toNat % 64 < 2 ^ 6 := Nat.mod_lt _ (by decide)
  rw [nextBits, hlow, ← Nat.shiftLeft_add_eq_or_of_lt hlt, Nat.shiftLeft_eq]

theorem and_mask (b : UInt8) : (b &&& 0x1F).toNat = b.toNat % 32 ∧
    (b &&& 0xF).toNat = b.toNat % 16 ∧ (b &&& 0x7).toNat = b.toNat % 8 := by
  rw [UInt8.toNat_and, UInt8.toNat_and, UInt8.toNat_and]
  exact ⟨Nat.and_two_pow_sub_one_eq_mod b.toNat 5, Nat.and_two_pow_sub_one_eq_mod b.toNat 4,
    Nat.and_two_pow_sub_one_eq_mod b.toNat 3⟩

/-- A continuation byte is a byte of the string, not what follows it. -/
theorem lt_length_of_isCont {string : List UInt8} {k : Nat}
    (h : isCont (charAt string k) = true) : k < string.length := by
  by_contra hk
  rw [charAt, List.getD_eq_getElem?_getD, List.getElem?_eq_none (Nat.le_of_not_lt hk)] at h
  exact absurd h (by decide)

/-- What the four branches compute, with the bytes they found. -/
theorem codePoint_eq_some {b : UInt8} {s : List UInt8} {len cp : Nat}
    (h : codePoint (b :: s) len = some cp) :
    len = 1 ∧ cp = b.toNat ∨
    (∃ b₁ r, s = b₁ :: r ∧ len = 2 ∧ isCont b₁ = true ∧
      cp = b.toNat % 32 * 64 + b₁.toNat % 64) ∨
    (∃ b₁ b₂ r, s = b₁ :: b₂ :: r ∧ len = 3 ∧ isCont b₁ = true ∧ isCont b₂ = true ∧
      cp = (b.toNat % 16 * 64 + b₁.toNat % 64) * 64 + b₂.toNat % 64) ∨
    ∃ b₁ b₂ b₃ r, s = b₁ :: b₂ :: b₃ :: r ∧ len = 4 ∧ isCont b₁ = true ∧ isCont b₂ = true ∧
      isCont b₃ = true ∧
      cp = ((b.toNat % 8 * 64 + b₁.toNat % 64) * 64 + b₂.toNat % 64) * 64 + b₃.toNat % 64 := by
  obtain ⟨h₅, h₄, h₃⟩ := and_mask b
  simp only [codePoint, nextBits_eq, charAt] at h
  split at h
  · exact Or.inl ⟨‹_›, (Option.some.inj h).symm⟩
  split at h
  · rename_i hc
    have hlen := lt_length_of_isCont hc.2
    match s, hlen with
    | b₁ :: r, _ =>
        rw [← h₅]
        exact Or.inr (Or.inl ⟨b₁, r, rfl, hc.1, hc.2, (Option.some.inj h).symm⟩)
  split at h
  · rename_i hc
    have hlen := lt_length_of_isCont hc.2.2
    match s, hlen with
    | b₁ :: b₂ :: r, _ =>
        rw [← h₄]
        exact Or.inr (Or.inr (Or.inl
          ⟨b₁, b₂, r, rfl, hc.1, hc.2.1, hc.2.2, (Option.some.inj h).symm⟩))
  split at h
  · rename_i hc
    have hlen := lt_length_of_isCont hc.2.2.2
    match s, hlen with
    | b₁ :: b₂ :: b₃ :: r, _ =>
        rw [← h₃]
        exact Or.inr (Or.inr (Or.inr
          ⟨b₁, b₂, b₃, r, rfl, hc.1, hc.2.1, hc.2.2.1, hc.2.2.2, (Option.some.inj h).symm⟩))
  · cases h

/-- The three tests on the code point. -/
theorem verifyUtf8Sequence_eq_true {string : List UInt8} {n : Nat} :
    verifyUtf8Sequence string = (true, n) ↔
      numBytesInUtf8Sequence (charAt string 0) = n ∧ ∃ cp, codePoint string n = some cp ∧
        (cp < 0xD800 ∨ 0xDFFF < cp ∧ cp < 0x110000) ∧
        (1 < n → 0x80 ≤ cp) ∧ (2 < n → 0x800 ≤ cp) ∧ (3 < n → 0x10000 ≤ cp) := by
  unfold verifyUtf8Sequence
  dsimp only
  constructor
  · intro h
    cases hcp : codePoint string (numBytesInUtf8Sequence (charAt string 0)) with
    | none =>
        rw [hcp] at h
        exact absurd (Prod.mk.inj h).1 Bool.false_ne_true
    | some cp =>
        rw [hcp] at h
        dsimp only at h
        split_ifs at h with h₁ h₂ h₃
        · exact absurd (Prod.mk.inj h).1 Bool.false_ne_true
        · exact absurd (Prod.mk.inj h).1 Bool.false_ne_true
        · exact absurd (Prod.mk.inj h).1 Bool.false_ne_true
        · have hn := (Prod.mk.inj h).2
          rw [hn] at h₁ hcp
          exact ⟨hn, cp, hcp, by omega, by omega, by omega, by omega⟩
  · intro h
    obtain ⟨hn, cp, hcp, hvalid, h₁, h₂, h₃⟩ := h
    rw [hn, hcp]
    dsimp only
    rw [if_neg (by omega), if_neg (by omega), if_neg (by omega)]

theorem codePoint_two {b b₁ : UInt8} (h₁ : isCont b₁ = true) (s : List UInt8) :
    codePoint (b :: b₁ :: s) 2 = some (b.toNat % 32 * 64 + b₁.toNat % 64) := by
  rw [← (and_mask b).1, ← nextBits_eq]
  simp [codePoint, charAt, h₁]

theorem codePoint_three {b b₁ b₂ : UInt8} (h₁ : isCont b₁ = true) (h₂ : isCont b₂ = true)
    (s : List UInt8) : codePoint (b :: b₁ :: b₂ :: s) 3 =
      some ((b.toNat % 16 * 64 + b₁.toNat % 64) * 64 + b₂.toNat % 64) := by
  rw [← (and_mask b).2.1, ← nextBits_eq, ← nextBits_eq]
  simp [codePoint, charAt, h₁, h₂]

theorem codePoint_four {b b₁ b₂ b₃ : UInt8} (h₁ : isCont b₁ = true) (h₂ : isCont b₂ = true)
    (h₃ : isCont b₃ = true) (s : List UInt8) : codePoint (b :: b₁ :: b₂ :: b₃ :: s) 4 =
      some (((b.toNat % 8 * 64 + b₁.toNat % 64) * 64 + b₂.toNat % 64) * 64 +
        b₃.toNat % 64) := by
  rw [← (and_mask b).2.2, ← nextBits_eq, ← nextBits_eq, ← nextBits_eq]
  simp [codePoint, charAt, h₁, h₂, h₃]

theorem toNat_ofNat_byte {n : Nat} (h : n < 256) : (UInt8.ofNat n).toNat = n :=
  UInt8.toNat_ofNat_of_lt' h

/-- The last six bits of a number, as a continuation byte. -/
theorem cont_byte (n : Nat) : isCont (UInt8.ofNat (n % 64 + 0x80)) = true ∧
    (UInt8.ofNat (n % 64 + 0x80)).toNat % 64 = n % 64 := by
  have hbyte : (UInt8.ofNat (n % 64 + 0x80)).toNat = n % 64 + 0x80 :=
    toNat_ofNat_byte (by omega)
  rw [isCont_iff, hbyte]
  omega

/-- A character passes. -/
theorem verifyUtf8Sequence_char (c : Char) (s : List UInt8) :
    verifyUtf8Sequence (String.utf8EncodeChar c ++ s) =
      (true, (String.utf8EncodeChar c).length) := by
  have hvalid := toNat_char_valid c
  rw [verifyUtf8Sequence_eq_true]
  rcases Nat.lt_or_ge c.toNat 0x80 with h | h
  · have hb : (UInt8.ofNat c.toNat).toNat = c.toNat := toNat_ofNat_byte (by omega)
    rw [utf8EncodeChar_ascii h]
    refine ⟨?_, c.toNat, congrArg some hb, hvalid, by simp, by simp, by simp⟩
    rw [numBytesInUtf8Sequence_eq]
    exact if_pos (by rw [← hb] at h; exact h)
  rcases Nat.lt_or_ge c.toNat 0x800 with h' | h'
  · have hb : (UInt8.ofNat (c.toNat / 64 % 32 + 0xC0)).toNat = c.toNat / 64 % 32 + 0xC0 :=
      toNat_ofNat_byte (by omega)
    rw [utf8EncodeChar_two h h']
    refine ⟨?_, c.toNat, ?_, hvalid, fun _ => h, by simp, by simp⟩
    · show numBytesInUtf8Sequence (UInt8.ofNat (c.toNat / 64 % 32 + 0xC0)) = 2
      rw [numBytesInUtf8Sequence_eq, hb, if_neg (by omega), if_neg (by omega), if_pos (by omega)]
    · refine (codePoint_two (cont_byte _).1 s).trans (congrArg some ?_)
      rw [hb, (cont_byte _).2]
      omega
  rcases Nat.lt_or_ge c.toNat 0x10000 with h'' | h''
  · have hb : (UInt8.ofNat (c.toNat / 4096 % 16 + 0xE0)).toNat = c.toNat / 4096 % 16 + 0xE0 :=
      toNat_ofNat_byte (by omega)
    rw [utf8EncodeChar_three h' h'']
    refine ⟨?_, c.toNat, ?_, hvalid, fun _ => h, fun _ => h', by simp⟩
    · show numBytesInUtf8Sequence (UInt8.ofNat (c.toNat / 4096 % 16 + 0xE0)) = 3
      rw [numBytesInUtf8Sequence_eq, hb, if_neg (by omega), if_neg (by omega), if_neg (by omega),
        if_pos (by omega)]
    · refine (codePoint_three (cont_byte _).1 (cont_byte _).1 s).trans (congrArg some ?_)
      rw [hb, (cont_byte _).2, (cont_byte _).2]
      omega
  · have hb : (UInt8.ofNat (c.toNat / 262144 % 8 + 0xF0)).toNat = c.toNat / 262144 % 8 + 0xF0 :=
      toNat_ofNat_byte (by omega)
    rw [utf8EncodeChar_four h'']
    refine ⟨?_, c.toNat, ?_, hvalid, fun _ => h, fun _ => h', fun _ => h''⟩
    · show numBytesInUtf8Sequence (UInt8.ofNat (c.toNat / 262144 % 8 + 0xF0)) = 4
      rw [numBytesInUtf8Sequence_eq, hb, if_neg (by omega), if_neg (by omega), if_neg (by omega),
        if_neg (by omega), if_pos (by omega)]
    · refine (codePoint_four (cont_byte _).1 (cont_byte _).1 (cont_byte _).1 s).trans
        (congrArg some ?_)
      rw [hb, (cont_byte _).2, (cont_byte _).2, (cont_byte _).2]
      omega

/-- What passes is a character. -/
theorem exists_char_of_verifyUtf8Sequence {b : UInt8} {s : List UInt8} {n : Nat}
    (h : verifyUtf8Sequence (b :: s) = (true, n)) :
    ∃ (c : Char) (r : List UInt8), b :: s = String.utf8EncodeChar c ++ r ∧
      n = (String.utf8EncodeChar c).length := by
  obtain ⟨hn, cp, hcp, hvalid, h₁, h₂, h₃⟩ := verifyUtf8Sequence_eq_true.mp h
  obtain ⟨c, rfl⟩ := exists_char hvalid
  have hfirst : numBytesInUtf8Sequence b = n := hn
  rw [numBytesInUtf8Sequence_eq] at hfirst
  have hb := b.toNat_lt
  -- a byte is known by its number
  have byte : ∀ {b : UInt8} {k : Nat}, b.toNat = k → b = UInt8.ofNat k := fun hk => by
    rw [← hk, UInt8.ofNat_toNat]
  have cont : ∀ {b : UInt8}, isCont b = true → b.toNat = b.toNat % 64 + 0x80 := fun hb => by
    rw [isCont_iff] at hb
    omega
  rcases codePoint_eq_some hcp with ⟨rfl, hc⟩ | ⟨b₁, r, rfl, rfl, hb₁, hc⟩ |
    ⟨b₁, b₂, r, rfl, rfl, hb₁, hb₂, hc⟩ | ⟨b₁, b₂, b₃, r, rfl, rfl, hb₁, hb₂, hb₃, hc⟩
  · have hlt : c.toNat < 0x80 := by
      rw [hc]
      split_ifs at hfirst <;> omega
    refine ⟨c, s, ?_, ?_⟩
    · rw [utf8EncodeChar_ascii hlt, ← byte hc.symm]
      rfl
    · rw [utf8EncodeChar_ascii hlt]
      rfl
  · have hrange : 0xC2 ≤ b.toNat ∧ b.toNat < 0xE0 := by split_ifs at hfirst <;> omega
    have hshape := utf8EncodeChar_two (c := c) (by omega) (by omega)
    refine ⟨c, r, ?_, ?_⟩
    · rw [hshape, ← byte (b := b) (by omega), ← byte (b := b₁) (by rw [cont hb₁]; omega)]
      rfl
    · rw [hshape]
      rfl
  · have hrange : 0xE0 ≤ b.toNat ∧ b.toNat < 0xF0 := by split_ifs at hfirst <;> omega
    have hshape := utf8EncodeChar_three (c := c) (by omega) (by omega)
    refine ⟨c, r, ?_, ?_⟩
    · rw [hshape, ← byte (b := b) (by omega), ← byte (b := b₁) (by rw [cont hb₁]; omega),
        ← byte (b := b₂) (by rw [cont hb₂]; omega)]
      rfl
    · rw [hshape]
      rfl
  · have hrange : 0xF0 ≤ b.toNat ∧ b.toNat < 0xF5 := by split_ifs at hfirst <;> omega
    have hshape := utf8EncodeChar_four (c := c) (by omega)
    refine ⟨c, r, ?_, ?_⟩
    · rw [hshape, ← byte (b := b) (by omega), ← byte (b := b₁) (by rw [cont hb₁]; omega),
        ← byte (b := b₂) (by rw [cont hb₂]; omega), ← byte (b := b₃) (by rw [cont hb₃]; omega)]
      rfl
    · rw [hshape]
      rfl

/-- `is_valid_utf8(string, strlen(string))`. What passes has at least one byte, so that the loop
    goes on `len - 1` bytes behind the first. -/
def isValidUtf8 : List UInt8 → Bool
  | [] => true
  | b :: s =>
      match verifyUtf8Sequence (b :: s) with
      | (true, len) => isValidUtf8 (s.drop (len - 1))
      | (false, _) => false
termination_by string => string.length
decreasing_by
  rw [List.length_drop, List.length_cons]
  omega

theorem isValidUtf8_char (c : Char) (s : List UInt8) :
    isValidUtf8 (String.utf8EncodeChar c ++ s) = isValidUtf8 s := by
  have hverify := verifyUtf8Sequence_char c s
  cases hc : String.utf8EncodeChar c with
  | nil => exact absurd hc (utf8EncodeChar_ne_nil c)
  | cons b r =>
      rw [hc] at hverify
      rw [List.cons_append, isValidUtf8, ← List.cons_append, hverify]
      show isValidUtf8 ((r ++ s).drop ((b :: r).length - 1)) = isValidUtf8 s
      rw [List.length_cons, Nat.add_sub_cancel, List.drop_left]

/-- What is accepted is UTF-8. -/
theorem isUtf8_of_isValidUtf8 {string : List UInt8} (h : isValidUtf8 string = true) :
    IsUtf8 string := by
  fun_induction isValidUtf8 string with
  | case1 => exact isUtf8_nil
  | case2 b s len hverify ih =>
      obtain ⟨c, r, hs, hlen⟩ := exists_char_of_verifyUtf8Sequence hverify
      have hdrop : s.drop (len - 1) = r := by
        have hcons : (b :: s).drop len = r := by rw [hs, hlen, List.drop_left]
        have hpos : len = len - 1 + 1 := by
          have hne := List.length_pos_iff.mpr (utf8EncodeChar_ne_nil c)
          omega
        rwa [hpos, List.drop_succ_cons] at hcons
      rw [hs]
      rw [hdrop] at ih h
      exact (isUtf8_char c).append (ih h)
  | case3 => cases h

/-- What is UTF-8 is accepted. -/
theorem isValidUtf8_of_isUtf8 {string : List UInt8} (h : IsUtf8 string) :
    isValidUtf8 string = true := by
  obtain ⟨cs, rfl⟩ := h
  induction cs with
  | nil => rw [List.flatMap_nil, isValidUtf8]
  | cons c cs ih =>
      rw [List.flatMap_cons, isValidUtf8_char]
      exact ih

/-- **The check of UTF-8.** What `is_valid_utf8` accepts is the UTF-8 encoding of some
    characters, and all of those are accepted. -/
theorem isValidUtf8_iff (string : List UInt8) : isValidUtf8 string = true ↔ IsUtf8 string :=
  ⟨isUtf8_of_isValidUtf8, isValidUtf8_of_isUtf8⟩

/-- A text may be cut behind its first character. -/
theorem isUtf8_of_char_append {c : Char} {s : List UInt8}
    (h : IsUtf8 (String.utf8EncodeChar c ++ s)) : IsUtf8 s := by
  have hvalid := isValidUtf8_of_isUtf8 h
  rw [isValidUtf8_char] at hvalid
  exact isUtf8_of_isValidUtf8 hvalid

/-! ## Unicode escapes -/

/-- `hex_char_to_int`, `none` for `-1`. -/
def hexCharToInt (c : UInt8) : Option Nat :=
  if ascii '0' ≤ c ∧ c ≤ ascii '9' then some (c.toNat - 48)
  else if ascii 'a' ≤ c ∧ c ≤ ascii 'f' then some (c.toNat - 97 + 10)
  else if ascii 'A' ≤ c ∧ c ≤ ascii 'F' then some (c.toNat - 65 + 10)
  else none

/-- `parse_utf16_hex`. -/
def parseUtf16Hex (s : List UInt8) : Option Nat :=
  if charAt s 0 = 0 ∨ charAt s 1 = 0 ∨ charAt s 2 = 0 ∨ charAt s 3 = 0 then none
  else
    match hexCharToInt (charAt s 0), hexCharToInt (charAt s 1), hexCharToInt (charAt s 2),
      hexCharToInt (charAt s 3) with
    | some x1, some x2, some x3, some x4 =>
        some (x1 <<< 12 ||| x2 <<< 8 ||| x3 <<< 4 ||| x4)
    | _, _, _, _ => none

/-- `(cp >> shift) & mask | lead`. -/
def utf8Byte (cp shift mask lead : Nat) : UInt8 := UInt8.ofNat ((cp >>> shift &&& mask) ||| lead)

/-- `parse_utf16`: the bytes that it writes, and what stands behind the escapes it reads. Its
    argument begins with the `u` of the first. -/
def parseUtf16 (unprocessed : List UInt8) : Option (List UInt8 × List UInt8) :=
  let s := unprocessed.drop 1
  match parseUtf16Hex s with
  | none => none
  | some cp =>
      if cp < 0x80 then some ([UInt8.ofNat cp], s.drop 4)
      else if cp < 0x800 then
        some ([utf8Byte cp 6 0x1F 0xC0, utf8Byte cp 0 0x3F 0x80], s.drop 4)
      else if cp < 0xD800 ∨ cp > 0xDFFF then
        some ([utf8Byte cp 12 0x0F 0xE0, utf8Byte cp 6 0x3F 0x80, utf8Byte cp 0 0x3F 0x80],
          s.drop 4)
      else if cp ≥ 0xD800 ∧ cp ≤ 0xDBFF then
        let lead := cp
        let s := s.drop 4
        if charAt s 0 ≠ ascii '\\' ∨ charAt s 1 ≠ ascii 'u' then none
        else
          let s := s.drop 2
          match parseUtf16Hex s with
          | none => none
          | some trail =>
              if trail < 0xDC00 ∨ trail > 0xDFFF then none
              else
                let cp := ((lead - 0xD800 &&& 0x3FF) <<< 10 ||| (trail - 0xDC00 &&& 0x3FF)) +
                  0x10000
                some ([utf8Byte cp 18 0x07 0xF0, utf8Byte cp 12 0x3F 0x80,
                  utf8Byte cp 6 0x3F 0x80, utf8Byte cp 0 0x3F 0x80], s.drop 4)
      else none

theorem mul_or_eq_add {a b i : Nat} (h : b < 2 ^ i) : a * 2 ^ i ||| b = a * 2 ^ i + b := by
  rw [Nat.mul_comm, ← Nat.two_pow_add_eq_or_of_lt h]

theorem utf8Byte_eq {cp shift mask w lead a : Nat} (hmask : mask = 2 ^ w - 1)
    (hlead : lead = a * 2 ^ w) :
    utf8Byte cp shift mask lead = UInt8.ofNat (cp / 2 ^ shift % 2 ^ w + lead) := by
  have hlt : cp / 2 ^ shift % 2 ^ w < 2 ^ w := Nat.mod_lt _ (Nat.two_pow_pos w)
  rw [utf8Byte, hmask, Nat.and_two_pow_sub_one_eq_mod, Nat.shiftRight_eq_div_pow, hlead,
    Nat.or_comm, mul_or_eq_add hlt, Nat.add_comm]

/-- Four hexadecimal digits, and the number they spell. -/
def SpellsUnit (h : List UInt8) (n : Nat) : Prop :=
  ∃ c₁ c₂ c₃ c₄ x₁ x₂ x₃ x₄, h = [c₁, c₂, c₃, c₄] ∧ hexCharToInt c₁ = some x₁ ∧
    hexCharToInt c₂ = some x₂ ∧ hexCharToInt c₃ = some x₃ ∧ hexCharToInt c₄ = some x₄ ∧
    n = ((x₁ * 16 + x₂) * 16 + x₃) * 16 + x₄

theorem hexCharToInt_lt {c : UInt8} {x : Nat} (h : hexCharToInt c = some x) : x < 16 := by
  have hall : ∀ c : UInt8, ∀ x ∈ hexCharToInt c, x < 16 :=
    forall_uint8 (by decide +kernel)
  exact hall c x h

theorem hexCharToInt_zero : hexCharToInt 0 = none := by decide

theorem hexCharToInt_ne_zero {c : UInt8} {x : Nat} (h : hexCharToInt c = some x) : c ≠ 0 := by
  rintro rfl
  rw [hexCharToInt_zero] at h
  cases h

theorem parseUtf16Hex_eq_some_iff {s : List UInt8} {n : Nat} :
    parseUtf16Hex s = some n ↔ ∃ h r, s = h ++ r ∧ SpellsUnit h n := by
  have digits : ∀ {x₁ x₂ x₃ x₄ : Nat}, x₂ < 16 → x₃ < 16 → x₄ < 16 →
      x₁ <<< 12 ||| x₂ <<< 8 ||| x₃ <<< 4 ||| x₄ = ((x₁ * 16 + x₂) * 16 + x₃) * 16 + x₄ := by
    intro x₁ x₂ x₃ x₄ h₂ h₃ h₄
    have e₁ : x₁ <<< 12 ||| x₂ <<< 8 = (x₁ * 16 + x₂) * 2 ^ 8 := by
      rw [Nat.shiftLeft_eq, Nat.shiftLeft_eq, mul_or_eq_add (by omega)]
      omega
    have e₂ : (x₁ * 16 + x₂) * 2 ^ 8 ||| x₃ <<< 4 = ((x₁ * 16 + x₂) * 16 + x₃) * 2 ^ 4 := by
      rw [Nat.shiftLeft_eq, mul_or_eq_add (by omega)]
      omega
    rw [e₁, e₂, mul_or_eq_add h₄]
    rfl
  constructor
  · intro h
    unfold parseUtf16Hex at h
    split at h
    · cases h
    split at h
    · rename_i hnul x₁ x₂ x₃ x₄ h₁ h₂ h₃ h₄
      -- the fourth character is not NUL, so that there are four
      have hlen : 3 < s.length := by
        by_contra hlt
        rw [charAt, List.getD_eq_getElem?_getD, List.getElem?_eq_none (Nat.le_of_not_lt hlt),
          Option.getD_none, hexCharToInt_zero] at h₄
        cases h₄
      match s, hlen with
      | c₁ :: c₂ :: c₃ :: c₄ :: r, _ =>
          refine ⟨[c₁, c₂, c₃, c₄], r, rfl, c₁, c₂, c₃, c₄, x₁, x₂, x₃, x₄, rfl, h₁, h₂, h₃, h₄,
            ?_⟩
          rw [← Option.some.inj h]
          exact digits (hexCharToInt_lt h₂) (hexCharToInt_lt h₃) (hexCharToInt_lt h₄)
    · cases h
  · intro h
    obtain ⟨_, r, rfl, c₁, c₂, c₃, c₄, x₁, x₂, x₃, x₄, rfl, h₁, h₂, h₃, h₄, rfl⟩ := h
    have hnul : ¬ (c₁ = 0 ∨ c₂ = 0 ∨ c₃ = 0 ∨ c₄ = 0) := by
      rintro (h | h | h | h)
      · exact hexCharToInt_ne_zero h₁ h
      · exact hexCharToInt_ne_zero h₂ h
      · exact hexCharToInt_ne_zero h₃ h
      · exact hexCharToInt_ne_zero h₄ h
    rw [← digits (hexCharToInt_lt h₂) (hexCharToInt_lt h₃) (hexCharToInt_lt h₄)]
    unfold parseUtf16Hex
    simp only [List.cons_append, charAt, List.getD_cons_zero, List.getD_cons_succ, h₁, h₂, h₃, h₄]
    exact if_neg hnul

/-- A sequence of escapes `\uXXXX`, and the code units they spell. -/
inductive Spells : List Nat → List UInt8 → Prop
  | nil : Spells [] []
  | cons {n : Nat} {ns : List Nat} {h t : List UInt8} (hn : SpellsUnit h n)
      (hns : Spells ns t) : Spells (n :: ns) (ascii '\\' :: ascii 'u' :: h ++ t)

theorem spells_singleton {n : Nat} {t : List UInt8} :
    Spells [n] t ↔ ∃ h, SpellsUnit h n ∧ t = ascii '\\' :: ascii 'u' :: h := by
  constructor
  · intro ht
    cases ht with
    | cons hn hns =>
        cases hns
        exact ⟨_, hn, List.append_nil _⟩
  · rintro ⟨h, hn, rfl⟩
    have ht := Spells.cons hn .nil
    rwa [List.append_nil] at ht

theorem spells_pair {n m : Nat} {t : List UInt8} :
    Spells [n, m] t ↔ ∃ h l, SpellsUnit h n ∧ SpellsUnit l m ∧
      t = ascii '\\' :: ascii 'u' :: h ++ ascii '\\' :: ascii 'u' :: l := by
  constructor
  · intro ht
    cases ht with
    | cons hn hns =>
        obtain ⟨l, hm, rfl⟩ := spells_singleton.mp hns
        exact ⟨_, l, hn, hm, rfl⟩
  · rintro ⟨h, l, hn, hm, rfl⟩
    exact .cons hn (spells_singleton.mpr ⟨l, hm, rfl⟩)

theorem SpellsUnit.length {h : List UInt8} {n : Nat} (hn : SpellsUnit h n) : h.length = 4 := by
  obtain ⟨_, _, _, _, _, _, _, _, rfl, -⟩ := hn
  rfl

theorem drop_of_spells {h r : List UInt8} {n : Nat} (hn : SpellsUnit h n) :
    (h ++ r).drop 4 = r := by
  rw [← hn.length, List.drop_left]

theorem charAt_zero_cons (b : UInt8) (s : List UInt8) : charAt (b :: s) 0 = b := rfl

theorem charAt_one_cons (b c : UInt8) (s : List UInt8) : charAt (b :: c :: s) 1 = c := rfl

/-- Two characters that are not NUL are characters of the string. -/
theorem eq_cons_cons {s : List UInt8} {a b : UInt8} (h₀ : charAt s 0 = a) (h₁ : charAt s 1 = b)
    (ha : a ≠ 0) (hb : b ≠ 0) : s = a :: b :: s.drop 2 := by
  cases s with
  | nil => exact absurd h₀.symm ha
  | cons c s =>
      cases s with
      | nil => exact absurd h₁.symm hb
      | cons d s =>
          rw [← h₀, ← h₁]
          rfl

/-! ### The bytes that are written -/

theorem utf8Byte_cont (cp shift : Nat) :
    utf8Byte cp shift 0x3F 0x80 = UInt8.ofNat (cp / 2 ^ shift % 64 + 0x80) :=
  utf8Byte_eq (w := 6) (a := 2) rfl rfl

theorem utf8Bytes_two {c : Char} (h : 0x80 ≤ c.toNat) (h' : c.toNat < 0x800) :
    [utf8Byte c.toNat 6 0x1F 0xC0, utf8Byte c.toNat 0 0x3F 0x80] = String.utf8EncodeChar c := by
  have hlead : utf8Byte c.toNat 6 0x1F 0xC0 = UInt8.ofNat (c.toNat / 64 % 32 + 0xC0) :=
    utf8Byte_eq (w := 5) (a := 6) rfl rfl
  rw [utf8EncodeChar_two h h', hlead, utf8Byte_cont, Nat.pow_zero, Nat.div_one]

theorem utf8Bytes_three {c : Char} (h : 0x800 ≤ c.toNat) (h' : c.toNat < 0x10000) :
    [utf8Byte c.toNat 12 0x0F 0xE0, utf8Byte c.toNat 6 0x3F 0x80, utf8Byte c.toNat 0 0x3F 0x80] =
      String.utf8EncodeChar c := by
  have hlead : utf8Byte c.toNat 12 0x0F 0xE0 = UInt8.ofNat (c.toNat / 4096 % 16 + 0xE0) :=
    utf8Byte_eq (w := 4) (a := 14) rfl rfl
  rw [utf8EncodeChar_three h h', hlead, utf8Byte_cont, utf8Byte_cont, Nat.pow_zero, Nat.div_one]
  rfl

theorem utf8Bytes_four {c : Char} (h : 0x10000 ≤ c.toNat) :
    [utf8Byte c.toNat 18 0x07 0xF0, utf8Byte c.toNat 12 0x3F 0x80, utf8Byte c.toNat 6 0x3F 0x80,
      utf8Byte c.toNat 0 0x3F 0x80] = String.utf8EncodeChar c := by
  have hlead : utf8Byte c.toNat 18 0x07 0xF0 = UInt8.ofNat (c.toNat / 262144 % 8 + 0xF0) :=
    utf8Byte_eq (w := 3) (a := 30) rfl rfl
  rw [utf8EncodeChar_four h, hlead, utf8Byte_cont, utf8Byte_cont, utf8Byte_cont, Nat.pow_zero,
    Nat.div_one]
  rfl

/-- The code point of a surrogate pair. -/
theorem pair_eq {lead trail : Nat} (hlead : 0xD800 ≤ lead ∧ lead ≤ 0xDBFF)
    (htrail : 0xDC00 ≤ trail ∧ trail ≤ 0xDFFF) :
    ((lead - 0xD800 &&& 0x3FF) <<< 10 ||| (trail - 0xDC00 &&& 0x3FF)) + 0x10000 =
      (lead - 0xD800) * 1024 + (trail - 0xDC00) + 0x10000 := by
  have hl : lead - 0xD800 &&& 0x3FF = lead - 0xD800 := by
    rw [show (0x3FF : Nat) = 2 ^ 10 - 1 from rfl, Nat.and_two_pow_sub_one_eq_mod]
    omega
  have ht : trail - 0xDC00 &&& 0x3FF = trail - 0xDC00 := by
    rw [show (0x3FF : Nat) = 2 ^ 10 - 1 from rfl, Nat.and_two_pow_sub_one_eq_mod]
    omega
  rw [hl, ht, Nat.shiftLeft_eq, mul_or_eq_add (by omega)]
  rfl

/-! ### The escapes that are read -/

/-- An escape that is no surrogate. -/
theorem parseUtf16_unit {c : Char} (hc : c.toNat < 0x10000) {h : List UInt8}
    (hn : SpellsUnit h c.toNat) (r : List UInt8) :
    parseUtf16 (ascii 'u' :: (h ++ r)) = some (String.utf8EncodeChar c, r) := by
  have hvalid := toNat_char_valid c
  have hhex : parseUtf16Hex (h ++ r) = some c.toNat :=
    parseUtf16Hex_eq_some_iff.mpr ⟨h, r, rfl, hn⟩
  unfold parseUtf16
  dsimp only
  rw [List.drop_succ_cons, List.drop_zero, hhex, drop_of_spells hn]
  dsimp only
  rcases Nat.lt_or_ge c.toNat 0x80 with h₁ | h₁
  · rw [if_pos h₁, utf8EncodeChar_ascii h₁]
  rw [if_neg (by omega)]
  rcases Nat.lt_or_ge c.toNat 0x800 with h₂ | h₂
  · rw [if_pos h₂, utf8Bytes_two h₁ h₂]
  · rw [if_neg (by omega), if_pos (by omega), utf8Bytes_three h₂ hc]

/-- A surrogate pair. -/
theorem parseUtf16_pair {c : Char} {lead trail : Nat} {h l : List UInt8}
    (hlead : 0xD800 ≤ lead ∧ lead ≤ 0xDBFF) (htrail : 0xDC00 ≤ trail ∧ trail ≤ 0xDFFF)
    (hc : c.toNat = (lead - 0xD800) * 1024 + (trail - 0xDC00) + 0x10000)
    (hh : SpellsUnit h lead) (hl : SpellsUnit l trail) (r : List UInt8) :
    parseUtf16 (ascii 'u' :: (h ++ ascii '\\' :: ascii 'u' :: (l ++ r))) =
      some (String.utf8EncodeChar c, r) := by
  have hhex : parseUtf16Hex (h ++ ascii '\\' :: ascii 'u' :: (l ++ r)) = some lead :=
    parseUtf16Hex_eq_some_iff.mpr ⟨h, _, rfl, hh⟩
  have hhex' : parseUtf16Hex (l ++ r) = some trail :=
    parseUtf16Hex_eq_some_iff.mpr ⟨l, r, rfl, hl⟩
  unfold parseUtf16
  dsimp only
  rw [List.drop_succ_cons, List.drop_zero, hhex, drop_of_spells hh]
  dsimp only
  rw [if_neg (by omega), if_neg (by omega), if_neg (by omega), if_pos (by omega),
    charAt_zero_cons, charAt_one_cons, if_neg (by decide)]
  rw [List.drop_succ_cons, List.drop_succ_cons, List.drop_zero, hhex', drop_of_spells hl]
  dsimp only
  rw [if_neg (by omega), pair_eq hlead htrail, ← hc, utf8Bytes_four (by omega)]

/-- **Unicode escapes.** `parse_utf16` succeeds exactly on the escapes that spell a character in
    UTF-16, with digits of either case, and writes that character in UTF-8. -/
theorem parseUtf16_eq_some_iff (s out r : List UInt8) :
    parseUtf16 (ascii 'u' :: s) = some (out, r) ↔ ∃ (c : Char) (t : List UInt8),
      Spells (utf16 c) t ∧ ascii '\\' :: ascii 'u' :: s = t ++ r ∧
        out = String.utf8EncodeChar c := by
  constructor
  · intro hparse
    have h := hparse
    unfold parseUtf16 at h
    dsimp only at h
    rw [List.drop_succ_cons, List.drop_zero] at h
    split at h
    · cases h
    rename_i cp hhex
    obtain ⟨d, r₁, rfl, hd⟩ := parseUtf16Hex_eq_some_iff.mp hhex
    rw [drop_of_spells hd] at h
    by_cases hsurrogate : cp < 0xD800 ∨ cp > 0xDFFF
    · -- one code unit
      have hcp : cp < 0x10000 := by
        obtain ⟨_, _, _, _, x₁, x₂, x₃, x₄, _, h₁, h₂, h₃, h₄, rfl⟩ := hd
        have := hexCharToInt_lt h₁
        have := hexCharToInt_lt h₂
        have := hexCharToInt_lt h₃
        have := hexCharToInt_lt h₄
        omega
      obtain ⟨c, rfl⟩ := exists_char (n := cp) (by omega)
      have hunit := parseUtf16_unit hcp hd r₁
      rw [hparse] at hunit
      obtain ⟨rfl, rfl⟩ := Prod.mk.inj (Option.some.inj hunit)
      refine ⟨c, ascii '\\' :: ascii 'u' :: d, ?_, rfl, rfl⟩
      rw [utf16, if_pos hcp, spells_singleton]
      exact ⟨d, hd, rfl⟩
    · rw [if_neg (by omega), if_neg (by omega), if_neg hsurrogate] at h
      split at h
      · rename_i hlead
        split at h
        · cases h
        rename_i hescape
        obtain ⟨h₀, h₁⟩ := not_or.mp hescape
        split at h
        · cases h
        rename_i trail hhex'
        obtain ⟨l, r₂, hr₂, hl⟩ := parseUtf16Hex_eq_some_iff.mp hhex'
        split at h
        · cases h
        rename_i htrail
        have hr₁ : r₁ = ascii '\\' :: ascii 'u' :: (l ++ r₂) := by
          rw [← hr₂]
          exact eq_cons_cons (not_not.mp h₀) (not_not.mp h₁) (by decide) (by decide)
        obtain ⟨c, hc, hc'⟩ := exists_utf16_pair
          (show 0xD800 ≤ cp ∧ cp ≤ 0xDBFF by omega) (show 0xDC00 ≤ trail ∧ trail ≤ 0xDFFF by omega)
        rw [hr₁] at hparse
        have hpair := parseUtf16_pair (by omega) (by omega) hc hd hl r₂
        rw [hparse] at hpair
        obtain ⟨rfl, rfl⟩ := Prod.mk.inj (Option.some.inj hpair)
        refine ⟨c, ascii '\\' :: ascii 'u' :: d ++ ascii '\\' :: ascii 'u' :: l, ?_, ?_, rfl⟩
        · rw [hc', spells_pair]
          exact ⟨d, l, hd, hl, rfl⟩
        · rw [hr₁]
          simp
      · cases h
  · rintro ⟨c, t, ht, hs, rfl⟩
    have hvalid := toNat_char_valid c
    unfold utf16 at ht
    split at ht
    · rename_i hc
      obtain ⟨d, hd, rfl⟩ := spells_singleton.mp ht
      have hs' : s = d ++ r := (List.cons.inj (List.cons.inj hs).2).2
      rw [hs']
      exact parseUtf16_unit hc hd r
    · rename_i hc
      obtain ⟨d, l, hd, hl, rfl⟩ := spells_pair.mp ht
      have hs' : s = d ++ ascii '\\' :: ascii 'u' :: (l ++ r) := by
        have htail := (List.cons.inj (List.cons.inj hs).2).2
        rw [htail]
        simp
      rw [hs']
      exact parseUtf16_pair (by omega) (by omega) (by omega) hd hl r

end Lightsocks
