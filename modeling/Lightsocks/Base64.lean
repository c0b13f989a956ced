import Lightsocks.Ctype
import Lightsocks.Lib.Bits
import Mathlib.Data.List.Nodup
import Mathlib.Data.List.TakeWhile

/-
  `lib/base64.c`: `b64_encode` and `b64_decode_ex`.

  Both are bit-packing loops over a group buffer `tmp` with a partial group at the end. The
  decoder stops at the first byte that is not in the base64 alphabet (or at the end of the
  string: the terminating NUL is such a byte), translates the group in place by searching
  `b64_table`, and writes a tail of `i` characters as `i - 1` bytes.

  `b64DecodeEx_eq` and `b64Encode_eq`: with every allocation granted, the decoder reads the
  6-bit values of the leading alphabet characters as bytes and drops leftover bits, and the
  encoder writes bytes as 6-bit values, the last one filled with zeros, and pads with `=`.

  The allocator is a parameter: `alloc k n` says whether the `k`-th call, asking for `n` bytes,
  succeeds. `b64_encode` does not check its allocations; it is modelled with all of them
  granted.
-/

namespace Lightsocks

open Lib

/-- The answers of the allocator: call number, requested size. -/
abbrev Alloc := Nat → Nat → Bool

/-- Every allocation succeeds, one of zero bytes included. -/
def Alloc.granted : Alloc := fun _ _ => true

/-- `b64_table`. -/
def b64Table : List UInt8 :=
  ['A', 'B', 'C', 'D', 'E', 'F', 'G', 'H', 'I', 'J', 'K', 'L', 'M',
   'N', 'O', 'P', 'Q', 'R', 'S', 'T', 'U', 'V', 'W', 'X', 'Y', 'Z',
   'a', 'b', 'c', 'd', 'e', 'f', 'g', 'h', 'i', 'j', 'k', 'l', 'm',
   'n', 'o', 'p', 'q', 'r', 's', 't', 'u', 'v', 'w', 'x', 'y', 'z',
   '0', '1', '2', '3', '4', '5', '6', '7', '8', '9', '+', '/'].map ascii

/-! ## Decoding -/

/-- `for (l = 0; l < 64; ++l) if (c == b64_table[l]) { c = l; break; }`: a byte that is not in
    the table stays as it is. -/
def b64Translate (c : UInt8) : UInt8 :=
  match b64Table.findIdx? (· == c) with
  | some l => UInt8.ofNat l
  | none => c

/-- Translate the four bytes of `tmp` in place, filling with `\0` behind the characters read,
    and pack them into `buf[0]`, `buf[1]`, `buf[2]`. -/
def b64Unpack (tmp : List UInt8) : List UInt8 :=
  let t := fun k => b64Translate (tmp.getD k 0)
  [(t 0 <<< 2) + ((t 1 &&& 0x30) >>> 4),
   ((t 1 &&& 0xf) <<< 4) + ((t 2 &&& 0x3c) >>> 2),
   ((t 2 &&& 0x3) <<< 6) + t 3]

/-- The locals of `b64_decode_ex`: the characters `tmp[0..i)` of the group being read, what is
    written to `dec` (`size` bytes), and the number of allocator calls made so far. -/
structure B64DecodeState where
  tmp : List UInt8
  dec : List UInt8
  calls : Nat

/-- The `while (len--)` loop of `b64_decode_ex` over the characters it is given; `none` when
    a `realloc` fails. -/
def b64DecodeLoop (alloc : Alloc) : List UInt8 → B64DecodeState → Option B64DecodeState
  | [], s => some s
  | c :: src, s =>
      if c = ascii '=' then some s
      else if ¬ (isalnum c ∨ c = ascii '+' ∨ c = ascii '/') then some s
      else
        let tmp := s.tmp ++ [c]
        if tmp.length = 4 then
          if alloc s.calls (s.dec.length + 3) then
            b64DecodeLoop alloc src ⟨[], s.dec ++ b64Unpack tmp, s.calls + 1⟩
          else none
        else b64DecodeLoop alloc src ⟨tmp, s.dec, s.calls⟩

/-- The part of `b64_decode_ex` after the loop: the tail group, then room for the final NUL. -/
def b64DecodeRest (alloc : Alloc) (s : B64DecodeState) : Option (List UInt8) :=
  let i := s.tmp.length
  if 0 < i then
    if alloc s.calls (s.dec.length + (i - 1)) then
      let dec := s.dec ++ (b64Unpack s.tmp).take (i - 1)
      if alloc (s.calls + 1) (dec.length + 1) then some dec else none
    else none
  else if alloc s.calls (s.dec.length + 1) then some s.dec else none

/-- `b64_decode_ex(src, len, &decsize)`: the decoded bytes, `*decsize` of them, or `none` for
    `NULL`, in which case `*decsize` is not written. -/
def b64DecodeEx (alloc : Alloc) (src : List UInt8) (len : Nat) : Option (List UInt8) :=
  if alloc 0 1 then
    (b64DecodeLoop alloc (src.take len) ⟨[], [], 1⟩).bind (b64DecodeRest alloc)
  else none

/-! ## Encoding -/

/-- `buf[0]`, …, `buf[3]` from the bytes of `tmp`, filled with `\0` behind those read. -/
def b64Pack (tmp : List UInt8) : List UInt8 :=
  let t := fun k => tmp.getD k 0
  [(t 0 &&& 0xfc) >>> 2,
   ((t 0 &&& 0x03) <<< 4) + ((t 1 &&& 0xf0) >>> 4),
   ((t 1 &&& 0x0f) <<< 2) + ((t 2 &&& 0xc0) >>> 6),
   t 2 &&& 0x3f]

/-- `b64_table[b]`. -/
def b64Char (b : UInt8) : UInt8 := b64Table.getD b.toNat 0

/-- The locals of `b64_encode`: the bytes `tmp[0..i)` of the group being read, and what is
    written to `enc`. -/
structure B64EncodeState where
  tmp : List UInt8
  enc : List UInt8

/-- The `while (len--)` loop of `b64_encode`. -/
def b64EncodeLoop : List UInt8 → B64EncodeState → B64EncodeState
  | [], s => s
  | b :: src, s =>
      let tmp := s.tmp ++ [b]
      if tmp.length = 3 then b64EncodeLoop src ⟨[], s.enc ++ (b64Pack tmp).map b64Char⟩
      else b64EncodeLoop src ⟨tmp, s.enc⟩

/-- The part of `b64_encode` after the loop: `i + 1` characters and `3 - i` times `=` for a
    tail of `i > 0` bytes. -/
def b64EncodeRest (s : B64EncodeState) : List UInt8 :=
  let i := s.tmp.length
  if 0 < i then
    s.enc ++ ((b64Pack s.tmp).take (i + 1)).map b64Char ++ List.replicate (3 - i) (ascii '=')
  else s.enc

/-- `b64_encode(src, len, &encsize)`: the text, `*encsize` characters of it. -/
def b64Encode (src : List UInt8) (len : Nat) : List UInt8 :=
  b64EncodeRest (b64EncodeLoop (src.take len) ⟨[], []⟩)

/-! ## The alphabet -/

/-- The bytes the decoder accepts. -/
def isBase64 (c : UInt8) : Bool := isalnum c || c == ascii '+' || c == ascii '/'

/-- The 6-bit value of an alphabet character: its index in `b64_table`. -/
def b64Value (c : UInt8) : Nat := b64Table.idxOf c

/-- The character codes of `b64_table`. -/
def b64Codes : List Nat := List.range' 65 26 ++ List.range' 97 26 ++ List.range' 48 10 ++ [43, 47]

theorem b64Table_eq : b64Table = b64Codes.map UInt8.ofNat := by decide

theorem mem_b64Table (c : UInt8) : c ∈ b64Table ↔ c.toNat ∈ b64Codes := by
  have hlt : ∀ n ∈ b64Codes, n < 256 := by decide
  rw [b64Table_eq]
  constructor
  · intro h
    obtain ⟨n, hn, rfl⟩ := List.mem_map.mp h
    rwa [UInt8.toNat_ofNat_of_lt' (hlt n hn)]
  · exact fun h => List.mem_map.mpr ⟨c.toNat, h, UInt8.ofNat_toNat⟩

theorem nodup_b64Table : b64Table.Nodup := by
  have hlt : ∀ n ∈ b64Codes, n < 256 := by decide
  rw [b64Table_eq]
  refine List.Nodup.map_on ?_ (by decide)
  intro m hm n hn h
  have h' := congrArg UInt8.toNat h
  rwa [UInt8.toNat_ofNat_of_lt' (hlt m hm), UInt8.toNat_ofNat_of_lt' (hlt n hn)] at h'

/-- The decoder's character test accepts exactly the characters of the table. -/
theorem isBase64_iff_mem (c : UInt8) : isBase64 c = true ↔ c ∈ b64Table := by
  rw [mem_b64Table]
  simp only [isBase64, isalnum, ascii, b64Codes, List.mem_append, List.mem_range'_1,
    List.mem_cons, List.not_mem_nil, or_false, Bool.or_eq_true, Bool.and_eq_true,
    decide_eq_true_eq, beq_iff_eq, UInt8.le_iff_toNat_le, ← UInt8.toNat_inj]
  have h0 : (UInt8.ofNat '0'.toNat).toNat = 48 := rfl
  have h9 : (UInt8.ofNat '9'.toNat).toNat = 57 := rfl
  have hA : (UInt8.ofNat 'A'.toNat).toNat = 65 := rfl
  have hZ : (UInt8.ofNat 'Z'.toNat).toNat = 90 := rfl
  have ha : (UInt8.ofNat 'a'.toNat).toNat = 97 := rfl
  have hz : (UInt8.ofNat 'z'.toNat).toNat = 122 := rfl
  have hplus : (UInt8.ofNat '+'.toNat).toNat = 43 := rfl
  have hslash : (UInt8.ofNat '/'.toNat).toNat = 47 := rfl
  omega

theorem b64Value_lt {c : UInt8} (h : isBase64 c = true) : b64Value c < 64 :=
  List.idxOf_lt_length_of_mem ((isBase64_iff_mem c).mp h)

theorem b64Translate_toNat {c : UInt8} (h : isBase64 c = true) :
    (b64Translate c).toNat = b64Value c := by
  have hlt := b64Value_lt h
  have hfind : b64Table.findIdx? (· == c) = some (b64Value c) :=
    List.findIdx?_eq_some_of_exists ⟨c, (isBase64_iff_mem c).mp h, beq_self_eq_true c⟩
  unfold b64Translate
  rw [hfind]
  exact UInt8.toNat_ofNat_of_lt' (show b64Value c < 256 by omega)

theorem isBase64_char {n : Nat} (h : n < 64) : isBase64 (b64Table.getD n 0) = true := by
  have hlt : n < b64Table.length := h
  rw [isBase64_iff_mem, List.getD_eq_getElem _ _ hlt]
  exact List.getElem_mem hlt

theorem b64Value_char {n : Nat} (h : n < 64) : b64Value (b64Table.getD n 0) = n := by
  have hlt : n < b64Table.length := h
  rw [List.getD_eq_getElem _ _ hlt]
  exact nodup_b64Table.idxOf_getElem n hlt

theorem isBase64_pad : isBase64 (ascii '=') = false := by decide

/-- The two tests at the head of the decoding loop stop it exactly at a foreign byte. -/
theorem b64DecodeLoop_cons (alloc : Alloc) (c : UInt8) (src : List UInt8) (s : B64DecodeState) :
    b64DecodeLoop alloc (c :: src) s =
      if isBase64 c = true then
        if (s.tmp ++ [c]).length = 4 then
          if alloc s.calls (s.dec.length + 3) then
            b64DecodeLoop alloc src ⟨[], s.dec ++ b64Unpack (s.tmp ++ [c]), s.calls + 1⟩
          else none
        else b64DecodeLoop alloc src ⟨s.tmp ++ [c], s.dec, s.calls⟩
      else some s := by
  rw [b64DecodeLoop]
  by_cases hpad : c = ascii '='
  · subst hpad
    rw [if_pos rfl, isBase64_pad]
    rfl
  · rw [if_neg hpad]
    have hiff : (isalnum c = true ∨ c = ascii '+' ∨ c = ascii '/') ↔ isBase64 c = true := by
      simp [isBase64, or_assoc]
    by_cases hc : isBase64 c = true
    · rw [if_neg (not_not.mpr (hiff.mpr hc)), if_pos hc]
    · rw [if_pos (fun h => hc (hiff.mp h)), if_neg hc]

/-! ## The decoder reads 6-bit digits as bytes -/

/-- Standard base64 decoding of alphabet characters: their 6-bit values read as bytes, leftover
    bits dropped. -/
def b64Bytes (cs : List UInt8) : List UInt8 := (regroup 6 8 (cs.map b64Value)).map UInt8.ofNat

/-- The masks and shifts of a group, as arithmetic on 6-bit values. -/
theorem unpack_masks (t : UInt8) (h : t.toNat < 64) :
    (t <<< 2).toNat = t.toNat * 4 ∧ ((t &&& 0x30) >>> 4).toNat = t.toNat / 16 ∧
    ((t &&& 0xf) <<< 4).toNat = t.toNat % 16 * 16 ∧ ((t &&& 0x3c) >>> 2).toNat = t.toNat / 4 ∧
    ((t &&& 0x3) <<< 6).toNat = t.toNat % 4 * 64 := by
  revert t
  exact forall_uint8 (by decide +kernel)

/-- The three bytes of a group of 6-bit values. -/
def unpackValues (a b c d : Nat) : List Nat :=
  [a * 2 ^ 2 + b / 16, b % 16 * 2 ^ 4 + c / 4, c % 4 * 2 ^ 6 + d]

theorem unpackValues_lt {a b c d : Nat} (ha : a < 64) (hb : b < 64) (hc : c < 64) (hd : d < 64) :
    ∀ e ∈ unpackValues a b c d, e < 2 ^ 8 := by
  intro e he
  simp only [unpackValues, List.mem_cons, List.not_mem_nil, or_false] at he
  omega

theorem bits_unpackValues {a b c d : Nat} (hb : b < 64) (hc : c < 64) (hd : d < 64) :
    (unpackValues a b c d).flatMap (bits 8) = [a, b, c, d].flatMap (bits 6) := by
  have h0 := bits_glue 6 2 a (b / 16) (by omega)
  have h1 := bits_glue 4 4 (b % 16) (c / 4) (by omega)
  have h2 := bits_glue 2 6 (c % 4) d (by omega)
  have hbs := bits_split 2 4 b
  have hcs := bits_split 4 2 c
  simp only [unpackValues, List.flatMap_cons, List.flatMap_nil, List.append_nil]
  rw [h0, h1, h2, hbs, hcs]
  simp

/-- The 6-bit values of `tmp` after translation, zero behind the characters read. -/
def groupValues (tmp : List UInt8) : List Nat :=
  (List.range 4).map fun k => (b64Translate (tmp.getD k 0)).toNat

theorem groupValues_eq {tmp : List UInt8} (hlen : tmp.length ≤ 4)
    (h : ∀ c ∈ tmp, isBase64 c = true) :
    groupValues tmp = tmp.map b64Value ++ List.replicate (4 - tmp.length) 0 := by
  have hmap : tmp.map b64Value = tmp.map fun c => (b64Translate c).toNat :=
    List.map_congr_left fun c hc => (b64Translate_toNat (h c hc)).symm
  have hz : (b64Translate 0).toNat = 0 := by decide
  rw [hmap]
  match tmp, hlen with
  | [], _ => simp [groupValues, List.range_succ, hz, List.replicate]
  | [_], _ => simp [groupValues, List.range_succ, hz, List.replicate]
  | [_, _], _ => simp [groupValues, List.range_succ, hz, List.replicate]
  | [_, _, _], _ => simp [groupValues, List.range_succ, hz]
  | [_, _, _, _], _ => simp [groupValues, List.range_succ]

theorem translate_getD_lt {tmp : List UInt8} (h : ∀ c ∈ tmp, isBase64 c = true) (k : Nat) :
    (b64Translate (tmp.getD k 0)).toNat < 64 := by
  by_cases hk : k < tmp.length
  · rw [List.getD_eq_getElem _ _ hk]
    have hc := h _ (List.getElem_mem hk)
    rw [b64Translate_toNat hc]
    exact b64Value_lt hc
  · rw [List.getD_eq_default _ _ (by omega)]
    decide

/-- `b64Unpack` regroups the four 6-bit values of its group into three bytes. -/
theorem b64Unpack_eq {tmp : List UInt8} (h : ∀ c ∈ tmp, isBase64 c = true) (rest : List Nat) :
    (regroup 6 8 (groupValues tmp ++ rest)).map UInt8.ofNat =
      b64Unpack tmp ++ (regroup 6 8 rest).map UInt8.ofNat := by
  have l0 := translate_getD_lt h 0
  have l1 := translate_getD_lt h 1
  have l2 := translate_getD_lt h 2
  have l3 := translate_getD_lt h 3
  obtain ⟨m0, -, -, -, -⟩ := unpack_masks _ l0
  obtain ⟨-, m1, n1, -, -⟩ := unpack_masks _ l1
  obtain ⟨-, -, -, m2, n2⟩ := unpack_masks _ l2
  have hbytes : (unpackValues (b64Translate (tmp.getD 0 0)).toNat
      (b64Translate (tmp.getD 1 0)).toNat (b64Translate (tmp.getD 2 0)).toNat
      (b64Translate (tmp.getD 3 0)).toNat).map UInt8.ofNat = b64Unpack tmp := by
    simp only [b64Unpack, unpackValues, List.map_cons, List.map_nil, List.cons.injEq, and_true]
    refine ⟨?_, ?_, ?_⟩
    · rw [← UInt8.toNat_inj, UInt8.toNat_add, m0, m1, UInt8.toNat_ofNat']
      rfl
    · rw [← UInt8.toNat_inj, UInt8.toNat_add, n1, m2, UInt8.toNat_ofNat']
      rfl
    · rw [← UInt8.toNat_inj, UInt8.toNat_add, n2, UInt8.toNat_ofNat']
      rfl
  have hgroup : groupValues tmp = [(b64Translate (tmp.getD 0 0)).toNat,
      (b64Translate (tmp.getD 1 0)).toNat, (b64Translate (tmp.getD 2 0)).toNat,
      (b64Translate (tmp.getD 3 0)).toNat] := rfl
  rw [hgroup, regroup_append (by decide) _ _ rest (bits_unpackValues l1 l2 l3).symm
    (unpackValues_lt l0 l1 l2 l3), List.map_append, hbytes]

/-- A full group decodes to its three bytes. -/
theorem b64Bytes_group (tmp cs : List UInt8) (hlen : tmp.length = 4)
    (h : ∀ c ∈ tmp, isBase64 c = true) :
    b64Bytes (tmp ++ cs) = b64Unpack tmp ++ b64Bytes cs := by
  have hv := groupValues_eq (Nat.le_of_eq hlen) h
  rw [hlen, Nat.sub_self, List.replicate_zero, List.append_nil] at hv
  unfold b64Bytes
  rw [List.map_append, ← hv, b64Unpack_eq h]

/-- A tail of `i < 4` characters decodes to the first `i - 1` bytes of its group. -/
theorem b64Bytes_tail (tmp : List UInt8) (hlen : tmp.length < 4)
    (h : ∀ c ∈ tmp, isBase64 c = true) :
    b64Bytes tmp = (b64Unpack tmp).take (tmp.length - 1) := by
  have hu := b64Unpack_eq h []
  rw [List.append_nil, groupValues_eq (Nat.le_of_lt hlen) h] at hu
  have hnil : (regroup 6 8 []).map UInt8.ofNat = [] := rfl
  rw [hnil, List.append_nil] at hu
  unfold b64Bytes
  rw [regroup_eq_take 6 8 _ (List.replicate (4 - tmp.length) 0), List.map_take, hu,
    List.length_map]
  congr 1
  omega

theorem b64DecodeRest_granted (tmp dec : List UInt8) (calls : Nat) (hlen : tmp.length < 4)
    (h : ∀ c ∈ tmp, isBase64 c = true) :
    b64DecodeRest Alloc.granted ⟨tmp, dec, calls⟩ = some (dec ++ b64Bytes tmp) := by
  rw [b64Bytes_tail tmp hlen h]
  by_cases hi : 0 < tmp.length
  · simp [b64DecodeRest, Alloc.granted, hi]
  · have hnil : tmp = [] := List.length_eq_zero_iff.mp (by omega)
    simp [b64DecodeRest, Alloc.granted, hnil]

theorem Alloc.granted_apply (k n : Nat) : Alloc.granted k n = true := rfl

/-- The loop and what follows it, from a group of `tmp.length` characters already read. -/
theorem b64DecodeLoop_granted (src tmp dec : List UInt8) (calls : Nat) (hlen : tmp.length < 4)
    (h : ∀ c ∈ tmp, isBase64 c = true) :
    (b64DecodeLoop Alloc.granted src ⟨tmp, dec, calls⟩).bind (b64DecodeRest Alloc.granted) =
      some (dec ++ b64Bytes (tmp ++ src.takeWhile isBase64)) := by
  induction src generalizing tmp dec calls with
  | nil =>
      rw [List.takeWhile_nil, List.append_nil]
      exact b64DecodeRest_granted tmp dec calls hlen h
  | cons c src ih =>
      rw [b64DecodeLoop_cons]
      by_cases hc : isBase64 c = true
      · have htmp : ∀ d ∈ tmp ++ [c], isBase64 d = true := by
          intro d hd
          rcases List.mem_append.mp hd with hd | hd
          · exact h d hd
          · rw [List.mem_singleton.mp hd, hc]
        rw [if_pos hc, List.takeWhile_cons_of_pos hc]
        by_cases h4 : (tmp ++ [c]).length = 4
        · rw [if_pos h4, if_pos (Alloc.granted_apply _ _), ih [] _ _ (by decide) (by simp),
            List.nil_append, List.append_cons tmp c (src.takeWhile isBase64),
            b64Bytes_group _ _ h4 htmp, List.append_assoc]
        · have hlt : (tmp ++ [c]).length < 4 := by
            rw [List.length_append, List.length_singleton] at h4 ⊢
            omega
          rw [if_neg h4, ih _ _ _ hlt htmp, List.append_cons tmp c (src.takeWhile isBase64)]
      · rw [if_neg hc, List.takeWhile_cons_of_neg hc, List.append_nil]
        exact b64DecodeRest_granted tmp dec calls hlen h

/-- With every allocation granted the decoder returns the standard decoding of the leading
    alphabet characters, whatever follows them. -/
theorem b64DecodeEx_eq (src : List UInt8) (len : Nat) :
    b64DecodeEx Alloc.granted src len = some (b64Bytes ((src.take len).takeWhile isBase64)) := by
  have h := b64DecodeLoop_granted (src.take len) [] [] 1 (by decide) (by simp)
  rw [List.nil_append, List.nil_append] at h
  unfold b64DecodeEx
  rw [if_pos (Alloc.granted_apply 0 1), h]

example : b64DecodeEx Alloc.granted ("Zm9vYmE=".toList.map ascii) 8 =
    some [102, 111, 111, 98, 97] := by decide

theorem length_b64Bytes (cs : List UInt8) : (b64Bytes cs).length = 6 * cs.length / 8 := by
  rw [b64Bytes, List.length_map, length_regroup, List.length_map]

/-! ## The encoder writes bytes as 6-bit digits -/

/-- Standard base64 encoding without the padding: bytes read as 6-bit values, the last one
    filled with zeros. -/
def b64Text (bs : List UInt8) : List UInt8 :=
  (regroupPad 8 6 (bs.map UInt8.toNat)).map fun v => b64Table.getD v 0

/-- The padding behind the text of `n` bytes. -/
def b64Padding (n : Nat) : List UInt8 := List.replicate ((3 - n % 3) % 3) (ascii '=')

theorem pack_masks (t : UInt8) :
    ((t &&& 0xfc) >>> 2).toNat = t.toNat / 4 ∧ ((t &&& 0x03) <<< 4).toNat = t.toNat % 4 * 16 ∧
    ((t &&& 0xf0) >>> 4).toNat = t.toNat / 16 ∧ ((t &&& 0x0f) <<< 2).toNat = t.toNat % 16 * 4 ∧
    ((t &&& 0xc0) >>> 6).toNat = t.toNat / 64 ∧ (t &&& 0x3f).toNat = t.toNat % 64 := by
  revert t
  exact forall_uint8 (by decide +kernel)

/-- The four 6-bit values of a group of three bytes. -/
def packValues (a b c : Nat) : List Nat :=
  [a / 2 ^ 2, a % 2 ^ 2 * 2 ^ 4 + b / 2 ^ 4, b % 2 ^ 4 * 2 ^ 2 + c / 2 ^ 6, c % 2 ^ 6]

theorem packValues_lt {a b c : Nat} (ha : a < 256) (hb : b < 256) (hc : c < 256) :
    ∀ e ∈ packValues a b c, e < 2 ^ 6 := by
  intro e he
  simp only [packValues, List.mem_cons, List.not_mem_nil, or_false] at he
  omega

theorem bits_packValues {a b c : Nat} (hb : b < 256) (hc : c < 256) :
    (packValues a b c).flatMap (bits 6) = [a, b, c].flatMap (bits 8) := by
  have h1 := bits_glue 2 4 (a % 2 ^ 2) (b / 2 ^ 4) (by omega)
  have h2 := bits_glue 4 2 (b % 2 ^ 4) (c / 2 ^ 6) (by omega)
  have ha := bits_split 6 2 a
  have hb := bits_split 4 4 b
  have hc := bits_split 2 6 c
  simp only [packValues, List.flatMap_cons, List.flatMap_nil, List.append_nil]
  rw [h1, h2, ha, hb, hc]
  simp

theorem map_b64Char_pack (tmp : List UInt8) :
    (b64Pack tmp).map b64Char =
      (packValues (tmp.getD 0 0).toNat (tmp.getD 1 0).toNat (tmp.getD 2 0).toNat).map
        fun v => b64Table.getD v 0 := by
  obtain ⟨p0, p1, -, -, -, -⟩ := pack_masks (tmp.getD 0 0)
  obtain ⟨-, -, q1, q2, -, -⟩ := pack_masks (tmp.getD 1 0)
  obtain ⟨-, -, -, -, r2, r3⟩ := pack_masks (tmp.getD 2 0)
  have l0 := (tmp.getD 0 0).toNat_lt
  have l1 := (tmp.getD 1 0).toNat_lt
  have l2 := (tmp.getD 2 0).toNat_lt
  simp only [b64Pack, packValues, b64Char, List.map_cons, List.map_nil, UInt8.toNat_add, p0, p1,
    q1, q2, r2, r3]
  rw [Nat.mod_eq_of_lt (show (tmp.getD 0 0).toNat % 4 * 16 + (tmp.getD 1 0).toNat / 16 < 2 ^ 8 by
      omega),
    Nat.mod_eq_of_lt (show (tmp.getD 1 0).toNat % 16 * 4 + (tmp.getD 2 0).toNat / 64 < 2 ^ 8 by
      omega)]
  rfl

/-- `b64Pack` regroups the three bytes of its group, zero behind those read. -/
theorem b64Pack_eq (tmp : List UInt8) (rest : List Nat) :
    (regroupPad 8 6 ((List.range 3).map (fun k => (tmp.getD k 0).toNat) ++ rest)).map
        (fun v => b64Table.getD v 0) =
      (b64Pack tmp).map b64Char ++
        (regroupPad 8 6 rest).map (fun v => b64Table.getD v 0) := by
  have l0 := (tmp.getD 0 0).toNat_lt
  have l1 := (tmp.getD 1 0).toNat_lt
  have l2 := (tmp.getD 2 0).toNat_lt
  have hgroup : (List.range 3).map (fun k => (tmp.getD k 0).toNat) =
      [(tmp.getD 0 0).toNat, (tmp.getD 1 0).toNat, (tmp.getD 2 0).toNat] := rfl
  rw [map_b64Char_pack, hgroup, regroupPad_append (by decide) _ _ rest
    (bits_packValues l1 l2).symm (packValues_lt l0 l1 l2), List.map_append]

/-- A full group encodes to its four characters. -/
theorem b64Text_group (tmp bs : List UInt8) (hlen : tmp.length = 3) :
    b64Text (tmp ++ bs) = (b64Pack tmp).map b64Char ++ b64Text bs := by
  have hmap : tmp.map UInt8.toNat = (List.range 3).map fun k => (tmp.getD k 0).toNat := by
    match tmp, hlen with
    | [_, _, _], _ => rfl
  unfold b64Text
  rw [List.map_append, hmap, b64Pack_eq]

/-- A tail of one or two bytes encodes to one character more than it has bytes. -/
theorem b64Text_tail (tmp : List UInt8) (hlen : tmp.length < 3) (hpos : 0 < tmp.length) :
    b64Text tmp = ((b64Pack tmp).take (tmp.length + 1)).map b64Char := by
  have hmap : tmp.map UInt8.toNat ++ List.replicate (3 - tmp.length) 0 =
      (List.range 3).map fun k => (tmp.getD k 0).toNat := by
    match tmp, hlen, hpos with
    | [_], _, _ => rfl
    | [_, _], _, _ => rfl
  have hu := b64Pack_eq tmp []
  have hnil : (regroupPad 8 6 []).map (fun v => b64Table.getD v 0) = [] := rfl
  rw [List.append_nil, hnil, List.append_nil, ← hmap] at hu
  unfold b64Text
  rw [regroupPad_eq_take (by decide) _ (3 - tmp.length), List.map_take, hu, List.map_take]
  congr 1
  rw [padBits, List.length_append, List.length_replicate, length_flatMap_bits, List.length_map]
  omega

theorem b64EncodeRest_eq (tmp enc : List UInt8) (hlen : tmp.length < 3) :
    b64EncodeRest ⟨tmp, enc⟩ = enc ++ b64Text tmp ++ b64Padding tmp.length := by
  by_cases hi : 0 < tmp.length
  · rw [b64Text_tail tmp hlen hi, b64Padding, Nat.mod_eq_of_lt hlen,
      Nat.mod_eq_of_lt (show 3 - tmp.length < 3 by omega)]
    simp [b64EncodeRest, hi]
  · have hnil : tmp = [] := List.length_eq_zero_iff.mp (by omega)
    subst hnil
    simp [b64EncodeRest, b64Padding]
    rfl

/-- The loop and what follows it, from a group of `tmp.length` bytes already read. -/
theorem b64EncodeLoop_eq (src tmp enc : List UInt8) (hlen : tmp.length < 3) :
    b64EncodeRest (b64EncodeLoop src ⟨tmp, enc⟩) =
      enc ++ b64Text (tmp ++ src) ++ b64Padding (tmp ++ src).length := by
  induction src generalizing tmp enc with
  | nil =>
      rw [List.append_nil]
      exact b64EncodeRest_eq tmp enc hlen
  | cons b src ih =>
      rw [b64EncodeLoop]
      by_cases h3 : (tmp ++ [b]).length = 3
      · have hpad : b64Padding (tmp ++ b :: src).length = b64Padding src.length := by
          rw [List.append_cons, List.length_append, h3, b64Padding, b64Padding, Nat.add_mod_left]
        rw [if_pos h3, ih [] _ (by decide), List.nil_append, hpad, List.append_cons tmp b src,
          b64Text_group _ _ h3]
        simp only [List.append_assoc]
      · have hlt : (tmp ++ [b]).length < 3 := by
          rw [List.length_append, List.length_singleton] at h3 ⊢
          omega
        rw [if_neg h3, ih _ _ hlt, List.append_cons tmp b src]

/-- The encoder returns the standard encoding with its padding. -/
theorem b64Encode_eq (src : List UInt8) (len : Nat) :
    b64Encode src len = b64Text (src.take len) ++ b64Padding (src.take len).length := by
  have h := b64EncodeLoop_eq (src.take len) [] [] (by decide)
  rw [List.nil_append, List.nil_append] at h
  exact h

example : b64Encode [102, 111, 111, 98] 4 = "Zm9vYg==".toList.map ascii := by decide

/-! ## Decoding undoes encoding -/

theorem isBase64_b64Text (bs : List UInt8) : ∀ c ∈ b64Text bs, isBase64 c = true := by
  intro c hc
  obtain ⟨v, hv, rfl⟩ := List.mem_map.mp hc
  obtain ⟨g, hg, rfl⟩ := List.mem_map.mp hv
  have hlt := ofBits_lt g
  rw [length_of_mem_groups hg] at hlt
  exact isBase64_char hlt

theorem b64Value_b64Text (bs : List UInt8) :
    (b64Text bs).map b64Value = regroupPad 8 6 (bs.map UInt8.toNat) := by
  apply map_map_eq_self
  intro v hv
  obtain ⟨g, hg, rfl⟩ := List.mem_map.mp hv
  have hlt := ofBits_lt g
  rw [length_of_mem_groups hg] at hlt
  exact b64Value_char hlt

/-- The standard decoding of the standard text is the bytes again. -/
theorem b64Bytes_b64Text (bs : List UInt8) : b64Bytes (b64Text bs) = bs := by
  have hlt : ∀ d ∈ bs.map UInt8.toNat, d < 2 ^ 8 := by
    intro d hd
    obtain ⟨b, _, rfl⟩ := List.mem_map.mp hd
    exact b.toNat_lt
  rw [b64Bytes, b64Value_b64Text, regroup_regroupPad (by decide) (by decide) _ hlt]
  apply map_map_eq_self
  intro b _
  exact UInt8.ofNat_toNat

/-- Decoding stops at the padding. -/
theorem takeWhile_b64Text (bs : List UInt8) (n : Nat) :
    (b64Text bs ++ b64Padding n).takeWhile isBase64 = b64Text bs := by
  have hpad : (b64Padding n).takeWhile isBase64 = [] := by
    unfold b64Padding
    generalize (3 - n % 3) % 3 = k
    cases k with
    | zero => rfl
    | succ k => rw [List.replicate_succ, List.takeWhile_cons_of_neg (by decide)]
  rw [List.takeWhile_append_of_pos (isBase64_b64Text bs), hpad, List.append_nil]

theorem length_b64Text (bs : List UInt8) :
    (b64Text bs).length = (8 * bs.length + (6 - 8 * bs.length % 6) % 6) / 6 := by
  rw [b64Text, List.length_map, regroupPad, List.length_map, length_groups, padBits,
    List.length_append, List.length_replicate, length_flatMap_bits, List.length_map]

/-- `b64_decode_ex` returns what `b64_encode` was given, for every byte string. -/
theorem b64DecodeEx_b64Encode (bs : List UInt8) :
    b64DecodeEx Alloc.granted (b64Encode bs bs.length) (b64Encode bs bs.length).length =
      some bs := by
  rw [b64DecodeEx_eq, List.take_length, b64Encode_eq, List.take_length, takeWhile_b64Text,
    b64Bytes_b64Text]

/-! ## The text of decoded bytes -/

theorem char_b64Value {c : UInt8} (h : isBase64 c = true) :
    b64Table.getD (b64Value c) 0 = c := by
  have hlt : b64Value c < b64Table.length := b64Value_lt h
  rw [List.getD_eq_getElem _ _ hlt]
  exact List.getElem_idxOf hlt

theorem map_char_b64Value {cs : List UInt8} (h : ∀ c ∈ cs, isBase64 c = true) :
    (cs.map b64Value).map (fun v => b64Table.getD v 0) = cs := by
  apply map_map_eq_self
  intro c hc
  exact char_b64Value (h c hc)

/-- The alphabet character whose value is that of `c` with its low four bits cleared. -/
def clearLow (c : UInt8) : UInt8 := b64Table.getD (b64Value c / 16 * 16) 0

/-- When the decoder drops four bits of the last character, the text of what it decoded is what
    it read, with those four bits cleared. -/
theorem b64Text_b64Bytes {cs : List UInt8} {c : UInt8} (hcs : ∀ x ∈ cs, isBase64 x = true)
    (hc : isBase64 c = true) (hlen : cs.length % 4 = 1) :
    b64Text (b64Bytes (cs ++ [c])) = cs ++ [clearLow c] := by
  have hbytes : (b64Bytes (cs ++ [c])).map UInt8.toNat =
      regroup (2 + 4) 8 (cs.map b64Value ++ [b64Value c]) := by
    unfold b64Bytes
    rw [List.map_append, List.map_singleton]
    apply map_map_eq_self
    intro e he
    exact UInt8.toNat_ofNat_of_lt' (regroup_lt e he)
  have hvalues : ∀ e ∈ cs.map b64Value, e < 2 ^ (2 + 4) := by
    intro e he
    obtain ⟨x, hx, rfl⟩ := List.mem_map.mp he
    exact b64Value_lt (hcs x hx)
  have hgroups : (2 + 4) * (cs.map b64Value).length + 2 = 8 * (3 * (cs.length / 4) + 1) := by
    rw [List.length_map]
    omega
  have hdigits := regroupPad_regroup (by decide) (by decide) _ hvalues (b64Value_lt hc) hgroups
  unfold b64Text
  rw [hbytes, hdigits, List.map_append, map_char_b64Value hcs]
  rfl

end Lightsocks
