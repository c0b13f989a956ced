import Lightsocks.Base64

/-
  `lib/base64.c`: which texts the encoder writes.

  The decoder reads any run of characters of the alphabet and drops the bits that do not make a
  byte. The texts of the encoder are those where there is nothing to drop: no character stands
  alone in its group, and the unused bits of the last one are zero (`Canonical`). On these, with
  their padding, the encoder and the decoder are inverse to each other (`b64_encode_range`).
-/

namespace Lightsocks

open Lib

/-- The bits of the last of `n` characters that make no byte. -/
def unusedBits (n : Nat) : Nat := 6 * n % 8

/-- Characters of the alphabet that spell bytes and nothing else. -/
structure Canonical (cs : List UInt8) : Prop where
  alphabet : ∀ c ∈ cs, isBase64 c = true
  whole : cs.length % 4 ≠ 1
  unused : ∀ c ∈ cs.getLast?, 2 ^ unusedBits cs.length ∣ b64Value c

/-- The padding behind `n` characters. -/
def textPadding (n : Nat) : List UInt8 := List.replicate ((4 - n % 4) % 4) (ascii '=')

/-- The alphabet character whose value is that of `c` with its low `r` bits cleared. -/
def clearBits (r : Nat) (c : UInt8) : UInt8 := b64Table.getD (b64Value c / 2 ^ r * 2 ^ r) 0

theorem toNat_b64Bytes (cs : List UInt8) :
    (b64Bytes cs).map UInt8.toNat = regroup 6 8 (cs.map b64Value) := by
  apply map_map_eq_self
  intro e he
  exact UInt8.toNat_ofNat_of_lt' (regroup_lt e he)

/-- The text of what was decoded: the unused bits of the last character come back as zeros. -/
theorem b64Text_b64Bytes_concat {cs : List UInt8} {c : UInt8}
    (hcs : ∀ x ∈ cs, isBase64 x = true) (hc : isBase64 c = true)
    (hlen : (cs.length + 1) % 4 ≠ 1) :
    b64Text (b64Bytes (cs ++ [c])) = cs ++ [clearBits (unusedBits (cs.length + 1)) c] := by
  have hvalues : ∀ e ∈ cs.map b64Value, e < 2 ^ 6 := by
    intro e he
    obtain ⟨x, hx, rfl⟩ := List.mem_map.mp he
    exact b64Value_lt (hcs x hx)
  have hunused : unusedBits (cs.length + 1) < 6 := by
    unfold unusedBits
    omega
  obtain ⟨u, hu⟩ : ∃ u, 6 = u + unusedBits (cs.length + 1) :=
    ⟨6 - unusedBits (cs.length + 1), by omega⟩
  have hgroups : 6 * (cs.map b64Value).length + u = 8 * (6 * (cs.length + 1) / 8) := by
    rw [List.length_map]
    unfold unusedBits at hu
    omega
  have hdigits := @regroupPad_regroup u (unusedBits (cs.length + 1)) 8
    (6 * (cs.length + 1) / 8) (by omega) (by omega) (cs.map b64Value) (b64Value c)
    (hu ▸ hvalues) (hu ▸ b64Value_lt hc) (hu ▸ hgroups)
  rw [← hu] at hdigits
  unfold b64Text
  rw [toNat_b64Bytes, List.map_append, List.map_singleton, hdigits, List.map_append,
    map_char_b64Value hcs]
  rfl

/-- Clearing the bits changes nothing exactly if they are zero. -/
theorem clearBits_eq_iff {c : UInt8} (hc : isBase64 c = true) (r : Nat) :
    clearBits r c = c ↔ 2 ^ r ∣ b64Value c := by
  have hlt : b64Value c / 2 ^ r * 2 ^ r < 64 :=
    lt_of_le_of_lt (Nat.div_mul_le_self _ _) (b64Value_lt hc)
  constructor
  · intro h
    have hvalue := b64Value_char hlt
    rw [clearBits] at h
    rw [h] at hvalue
    exact hvalue ▸ Nat.dvd_mul_left _ _
  · intro h
    rw [clearBits, Nat.div_mul_cancel h, char_b64Value hc]

/-- What is decoded is encoded to the same text exactly if the text is canonical. -/
theorem b64Text_b64Bytes_iff {cs : List UInt8} (hcs : ∀ c ∈ cs, isBase64 c = true)
    (hlen : cs.length % 4 ≠ 1) : b64Text (b64Bytes cs) = cs ↔ Canonical cs := by
  rcases List.eq_nil_or_concat cs with rfl | ⟨cs, c, rfl⟩
  · exact iff_of_true (by decide) ⟨hcs, hlen, by simp⟩
  · rw [List.concat_eq_append] at *
    rw [List.forall_mem_append, List.forall_mem_singleton] at hcs
    rw [List.length_append, List.length_singleton] at hlen
    rw [b64Text_b64Bytes_concat hcs.1 hcs.2 hlen, List.append_cancel_left_eq,
      List.singleton_inj, clearBits_eq_iff hcs.2]
    constructor
    · intro h
      refine ⟨List.forall_mem_append.mpr ⟨hcs.1, List.forall_mem_singleton.mpr hcs.2⟩, ?_, ?_⟩
      · rw [List.length_append, List.length_singleton]
        exact hlen
      · intro d hd
        rw [List.getLast?_concat] at hd
        rw [← Option.some.inj hd, List.length_append, List.length_singleton]
        exact h
    · intro h
      have hunused := h.unused c (by rw [List.getLast?_concat]; rfl)
      rwa [List.length_append, List.length_singleton] at hunused

/-- Three bytes make four characters, and a tail makes one more than it has bytes. -/
theorem length_b64Text_eq (bs : List UInt8) : (b64Text bs).length =
    4 * (bs.length / 3) + if bs.length % 3 = 0 then 0 else bs.length % 3 + 1 := by
  have hsplit : bs.length = 3 * (bs.length / 3) + bs.length % 3 := (Nat.div_add_mod _ 3).symm
  have htail : 8 * bs.length % 6 = 2 * (bs.length % 3) := by omega
  rw [length_b64Text, htail]
  have hlt := Nat.mod_lt bs.length (by decide : 0 < 3)
  generalize bs.length % 3 = t at *
  generalize bs.length / 3 = q at *
  rw [hsplit]
  obtain rfl | rfl | rfl : t = 0 ∨ t = 1 ∨ t = 2 := by omega
  · rw [if_pos rfl]
    omega
  · rw [if_neg (by decide)]
    omega
  · rw [if_neg (by decide)]
    omega

theorem length_b64Text_mod (bs : List UInt8) : (b64Text bs).length % 4 ≠ 1 ∧
    (4 - (b64Text bs).length % 4) % 4 = (3 - bs.length % 3) % 3 := by
  rw [length_b64Text_eq]
  split_ifs <;> omega

theorem canonical_b64Text (bs : List UInt8) : Canonical (b64Text bs) := by
  refine (b64Text_b64Bytes_iff (isBase64_b64Text bs) (length_b64Text_mod bs).1).mp ?_
  rw [b64Bytes_b64Text]

theorem b64Encode_b64Bytes {cs : List UInt8} (h : Canonical cs) :
    b64Encode (b64Bytes cs) (b64Bytes cs).length = cs ++ textPadding cs.length := by
  have htext := (b64Text_b64Bytes_iff h.alphabet h.whole).mpr h
  have hpad := (length_b64Text_mod (b64Bytes cs)).2
  rw [htext] at hpad
  rw [b64Encode_eq, List.take_length, htext, b64Padding, textPadding, hpad]

/-- **The texts of the encoder.** What `b64_encode` writes are exactly the canonical texts with
    their padding. `b64_decode_ex` takes each of them back to the bytes it was written for, and
    `b64_encode` takes what is decoded from a canonical text back to this text. -/
theorem b64_encode_range (s : List UInt8) :
    ((∃ bs, b64Encode bs bs.length = s) ↔ ∃ cs, Canonical cs ∧ s = cs ++ textPadding cs.length) ∧
    (∀ bs, b64Encode bs bs.length = s ↔ b64DecodeEx Alloc.granted s s.length = some bs ∧
      ∃ cs, Canonical cs ∧ s = cs ++ textPadding cs.length) := by
  have hwrite : ∀ bs, b64Encode bs bs.length = b64Text bs ++ textPadding (b64Text bs).length := by
    intro bs
    rw [b64Encode_eq, List.take_length, b64Padding, textPadding, (length_b64Text_mod bs).2]
  have hread : ∀ cs, Canonical cs → b64DecodeEx Alloc.granted (cs ++ textPadding cs.length)
      (cs ++ textPadding cs.length).length = some (b64Bytes cs) := by
    intro cs hcs
    rw [← b64Encode_b64Bytes hcs]
    exact b64DecodeEx_b64Encode _
  refine ⟨⟨?_, ?_⟩, fun bs => ⟨?_, ?_⟩⟩
  · rintro ⟨bs, rfl⟩
    exact ⟨b64Text bs, canonical_b64Text bs, hwrite bs⟩
  · rintro ⟨cs, hcs, rfl⟩
    exact ⟨b64Bytes cs, b64Encode_b64Bytes hcs⟩
  · rintro rfl
    exact ⟨b64DecodeEx_b64Encode bs, b64Text bs, canonical_b64Text bs, hwrite bs⟩
  · rintro ⟨hdec, cs, hcs, rfl⟩
    rw [hread cs hcs] at hdec
    rw [← Option.some.inj hdec]
    exact b64Encode_b64Bytes hcs

end Lightsocks
