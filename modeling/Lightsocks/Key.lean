import Lightsocks.Password
import Lightsocks.Base64

/-
  `lib/password.c`: the key text. `password_string` writes the 256 bytes of a table as base64,
  `gen_password_by_string` reads them back.

  The only test `gen_password_by_string` makes is on the decoded size. So the text of every
  table is read back as that table (`key_text_round_trip`), and a text is accepted exactly when
  its leading alphabet characters number 342 (`genPasswordByString_eq_password_iff`), whether
  or not the 256 bytes are distinct (`lossless_key_iff`). Such a text is written back with the
  bits cleared that its last character has to spare (`key_text_grammar`).
-/

namespace Lightsocks

open Lib

/-- What a call of `gen_password_by_string` ends in. -/
inductive KeyOutcome where
  /-- A non-`NULL` `Password`. -/
  | password (pass : Password)
  /-- `NULL`. -/
  | null
  /-- `decoded[i]` read with `decoded == NULL`. -/
  | nullDeref
  deriving DecidableEq

/-- `password_string(pass, &outsize)`: the text, `*outsize` characters of it. -/
def passwordString (pass : Password) : List UInt8 := b64Encode pass.x.toList passLength

/-- `gen_password_by_string(string, len)`. The local `decsize` is not initialised and holds
    `decsize` until `b64_decode_ex` writes it; the `calloc` of the `Password` succeeds. -/
def genPasswordByString (alloc : Alloc) (decsize : Nat) (string : List UInt8) (len : Nat) :
    KeyOutcome :=
  let decoded := b64DecodeEx alloc string len
  let decsize := match decoded with
    | some dec => dec.length
    | none => decsize
  if decsize = passLength then
    match decoded with
    | some dec => .password ⟨Vector.ofFn fun i => dec.getD i 0⟩
    | none => .nullDeref
  else .null

/-! ## What is accepted -/

/-- The characters the parser reads: the longest prefix of `string[0..len)` in the alphabet. -/
def keyChars (string : List UInt8) (len : Nat) : List UInt8 :=
  (string.take len).takeWhile isBase64

/-- 342 characters carry 256 bytes, and no other number does. -/
theorem keyChars_length_iff (cs : List UInt8) :
    (b64Bytes cs).length = passLength ↔ cs.length = 342 := by
  rw [length_b64Bytes]
  show 6 * cs.length / 8 = 256 ↔ cs.length = 342
  omega

theorem ofFn_getD_toList (dec : List UInt8) (h : dec.length = passLength) :
    (Vector.ofFn fun i : Fin passLength => dec.getD i 0).toList = dec := by
  apply List.ext_getElem
  · simp [h]
  · intro i h1 h2
    simp [List.getElem?_eq_getElem h2]

/-- Every 256 bytes are the bytes of a table. -/
theorem exists_table (dec : List UInt8) (h : dec.length = passLength) :
    ∃ pass : Password, pass.x.toList = dec :=
  ⟨⟨Vector.ofFn fun i => dec.getD i 0⟩, ofFn_getD_toList dec h⟩

/-- With allocations granted, a text is accepted iff it starts with exactly 342 alphabet
    characters, and the table is then their standard decoding. -/
theorem genPasswordByString_eq_password_iff (decsize : Nat) (string : List UInt8) (len : Nat)
    (pass : Password) :
    genPasswordByString Alloc.granted decsize string len = .password pass ↔
      (keyChars string len).length = 342 ∧ pass.x.toList = b64Bytes (keyChars string len) := by
  unfold genPasswordByString
  rw [b64DecodeEx_eq]
  show (if (b64Bytes (keyChars string len)).length = passLength then _ else _) = _ ↔ _
  by_cases h : (keyChars string len).length = 342
  · have hlen := (keyChars_length_iff _).mpr h
    rw [if_pos hlen]
    simp only [KeyOutcome.password.injEq, h, true_and]
    constructor
    · rintro rfl
      exact ofFn_getD_toList _ hlen
    · intro hx
      have hv : (Vector.ofFn fun i : Fin passLength =>
          (b64Bytes (keyChars string len)).getD i 0) = pass.x :=
        Vector.toList_inj.mp ((ofFn_getD_toList _ hlen).trans hx.symm)
      exact congrArg Password.mk hv
  · rw [if_neg fun hlen => h ((keyChars_length_iff _).mp hlen)]
    simp [h]

/-- Every other text is answered with `NULL`. -/
theorem genPasswordByString_eq_null (decsize : Nat) (string : List UInt8) (len : Nat)
    (h : (keyChars string len).length ≠ 342) :
    genPasswordByString Alloc.granted decsize string len = .null := by
  unfold genPasswordByString
  rw [b64DecodeEx_eq]
  exact if_neg fun hlen => h ((keyChars_length_iff _).mp hlen)

/-! ## Round trip of the key text -/

theorem length_toList (pass : Password) : pass.x.toList.length = passLength := by simp

theorem passwordString_eq (pass : Password) :
    passwordString pass = b64Text pass.x.toList ++ [ascii '=', ascii '='] := by
  unfold passwordString
  rw [b64Encode_eq, List.take_of_length_le (Nat.le_of_eq (length_toList pass)), length_toList]
  rfl

/-- **Key text round trip.** For every table `password_string` returns 342 alphabet characters
    and `==`, and `gen_password_by_string` reads that text back as the same table. -/
theorem key_text_round_trip (pass : Password) (decsize : Nat) :
    (passwordString pass).length = 344 ∧
    (∃ cs : List UInt8, cs.length = 342 ∧ (∀ c ∈ cs, c ∈ b64Table) ∧
      passwordString pass = cs ++ [ascii '=', ascii '=']) ∧
    genPasswordByString Alloc.granted decsize (passwordString pass) 344 = .password pass := by
  have htext : (b64Text pass.x.toList).length = 342 := by
    rw [length_b64Text, length_toList]
    rfl
  have hlen : (passwordString pass).length = 344 := by
    rw [passwordString_eq, List.length_append, htext]
    rfl
  have hchars : keyChars (passwordString pass) 344 = b64Text pass.x.toList := by
    unfold keyChars
    rw [← hlen, List.take_length, passwordString_eq]
    exact takeWhile_b64Text pass.x.toList 256
  refine ⟨hlen, ⟨b64Text pass.x.toList, htext, ?_, passwordString_eq pass⟩, ?_⟩
  · exact fun c hc => (isBase64_iff_mem c).mp (isBase64_b64Text _ c hc)
  · rw [genPasswordByString_eq_password_iff, hchars]
    exact ⟨htext, (b64Bytes_b64Text _).symm⟩

/-! ## The grammar of the key text -/

/-- The text of a table that was read from 342 characters. -/
theorem passwordString_of_b64Bytes {pass : Password} {cs : List UInt8} {c : UInt8}
    (hx : pass.x.toList = b64Bytes (cs ++ [c])) (hcs : ∀ x ∈ cs, isBase64 x = true)
    (hc : isBase64 c = true) (hlen : cs.length = 341) :
    passwordString pass = cs ++ [clearLow c] ++ [ascii '=', ascii '='] := by
  have hmod : cs.length % 4 = 1 := by rw [hlen]
  rw [passwordString_eq, hx, b64Text_b64Bytes hcs hc hmod]

/-- Characters that differ in the four bits left over are read the same. -/
theorem b64Bytes_congr_last {cs : List UInt8} {c c' : UInt8} (hcs : ∀ x ∈ cs, isBase64 x = true)
    (hc : isBase64 c = true) (hc' : isBase64 c' = true) (hlen : cs.length % 4 = 1)
    (h : b64Value c / 16 = b64Value c' / 16) : b64Bytes (cs ++ [c]) = b64Bytes (cs ++ [c']) := by
  have hlow : clearLow c = clearLow c' := by rw [clearLow, clearLow, h]
  calc b64Bytes (cs ++ [c]) = b64Bytes (b64Text (b64Bytes (cs ++ [c]))) :=
        (b64Bytes_b64Text _).symm
    _ = b64Bytes (cs ++ [clearLow c]) := by rw [b64Text_b64Bytes hcs hc hlen]
    _ = b64Bytes (cs ++ [clearLow c']) := by rw [hlow]
    _ = b64Bytes (b64Text (b64Bytes (cs ++ [c']))) := by rw [b64Text_b64Bytes hcs hc' hlen]
    _ = b64Bytes (cs ++ [c']) := b64Bytes_b64Text _

/-- An accepted text starts with its 342 characters. -/
theorem keyChars_split {string : List UInt8} {len : Nat}
    (hlen : (keyChars string len).length = 342) :
    keyChars string len = string.take 341 ++ [string.getD 341 0] ∧
      (∀ x ∈ string.take 341, isBase64 x = true) ∧ isBase64 (string.getD 341 0) = true := by
  have hprefix : keyChars string len <+: string :=
    (List.takeWhile_prefix _).trans (List.take_prefix _ _)
  have hlt : 341 < string.length := by
    have hle := hprefix.length_le
    omega
  have hsplit : keyChars string len = string.take 341 ++ [string.getD 341 0] := by
    have htake := List.prefix_iff_eq_take.mp hprefix
    rw [hlen, List.take_add_one, List.getElem?_eq_getElem hlt] at htake
    rw [htake, List.getD_eq_getElem _ _ hlt]
    rfl
  have hall : ∀ x ∈ keyChars string len, isBase64 x = true :=
    fun x hx => List.mem_takeWhile_imp hx
  rw [hsplit] at hall
  refine ⟨hsplit, fun x hx => hall x (List.mem_append_left _ hx), ?_⟩
  exact hall _ (List.mem_append_right _ (List.mem_singleton_self _))

/-- **The key text.** `gen_password_by_string` returns a table exactly if the longest prefix of
    alphabet characters has 342 of them, whatever follows it, and `NULL` otherwise. The table is
    the standard decoding of that prefix, the same for every 342nd character with these two high
    bits, and `password_string` gives the prefix back with the other four bits of that character
    cleared. -/
theorem key_text_grammar (decsize : Nat) (string : List UInt8) (len : Nat) :
    ((∃ pass, genPasswordByString Alloc.granted decsize string len = .password pass) ↔
      (keyChars string len).length = 342) ∧
    ((keyChars string len).length ≠ 342 →
      genPasswordByString Alloc.granted decsize string len = .null) ∧
    ∀ pass, genPasswordByString Alloc.granted decsize string len = .password pass →
      pass.x.toList = b64Bytes (keyChars string len) ∧
      (∀ c, isBase64 c = true → b64Value c / 16 = b64Value (string.getD 341 0) / 16 →
        pass.x.toList = b64Bytes (string.take 341 ++ [c])) ∧
      passwordString pass = string.take 341 ++
        [b64Table.getD (b64Value (string.getD 341 0) / 16 * 16) 0] ++ [ascii '=', ascii '='] := by
  refine ⟨⟨fun h => ?_, fun hlen => ?_⟩, genPasswordByString_eq_null decsize string len,
    fun pass hpass => ?_⟩
  · obtain ⟨pass, hpass⟩ := h
    exact ((genPasswordByString_eq_password_iff decsize string len pass).mp hpass).1
  · obtain ⟨pass, hx⟩ := exists_table _ ((keyChars_length_iff _).mpr hlen)
    exact ⟨pass, (genPasswordByString_eq_password_iff decsize string len pass).mpr ⟨hlen, hx⟩⟩
  · obtain ⟨hlen, hx⟩ := (genPasswordByString_eq_password_iff decsize string len pass).mp hpass
    obtain ⟨hsplit, hfront, hlast⟩ := keyChars_split hlen
    have hlt : (string.take 341).length = 341 := by
      rw [hsplit, List.length_append, List.length_singleton] at hlen
      omega
    have hx' : pass.x.toList = b64Bytes (string.take 341 ++ [string.getD 341 0]) := by
      rw [hx, hsplit]
    refine ⟨hx, fun c hc hbits => ?_, passwordString_of_b64Bytes hx' hfront hlast hlt⟩
    rw [hx']
    exact (b64Bytes_congr_last hfront hc hlast (by rw [hlt]) hbits).symm

theorem key_text_grammar_slashes :
    ∃ pass, genPasswordByString Alloc.granted 0 (List.replicate 342 (ascii '/')) 342 =
        .password pass ∧
      passwordString pass =
        List.replicate 341 (ascii '/') ++ [ascii 'w'] ++ [ascii '=', ascii '='] := by
  have hlen : (keyChars (List.replicate 342 (ascii '/')) 342).length = 342 := by decide +kernel
  obtain ⟨hiff, -, htext⟩ := key_text_grammar 0 (List.replicate 342 (ascii '/')) 342
  obtain ⟨pass, hpass⟩ := hiff.mpr hlen
  obtain ⟨-, -, hstring⟩ := htext pass hpass
  have hfront : (List.replicate 342 (ascii '/')).take 341 = List.replicate 341 (ascii '/') := by
    rw [List.take_replicate]
    rfl
  have hlast : b64Table.getD
      (b64Value ((List.replicate 342 (ascii '/')).getD 341 0) / 16 * 16) 0 = ascii 'w' := by
    decide +kernel
  rw [hfront, hlast] at hstring
  exact ⟨pass, hpass, hstring⟩

/-! ## Accepted keys and lossless tunnels -/

/-- What the tunnel needs of the key parser at one text: an accepted key gives a permutation,
    so that decoding undoes encoding, and a text whose bytes form a table with a repetition is
    rejected. -/
def LosslessKey (decsize : Nat) (string : List UInt8) (len : Nat) : Prop :=
  (∀ pass, genPasswordByString Alloc.granted decsize string len = .password pass →
    pass.IsPermutation ∧ LosslessCodec pass) ∧
  (∀ pass : Password, b64DecodeEx Alloc.granted string len = some pass.x.toList →
    ¬ pass.x.toList.Nodup → genPasswordByString Alloc.granted decsize string len = .null)

/-- A text that starts with exactly 342 alphabet characters is accepted, whatever it decodes to. -/
theorem not_losslessKey_of_repeat {decsize : Nat} {string : List UInt8} {len : Nat}
    (hlen : (keyChars string len).length = 342)
    (hdup : ¬ (b64Bytes (keyChars string len)).Nodup) : ¬ LosslessKey decsize string len := by
  rintro ⟨hacc, -⟩
  obtain ⟨pass, hx⟩ := exists_table _ ((keyChars_length_iff _).mpr hlen)
  have hp := (hacc pass ((genPasswordByString_eq_password_iff decsize string len pass).mpr
    ⟨hlen, hx⟩)).1
  rw [isPermutation_iff_nodup, hx] at hp
  exact hdup hp

/-- **Accepted keys.** The key parser gives a lossless tunnel at a text except when the text
    starts with exactly 342 alphabet characters whose standard decoding repeats a byte. -/
theorem lossless_key_iff (decsize : Nat) (string : List UInt8) (len : Nat) :
    LosslessKey decsize string len ↔
      ¬ ((keyChars string len).length = 342 ∧ ¬ (b64Bytes (keyChars string len)).Nodup) := by
  constructor
  · rintro h ⟨hlen, hdup⟩
    exact not_losslessKey_of_repeat hlen hdup h
  · intro hok
    refine ⟨fun pass hpass => ?_, fun pass hdec hdup => ?_⟩
    · obtain ⟨hlen, hx⟩ := (genPasswordByString_eq_password_iff decsize string len pass).mp hpass
      have hp : pass.IsPermutation := by
        rw [isPermutation_iff_nodup, hx]
        exact not_not.mp fun hdup => hok ⟨hlen, hdup⟩
      exact ⟨hp, (losslessCodec_iff pass).mpr hp⟩
    · rw [b64DecodeEx_eq] at hdec
      have hx : b64Bytes (keyChars string len) = pass.x.toList := Option.some.inj hdec
      apply genPasswordByString_eq_null
      intro hlen
      exact hok ⟨hlen, hx ▸ hdup⟩

/-- The key text of 342 times `A`: it is accepted, and all of its 256 bytes are zero. -/
theorem zero_key_not_lossless :
    ¬ LosslessKey 0 (List.replicate 342 (ascii 'A')) 342 := by
  have hlen : (keyChars (List.replicate 342 (ascii 'A')) 342).length = 342 := by decide +kernel
  have hpair : [0, 0].Sublist (b64Bytes (keyChars (List.replicate 342 (ascii 'A')) 342)) := by
    decide +kernel
  exact not_losslessKey_of_repeat hlen fun hnd => absurd (hnd.sublist hpair) (by decide)

end Lightsocks
