import Mathlib.Data.List.Basic

/-
  UTF-8 texts as byte lists. Generic.

  `IsUtf8 bs` says that `bs` is the encoding of some characters. A byte below 128 is a character
  of its own wherever it stands in such a text, so that a text may be cut there
  (`IsUtf8.of_append_cons`). `utf16 c` is the character `c` in UTF-16.
-/

namespace Lightsocks.Lib

/-- The bytes are the UTF-8 encoding of some characters. -/
def IsUtf8 (bs : List UInt8) : Prop := ∃ cs : List Char, bs = cs.flatMap String.utf8EncodeChar

theorem isUtf8_nil : IsUtf8 [] := ⟨[], rfl⟩

theorem isUtf8_char (c : Char) : IsUtf8 (String.utf8EncodeChar c) := ⟨[c], by simp⟩

theorem IsUtf8.append {a b : List UInt8} (ha : IsUtf8 a) (hb : IsUtf8 b) : IsUtf8 (a ++ b) := by
  obtain ⟨cs, rfl⟩ := ha
  obtain ⟨ds, rfl⟩ := hb
  exact ⟨cs ++ ds, List.flatMap_append.symm⟩

/-! ## One character -/

theorem toNat_char_valid (c : Char) :
    c.toNat < 0xD800 ∨ 0xDFFF < c.toNat ∧ c.toNat < 0x110000 := c.valid

/-- The character with a given code point. -/
theorem exists_char {n : ℕ} (h : n < 0xD800 ∨ 0xDFFF < n ∧ n < 0x110000) :
    ∃ c : Char, c.toNat = n := by
  have hn : (UInt32.ofNat n).toNat = n :=
    UInt32.toNat_ofNat_of_lt' (by show n < 2 ^ 32; omega)
  refine ⟨⟨UInt32.ofNat n, ?_⟩, hn⟩
  rw [UInt32.isValidChar, hn]
  exact h

theorem utf8EncodeChar_ascii {c : Char} (h : c.toNat < 0x80) :
    String.utf8EncodeChar c = [UInt8.ofNat c.toNat] :=
  if_pos (Nat.le_of_lt_succ h)

theorem utf8EncodeChar_two {c : Char} (h : 0x80 ≤ c.toNat) (h' : c.toNat < 0x800) :
    String.utf8EncodeChar c =
      [UInt8.ofNat (c.toNat / 64 % 32 + 0xC0), UInt8.ofNat (c.toNat % 64 + 0x80)] := by
  have h₁ : ¬ c.val.toNat ≤ 0x7f := Nat.not_le_of_lt h
  exact (if_neg h₁).trans (if_pos (Nat.le_of_lt_succ h'))

theorem utf8EncodeChar_three {c : Char} (h : 0x800 ≤ c.toNat) (h' : c.toNat < 0x10000) :
    String.utf8EncodeChar c =
      [UInt8.ofNat (c.toNat / 4096 % 16 + 0xE0), UInt8.ofNat (c.toNat / 64 % 64 + 0x80),
        UInt8.ofNat (c.toNat % 64 + 0x80)] := by
  have h₁ : ¬ c.val.toNat ≤ 0x7f := Nat.not_le_of_lt (Nat.lt_of_lt_of_le (by decide) h)
  have h₂ : ¬ c.val.toNat ≤ 0x7ff := Nat.not_le_of_lt h
  exact (if_neg h₁).trans ((if_neg h₂).trans (if_pos (Nat.le_of_lt_succ h')))

theorem utf8EncodeChar_four {c : Char} (h : 0x10000 ≤ c.toNat) :
    String.utf8EncodeChar c =
      [UInt8.ofNat (c.toNat / 262144 % 8 + 0xF0), UInt8.ofNat (c.toNat / 4096 % 64 + 0x80),
        UInt8.ofNat (c.toNat / 64 % 64 + 0x80), UInt8.ofNat (c.toNat % 64 + 0x80)] := by
  have h₁ : ¬ c.val.toNat ≤ 0x7f := Nat.not_le_of_lt (Nat.lt_of_lt_of_le (by decide) h)
  have h₂ : ¬ c.val.toNat ≤ 0x7ff := Nat.not_le_of_lt (Nat.lt_of_lt_of_le (by decide) h)
  have h₃ : ¬ c.val.toNat ≤ 0xffff := Nat.not_le_of_lt h
  exact (if_neg h₁).trans ((if_neg h₂).trans (if_neg h₃))

/-- All bytes of a character outside ASCII are above those of ASCII. -/
theorem le_of_mem_utf8EncodeChar {c : Char} (h : 0x80 ≤ c.toNat) :
    ∀ b ∈ String.utf8EncodeChar c, 0x80 ≤ b.toNat := by
  have hbyte : ∀ {m n : ℕ}, m ≤ 64 → 0x80 ≤ n → m + n ≤ 256 → ∀ k, 0 < m →
      0x80 ≤ (UInt8.ofNat (k % m + n)).toNat := by
    intro m n _ hn hmn k hm
    have hk := Nat.mod_lt k hm
    rw [UInt8.toNat_ofNat_of_lt' (by show k % m + n < 256; omega)]
    omega
  intro b hb
  rcases Nat.lt_or_ge c.toNat 0x800 with h' | h'
  · rw [utf8EncodeChar_two h h'] at hb
    simp only [List.mem_cons, List.not_mem_nil, or_false] at hb
    rcases hb with rfl | rfl <;> exact hbyte (by decide) (by decide) (by decide) _ (by decide)
  · rcases Nat.lt_or_ge c.toNat 0x10000 with h'' | h''
    · rw [utf8EncodeChar_three h' h''] at hb
      simp only [List.mem_cons, List.not_mem_nil, or_false] at hb
      rcases hb with rfl | rfl | rfl <;>
        exact hbyte (by decide) (by decide) (by decide) _ (by decide)
    · rw [utf8EncodeChar_four h''] at hb
      simp only [List.mem_cons, List.not_mem_nil, or_false] at hb
      rcases hb with rfl | rfl | rfl | rfl <;>
        exact hbyte (by decide) (by decide) (by decide) _ (by decide)

theorem utf8EncodeChar_ne_nil (c : Char) : String.utf8EncodeChar c ≠ [] := by
  intro h
  have hlen := congrArg List.length h
  rw [String.length_utf8EncodeChar, List.length_nil] at hlen
  exact absurd c.utf8Size_pos (by omega)

/-- A byte of ASCII. -/
theorem isUtf8_ascii {b : UInt8} (h : b.toNat < 0x80) : IsUtf8 [b] := by
  obtain ⟨c, hc⟩ := exists_char (n := b.toNat) (Or.inl (by omega))
  refine ⟨[c], ?_⟩
  rw [List.flatMap_singleton, utf8EncodeChar_ascii (by omega), hc, UInt8.ofNat_toNat]

/-- ASCII is UTF-8. -/
theorem isUtf8_of_ascii {bs : List UInt8} (h : ∀ b ∈ bs, b.toNat < 0x80) : IsUtf8 bs := by
  induction bs with
  | nil => exact isUtf8_nil
  | cons b bs ih =>
      obtain ⟨hb, hbs⟩ := List.forall_mem_cons.mp h
      exact (isUtf8_ascii hb).append (ih hbs)

/-! ## Cutting a text -/

/-- A character that has a byte of ASCII is that byte. -/
theorem utf8EncodeChar_eq_singleton {c : Char} {b : UInt8} (hb : b ∈ String.utf8EncodeChar c)
    (h : b.toNat < 0x80) : String.utf8EncodeChar c = [b] := by
  rcases Nat.lt_or_ge c.toNat 0x80 with hc | hc
  · rw [utf8EncodeChar_ascii hc] at hb ⊢
    rw [List.mem_singleton.mp hb]
  · exact absurd (le_of_mem_utf8EncodeChar hc b hb) (by omega)

/-- A text may be cut at a byte of ASCII. -/
theorem IsUtf8.of_append_cons {a s : List UInt8} {b : UInt8} (h : IsUtf8 (a ++ b :: s))
    (hb : b.toNat < 0x80) : IsUtf8 a ∧ IsUtf8 s := by
  obtain ⟨cs, hcs⟩ := h
  induction cs generalizing a with
  | nil => exact absurd hcs (by simp)
  | cons c cs ih =>
      rw [List.flatMap_cons] at hcs
      rcases List.append_eq_append_iff.mp hcs with ⟨t, hc, hs⟩ | ⟨t, ha, hs⟩
      · -- the byte is in the first character
        cases t with
        | nil =>
            rw [List.append_nil] at hc
            have hrest := ih (a := []) hs
            rw [← hc]
            exact ⟨isUtf8_char c, hrest.2⟩
        | cons b' t =>
            obtain ⟨rfl, hrest⟩ := List.cons.inj hs
            have hone := utf8EncodeChar_eq_singleton (c := c) (b := b)
              (by rw [hc]; exact List.mem_append_right _ List.mem_cons_self) hb
            rw [hone, List.singleton_eq_append_iff] at hc
            rcases hc with ⟨rfl, ht⟩ | ⟨-, ht⟩
            · have htail := (List.cons.inj ht).2
              rw [htail] at hrest
              exact ⟨isUtf8_nil, cs, hrest⟩
            · exact absurd ht (by simp)
      · rw [ha]
        obtain ⟨hleft, hright⟩ := ih (a := t) hs.symm
        exact ⟨(isUtf8_char c).append hleft, hright⟩

/-- Behind ASCII, a text goes on. -/
theorem IsUtf8.of_append {a s : List UInt8} (ha : ∀ b ∈ a, b.toNat < 0x80)
    (h : IsUtf8 (a ++ s)) : IsUtf8 s := by
  induction a with
  | nil => exact h
  | cons b a ih =>
      obtain ⟨hb, ha⟩ := List.forall_mem_cons.mp ha
      exact ih ha (IsUtf8.of_append_cons (a := []) h hb).2

/-- Up to its first NUL, a text is one. -/
theorem IsUtf8.takeWhile_ne_zero {bs : List UInt8} (h : IsUtf8 bs) :
    IsUtf8 (bs.takeWhile (· ≠ 0)) := by
  cases hrest : bs.dropWhile (· ≠ 0) with
  | nil =>
      have hall : bs.takeWhile (· ≠ 0) = bs := by
        conv => rhs; rw [← List.takeWhile_append_dropWhile (p := (· ≠ 0)) (l := bs), hrest]
        rw [List.append_nil]
      rw [hall]
      exact h
  | cons b s =>
      have hzero : b = 0 := by
        have hhead := List.head?_dropWhile_not (· ≠ 0) bs
        rw [hrest] at hhead
        simpa using hhead
      rw [← List.takeWhile_append_dropWhile (p := (· ≠ 0)) (l := bs), hrest] at h
      exact (h.of_append_cons (by rw [hzero]; decide)).1

/-! ## UTF-16 -/

/-- The code units of a character: one, or a lead and a trail surrogate. -/
def utf16 (c : Char) : List ℕ :=
  if c.toNat < 0x10000 then [c.toNat]
  else [(c.toNat - 0x10000) / 1024 + 0xD800, (c.toNat - 0x10000) % 1024 + 0xDC00]

/-- The character of a surrogate pair. -/
theorem exists_utf16_pair {lead trail : ℕ} (hlead : 0xD800 ≤ lead ∧ lead ≤ 0xDBFF)
    (htrail : 0xDC00 ≤ trail ∧ trail ≤ 0xDFFF) :
    ∃ c : Char, c.toNat = (lead - 0xD800) * 1024 + (trail - 0xDC00) + 0x10000 ∧
      utf16 c = [lead, trail] := by
  obtain ⟨c, hc⟩ := exists_char (n := (lead - 0xD800) * 1024 + (trail - 0xDC00) + 0x10000)
    (Or.inr (by omega))
  refine ⟨c, hc, ?_⟩
  rw [utf16, if_neg (by omega), hc]
  congr 2
  · omega
  · omega

end Lightsocks.Lib
