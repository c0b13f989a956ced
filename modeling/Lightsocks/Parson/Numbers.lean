import Lightsocks.Parson.Numerals
import Mathlib.Data.Nat.Digits.Lemmas
import Mathlib.Data.Rat.Cast.Order

/-
  `lib/parson.c`: numbers.

  What number a text stands for, and how a number is printed, is left to the C library, which
  stands as a parameter. How much of a text is read is not (`Libc.strtod`). `naturalLibc` is the
  library for natural numbers.
-/

namespace Lightsocks

open Lib

/-- The C library. `number` is the double that a number in its text stands for, `none` when it is
    out of range, so that `errno` is set; for no text at all it is what `strtod` gives where there
    is no number. `sprintf` prints with `FLOAT_FORMAT`. -/
structure Libc where
  number : List UInt8 → Option ℚ
  sprintf : ℚ → List UInt8

/-- `strtod`: the number, and how many characters have been read; `none` when it sets `errno` or
    the number is not finite, which `json_value_init_number` asks. -/
def Libc.strtod (libc : Libc) (string : List UInt8) : Option (ℚ × Nat) :=
  if isInfOrNan string then none
  else (libc.number (string.take (numberLength string))).map (·, numberLength string)

/-- `is_decimal`. `strchr` finds the terminating NUL too. -/
def isDecimal (string : List UInt8) (length : Nat) : Bool :=
  if length > 1 ∧ charAt string 0 = ascii '0' ∧ charAt string 1 ≠ ascii '.' then false
  else if length > 2 ∧ (charAt string 0 = ascii '-' ∧ charAt string 1 = ascii '0') ∧
    charAt string 2 ≠ ascii '.' then false
  else (List.range length).all fun k => charAt string k ∉ [ascii 'x', ascii 'X', 0]

instance (p : Numeral) : Decidable p.ZeroExponent :=
  inferInstanceAs (Decidable (_ ∧ _ ∧ _))

/-! ## `is_decimal` -/

/-- `is_decimal` looks at the number only. -/
theorem isDecimal_append (t r : List UInt8) :
    isDecimal (t ++ r) t.length = isDecimal t t.length := by
  have hzero : (t.length > 1 ∧ charAt (t ++ r) 0 = ascii '0' ∧ charAt (t ++ r) 1 ≠ ascii '.') ↔
      (t.length > 1 ∧ charAt t 0 = ascii '0' ∧ charAt t 1 ≠ ascii '.') := by
    refine and_congr_right fun h => ?_
    rw [charAt_append (Nat.lt_of_succ_lt h), charAt_append h]
  have hminus : (t.length > 2 ∧ (charAt (t ++ r) 0 = ascii '-' ∧ charAt (t ++ r) 1 = ascii '0') ∧
      charAt (t ++ r) 2 ≠ ascii '.') ↔
      (t.length > 2 ∧ (charAt t 0 = ascii '-' ∧ charAt t 1 = ascii '0') ∧
        charAt t 2 ≠ ascii '.') := by
    refine and_congr_right fun h => ?_
    rw [charAt_append (by omega), charAt_append (by omega), charAt_append h]
  have hall : (List.range t.length).all (fun k => charAt (t ++ r) k ∉ [ascii 'x', ascii 'X', 0]) =
      (List.range t.length).all (fun k => charAt t k ∉ [ascii 'x', ascii 'X', 0]) := by
    rw [Bool.eq_iff_iff, List.all_eq_true, List.all_eq_true]
    refine forall₂_congr fun k hk => ?_
    rw [charAt_append (List.mem_range.mp hk)]
  rw [isDecimal, isDecimal, hall]
  exact (if_congr hzero rfl (if_congr hminus rfl rfl))

/-- The two guards, and no `x`. -/
theorem isDecimal_eq_true_iff (t : List UInt8) : isDecimal t t.length = true ↔
    ¬ Numeral.LeadingZero (skipMinus t) ∧ ∀ c ∈ t, c ∉ [ascii 'x', ascii 'X', 0] := by
  have hall : (List.range t.length).all (fun k => charAt t k ∉ [ascii 'x', ascii 'X', 0]) = true ↔
      ∀ c ∈ t, c ∉ [ascii 'x', ascii 'X', 0] := by
    rw [List.all_eq_true]
    constructor
    · intro h c hc
      obtain ⟨k, hk, rfl⟩ := List.getElem_of_mem hc
      have hchar := of_decide_eq_true (h k (List.mem_range.mpr hk))
      rwa [charAt, List.getD_eq_getElem _ _ hk] at hchar
    · exact fun h k hk => decide_eq_true (h _ (charAt_mem (List.mem_range.mp hk)))
  unfold isDecimal skipMinus
  by_cases hminus : charAt t 0 = ascii '-'
  · obtain ⟨t, rfl⟩ : ∃ t', t = ascii '-' :: t' := by
      cases t with
      | nil => exact absurd hminus (by decide)
      | cons c t => exact ⟨t, congrArg (· :: t) hminus⟩
    have hzero : ¬ (charAt (ascii '-' :: t) 0 = ascii '0') := by rw [hminus]; decide
    have hguard : ((ascii '-' :: t).length > 2 ∧
        (charAt (ascii '-' :: t) 0 = ascii '-' ∧ charAt (ascii '-' :: t) 1 = ascii '0') ∧
          charAt (ascii '-' :: t) 2 ≠ ascii '.') ↔ Numeral.LeadingZero t := by
      refine and_congr ?_ (and_congr (and_iff_right hminus) Iff.rfl)
      rw [List.length_cons]
      omega
    rw [if_neg fun h => hzero h.2.1, if_pos hminus, List.drop_succ_cons, List.drop_zero]
    by_cases hlead : Numeral.LeadingZero t
    · rw [if_pos (hguard.mpr hlead)]
      exact iff_of_false Bool.false_ne_true fun h => h.1 hlead
    · rw [if_neg (mt hguard.mp hlead), hall]
      exact (and_iff_right hlead).symm
  · have hguard : (t.length > 1 ∧ charAt t 0 = ascii '0' ∧ charAt t 1 ≠ ascii '.') ↔
        Numeral.LeadingZero t := Iff.rfl
    rw [if_neg hminus]
    by_cases hlead : Numeral.LeadingZero t
    · rw [if_pos (hguard.mpr hlead)]
      exact iff_of_false Bool.false_ne_true fun h => h.1 hlead
    · rw [if_neg (mt hguard.mp hlead), if_neg fun h => hminus h.2.1.1, hall]
      exact (and_iff_right hlead).symm

theorem isDecimal_render {p : Numeral} (h : p.Lax) :
    isDecimal p.render p.render.length = true ↔ ¬ p.ZeroExponent := by
  have hall : ∀ c : UInt8, c ∈ literal "0123456789+-.eE" → c ∉ [ascii 'x', ascii 'X', 0] :=
    forall_uint8 (by decide +kernel)
  have hchars : ∀ c ∈ p.render, c ∉ [ascii 'x', ascii 'X', 0] :=
    fun c hc => hall c (h.decimal.chars c hc)
  rw [isDecimal_eq_true_iff, skipMinus_render h.decimal,
    Numeral.not_leadingZero_iff h.decimal h.begins, and_iff_left hchars, and_iff_right h]

/-! ## `strtod` -/

theorem isInfOrNan_eq_false {s : List UInt8} (h : charAt (skipMinus s) 0 ∉ literal "iInN") :
    isInfOrNan s = false := by
  have hall : ∀ c : UInt8, c ∉ literal "iInN" →
      (if ascii 'A' ≤ c ∧ c ≤ ascii 'Z' then c + 32 else c) ∉ literal "in" :=
    forall_uint8 (by decide +kernel)
  unfold isInfOrNan
  generalize skipMinus s = u at h
  cases u with
  | nil => decide
  | cons c u =>
      have hc := hall c h
      refine decide_eq_false fun hmem => hc ?_
      rw [List.take_succ_cons, List.map_cons, List.mem_pair] at hmem
      rcases hmem with hinf | hnan
      · rw [(List.cons.inj hinf).1]
        decide
      · rw [(List.cons.inj hnan).1]
        decide

theorem skipMinus_append {t : List UInt8} (ht : t ≠ []) (r : List UInt8) :
    skipMinus (t ++ r) = skipMinus t ++ r := by
  obtain ⟨c, t, rfl⟩ := List.exists_cons_of_ne_nil ht
  unfold skipMinus
  rw [charAt_append (by simp)]
  split_ifs <;> rfl

theorem Numeral.Decimal.render_ne_nil {p : Numeral} (h : p.Decimal) : p.render ≠ [] := by
  intro hnil
  have hnumber := h.isNumber
  rw [hnil] at hnumber
  exact absurd hnumber (by decide)

/-- A number that nothing continues is read whole. -/
theorem strtod_render (libc : Libc) {p : Numeral} (h : p.Decimal) {r : List UInt8}
    (hr : Longest p.render r) :
    libc.strtod (p.render ++ r) = (libc.number p.render).map (·, p.render.length) := by
  have hfinite : isInfOrNan (p.render ++ r) = false := by
    refine isInfOrNan_eq_false ?_
    have hne : 0 < p.unsigned.length := by
      refine List.length_pos_iff.mpr fun hnil => ?_
      have hunsigned := h.isUnsigned
      rw [hnil] at hunsigned
      exact absurd hunsigned (by decide)
    have hdigit : ∀ c : UInt8, isdigit c = true → c ∉ literal "iInN" :=
      forall_uint8 (by decide +kernel)
    rw [skipMinus_append h.render_ne_nil, skipMinus_render h, charAt_append hne]
    rcases h.first with ⟨-, hfirst⟩ | ⟨-, hpoint⟩
    · exact hdigit _ hfirst
    · rw [hpoint]
      decide
  rw [Libc.strtod, hfinite, if_neg Bool.false_ne_true, numberLength_append h.isNumber hr,
    List.take_left]

/-- What has been read. -/
theorem eq_numberLength_of_strtod {libc : Libc} {s : List UInt8} {x : ℚ} {n : Nat}
    (h : libc.strtod s = some (x, n)) : n = numberLength s ∧ libc.number (s.take n) = some x := by
  unfold Libc.strtod at h
  split_ifs at h
  obtain ⟨y, hy, heq⟩ := Option.map_eq_some_iff.mp h
  obtain ⟨rfl, rfl⟩ := Prod.mk.inj heq
  exact ⟨rfl, hy⟩

/-! ## Natural numbers -/

/-- The number that digits spell. -/
def readNat (digits : List UInt8) : Nat := digits.foldl (fun n d => 10 * n + (d.toNat - 48)) 0

/-- The digits of a number. -/
def showNat (n : Nat) : List UInt8 :=
  if n = 0 then [ascii '0'] else (Nat.digits 10 n).reverse.map fun d => UInt8.ofNat (48 + d)

/-- Natural numbers as the C library reads and prints them, up to where doubles have gaps. Where
    there is no number, `strtod` gives 0. -/
def naturalLibc : Libc where
  number t := if t.all isdigit ∧ readNat t < 2 ^ 53 then some (readNat t : ℚ) else none
  sprintf x := showNat x.num.toNat

theorem readNat_digits {ds : List Nat} (h : ∀ d ∈ ds, d < 10) :
    readNat (ds.reverse.map fun d => UInt8.ofNat (48 + d)) = Nat.ofDigits 10 ds := by
  induction ds with
  | nil => rfl
  | cons d ds ih =>
      obtain ⟨hd, hds⟩ := List.forall_mem_cons.mp h
      have hbyte : (UInt8.ofNat (48 + d)).toNat = 48 + d :=
        UInt8.toNat_ofNat_of_lt' (by show 48 + d < 256; omega)
      have ih := ih hds
      rw [readNat] at ih ⊢
      rw [List.reverse_cons, List.map_append, List.foldl_append, ih, List.map_singleton,
        List.foldl_cons, List.foldl_nil, hbyte, Nat.ofDigits_cons]
      omega

theorem readNat_showNat (n : Nat) : readNat (showNat n) = n := by
  unfold showNat
  split_ifs with h
  · rw [h]
    decide
  · rw [readNat_digits fun d hd => Nat.digits_lt_base (by decide) hd, Nat.ofDigits_digits]

theorem isdigit_ofNat {d : Nat} (h : d < 10) : isdigit (UInt8.ofNat (48 + d)) = true := by
  have hall : ∀ d < 10, isdigit (UInt8.ofNat (48 + d)) = true := by decide
  exact hall d h

theorem isdigit_of_mem_showNat {n : Nat} : ∀ c ∈ showNat n, isdigit c = true := by
  intro c hc
  unfold showNat at hc
  split_ifs at hc
  · rw [List.mem_singleton.mp hc]
    decide
  · obtain ⟨d, hd, rfl⟩ := List.mem_map.mp hc
    exact isdigit_ofNat (Nat.digits_lt_base (by decide) (List.mem_reverse.mp hd))

/-- A number is `0` or does not begin with it. -/
theorem showNat_cases (n : Nat) : showNat n = [ascii '0'] ∨
    ∃ c t, showNat n = c :: t ∧ c ≠ ascii '0' := by
  unfold showNat
  split_ifs with h
  · exact Or.inl rfl
  · right
    have hne : Nat.digits 10 n ≠ [] := Nat.digits_ne_nil_iff_ne_zero.mpr h
    have hlast := Nat.getLast_digit_ne_zero 10 h
    have hlt : (Nat.digits 10 n).getLast hne < 10 :=
      Nat.digits_lt_base (by decide) (List.getLast_mem hne)
    have hall : ∀ d < 10, d ≠ 0 → UInt8.ofNat (48 + d) ≠ ascii '0' := by decide
    rw [← List.dropLast_append_getLast hne, List.reverse_append, List.reverse_singleton,
      List.singleton_append, List.map_cons]
    exact ⟨_, _, rfl, hall _ hlt hlast⟩

/-- The number in its parts. -/
def natNumeral (n : Nat) : Numeral := ⟨false, showNat n, none, none⟩

@[simp] theorem render_natNumeral (n : Nat) : (natNumeral n).render = showNat n := by
  simp [natNumeral, Numeral.render, Numeral.unsigned]

theorem json_natNumeral (n : Nat) : (natNumeral n).Json := by
  refine ⟨?_, by simp [natNumeral], by simp [natNumeral]⟩
  rcases showNat_cases n with hzero | ⟨c, t, hn, hc⟩
  · exact Or.inl hzero
  · have hdigits : Digits (showNat n) := ⟨by rw [hn]; exact List.cons_ne_nil c t,
      isdigit_of_mem_showNat⟩
    exact Or.inr ⟨hdigits, by rw [natNumeral, hn]; exact hc⟩

theorem not_zeroExponent_natNumeral (n : Nat) : ¬ (natNumeral n).ZeroExponent := fun h => h.2.2 rfl

theorem naturalLibc_number {n : Nat} (h : n < 2 ^ 53) :
    naturalLibc.number (natNumeral n).render = some (n : ℚ) := by
  have hall : (showNat n).all isdigit = true := List.all_eq_true.mpr isdigit_of_mem_showNat
  rw [render_natNumeral, naturalLibc]
  dsimp only
  rw [readNat_showNat, if_pos ⟨hall, h⟩]

end Lightsocks
