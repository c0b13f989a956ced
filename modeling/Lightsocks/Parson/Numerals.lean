import Lightsocks.Ctype
import Lightsocks.Lib.Bits
import Mathlib.Data.Nat.Find

/-
  Texts of numbers, as JSON writes them and as the C library reads them.

  `strtod` reads the longest beginning of a text that is a number (`numberLength`). What is a
  number to it (`isNumber`) goes beyond JSON (`Numeral.Json`): digits may be missing on one side
  of the point, zeros may lead, and there are hexadecimal numbers.
-/

namespace Lightsocks

open Lib

/-- `isdigit`. -/
def isdigit (c : UInt8) : Bool := ascii '0' ≤ c && c ≤ ascii '9'

/-- `isxdigit`. -/
def isxdigit (c : UInt8) : Bool :=
  isdigit c || (ascii 'a' ≤ c && c ≤ ascii 'f') || (ascii 'A' ≤ c && c ≤ ascii 'F')

/-! ## Decimal numbers -/

/-- A decimal number in its parts: the digits before the point, those behind it if there is a
    point, and the mark and the digits of the exponent if there is one. -/
structure Numeral where
  minus : Bool
  int : List UInt8
  fraction : Option (List UInt8)
  exponent : Option (List UInt8 × List UInt8)

/-- Without its sign. -/
def Numeral.unsigned (p : Numeral) : List UInt8 :=
  p.int ++ (p.fraction.elim [] (ascii '.' :: ·) ++ p.exponent.elim [] fun e => e.1 ++ e.2)

/-- The whole of it. -/
def Numeral.render (p : Numeral) : List UInt8 :=
  (if p.minus then literal "-" else []) ++ p.unsigned

/-- What the digits of an exponent stand behind. -/
def exponentMarks : List (List UInt8) :=
  ["e", "E", "e+", "E+", "e-", "E-"].map literal

/-- At least one digit. -/
def Digits (ds : List UInt8) : Prop := ds ≠ [] ∧ ∀ c ∈ ds, isdigit c = true

/-- The numbers of JSON: no zero leads, and where there is a point or a mark there are digits. -/
structure Numeral.Json (p : Numeral) : Prop where
  int : p.int = literal "0" ∨ Digits p.int ∧ charAt p.int 0 ≠ ascii '0'
  fraction : ∀ ds ∈ p.fraction, Digits ds
  exponent : ∀ e ∈ p.exponent, e.1 ∈ exponentMarks ∧ Digits e.2

/-- A number of JSON, or one without digits behind the point, or without those before it when
    there is a minus sign. -/
def Numeral.Lax (p : Numeral) : Prop :=
  p.Json ∨ (p.fraction = some [] ∧ { p with fraction := none }.Json) ∨
    (p.minus = true ∧ p.int = [] ∧ p.fraction ≠ none ∧ { p with int := literal "0" }.Json)

/-- `0e1`. -/
def Numeral.ZeroExponent (p : Numeral) : Prop :=
  p.int = literal "0" ∧ p.fraction = none ∧ p.exponent ≠ none

/-- The decimal numbers of C: a digit somewhere. -/
structure Numeral.Decimal (p : Numeral) : Prop where
  int : ∀ c ∈ p.int, isdigit c = true
  fraction : ∀ ds ∈ p.fraction, ∀ c ∈ ds, isdigit c = true
  digit : p.int ≠ [] ∨ ∃ ds ∈ p.fraction, ds ≠ []
  exponent : ∀ e ∈ p.exponent, e.1 ∈ exponentMarks ∧ Digits e.2

/-! ## What `strtod` takes for a number -/

/-- An exponent, or nothing. -/
def isExponent (letters : List UInt8) : List UInt8 → Bool
  | [] => true
  | e :: s =>
      let digits := if charAt s 0 ∈ literal "+-" then s.drop 1 else s
      e ∈ letters && !digits.isEmpty && digits.all isdigit

/-- Digits, maybe with a point, and an exponent. -/
def isUnsigned (digit : UInt8 → Bool) (letters : List UInt8) (t : List UInt8) : Bool :=
  let int := t.takeWhile digit
  let rest := t.dropWhile digit
  if charAt rest 0 = ascii '.' then
    let fraction := (rest.drop 1).takeWhile digit
    !(int.isEmpty && fraction.isEmpty) && isExponent letters ((rest.drop 1).dropWhile digit)
  else !int.isEmpty && isExponent letters rest

/-- Without the minus sign, if there is one. -/
def skipMinus (t : List UInt8) : List UInt8 := if charAt t 0 = ascii '-' then t.drop 1 else t

/-- A number as `strtod` wants it in the C locale, decimal or hexadecimal. There may also be
    whitespace and a plus sign before it, which do not occur here. -/
def isNumber (t : List UInt8) : Bool :=
  let u := skipMinus t
  isUnsigned isdigit (literal "eE") u ||
    (charAt u 0 = ascii '0' && charAt u 1 ∈ literal "xX" &&
      isUnsigned isxdigit (literal "pP") (u.drop 2))

/-- How much `strtod` reads: the longest beginning that is a number. -/
def numberLength (s : List UInt8) : Nat :=
  Nat.findGreatest (fun n => isNumber (s.take n) = true) s.length

/-- `strtod` also reads infinities, and what is not a number. -/
def isInfOrNan (s : List UInt8) : Bool :=
  ((skipMinus s).take 3).map (fun c => if ascii 'A' ≤ c ∧ c ≤ ascii 'Z' then c + 32 else c) ∈
    [literal "inf", literal "nan"]

/-- In `t ++ r`, no number reaches into `r`. -/
def Longest (t r : List UInt8) : Prop :=
  ∀ t', isNumber t' = true → t' <+: t ++ r → t'.length ≤ t.length

/-! ## Characters -/

theorem charAt_append {t : List UInt8} {k : Nat} (h : k < t.length) (r : List UInt8) :
    charAt (t ++ r) k = charAt t k := by
  rw [charAt, charAt, List.getD_eq_getElem?_getD, List.getElem?_append_left h,
    ← List.getD_eq_getElem?_getD]

theorem charAt_mem {t : List UInt8} {k : Nat} (h : k < t.length) : charAt t k ∈ t := by
  rw [charAt, List.getD_eq_getElem _ _ h]
  exact List.getElem_mem h

/-- What is a character of some number. -/
def isNumberChar (c : UInt8) : Bool := isxdigit c || c ∈ literal "xXpP.+-"

theorem numberChar_spec : ∀ c : UInt8, isNumberChar c = true →
    c ≠ 0 ∧ c.toNat < 0x80 ∧ isspace c = false ∧ c ∉ literal ",]\x7d" :=
  forall_uint8 (by decide +kernel)

theorem numberChar_of_isdigit : ∀ c : UInt8, isdigit c = true → isNumberChar c = true :=
  forall_uint8 (by decide +kernel)

theorem isdigit_spec : ∀ c : UInt8, isdigit c = true →
    (ascii '0' ≤ c ∧ c ≤ ascii '9') ∧ c ∉ literal "+-.eExXiInN" ∧ c ≠ 0 ∧ c.toNat < 0x80 :=
  forall_uint8 (by decide +kernel)

theorem exponent_chars {letters : List UInt8} (hletters : ∀ c ∈ letters, isNumberChar c = true)
    {t : List UInt8} (h : isExponent letters t = true) : ∀ c ∈ t, isNumberChar c = true := by
  cases t with
  | nil => exact List.forall_mem_nil _
  | cons e s =>
      rw [isExponent] at h
      simp only [Bool.and_eq_true, decide_eq_true_eq] at h
      obtain ⟨⟨he, -⟩, hdigits⟩ := h
      refine List.forall_mem_cons.mpr ⟨hletters e he, ?_⟩
      have hsign : ∀ c ∈ literal "+-", isNumberChar c = true := List.all_eq_true.mp (by decide)
      split_ifs at hdigits with hs
      · cases s with
        | nil => exact List.forall_mem_nil _
        | cons c s =>
            exact List.forall_mem_cons.mpr ⟨hsign c hs, fun d hd =>
              numberChar_of_isdigit d (List.all_eq_true.mp hdigits d hd)⟩
      · exact fun d hd => numberChar_of_isdigit d (List.all_eq_true.mp hdigits d hd)

theorem unsigned_chars {digit : UInt8 → Bool} {letters : List UInt8}
    (hdigit : ∀ c, digit c = true → isNumberChar c = true)
    (hletters : ∀ c ∈ letters, isNumberChar c = true) {t : List UInt8}
    (h : isUnsigned digit letters t = true) : ∀ c ∈ t, isNumberChar c = true := by
  have htake : ∀ s : List UInt8, ∀ c ∈ s.takeWhile digit, isNumberChar c = true :=
    fun s c hc => hdigit c (List.mem_takeWhile_imp hc)
  rw [← List.takeWhile_append_dropWhile (p := digit) (l := t), List.forall_mem_append]
  refine ⟨htake t, ?_⟩
  unfold isUnsigned at h
  generalize t.dropWhile digit = rest at h ⊢
  dsimp only at h
  split_ifs at h with hpoint
  · cases rest with
    | nil => exact List.forall_mem_nil _
    | cons c rest =>
        obtain rfl : c = ascii '.' := hpoint
        rw [List.drop_succ_cons, List.drop_zero, Bool.and_eq_true] at h
        refine List.forall_mem_cons.mpr ⟨by decide, ?_⟩
        rw [← List.takeWhile_append_dropWhile (p := digit) (l := rest), List.forall_mem_append]
        exact ⟨htake rest, exponent_chars hletters h.2⟩
  · rw [Bool.and_eq_true] at h
    exact exponent_chars hletters h.2

theorem number_chars {t : List UInt8} (h : isNumber t = true) :
    ∀ c ∈ t, isNumberChar c = true := by
  have hskip : ∀ c ∈ skipMinus t, isNumberChar c = true := by
    rw [isNumber] at h
    generalize skipMinus t = u at h ⊢
    rw [Bool.or_eq_true, Bool.and_eq_true, Bool.and_eq_true, decide_eq_true_eq,
      decide_eq_true_eq] at h
    rcases h with h | ⟨⟨hzero, hx⟩, h⟩
    · exact unsigned_chars numberChar_of_isdigit (List.all_eq_true.mp (by decide)) h
    · have hchars := unsigned_chars (fun c hc => by rw [isNumberChar, hc, Bool.true_or])
        (List.all_eq_true.mp (by decide)) h
      match u with
      | [] => exact List.forall_mem_nil _
      | [c] =>
          obtain rfl : c = ascii '0' := hzero
          exact List.forall_mem_singleton.mpr (by decide)
      | c :: x :: u =>
          obtain rfl : c = ascii '0' := hzero
          have hall : ∀ x ∈ literal "xX", isNumberChar x = true := List.all_eq_true.mp (by decide)
          exact List.forall_mem_cons.mpr ⟨by decide, List.forall_mem_cons.mpr ⟨hall x hx, hchars⟩⟩
  unfold skipMinus at hskip
  split_ifs at hskip with hminus
  · cases t with
    | nil => exact List.forall_mem_nil _
    | cons c t =>
        obtain rfl : c = ascii '-' := hminus
        exact List.forall_mem_cons.mpr ⟨by decide, hskip⟩
  · exact hskip

/-! ## The longest beginning -/

theorem numberLength_le (s : List UInt8) : numberLength s ≤ s.length := Nat.findGreatest_le _

theorem isNumber_take {s : List UInt8} (h : numberLength s ≠ 0) :
    isNumber (s.take (numberLength s)) = true :=
  Nat.findGreatest_of_ne_zero (P := fun n => isNumber (s.take n) = true) rfl h

theorem le_numberLength {t s : List UInt8} (ht : isNumber t = true) (hs : t <+: s) :
    t.length ≤ numberLength s := by
  refine Nat.le_findGreatest hs.length_le ?_
  rw [← List.prefix_iff_eq_take.mp hs]
  exact ht

/-- A number that nothing continues is what is read. -/
theorem numberLength_append {t r : List UInt8} (ht : isNumber t = true) (hr : Longest t r) :
    numberLength (t ++ r) = t.length := by
  refine Nat.le_antisymm ?_ (le_numberLength ht (List.prefix_append t r))
  by_cases hzero : numberLength (t ++ r) = 0
  · rw [hzero]
    exact Nat.zero_le _
  · have hlen := hr _ (isNumber_take hzero) (List.take_prefix _ _)
    rwa [List.length_take_of_le (numberLength_le _)] at hlen

/-- Nothing continues what was read. -/
theorem longest_numberLength (s : List UInt8) :
    Longest (s.take (numberLength s)) (s.drop (numberLength s)) := by
  intro t' ht' hpre
  rw [List.take_append_drop] at hpre
  rw [List.length_take_of_le (numberLength_le s)]
  exact le_numberLength ht' hpre

/-- What is read is ASCII. -/
theorem ascii_numberLength (s : List UInt8) :
    ∀ c ∈ s.take (numberLength s), c.toNat < 0x80 := by
  intro c hc
  by_cases hzero : numberLength s = 0
  · rw [hzero] at hc
    exact absurd hc List.not_mem_nil
  · exact (numberChar_spec c (number_chars (isNumber_take hzero) c hc)).2.1

/-- What may stand behind a number in JSON. -/
def Delimits (r : List UInt8) : Prop :=
  ∀ c ∈ r.head?, isspace c = true ∨ c ∈ literal ",]\x7d"

/-- No number goes on behind a delimiter. -/
theorem Delimits.longest {r : List UInt8} (hr : Delimits r) (t : List UInt8) : Longest t r := by
  intro t' ht' hpre
  by_contra hlt
  obtain ⟨s, hs⟩ := List.prefix_of_prefix_length_le (List.prefix_append t r) hpre
    (Nat.le_of_not_le hlt)
  cases s with
  | nil =>
      rw [← hs, List.append_nil] at hlt
      exact hlt (Nat.le_refl _)
  | cons c s =>
      rw [← hs, List.prefix_append_right_inj] at hpre
      have hc : c ∈ r.head? := by
        obtain ⟨r', hr'⟩ := hpre
        rw [← hr']
        rfl
      have hchar := numberChar_spec c (number_chars ht' c (by simp [← hs]))
      rcases hr c hc with hspace | hdelimiter
      · rw [hchar.2.2.1] at hspace
        cases hspace
      · exact hchar.2.2.2 hdelimiter

/-! ## Numbers and their parts -/

theorem takeWhile_append_stop {digit : UInt8 → Bool} {a r : List UInt8}
    (ha : ∀ c ∈ a, digit c = true) (hr : ∀ c ∈ r.head?, digit c = false) :
    (a ++ r).takeWhile digit = a ∧ (a ++ r).dropWhile digit = r := by
  rw [List.takeWhile_append_of_pos ha, List.dropWhile_append_of_pos ha]
  cases r with
  | nil => exact ⟨List.append_nil a, rfl⟩
  | cons c r =>
      have hc : ¬ digit c = true := by rw [hr c rfl]; exact Bool.false_ne_true
      rw [List.takeWhile_cons_of_neg hc, List.dropWhile_cons_of_neg hc, List.append_nil]
      exact ⟨rfl, rfl⟩

theorem isExponent_mark {mark ds : List UInt8} (hmark : mark ∈ exponentMarks) (hds : Digits ds) :
    isExponent (literal "eE") (mark ++ ds) = true := by
  obtain ⟨d, ds, rfl⟩ := List.exists_cons_of_ne_nil hds.1
  have hd : d ∉ literal "+-" := fun hmem =>
    (isdigit_spec d (hds.2 d List.mem_cons_self)).2.1 (List.mem_append_left (literal ".eExXiInN")
      hmem)
  have hall : (d :: ds).all isdigit = true := List.all_eq_true.mpr hds.2
  have hsign : ∀ e c : UInt8, e ∈ literal "eE" → c ∈ literal "+-" →
      isExponent (literal "eE") (e :: c :: d :: ds) = true := by
    intro e c he hc
    have hc' : charAt (c :: d :: ds) 0 ∈ literal "+-" := hc
    rw [isExponent, if_pos hc']
    simpa [he] using hall
  have hplain : ∀ e : UInt8, e ∈ literal "eE" →
      isExponent (literal "eE") (e :: d :: ds) = true := by
    intro e he
    have hd' : charAt (d :: ds) 0 ∉ literal "+-" := hd
    rw [isExponent, if_neg hd']
    simpa [he] using hall
  simp only [exponentMarks, List.map_cons, List.map_nil, List.mem_cons, List.not_mem_nil,
    or_false] at hmark
  rcases hmark with rfl | rfl | rfl | rfl | rfl | rfl
  · exact hplain (ascii 'e') (by decide)
  · exact hplain (ascii 'E') (by decide)
  · exact hsign (ascii 'e') (ascii '+') (by decide) (by decide)
  · exact hsign (ascii 'E') (ascii '+') (by decide) (by decide)
  · exact hsign (ascii 'e') (ascii '-') (by decide) (by decide)
  · exact hsign (ascii 'E') (ascii '-') (by decide) (by decide)

theorem exists_of_isExponent {t : List UInt8} (h : isExponent (literal "eE") t = true) :
    ∃ exponent : Option (List UInt8 × List UInt8),
      (∀ e ∈ exponent, e.1 ∈ exponentMarks ∧ Digits e.2) ∧
        t = exponent.elim [] fun e => e.1 ++ e.2 := by
  cases t with
  | nil => exact ⟨none, by simp, rfl⟩
  | cons e s =>
      rw [isExponent] at h
      simp only [Bool.and_eq_true, decide_eq_true_eq, Bool.not_eq_true', List.isEmpty_eq_false_iff]
        at h
      obtain ⟨⟨he, hne⟩, hdigits⟩ := h
      rw [List.all_eq_true] at hdigits
      split_ifs at hne hdigits with hs
      · cases s with
        | nil => exact absurd rfl hne
        | cons c ds =>
            have hall : (literal "eE").all (fun e => (literal "+-").all fun c =>
                [e, c] ∈ exponentMarks) = true := by decide
            have hmark := List.all_eq_true.mp (List.all_eq_true.mp hall e he) c hs
            exact ⟨some ([e, c], ds),
              by rintro _ ⟨⟩; exact ⟨of_decide_eq_true hmark, hne, hdigits⟩, rfl⟩
      · have hall : (literal "eE").all (fun e => [e] ∈ exponentMarks) = true := by decide
        have hmark := List.all_eq_true.mp hall e he
        exact ⟨some ([e], s), by rintro _ ⟨⟩; exact ⟨of_decide_eq_true hmark, hne, hdigits⟩, rfl⟩

/-- A decimal number is one. -/
theorem Numeral.Decimal.isUnsigned {p : Numeral} (h : p.Decimal) :
    isUnsigned isdigit (literal "eE") p.unsigned = true := by
  have hletter : ∀ mark ∈ exponentMarks, ∃ e s, mark = e :: s ∧ isdigit e = false ∧
      e ≠ ascii '.' := by
    have hall : ∀ mark ∈ exponentMarks, mark ≠ [] ∧ isdigit (charAt mark 0) = false ∧
        charAt mark 0 ≠ ascii '.' := by decide +kernel
    intro mark hmark
    obtain ⟨hne, hdigit, hpoint⟩ := hall mark hmark
    obtain ⟨e, s, rfl⟩ := List.exists_cons_of_ne_nil hne
    exact ⟨e, s, rfl, hdigit, hpoint⟩
  -- the exponent
  have hexponent : isExponent (literal "eE") (p.exponent.elim [] fun e => e.1 ++ e.2) = true := by
    cases hp : p.exponent with
    | none => rfl
    | some e =>
        obtain ⟨hmark, hds⟩ := h.exponent e hp
        exact isExponent_mark hmark hds
  have hstop : ∀ c ∈ (p.exponent.elim [] fun e => e.1 ++ e.2).head?, isdigit c = false ∧
      c ≠ ascii '.' := by
    cases hp : p.exponent with
    | none => simp
    | some e =>
        obtain ⟨e', s, he, hdigit, hpoint⟩ := hletter e.1 (h.exponent e hp).1
        simp [he, hdigit, hpoint]
  unfold Lightsocks.isUnsigned Numeral.unsigned
  cases hfraction : p.fraction with
  | none =>
      obtain ⟨hint, hrest⟩ := takeWhile_append_stop h.int fun c hc => (hstop c hc).1
      have hne : p.int ≠ [] := by
        rcases h.digit with hne | ⟨ds, hds, -⟩
        · exact hne
        · rw [hfraction] at hds
          cases hds
      have hpoint : charAt (p.exponent.elim [] fun e => e.1 ++ e.2) 0 ≠ ascii '.' := by
        generalize (p.exponent.elim [] fun e => e.1 ++ e.2) = r at hstop
        cases r with
        | nil => decide
        | cons c r => exact (hstop c rfl).2
      rw [Option.elim_none, List.nil_append, hint, hrest]
      dsimp only
      rw [if_neg hpoint, hexponent]
      simpa using hne
  | some ds =>
      obtain ⟨hint, hrest⟩ := takeWhile_append_stop (r := ascii '.' :: ds ++
        (p.exponent.elim [] fun e => e.1 ++ e.2)) h.int (by
          intro c hc
          obtain rfl := Option.some.inj hc
          decide)
      obtain ⟨hds, hrest'⟩ := takeWhile_append_stop (h.fraction ds hfraction)
        fun c hc => (hstop c hc).1
      rw [Option.elim_some, hint, hrest]
      dsimp only
      have hpoint : charAt (ascii '.' :: ds ++ (p.exponent.elim [] fun e => e.1 ++ e.2)) 0 =
        ascii '.' := rfl
      rw [if_pos hpoint, List.cons_append, List.drop_succ_cons, List.drop_zero, hds, hrest',
        hexponent, Bool.and_true]
      rcases h.digit with hne | ⟨ds', hds', hne⟩
      · simp [hne]
      · rw [hfraction] at hds'
        obtain rfl := Option.some.inj hds'
        simp [hne]

/-- What is one without its sign has parts. -/
theorem exists_of_isUnsigned {u : List UInt8} (h : isUnsigned isdigit (literal "eE") u = true)
    (minus : Bool) : ∃ p : Numeral, p.Decimal ∧ p.minus = minus ∧ p.unsigned = u := by
  have hint : ∀ c ∈ u.takeWhile isdigit, isdigit c = true := fun c hc =>
    List.mem_takeWhile_imp hc
  have hu := (List.takeWhile_append_dropWhile (p := isdigit) (l := u)).symm
  unfold isUnsigned at h
  generalize u.takeWhile isdigit = int at h hint hu
  generalize u.dropWhile isdigit = rest at h hu
  dsimp only at h
  split_ifs at h with hpoint
  · cases rest with
    | nil => exact absurd hpoint (by decide)
    | cons c rest =>
        obtain rfl : c = ascii '.' := hpoint
        rw [List.drop_succ_cons, List.drop_zero, Bool.and_eq_true] at h
        obtain ⟨exponent, hexponent, hexp⟩ := exists_of_isExponent h.2
        refine ⟨⟨minus, int, some (rest.takeWhile isdigit), exponent⟩, ⟨hint, ?_, ?_, hexponent⟩,
          rfl, ?_⟩
        · rintro _ ⟨⟩
          exact fun c hc => List.mem_takeWhile_imp hc
        · simpa [imp_iff_not_or] using h.1
        · have hrest : rest.takeWhile isdigit ++ (exponent.elim [] fun e => e.1 ++ e.2) = rest := by
            rw [← hexp, List.takeWhile_append_dropWhile]
          rw [hu, Numeral.unsigned, Option.elim_some, List.cons_append, hrest]
  · rw [Bool.and_eq_true] at h
    obtain ⟨exponent, hexponent, hexp⟩ := exists_of_isExponent h.2
    refine ⟨⟨minus, int, none, exponent⟩, ⟨hint, by simp, ?_, hexponent⟩, rfl, ?_⟩
    · exact Or.inl (by simpa using h.1)
    · rw [hu, hexp]
      rfl

/-- The first character of a decimal number without its sign. -/
theorem Numeral.Decimal.first {p : Numeral} (h : p.Decimal) :
    p.int ≠ [] ∧ isdigit (charAt p.unsigned 0) = true ∨
      p.int = [] ∧ charAt p.unsigned 0 = ascii '.' := by
  unfold Numeral.unsigned
  cases hint : p.int with
  | cons d ds =>
      exact Or.inl ⟨List.cons_ne_nil d ds, h.int d (by rw [hint]; exact List.mem_cons_self)⟩
  | nil =>
      right
      obtain ⟨ds, hds, -⟩ := h.digit.resolve_left (not_not.mpr hint)
      rw [Option.mem_def.mp hds]
      exact ⟨rfl, rfl⟩

theorem skipMinus_render {p : Numeral} (h : p.Decimal) : skipMinus p.render = p.unsigned := by
  unfold skipMinus Numeral.render
  cases p.minus with
  | true => rfl
  | false =>
      have hne : charAt p.unsigned 0 ≠ ascii '-' := by
        rcases h.first with ⟨-, hdigit⟩ | ⟨-, hpoint⟩
        · intro heq
          rw [heq] at hdigit
          exact absurd hdigit (by decide)
        · rw [hpoint]
          decide
      exact if_neg hne

theorem Numeral.Decimal.isNumber {p : Numeral} (h : p.Decimal) : isNumber p.render = true := by
  unfold Lightsocks.isNumber
  rw [skipMinus_render h]
  dsimp only
  rw [h.isUnsigned, Bool.true_or]

theorem Numeral.Decimal.chars {p : Numeral} (h : p.Decimal) :
    ∀ c ∈ p.render, c ∈ literal "0123456789+-.eE" := by
  have hdigit : ∀ c : UInt8, isdigit c = true → c ∈ literal "0123456789+-.eE" :=
    forall_uint8 (by decide +kernel)
  have hmarks : ∀ mark ∈ exponentMarks, mark ⊆ literal "0123456789+-.eE" := by decide +kernel
  have hfraction : ∀ c ∈ p.fraction.elim [] (ascii '.' :: ·),
      c ∈ literal "0123456789+-.eE" := by
    cases hp : p.fraction with
    | none => exact List.forall_mem_nil _
    | some ds =>
        exact List.forall_mem_cons.mpr ⟨by decide, fun c hc => hdigit c (h.fraction ds hp c hc)⟩
  have hexponent : ∀ c ∈ (p.exponent.elim [] fun e => e.1 ++ e.2),
      c ∈ literal "0123456789+-.eE" := by
    cases hp : p.exponent with
    | none => exact List.forall_mem_nil _
    | some e =>
        obtain ⟨hmark, hds⟩ := h.exponent e hp
        exact List.forall_mem_append.mpr ⟨fun c hc => hmarks _ hmark hc,
          fun c hc => hdigit c (hds.2 c hc)⟩
  have hminus : ∀ c ∈ (if p.minus then literal "-" else []), c ∈ literal "0123456789+-.eE" := by
    cases p.minus with
    | false => exact List.forall_mem_nil _
    | true => exact List.forall_mem_singleton.mpr (by decide)
  exact List.forall_mem_append.mpr ⟨hminus, List.forall_mem_append.mpr
    ⟨fun c hc => hdigit c (h.int c hc), List.forall_mem_append.mpr ⟨hfraction, hexponent⟩⟩⟩

/-- A number without an `x` is decimal. -/
theorem exists_of_isNumber {t : List UInt8} (h : isNumber t = true)
    (hx : ∀ c ∈ t, c ∉ literal "xX") : ∃ p : Numeral, p.Decimal ∧ p.render = t := by
  have hskip : skipMinus t ⊆ t := by
    unfold skipMinus
    split_ifs
    · exact List.drop_subset 1 t
    · exact List.Subset.refl t
  have hdecimal : isUnsigned isdigit (literal "eE") (skipMinus t) = true := by
    rw [isNumber, Bool.or_eq_true, Bool.and_eq_true, Bool.and_eq_true] at h
    refine h.resolve_right fun hhex => ?_
    have hchar := of_decide_eq_true hhex.1.2
    by_cases hlen : 1 < (skipMinus t).length
    · exact hx _ (hskip (charAt_mem hlen)) hchar
    · rw [charAt, List.getD_eq_default _ _ (Nat.le_of_not_lt hlen)] at hchar
      exact absurd hchar (by decide)
  unfold skipMinus at hdecimal
  split_ifs at hdecimal with hminus
  · obtain ⟨p, hp, hpminus, hu⟩ := exists_of_isUnsigned hdecimal true
    refine ⟨p, hp, ?_⟩
    cases t with
    | nil => exact absurd hminus (by decide)
    | cons c t =>
        obtain rfl : c = ascii '-' := hminus
        rw [Numeral.render, hpminus, if_pos rfl, hu]
        rfl
  · obtain ⟨p, hp, hpminus, hu⟩ := exists_of_isUnsigned hdecimal false
    refine ⟨p, hp, ?_⟩
    rw [Numeral.render, hpminus, hu]
    rfl

/-! ## What `parson.c` takes of them -/

namespace Numeral

variable {p : Numeral}

theorem Json.decimal (h : p.Json) : p.Decimal := by
  refine ⟨?_, fun ds hds => (h.fraction ds hds).2, Or.inl ?_, h.exponent⟩
  · rcases h.int with hzero | ⟨hdigits, -⟩
    · rw [hzero]
      exact List.forall_mem_singleton.mpr (by decide)
    · exact hdigits.2
  · rcases h.int with hzero | ⟨hdigits, -⟩
    · rw [hzero]
      decide
    · exact hdigits.1

theorem Lax.decimal (h : p.Lax) : p.Decimal := by
  rcases h with hjson | ⟨hnone, hjson⟩ | ⟨-, hnil, hsome, hjson⟩
  · exact hjson.decimal
  · refine ⟨hjson.decimal.int, ?_, ?_, hjson.exponent⟩
    · rw [hnone]
      rintro _ ⟨⟩
      exact List.forall_mem_nil _
    · exact Or.inl (hjson.decimal.digit.resolve_right (by simp))
  · refine ⟨by rw [hnil]; exact List.forall_mem_nil _, hjson.decimal.fraction, ?_, hjson.exponent⟩
    obtain ⟨ds, hds⟩ := Option.ne_none_iff_exists'.mp hsome
    exact Or.inr ⟨ds, hds, (hjson.fraction ds hds).1⟩

theorem Lax.begins (h : p.Lax) : p.minus = true ∨ p.int ≠ [] := by
  have hne : ∀ {q : Numeral}, q.Json → q.int ≠ [] := by
    intro q hjson
    rcases hjson.int with hzero | ⟨hdigits, -⟩
    · rw [hzero]
      decide
    · exact hdigits.1
  rcases h with hjson | ⟨-, hjson⟩ | ⟨hminus, -⟩
  · exact Or.inr (hne hjson)
  · have hint := hne hjson
    exact Or.inr hint
  · exact Or.inl hminus

/-- Behind the digits that JSON wants before the point, none need be behind it. -/
theorem lax_of_int (h : p.Decimal)
    (hint : p.int = literal "0" ∨ Digits p.int ∧ charAt p.int 0 ≠ ascii '0') : p.Lax := by
  by_cases hnil : p.fraction = some []
  · exact Or.inr (Or.inl ⟨hnil, hint, by simp, h.exponent⟩)
  · refine Or.inl ⟨hint, fun ds hds => ⟨?_, h.fraction ds hds⟩, h.exponent⟩
    rintro rfl
    exact hnil hds

/-- The guard of `is_decimal`: a zero leads that no point follows. -/
def LeadingZero (u : List UInt8) : Prop :=
  1 < u.length ∧ charAt u 0 = ascii '0' ∧ charAt u 1 ≠ ascii '.'

/-- A mark is not a point. -/
theorem charAt_mark {mark : List UInt8} (h : mark ∈ exponentMarks) (ds : List UInt8) :
    mark ≠ [] ∧ charAt (mark ++ ds) 0 ≠ ascii '.' := by
  have hall : ∀ mark ∈ exponentMarks, mark ≠ [] ∧ charAt mark 0 ≠ ascii '.' := by decide +kernel
  obtain ⟨hne, hfirst⟩ := hall mark h
  refine ⟨hne, ?_⟩
  rwa [charAt_append (List.length_pos_iff.mpr hne)]

/-- Without digits before the point. -/
theorem lax_of_nil (h : p.Decimal) (hminus : p.minus = true) (hint : p.int = []) :
    ¬ LeadingZero p.unsigned ∧ p.Lax := by
  obtain ⟨ds, hds, hne⟩ := h.digit.resolve_left (not_not.mpr hint)
  have hfraction : p.fraction = some ds := hds
  constructor
  · rintro ⟨-, hc, -⟩
    rw [unsigned, hint, hfraction] at hc
    have hpoint : ascii '.' = ascii '0' := hc
    exact absurd hpoint (by decide)
  · refine Or.inr (Or.inr ⟨hminus, hint, by rw [hfraction]; simp, Or.inl rfl, ?_, h.exponent⟩)
    intro ds' hds'
    obtain rfl : ds = ds' := Option.some.inj (hds.symm.trans hds')
    exact ⟨hne, h.fraction ds hds⟩

/-- With a single zero. -/
theorem leadingZero_zero_iff (h : p.Decimal) (hint : p.int = literal "0") :
    LeadingZero p.unsigned ↔ p.ZeroExponent := by
  unfold LeadingZero ZeroExponent
  rw [unsigned, hint]
  cases hfraction : p.fraction with
  | some ds => exact iff_of_false (fun hzero => hzero.2.2 rfl) (by simp)
  | none =>
      cases hexponent : p.exponent with
      | none => exact iff_of_false (fun hzero => absurd hzero.1 (by decide)) (by simp)
      | some e =>
          obtain ⟨hne, hmark⟩ := charAt_mark (h.exponent e hexponent).1 e.2
          refine iff_of_true ⟨?_, rfl, hmark⟩ (by simp)
          have hpos := List.length_pos_iff.mpr hne
          simp only [Option.elim_none, Option.elim_some, List.nil_append, List.length_append]
          show 1 < 1 + _
          omega

/-- With a zero before other digits. -/
theorem leadingZero_of_cons (h : p.Decimal) {d : UInt8} {int : List UInt8}
    (hint : p.int = ascii '0' :: d :: int) : LeadingZero p.unsigned ∧ ¬ p.Lax := by
  constructor
  · have hdigit := h.int d (by simp [hint])
    rw [unsigned, hint]
    refine ⟨by simp, rfl, ?_⟩
    rintro (rfl : d = ascii '.')
    exact absurd hdigit (by decide)
  · have hint' : ¬ (p.int = literal "0" ∨ Digits p.int ∧ charAt p.int 0 ≠ ascii '0') := by
      rw [hint]
      rintro (hc | ⟨-, hc⟩)
      · exact absurd (List.cons.inj hc).2 (List.cons_ne_nil _ _)
      · exact hc rfl
    rintro (hjson | ⟨-, hjson⟩ | ⟨-, hnil, -⟩)
    · exact hint' hjson.int
    · exact hint' hjson.int
    · rw [hint] at hnil
      cases hnil

/-- **What passes the guard.** Of the decimal numbers that begin with a digit or a minus sign,
    these are the ones of JSON and those with digits missing, but for `0e1`. -/
theorem not_leadingZero_iff (h : p.Decimal) (hbegins : p.minus = true ∨ p.int ≠ []) :
    ¬ LeadingZero p.unsigned ↔ p.Lax ∧ ¬ p.ZeroExponent := by
  cases hint : p.int with
  | nil =>
      obtain ⟨hzero, hlax⟩ := lax_of_nil h (hbegins.resolve_right (not_not.mpr hint)) hint
      refine iff_of_true hzero ⟨hlax, fun hexponent => ?_⟩
      have hint' := hexponent.1
      rw [hint] at hint'
      exact absurd hint' (by decide)
  | cons d int =>
      by_cases hd : d = ascii '0'
      · cases int with
        | nil =>
            have hzero : p.int = literal "0" := by rw [hint, hd]; rfl
            rw [leadingZero_zero_iff h hzero]
            exact (and_iff_right (lax_of_int h (Or.inl hzero))).symm
        | cons d' int =>
            obtain ⟨hzero, hlax⟩ := leadingZero_of_cons h (hd ▸ hint)
            exact iff_of_false (not_not.mpr hzero) fun hboth => hlax hboth.1
      · have hfirst : charAt p.int 0 ≠ ascii '0' := by rw [hint]; exact hd
        have hne : p.int ≠ [] := by rw [hint]; exact List.cons_ne_nil _ _
        refine iff_of_true ?_ ⟨lax_of_int h (Or.inr ⟨⟨hne, h.int⟩, hfirst⟩), ?_⟩
        · rintro ⟨-, hc, -⟩
          rw [unsigned, charAt_append (List.length_pos_iff.mpr hne)] at hc
          exact hfirst hc
        · rintro ⟨hc, -⟩
          rw [hc] at hfirst
          exact hfirst rfl

end Numeral

end Lightsocks
