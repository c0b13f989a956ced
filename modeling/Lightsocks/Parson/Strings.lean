import Lightsocks.Parson.Utf8

/-
  `lib/parson.c`: strings between quotes.

  `skip_quotes` finds the closing quote, `process_string` replaces the escapes before it. Both
  walk over the same text by different rules; together they read exactly the JSON strings of
  `StringText`, up to the first NUL that an escape has written (`getQuotedString_eq_some_iff`).
  What `json_serialize_string` writes is read back (`getQuotedString_serialize`).

  A C string is given without its terminating NUL, and has no other.
-/

namespace Lightsocks

open Lib

/-! ## Reading -/

/-- The loop of `skip_quotes`: what stands behind the closing quote. -/
def skipToQuote : List UInt8 → Option (List UInt8)
  | [] => none
  | c :: s =>
      if c = ascii '"' then some s
      else if c = ascii '\\' then
        match s with
        | [] => none
        | _ :: s => skipToQuote s
      else skipToQuote s

/-- `skip_quotes`. -/
def skipQuotes (string : List UInt8) : Option (List UInt8) :=
  if charAt string 0 ≠ ascii '"' then none else skipToQuote (string.drop 1)

/-- The escapes of one character. -/
def unescape (c : UInt8) : Option UInt8 :=
  if c = ascii '"' then some (ascii '"')
  else if c = ascii '\\' then some (ascii '\\')
  else if c = ascii '/' then some (ascii '/')
  else if c = ascii 'b' then some 0x08
  else if c = ascii 'f' then some 0x0C
  else if c = ascii 'n' then some 0x0A
  else if c = ascii 'r' then some 0x0D
  else if c = ascii 't' then some 0x09
  else none

theorem parseUtf16_length_le {s out r : List UInt8} (h : parseUtf16 s = some (out, r)) :
    r.length ≤ s.length := by
  unfold parseUtf16 at h
  dsimp only at h
  split at h
  · cases h
  split_ifs at h
  · rw [← (Prod.mk.inj (Option.some.inj h)).2, List.length_drop, List.length_drop]
    omega
  · rw [← (Prod.mk.inj (Option.some.inj h)).2, List.length_drop, List.length_drop]
    omega
  · rw [← (Prod.mk.inj (Option.some.inj h)).2, List.length_drop, List.length_drop]
    omega
  split at h
  · cases h
  split_ifs at h
  rw [← (Prod.mk.inj (Option.some.inj h)).2]
  simp only [List.length_drop]
  omega

/-- The loop of `process_string`, with `n` characters to go: what it writes. -/
def processLoop (n : Nat) (input : List UInt8) : Option (List UInt8) :=
  if n = 0 then some []
  else
    match input with
    | [] => some []
    | c :: s =>
        if c = ascii '\\' then
          match unescape (charAt s 0) with
          | some b => (processLoop (n - 2) (s.drop 1)).map (b :: ·)
          | none =>
              if charAt s 0 = ascii 'u' then
                match _h : parseUtf16 s with
                | none => none
                | some (out, r) =>
                    (processLoop (n - (s.length + 1 - r.length)) r).map (out ++ ·)
              else none
        else if c < 0x20 then none
        else (processLoop (n - 1) s).map (c :: ·)
termination_by input.length
decreasing_by
  · rw [List.length_drop, List.length_cons]
    omega
  · have hr := parseUtf16_length_le _h
    rw [List.length_cons]
    omega
  · exact Nat.lt_succ_self _

/-- `process_string(input, len)`. -/
def processString (input : List UInt8) (len : Nat) : Option (List UInt8) :=
  (processLoop len input).map cString

/-- `get_quoted_string`: the string, and what stands behind it. -/
def getQuotedString (string : List UInt8) : Option (List UInt8 × List UInt8) :=
  match skipQuotes string with
  | none => none
  | some rest =>
      (processString (string.drop 1) (string.length - rest.length - 2)).map (·, rest)

/-! ## The grammar of strings -/

/-- One character of a JSON string, and the bytes it stands for. -/
inductive StringItem : List UInt8 → List UInt8 → Prop
  | plain {b : UInt8} (hcontrol : 0x20 ≤ b) (hquote : b ≠ ascii '"')
      (hescape : b ≠ ascii '\\') : StringItem [b] [b]
  | short {c b : UInt8} (h : unescape c = some b) : StringItem [ascii '\\', c] [b]
  | unicode {c : Char} {t : List UInt8} (h : Spells (utf16 c) t) :
      StringItem t (String.utf8EncodeChar c)

/-- The text between the quotes of a JSON string, and the bytes it stands for. -/
inductive StringText : List UInt8 → List UInt8 → Prop
  | nil : StringText [] []
  | cons {i m t m' : List UInt8} (hi : StringItem i m) (ht : StringText t m') :
      StringText (i ++ t) (m ++ m')

/-- The character stands for itself. -/
def isPlain (b : UInt8) : Bool := 0x20 ≤ b && b ≠ ascii '"' && b ≠ ascii '\\'

/-- A text without escapes stands for itself. -/
theorem stringText_of_all {t : List UInt8} (h : t.all isPlain = true) : StringText t t := by
  induction t with
  | nil => exact .nil
  | cons b t ih =>
      rw [List.all_cons, Bool.and_eq_true] at h
      simp only [isPlain, Bool.and_eq_true, decide_eq_true_eq] at h
      exact .cons (.plain h.1.1.1 h.1.1.2 h.1.2) (ih h.2)

/-- The first character of a text can be taken off. -/
theorem stringItem_cases {i m : List UInt8} (hi : StringItem i m) :
    (∃ b, i = [b] ∧ m = [b] ∧ 0x20 ≤ b ∧ b ≠ ascii '"' ∧ b ≠ ascii '\\') ∨
    (∃ c b, i = [ascii '\\', c] ∧ m = [b] ∧ unescape c = some b) ∨
    ∃ (c : Char) (u : List UInt8), i = ascii '\\' :: ascii 'u' :: u ∧
      Spells (utf16 c) i ∧ m = String.utf8EncodeChar c := by
  cases hi with
  | plain hcontrol hquote hescape => exact Or.inl ⟨_, rfl, rfl, hcontrol, hquote, hescape⟩
  | short h => exact Or.inr (Or.inl ⟨_, _, rfl, rfl, h⟩)
  | unicode h =>
      rename_i c
      have hne : utf16 c ≠ [] := by
        unfold utf16
        split <;> exact List.cons_ne_nil _ _
      cases h' : utf16 c with
      | nil => exact absurd h' hne
      | cons n ns =>
          have hspells := h
          rw [h'] at h
          cases h with
          | cons hn hns => exact Or.inr (Or.inr ⟨c, _, rfl, hspells, rfl⟩)

/-! ### Where the string ends -/

theorem skipToQuote_plain {c : UInt8} (hquote : c ≠ ascii '"') (hescape : c ≠ ascii '\\')
    (s : List UInt8) : skipToQuote (c :: s) = skipToQuote s := by
  rw [skipToQuote.eq_def]
  dsimp only
  rw [if_neg hquote, if_neg hescape]

theorem skipToQuote_escape (c : UInt8) (s : List UInt8) :
    skipToQuote (ascii '\\' :: c :: s) = skipToQuote s := by
  rw [skipToQuote.eq_def]
  dsimp only
  rw [if_neg (by decide), if_pos rfl]

theorem skipToQuote_quote (s : List UInt8) : skipToQuote (ascii '"' :: s) = some s := by
  rw [skipToQuote.eq_def]
  exact if_pos rfl

theorem skipToQuote_all {t : List UInt8} (h : ∀ c ∈ t, c ≠ ascii '"' ∧ c ≠ ascii '\\')
    (s : List UInt8) : skipToQuote (t ++ s) = skipToQuote s := by
  induction t with
  | nil => rfl
  | cons c t ih =>
      obtain ⟨hc, ht⟩ := List.forall_mem_cons.mp h
      rw [List.cons_append, skipToQuote_plain hc.1 hc.2, ih ht]

/-- The characters of an escape `\uXXXX` are digits. -/
theorem SpellsUnit.forall {h : List UInt8} {n : Nat} (hn : SpellsUnit h n) :
    ∀ c ∈ h, c ≠ ascii '"' ∧ c ≠ ascii '\\' ∧ c.toNat < 0x80 := by
  have hall : ∀ c : UInt8, ∀ x ∈ hexCharToInt c,
      c ≠ ascii '"' ∧ c ≠ ascii '\\' ∧ c.toNat < 0x80 :=
    forall_uint8 (by decide +kernel)
  obtain ⟨c₁, c₂, c₃, c₄, x₁, x₂, x₃, x₄, rfl, h₁, h₂, h₃, h₄, -⟩ := hn
  simp only [List.forall_mem_cons, List.not_mem_nil, false_implies, implies_true, and_true]
  exact ⟨hall c₁ x₁ h₁, hall c₂ x₂ h₂, hall c₃ x₃ h₃, hall c₄ x₄ h₄⟩

theorem skipToQuote_spells {ns : List Nat} {t : List UInt8} (h : Spells ns t)
    (s : List UInt8) : skipToQuote (t ++ s) = skipToQuote s := by
  induction h with
  | nil => rfl
  | cons hn hns ih =>
      rw [List.append_assoc, List.cons_append, List.cons_append, skipToQuote_escape,
        skipToQuote_all fun c hc => ⟨(hn.forall c hc).1, (hn.forall c hc).2.1⟩, ih]

/-- `skip_quotes` goes over each character. -/
theorem StringItem.skipToQuote {i m : List UInt8} (hi : StringItem i m) (s : List UInt8) :
    skipToQuote (i ++ s) = Lightsocks.skipToQuote s := by
  cases hi with
  | plain hcontrol hquote hescape => exact skipToQuote_plain hquote hescape s
  | short h => exact skipToQuote_escape _ s
  | unicode h => exact skipToQuote_spells h s

theorem StringText.skipToQuote {t m : List UInt8} (ht : StringText t m) (r : List UInt8) :
    skipToQuote (t ++ ascii '"' :: r) = some r := by
  induction ht with
  | nil => exact skipToQuote_quote r
  | cons hi ht ih => rw [List.append_assoc, hi.skipToQuote, ih]

/-- What `skip_quotes` leaves stands behind a quote. -/
theorem exists_of_skipToQuote {s r : List UInt8} (h : skipToQuote s = some r) :
    ∃ t, s = t ++ ascii '"' :: r := by
  fun_induction skipToQuote s with
  | case1 => cases h
  | case2 s =>
      obtain rfl := Option.some.inj h
      exact ⟨[], rfl⟩
  | case3 => cases h
  | case4 c s _ ih =>
      obtain ⟨t, rfl⟩ := ih h
      exact ⟨ascii '\\' :: c :: t, rfl⟩
  | case5 c s hquote hescape ih =>
      obtain ⟨t, rfl⟩ := ih h
      exact ⟨c :: t, rfl⟩

/-! ### What the string says -/

theorem processLoop_zero (input : List UInt8) : processLoop 0 input = some [] := by
  rw [processLoop.eq_def, if_pos rfl]

theorem processLoop_escape {c b : UInt8} (h : unescape c = some b) (n : Nat)
    (s : List UInt8) :
    processLoop (2 + n) (ascii '\\' :: c :: s) = (processLoop n s).map (b :: ·) := by
  rw [processLoop.eq_def, if_neg (by omega)]
  dsimp only
  rw [if_pos rfl, charAt_zero_cons, h]
  dsimp only
  rw [Nat.add_sub_cancel_left, List.drop_succ_cons, List.drop_zero]

theorem processLoop_plain {c : UInt8} (hcontrol : 0x20 ≤ c) (hescape : c ≠ ascii '\\')
    (n : Nat) (s : List UInt8) :
    processLoop (1 + n) (c :: s) = (processLoop n s).map (c :: ·) := by
  rw [processLoop.eq_def, if_neg (by omega)]
  dsimp only
  rw [if_neg hescape, if_neg (UInt8.not_lt.mpr hcontrol), Nat.add_sub_cancel_left]

theorem processLoop_unicode {u s out : List UInt8}
    (h : parseUtf16 (ascii 'u' :: (u ++ s)) = some (out, s)) (n : Nat) :
    processLoop (u.length + 2 + n) (ascii '\\' :: ascii 'u' :: (u ++ s)) =
      (processLoop n s).map (out ++ ·) := by
  have hlen : u.length + 2 + n - ((ascii 'u' :: (u ++ s)).length + 1 - s.length) = n := by
    rw [List.length_cons, List.length_append]
    omega
  rw [processLoop.eq_def, if_neg (by omega)]
  dsimp only
  rw [if_pos rfl, charAt_zero_cons, show unescape (ascii 'u') = none from by decide]
  dsimp only
  rw [if_pos rfl]
  split
  · rename_i hnone
    rw [h] at hnone
    cases hnone
  · rename_i out' r hsome
    rw [h] at hsome
    obtain ⟨rfl, rfl⟩ := Prod.mk.inj (Option.some.inj hsome)
    rw [hlen]

/-- `process_string` writes what each character stands for. -/
theorem StringItem.processLoop {i m : List UInt8} (hi : StringItem i m) (n : Nat)
    (s : List UInt8) :
    processLoop (i.length + n) (i ++ s) = (Lightsocks.processLoop n s).map (m ++ ·) := by
  rcases stringItem_cases hi with ⟨b, rfl, rfl, hcontrol, -, hescape⟩ | ⟨c, b, rfl, rfl, h⟩ |
    ⟨c, u, rfl, hspells, rfl⟩
  · exact processLoop_plain hcontrol hescape n s
  · exact processLoop_escape h n s
  · exact processLoop_unicode ((parseUtf16_eq_some_iff _ _ _).mpr ⟨c, _, hspells, rfl, rfl⟩) n

theorem StringText.processLoop {t m : List UInt8} (ht : StringText t m) (s : List UInt8) :
    processLoop t.length (t ++ s) = some m := by
  induction ht with
  | nil => exact processLoop_zero _
  | cons hi ht ih =>
      rw [List.append_assoc, List.length_append, hi.processLoop, ih]
      rfl

/-- The text up to the closing quote, when it is read, begins with a character. -/
theorem exists_stringItem {t r m : List UInt8} (hne : t ≠ [])
    (hskip : skipToQuote (t ++ ascii '"' :: r) = some r)
    (hread : processLoop t.length (t ++ ascii '"' :: r) = some m) :
    ∃ i m₁ t₁, t = i ++ t₁ ∧ StringItem i m₁ := by
  -- the closing quote is not skipped
  have hlater : ∀ {s : List UInt8}, s.length ≤ r.length → skipToQuote s ≠ some r := by
    intro s hs hsome
    obtain ⟨t, rfl⟩ := exists_of_skipToQuote hsome
    rw [List.length_append, List.length_cons] at hs
    omega
  obtain ⟨c, t, rfl⟩ := List.exists_cons_of_ne_nil hne
  by_cases hescape : c = ascii '\\'
  · rw [hescape] at hskip hread ⊢
    cases t with
    | nil =>
        rw [List.singleton_append, skipToQuote_escape] at hskip
        exact absurd hskip (hlater (Nat.le_refl _))
    | cons c t =>
        rw [processLoop.eq_def, if_neg (by simp)] at hread
        dsimp only [List.cons_append] at hread
        rw [if_pos rfl, charAt_zero_cons] at hread
        cases hc : unescape c with
        | some b => exact ⟨[ascii '\\', c], [b], t, rfl, .short hc⟩
        | none =>
            rw [hc] at hread
            dsimp only at hread
            split_ifs at hread with hu
            split at hread
            · cases hread
            rename_i out rest hparse
            rw [hu] at hparse hskip ⊢
            obtain ⟨d, u, hspells, heq, -⟩ := (parseUtf16_eq_some_iff _ _ _).mp hparse
            -- the escape ends before the quote
            rcases List.append_eq_append_iff.mp (show (ascii '\\' :: ascii 'u' :: t) ++
              ascii '"' :: r = u ++ rest from heq) with ⟨v, hu', hrest⟩ | ⟨v, ht, -⟩
            · cases v with
              | nil => exact ⟨u, _, [], by rw [hu', List.append_nil, List.append_nil],
                  .unicode hspells⟩
              | cons q v =>
                  have hq : q = ascii '"' := (List.cons.inj hrest).1.symm
                  have hskip' := skipToQuote_spells hspells rest
                  rw [← heq] at hskip'
                  exact absurd (hskip'.symm.trans hskip) (hlater (by
                    have hlen := congrArg List.length hrest
                    rw [List.length_cons, List.cons_append, List.length_cons,
                      List.length_append] at hlen
                    omega))
            · exact ⟨u, _, v, ht, .unicode hspells⟩
  · by_cases hquote : c = ascii '"'
    · rw [hquote, List.cons_append, skipToQuote_quote] at hskip
      have hlen := congrArg List.length (Option.some.inj hskip)
      rw [List.length_append, List.length_cons] at hlen
      omega
    · rw [List.cons_append, List.length_cons, processLoop.eq_def, if_neg (Nat.succ_ne_zero _)]
        at hread
      dsimp only at hread
      rw [if_neg hescape] at hread
      split_ifs at hread with hcontrol
      exact ⟨[c], [c], t, rfl, .plain (UInt8.not_lt.mp hcontrol) hquote hescape⟩

theorem stringText_of_read {t r m : List UInt8}
    (hskip : skipToQuote (t ++ ascii '"' :: r) = some r)
    (hread : processLoop t.length (t ++ ascii '"' :: r) = some m) : StringText t m := by
  induction hn : t.length using Nat.strong_induction_on generalizing t m with
  | _ n ih =>
      by_cases hne : t = []
      · rw [hne, List.length_nil, processLoop_zero] at hread
        rw [hne, ← Option.some.inj hread]
        exact .nil
      · obtain ⟨i, m₁, t₁, rfl, hi⟩ := exists_stringItem hne hskip hread
        rw [List.append_assoc] at hskip hread
        rw [hi.skipToQuote] at hskip
        rw [List.length_append, hi.processLoop] at hread
        cases hrest : processLoop t₁.length (t₁ ++ ascii '"' :: r) with
        | none =>
            rw [hrest] at hread
            cases hread
        | some m₂ =>
            rw [hrest] at hread
            rw [← Option.some.inj hread]
            have hpos : 0 < i.length := by
              rcases stringItem_cases hi with ⟨b, rfl, -⟩ | ⟨c, b, rfl, -⟩ | ⟨c, u, rfl, -⟩ <;>
                simp
            rw [List.length_append] at hn
            exact .cons hi (ih t₁.length (by omega) hskip hrest rfl)

theorem length_quoted (t r : List UInt8) :
    (ascii '"' :: t ++ ascii '"' :: r).length - r.length - 2 = t.length := by
  rw [List.length_append, List.length_cons, List.length_cons]
  omega

/-- A string of JSON is read. -/
theorem StringText.getQuotedString {t m : List UInt8} (ht : StringText t m) (r : List UInt8) :
    getQuotedString (ascii '"' :: t ++ ascii '"' :: r) = some (cString m, r) := by
  have hskip : skipQuotes (ascii '"' :: t ++ ascii '"' :: r) = some r := ht.skipToQuote r
  rw [Lightsocks.getQuotedString, hskip]
  dsimp only
  rw [length_quoted, List.cons_append, List.drop_succ_cons, List.drop_zero, processString,
    ht.processLoop]
  rfl

/-- What is read is a string of JSON. -/
theorem stringText_of_getQuotedString {s m r : List UInt8}
    (h : getQuotedString s = some (m, r)) : ∃ t m', s = ascii '"' :: t ++ ascii '"' :: r ∧
      StringText t m' ∧ m = cString m' := by
  unfold getQuotedString at h
  split at h
  · cases h
  rename_i rest hquotes
  unfold skipQuotes at hquotes
  split_ifs at hquotes with hq
  cases s with
  | nil => exact absurd hq (by decide)
  | cons q s =>
      rw [charAt_zero_cons, not_not] at hq
      obtain ⟨t, hs⟩ := exists_of_skipToQuote hquotes
      rw [List.drop_succ_cons, List.drop_zero] at hs hquotes h
      rw [hq, hs] at h ⊢
      rw [hs] at hquotes
      rw [← List.cons_append, length_quoted, processString] at h
      cases hloop : processLoop t.length (t ++ ascii '"' :: rest) with
      | none =>
          rw [hloop] at h
          cases h
      | some m' =>
          rw [hloop] at h
          obtain ⟨rfl, rfl⟩ := Prod.mk.inj (Option.some.inj h)
          exact ⟨t, m', rfl, stringText_of_read hquotes hloop, rfl⟩

/-- **Strings.** `get_quoted_string` reads exactly the strings of JSON, of whatever length and
    with every escape, and returns the bytes they stand for, up to the first NUL among them. -/
theorem getQuotedString_eq_some_iff (s m r : List UInt8) :
    getQuotedString s = some (m, r) ↔ ∃ t m', s = ascii '"' :: t ++ ascii '"' :: r ∧
      StringText t m' ∧ m = cString m' := by
  constructor
  · exact stringText_of_getQuotedString
  · rintro ⟨t, m', rfl, ht, rfl⟩
    exact ht.getQuotedString r

/-! ### Strings of UTF-8 -/

theorem Spells.forall_lt {ns : List Nat} {t : List UInt8} (h : Spells ns t) :
    ∀ b ∈ t, b.toNat < 0x80 := by
  induction h with
  | nil => exact fun _ hb => absurd hb List.not_mem_nil
  | cons hn hns ih =>
      intro b hb
      rcases List.mem_append.mp hb with hb | hb
      · rcases List.mem_cons.mp hb with rfl | hb
        · decide
        rcases List.mem_cons.mp hb with rfl | hb
        · decide
        exact (hn.forall b hb).2.2
      · exact ih b hb

theorem unescape_ascii {c b : UInt8} (h : unescape c = some b) :
    c.toNat < 0x80 ∧ b.toNat < 0x80 := by
  have hall : ∀ c : UInt8, ∀ b ∈ unescape c, c.toNat < 0x80 ∧ b.toNat < 0x80 :=
    forall_uint8 (by decide +kernel)
  exact hall c b h

/-- The characters before a string may be bytes of a character that goes on in the string. -/
theorem StringText.isUtf8_append {t m : List UInt8} (ht : StringText t m) :
    ∀ p, IsUtf8 (p ++ t) → IsUtf8 (p ++ m) := by
  induction ht with
  | nil => exact fun _ hp => hp
  | @cons i m t m' hi ht ih =>
      intro p hp
      have hbackslash : (ascii '\\').toNat < 0x80 := by decide
      rcases stringItem_cases hi with ⟨b, rfl, rfl, -⟩ | ⟨c, b, rfl, rfl, h⟩ |
        ⟨c, u, rfl, hspells, rfl⟩
      · rw [← List.append_assoc] at hp ⊢
        exact ih (p ++ [b]) hp
      · obtain ⟨hleft, hright⟩ := hp.of_append_cons hbackslash
        obtain ⟨hc, hb⟩ := unescape_ascii h
        exact hleft.append ((isUtf8_ascii hb).append
          (ih [] (IsUtf8.of_append_cons (a := []) hright hc).2))
      · obtain ⟨hleft, hright⟩ := hp.of_append_cons hbackslash
        have hu := (List.forall_mem_cons.mp hspells.forall_lt).2
        exact hleft.append ((isUtf8_char c).append (ih [] (hright.of_append hu)))

/-- A string in a text of UTF-8 is a text of UTF-8, and so is the rest. -/
theorem isUtf8_of_getQuotedString {s m r : List UInt8} (hs : IsUtf8 s)
    (h : getQuotedString s = some (m, r)) : IsUtf8 m ∧ IsUtf8 r := by
  obtain ⟨t, m', rfl, ht, rfl⟩ := stringText_of_getQuotedString h
  obtain ⟨hleft, hright⟩ := hs.of_append_cons (by decide)
  have ht' := (IsUtf8.of_append_cons (a := []) hleft (by decide)).2
  exact ⟨(ht.isUtf8_append [] ht').takeWhile_ne_zero, hright⟩

/-! ### No NUL -/

theorem Spells.zero_not_mem {ns : List Nat} {t : List UInt8} (h : Spells ns t) :
    (0 : UInt8) ∉ t := by
  induction h with
  | nil => exact List.not_mem_nil
  | cons hn hns ih =>
      obtain ⟨c₁, c₂, c₃, c₄, x₁, x₂, x₃, x₄, rfl, h₁, h₂, h₃, h₄, -⟩ := hn
      have hbackslash : (0 : UInt8) ≠ ascii '\\' := by decide
      have hu : (0 : UInt8) ≠ ascii 'u' := by decide
      simp only [List.cons_append, List.nil_append, List.mem_cons, not_or]
      exact ⟨hbackslash, hu, (hexCharToInt_ne_zero h₁).symm, (hexCharToInt_ne_zero h₂).symm,
        (hexCharToInt_ne_zero h₃).symm, (hexCharToInt_ne_zero h₄).symm, ih⟩

/-- The text of a string has no NUL, though the string may. -/
theorem StringText.zero_not_mem {t m : List UInt8} (ht : StringText t m) : (0 : UInt8) ∉ t := by
  induction ht with
  | nil => exact List.not_mem_nil
  | cons hi ht ih =>
      rw [List.mem_append, not_or]
      refine ⟨?_, ih⟩
      rcases stringItem_cases hi with ⟨b, rfl, -, hcontrol, -⟩ | ⟨c, b, rfl, -, h⟩ |
        ⟨c, u, -, hspells, -⟩
      · rw [List.mem_singleton]
        rintro rfl
        exact absurd hcontrol (by decide)
      · have hc : c ≠ 0 := by
          rintro rfl
          exact absurd h (by rw [show unescape 0 = none from by decide]; exact nofun)
        rw [List.mem_cons, List.mem_singleton, not_or]
        exact ⟨by decide, hc.symm⟩
      · exact hspells.zero_not_mem

/-! ## Writing -/

/-- The digit of the cases `\x00` to `\x1f` of `json_serialize_string`. -/
def hexDigit (n : Nat) : UInt8 := charAt (literal "0123456789abcdef") n

/-- The switch of `json_serialize_string`. -/
def escapeByte (c : UInt8) : List UInt8 :=
  if c = ascii '"' then literal "\\\""
  else if c = ascii '\\' then literal "\\\\"
  else if c = ascii '/' then literal "\\/"
  else if c = 0x08 then literal "\\b"
  else if c = 0x0C then literal "\\f"
  else if c = 0x0A then literal "\\n"
  else if c = 0x0D then literal "\\r"
  else if c = 0x09 then literal "\\t"
  else if c < 0x20 then literal "\\u00" ++ [hexDigit (c.toNat / 16), hexDigit (c.toNat % 16)]
  else [c]

/-- `json_serialize_string`. -/
def jsonSerializeString (string : List UInt8) : List UInt8 :=
  ascii '"' :: string.flatMap escapeByte ++ [ascii '"']

/-- The three kinds of bytes: those with an escape of their own, the other controls, and what is
    written as it is. -/
theorem escapeByte_cases (c : UInt8) :
    (∃ d, escapeByte c = [ascii '\\', d] ∧ unescape d = some c) ∨
    (c.toNat < 0x80 ∧ ∃ d₁ d₂,
      escapeByte c = [ascii '\\', ascii 'u', ascii '0', ascii '0', d₁, d₂] ∧
      hexCharToInt d₁ = some (c.toNat / 16) ∧ hexCharToInt d₂ = some (c.toNat % 16)) ∨
    escapeByte c = [c] ∧ 0x20 ≤ c ∧ c ≠ ascii '"' ∧ c ≠ ascii '\\' := by
  have hall : ∀ c : UInt8, let d := charAt (escapeByte c)
      (escapeByte c = [ascii '\\', d 1] ∧ unescape (d 1) = some c) ∨
      (c.toNat < 0x80 ∧ escapeByte c = [ascii '\\', ascii 'u', ascii '0', ascii '0', d 4, d 5] ∧
        hexCharToInt (d 4) = some (c.toNat / 16) ∧ hexCharToInt (d 5) = some (c.toNat % 16)) ∨
      escapeByte c = [c] ∧ 0x20 ≤ c ∧ c ≠ ascii '"' ∧ c ≠ ascii '\\' :=
    forall_uint8 (by decide +kernel)
  rcases hall c with h | ⟨hlt, h⟩ | h
  · exact Or.inl ⟨_, h⟩
  · exact Or.inr (Or.inl ⟨hlt, _, _, h⟩)
  · exact Or.inr (Or.inr h)

/-- What is written for a byte stands for that byte. -/
theorem stringItem_escapeByte (c : UInt8) : StringItem (escapeByte c) [c] := by
  rcases escapeByte_cases c with ⟨d, heq, hd⟩ | ⟨hlt, d₁, d₂, heq, h₁, h₂⟩ | ⟨heq, h₁, h₂, h₃⟩
  · rw [heq]
    exact .short hd
  · obtain ⟨ch, hch⟩ := exists_char (n := c.toNat) (Or.inl (by omega))
    have hzero : hexCharToInt (ascii '0') = some 0 := by decide
    have hunit : SpellsUnit [ascii '0', ascii '0', d₁, d₂] ch.toNat :=
      ⟨_, _, d₁, d₂, 0, 0, _, _, rfl, hzero, hzero, h₁, h₂, by omega⟩
    have hspells : Spells (utf16 ch)
        [ascii '\\', ascii 'u', ascii '0', ascii '0', d₁, d₂] := by
      rw [utf16, if_pos (by omega)]
      exact spells_singleton.mpr ⟨_, hunit, rfl⟩
    have hbyte : String.utf8EncodeChar ch = [c] := by
      rw [utf8EncodeChar_ascii (by omega), hch, UInt8.ofNat_toNat]
    rw [heq, ← hbyte]
    exact .unicode hspells
  · rw [heq]
    exact .plain h₁ h₂ h₃

theorem stringText_escape (string : List UInt8) :
    StringText (string.flatMap escapeByte) string := by
  induction string with
  | nil => exact .nil
  | cons c string ih => exact .cons (stringItem_escapeByte c) ih

/-- What is written is read back. -/
theorem getQuotedString_serialize {string : List UInt8} (h : (0 : UInt8) ∉ string)
    (r : List UInt8) :
    getQuotedString (jsonSerializeString string ++ r) = some (string, r) := by
  have hread := (stringText_escape string).getQuotedString r
  rw [cString_of_not_mem h] at hread
  rw [jsonSerializeString, List.append_assoc]
  exact hread

end Lightsocks
