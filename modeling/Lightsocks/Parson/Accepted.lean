import Lightsocks.Parson.Reading

/-
  `lib/parson.c`: the values that it returns.

  What holds of all strings and all numbers that are read holds throughout a value
  (`parseValue_invariant`). So a value that is accepted is well formed, whatever the text
  (`wellFormed_of_jsonParseString`), and its strings are UTF-8 when the text is
  (`utf8_of_jsonParseString`).
-/

namespace Lightsocks

open Lib

/-- All strings and names in the value fulfil `N`. -/
inductive EveryString (N : List UInt8 → Prop) : JSONValue → Prop
  | null : EveryString N .null
  | boolean (b : Bool) : EveryString N (.boolean b)
  | number (x : ℚ) : EveryString N (.number x)
  | string {bytes : List UInt8} (h : N bytes) : EveryString N (.string bytes)
  | array {elements : List JSONValue} (h : ∀ value ∈ elements, EveryString N value) :
      EveryString N (.array elements)
  | object {members : List (String × JSONValue)}
      (hname : ∀ member ∈ members, ∃ name, N name ∧ member.1 = memberName name)
      (h : ∀ member ∈ members, EveryString N member.2) : EveryString N (.object members)

/-- `S` holds of what is left of a text, `N` of the strings in it, and `V n` of the values that
    are read with `n` levels left. -/
structure ReadInvariant (libc : Libc) (S N : List UInt8 → Prop) (V : Nat → JSONValue → Prop) :
    Prop where
  tail : ∀ {c : UInt8} {s : List UInt8}, c.toNat < 0x80 → S (c :: s) → S s
  quoted : ∀ {s m r : List UInt8}, S s → getQuotedString s = some (m, r) → N m ∧ S r
  number : ∀ {left : Nat} {s : List UInt8} {x : ℚ} {n : Nat}, S s →
    libc.strtod s = some (x, n) → V (left + 1) (.number x) ∧ S (s.drop n)
  null : ∀ left : Nat, V (left + 1) .null
  boolean : ∀ (left : Nat) (b : Bool), V (left + 1) (.boolean b)
  string : ∀ {left : Nat} {m : List UInt8}, N m → V (left + 1) (.string m)
  array : ∀ {left : Nat} {elements : List JSONValue}, (∀ value ∈ elements, V left value) →
    V (left + 1) (.array elements)
  object : ∀ {left : Nat} {members : List (String × JSONValue)},
    (members.map Prod.fst).Nodup →
    (∀ member ∈ members, ∃ name, N name ∧ member.1 = memberName name) →
    (∀ member ∈ members, V left member.2) → V (left + 1) (.object members)

/-- What each round keeps, the loop keeps. -/
theorem parseItems_invariant {α : Type*}
    {item : List α → List UInt8 → Option (List α × List UInt8)}
    {Q : List α → List UInt8 → Prop}
    (hskip : ∀ {items s}, Q items s → Q items (skipWhitespaces s))
    (hcomma : ∀ {items s}, charAt s 0 = ascii ',' → Q items s → Q items (s.drop 1))
    (hitem : ∀ {items s items' s'}, Q items s → item items s = some (items', s') → Q items' s')
    {fuel : Nat} {items : List α} {s : List UInt8} {items' : List α} {s' : List UInt8}
    (hQ : Q items s) (h : parseItems item fuel items s = some (items', s')) : Q items' s' := by
  induction fuel generalizing items s with
  | zero =>
      obtain ⟨rfl, rfl⟩ := Prod.mk.inj (Option.some.inj h)
      exact hQ
  | succ fuel ih =>
      rw [parseItems] at h
      split_ifs at h with hend
      · obtain ⟨rfl, rfl⟩ := Prod.mk.inj (Option.some.inj h)
        exact hQ
      split at h
      · cases h
      rename_i items₁ s₁ hread
      have hQ₁ := hskip (hitem hQ hread)
      dsimp only at h
      split_ifs at h with hsep
      · obtain ⟨rfl, rfl⟩ := Prod.mk.inj (Option.some.inj h)
        exact hQ₁
      · exact ih (hskip (hcomma (not_not.mp hsep) hQ₁)) h

/-- What holds of no items, and is kept by each round, holds of the items of a container. -/
theorem parseContainer_invariant {α : Type*}
    {item : List α → List UInt8 → Option (List α × List UInt8)} {close : UInt8}
    (hclose : close.toNat < 0x80) (hne : close ≠ 0) {S : List UInt8 → Prop}
    {L : List α → Prop}
    (htail : ∀ {c : UInt8} {s : List UInt8}, c.toNat < 0x80 → S (c :: s) → S s)
    (hskip : ∀ {s : List UInt8}, S s → S (skipWhitespaces s)) (hnil : L [])
    (hitem : ∀ {items s items' s'}, L items → S s → item items s = some (items', s') →
      L items' ∧ S s')
    {o : UInt8} (ho : o.toNat < 0x80) {s : List UInt8} {items : List α} {r : List UInt8}
    (hS : S (o :: s)) (h : parseContainer item close (o :: s) = some (items, r)) :
    L items ∧ S r := by
  -- a character that is looked for is there, and can be taken off
  have hchar : ∀ {c : UInt8} {s : List UInt8}, c.toNat < 0x80 → c ≠ 0 → charAt s 0 = c →
      S s → S (s.drop 1) := by
    intro c s hc hzero heq hs
    cases s with
    | nil => exact absurd heq.symm hzero
    | cons a s =>
        obtain rfl : a = c := heq
        exact htail hc hs
  have hstart := hskip (htail ho hS)
  unfold parseContainer at h
  rw [List.drop_succ_cons, List.drop_zero] at h
  dsimp only at h
  split_ifs at h with hempty
  · obtain ⟨rfl, rfl⟩ := Prod.mk.inj (Option.some.inj h)
    exact ⟨hnil, hchar hclose hne hempty hstart⟩
  split at h
  · cases h
  rename_i items₁ s₁ hloop
  obtain ⟨hL, hS₁⟩ := parseItems_invariant (Q := fun items s => L items ∧ S s)
    (fun hQ => ⟨hQ.1, hskip hQ.2⟩) (fun hc hQ => ⟨hQ.1, hchar (by decide) (by decide) hc hQ.2⟩)
    (fun hQ hread => hitem hQ.1 hQ.2 hread) ⟨hnil, hstart⟩ hloop
  split_ifs at h with hend
  obtain ⟨rfl, rfl⟩ := Prod.mk.inj (Option.some.inj h)
  exact ⟨hL, hchar hclose hne (not_not.mp (not_or.mp hend).1) (hskip hS₁)⟩

theorem ascii_of_all {t : List UInt8} (h : t.all (fun c => c.toNat < 0x80) = true) :
    ∀ c ∈ t, c.toNat < 0x80 := by
  intro c hc
  exact of_decide_eq_true (List.all_eq_true.mp h c hc)

namespace ReadInvariant

variable {libc : Libc} {S N : List UInt8 → Prop} {V : Nat → JSONValue → Prop}

theorem skip (hV : ReadInvariant libc S N V) {s : List UInt8} (h : S s) :
    S (skipWhitespaces s) := by
  have hascii : ∀ c : UInt8, isspace c = true → c.toNat < 0x80 :=
    forall_uint8 (by decide +kernel)
  induction s with
  | nil => exact h
  | cons c s ih =>
      by_cases hc : isspace c = true
      · rw [skipWhitespaces, List.dropWhile_cons_of_pos hc]
        exact ih (hV.tail (hascii c hc) h)
      · rw [skipWhitespaces, List.dropWhile_cons_of_neg hc]
        exact h

theorem token (hV : ReadInvariant libc S N V) {t : List UInt8}
    (ht : ∀ c ∈ t, c.toNat < 0x80) {s : List UInt8} (h : S (t ++ s)) : S s := by
  induction t with
  | nil => exact h
  | cons c t ih =>
      obtain ⟨hc, ht⟩ := List.forall_mem_cons.mp ht
      exact ih ht (hV.tail hc h)

theorem prefixed (hV : ReadInvariant libc S N V) {t s : List UInt8}
    (ht : ∀ c ∈ t, c.toNat < 0x80) (hpre : t.isPrefixOf s = true) (h : S s) :
    S (s.drop t.length) := by
  obtain ⟨r, rfl⟩ := List.isPrefixOf_iff_prefix.mp hpre
  rw [List.drop_left]
  exact hV.token ht h

/-- The round of `parse_object_value`. -/
theorem member (hV : ReadInvariant libc S N V) {left : Nat}
    (hvalue : ∀ {s v r}, S s → parseValue libc left s = some (v, r) → V left v ∧ S r)
    {members members' : List (String × JSONValue)} {s r : List UInt8}
    (hmembers : (members.map Prod.fst).Nodup ∧
      (∀ member ∈ members, ∃ name, N name ∧ member.1 = memberName name) ∧
      ∀ member ∈ members, V left member.2) (hs : S s)
    (h : parseMember (parseValue libc left) members s = some (members', r)) :
    ((members'.map Prod.fst).Nodup ∧
      (∀ member ∈ members', ∃ name, N name ∧ member.1 = memberName name) ∧
      ∀ member ∈ members', V left member.2) ∧ S r := by
  obtain ⟨hdistinct, hname, hvalues⟩ := hmembers
  unfold parseMember at h
  split at h
  · cases h
  rename_i key s₁ hkey
  obtain ⟨hN, hs₁⟩ := hV.quoted hs hkey
  dsimp only at h
  split_ifs at h with hcolon
  split at h
  · cases h
  rename_i new s₂ hnew
  have hs₁' : S ((skipWhitespaces s₁).drop 1) := by
    have hskip := hV.skip hs₁
    cases hcons : skipWhitespaces s₁ with
    | nil =>
        rw [hcons] at hcolon
        exact absurd (not_not.mp hcolon) (by decide)
    | cons c s₃ =>
        rw [hcons, charAt_zero_cons, not_not] at hcolon
        rw [hcons, hcolon] at hskip
        exact hV.tail (by decide) hskip
  obtain ⟨hVnew, hs₂⟩ := hvalue hs₁' hnew
  split at h
  · cases h
  rename_i members₁ hadd
  obtain ⟨rfl, rfl⟩ := Prod.mk.inj (Option.some.inj h)
  unfold jsonObjectAdd at hadd
  split_ifs at hadd with htaken
  rw [← Option.some.inj hadd]
  have hfree : memberName key ∉ members.map Prod.fst :=
    jsonObjectGetValue_eq_none.mp (Option.not_isSome_iff_eq_none.mp htaken)
  refine ⟨⟨?_, ?_, ?_⟩, hs₂⟩
  · rw [List.map_append, List.map_singleton, List.nodup_append]
    refine ⟨hdistinct, by simp, fun a ha b hb heq => hfree ?_⟩
    rw [List.mem_singleton.mp hb] at heq
    rwa [heq] at ha
  · rw [List.forall_mem_append, List.forall_mem_singleton]
    exact ⟨hname, key, hN, rfl⟩
  · rw [List.forall_mem_append, List.forall_mem_singleton]
    exact ⟨hvalues, hVnew⟩

end ReadInvariant

/-- **What is read.** An invariant of the readers of strings and numbers holds of every value
    that is accepted, and of the rest of the text. -/
theorem parseValue_invariant {libc : Libc} {S N : List UInt8 → Prop} {V : Nat → JSONValue → Prop}
    (hV : ReadInvariant libc S N V) : ∀ {left : Nat} {s : List UInt8} {v : JSONValue}
      {r : List UInt8}, S s → parseValue libc left s = some (v, r) → V left v ∧ S r := by
  intro left
  induction left with
  | zero =>
      intro s v r _ h
      cases h
  | succ left ih =>
      intro s v r hs h
      have hs' := hV.skip hs
      rw [parseValue] at h
      generalize skipWhitespaces s = string at h hs'
      split_ifs at h with hobject harray hstring hboolean hnumber hnull
      · cases string with
        | nil => exact absurd hobject (by decide)
        | cons c string =>
            unfold parseObjectValue at h
            obtain ⟨⟨members, rest⟩, hread, heq⟩ := Option.map_eq_some_iff.mp h
            obtain ⟨rfl, rfl⟩ := Prod.mk.inj heq
            have hc : c = ascii '{' := hobject
            obtain ⟨⟨hdistinct, hname, hvalues⟩, hr⟩ := parseContainer_invariant (by decide)
              (by decide) hV.tail hV.skip
              (L := fun members => (members.map Prod.fst).Nodup ∧
                (∀ member ∈ members, ∃ name, N name ∧ member.1 = memberName name) ∧
                ∀ member ∈ members, V left member.2)
              ⟨List.nodup_nil, by simp, by simp⟩
              (fun hL hS hitem => hV.member ih hL hS hitem) (by rw [hc]; decide) hs' hread
            exact ⟨hV.object hdistinct hname hvalues, hr⟩
      · cases string with
        | nil => exact absurd harray (by decide)
        | cons c string =>
            unfold parseArrayValue at h
            obtain ⟨⟨elements, rest⟩, hread, heq⟩ := Option.map_eq_some_iff.mp h
            obtain ⟨rfl, rfl⟩ := Prod.mk.inj heq
            have hc : c = ascii '[' := harray
            obtain ⟨hvalues, hr⟩ := parseContainer_invariant (by decide) (by decide) hV.tail
              hV.skip (L := fun elements => ∀ value ∈ elements, V left value) (by simp)
              (by
                intro elements s elements' s' hL hS hitem
                unfold parseElement at hitem
                split at hitem
                · cases hitem
                rename_i new s₁ hnew
                obtain ⟨rfl, rfl⟩ := Prod.mk.inj (Option.some.inj hitem)
                obtain ⟨hVnew, hs₁⟩ := ih hS hnew
                rw [List.forall_mem_append, List.forall_mem_singleton]
                exact ⟨⟨hL, hVnew⟩, hs₁⟩) (by rw [hc]; decide) hs' hread
            exact ⟨hV.array hvalues, hr⟩
      · obtain ⟨⟨bytes, rest⟩, hread, heq⟩ := Option.map_eq_some_iff.mp h
        obtain ⟨rfl, rfl⟩ := Prod.mk.inj heq
        obtain ⟨hN, hr⟩ := hV.quoted hs' hread
        exact ⟨hV.string hN, hr⟩
      · unfold parseBooleanValue at h
        split_ifs at h with htrue hfalse
        · obtain ⟨rfl, rfl⟩ := Prod.mk.inj (Option.some.inj h)
          exact ⟨hV.boolean left true, hV.prefixed (ascii_of_all (by decide)) htrue hs'⟩
        · obtain ⟨rfl, rfl⟩ := Prod.mk.inj (Option.some.inj h)
          exact ⟨hV.boolean left false, hV.prefixed (ascii_of_all (by decide)) hfalse hs'⟩
      · unfold parseNumberValue at h
        split at h
        · cases h
        rename_i x n hread
        split_ifs at h
        obtain ⟨rfl, rfl⟩ := Prod.mk.inj (Option.some.inj h)
        exact hV.number hs' hread
      · unfold parseNullValue at h
        split_ifs at h with hpre
        obtain ⟨rfl, rfl⟩ := Prod.mk.inj (Option.some.inj h)
        exact ⟨hV.null left, hV.prefixed (ascii_of_all (by decide)) hpre hs'⟩

theorem jsonParseString_invariant {libc : Libc} {S N : List UInt8 → Prop}
    {V : Nat → JSONValue → Prop} (hV : ReadInvariant libc S N V) {string : List UInt8}
    (hS : S string) (hbom : ∀ {s}, S ([0xEF, 0xBB, 0xBF] ++ s) → S s) {v : JSONValue}
    (h : jsonParseString libc string = some v) : V (maxNesting + 1) v := by
  obtain ⟨⟨v', r⟩, hread, rfl⟩ := Option.map_eq_some_iff.mp h
  refine (parseValue_invariant hV ?_ hread).1
  split_ifs with hpre
  · obtain ⟨s, rfl⟩ := List.isPrefixOf_iff_prefix.mp hpre
    exact hbom hS
  · exact hS

/-- **UTF-8 in, UTF-8 out.** When the text is UTF-8, so is every string and every name in the
    value, with all the escapes that are taken out of them and the NULs they are cut at. -/
theorem utf8_of_jsonParseString (libc : Libc) {string : List UInt8} (hstring : IsUtf8 string)
    {v : JSONValue} (h : jsonParseString libc string = some v) : EveryString IsUtf8 v := by
  refine jsonParseString_invariant (S := IsUtf8) (N := IsUtf8)
    (V := fun _ v => EveryString IsUtf8 v) ?_ hstring ?_ h
  · exact {
      tail := fun hc hs => (IsUtf8.of_append_cons (a := []) hs hc).2
      quoted := fun hs hread => isUtf8_of_getQuotedString hs hread
      number := by
        intro left s x n hs hread
        obtain ⟨rfl, -⟩ := eq_numberLength_of_strtod hread
        rw [← List.take_append_drop (numberLength s) s] at hs
        exact ⟨.number x, hs.of_append (ascii_numberLength s)⟩
      null := fun _ => .null
      boolean := fun _ b => .boolean b
      string := fun hm => .string hm
      array := fun hvalues => .array hvalues
      object := fun _ hname hvalues => .object hname hvalues }
  · intro s hs
    obtain ⟨c, hc⟩ := exists_char (n := 0xFEFF) (by decide)
    refine isUtf8_of_char_append (c := c) ?_
    rw [utf8EncodeChar_three (by omega) (by omega), hc]
    exact hs

theorem utf8_of_jsonParseString_port :
    EveryString IsUtf8 (.object [("port", .number 1080)]) := by
  have hread := jsonParseString_of_text naturalLibc (w := []) (r := [])
    (jsonText_port (json_natNumeral 1080)) (List.forall_mem_nil _)
    (delimits_spaces_end (List.forall_mem_nil _))
  have hvalue := value_port (n := 1080) (by decide)
  rw [read_eq_some_iff.mpr ⟨hvalue.symm, by rw [hvalue]; decide, taken_port (by decide)⟩] at hread
  refine utf8_of_jsonParseString naturalLibc (isUtf8_of_ascii ?_) hread
  have hdigits : ∀ c ∈ (natNumeral 1080).render, c.toNat < 0x80 := fun c hc =>
    (isdigit_spec c (isdigit_of_mem_showNat c (by rwa [render_natNumeral] at hc))).2.2.2
  simp only [portText, List.nil_append, List.append_nil, List.forall_mem_append]
  exact ⟨⟨ascii_of_all (by decide), hdigits⟩, ascii_of_all (by decide)⟩

end Lightsocks
