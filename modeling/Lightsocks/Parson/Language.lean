import Lightsocks.Parson.Accepted
import Mathlib.Data.List.DropRight
import Mathlib.Data.Set.List

/-
  `lib/parson.c`: the texts that it accepts.

  `Lightsocks.Parson.Reading` says which texts of JSON are read. Here it is the other way round:
  what is read begins with a text of the grammar (`jsonParseString_eq_some_iff`), but for two
  things. Digits may be missing from a number (`Numeral.Lax`). And `strtod` gives 0 where it finds
  no number, while `parse_number_value` does not ask whether anything was read; so a minus sign
  without a number is read as a number, and left standing. It is in the way of whatever is to
  follow, so only the outermost value can be one (`Stray`).
-/

namespace Lightsocks

open Lib

/-! ## What is left in the way -/

/-- A minus sign that begins no number is read as one, and left standing. -/
structure Stray (libc : Libc) (v : JSONValue) (r : List UInt8) : Prop where
  minus : charAt r 0 = ascii '-'
  none : Longest [] r
  finite : isInfOrNan r = false
  value : ∃ x, v = .number x ∧ libc.number [] = some x

/-- What is left of the text does not go on as the loop over the items wants it to, nor as the
    container does behind it. -/
def Stuck (r : List UInt8) : Prop := r = [] ∨ charAt r 0 = ascii '-'

theorem exists_spaces (s : List UInt8) :
    ∃ w, Spaces w ∧ s = w ++ skipWhitespaces s :=
  ⟨s.takeWhile isspace, fun _ hc => List.mem_takeWhile_imp hc,
    List.takeWhile_append_dropWhile.symm⟩

theorem Stuck.skip {r : List UInt8} (h : Stuck r) : skipWhitespaces r = r := by
  rcases h with rfl | h
  · rfl
  · cases r with
    | nil => rfl
    | cons c r =>
        obtain rfl : c = ascii '-' := h
        exact skipWhitespaces_cons (by decide) r

theorem Stuck.charAt_ne {r : List UInt8} (h : Stuck r) {c : UInt8} (hc : c ≠ 0)
    (hminus : c ≠ ascii '-') : charAt r 0 ≠ c := by
  rcases h with rfl | h
  · exact hc.symm
  · rw [h]
    exact hminus.symm

/-- A character that is looked for is there. -/
theorem eq_cons_of_charAt {s : List UInt8} {c : UInt8} (h : charAt s 0 = c) (hc : c ≠ 0) :
    s = c :: s.drop 1 := by
  cases s with
  | nil => exact absurd h.symm hc
  | cons a s =>
      obtain rfl : a = c := h
      rfl

/-! ## Containers -/

/-- The first of some items, after further whitespace. -/
theorem commaSeparated_prepend {α : Type*} (w : List UInt8) (e : ItemText α)
    (rest : List (ItemText α)) :
    w ++ commaSeparated (e :: rest) =
      commaSeparated ({ e with before := w ++ e.before } :: rest) := by
  simp [commaSeparated, ItemText.render]

/-- An item with whitespace around it, whose body is as `R` says. -/
def ItemText.Good {α : Type*} (R : List UInt8 → α → Prop) (e : ItemText α) : Prop :=
  Spaces e.before ∧ Spaces e.after ∧ R e.body e.item

theorem good_prepend {α : Type*} {R : List UInt8 → α → Prop} {w : List UInt8} (hw : Spaces w)
    {e : ItemText α} (h : e.Good R) : ({ e with before := w ++ e.before } : ItemText α).Good R :=
  ⟨List.forall_mem_append.mpr ⟨hw, h.1⟩, h.2⟩

/-- Some items in their texts, which `step` takes one after the other. -/
def Items {α β : Type*} (R : List UInt8 → α → Prop) (step : List β → α → Option (List β))
    (done done' : List β) (t : List UInt8) : Prop :=
  ∃ e rest, ((e :: rest).map ItemText.item).foldlM step done = some done' ∧
    t = commaSeparated (e :: rest) ∧ ∀ b ∈ e :: rest, b.Good R

section Items

variable {α β : Type*} {R : List UInt8 → α → Prop} {step : List β → α → Option (List β)}
  {done done₁ done' : List β} {w b w' t : List UInt8} {x : α}

theorem Items.prepend (hw : Spaces w) (h : Items R step done done' t) :
    Items R step done done' (w ++ t) := by
  obtain ⟨e, rest, hfold, rfl, hgood⟩ := h
  obtain ⟨he, hrest⟩ := List.forall_mem_cons.mp hgood
  exact ⟨{ e with before := w ++ e.before }, rest, hfold, commaSeparated_prepend w e rest,
    List.forall_mem_cons.mpr ⟨good_prepend hw he, hrest⟩⟩

theorem Items.single (hw : Spaces w) (hb : R b x) (hw' : Spaces w')
    (hx : step done x = some done') : Items R step done done' (w ++ b ++ w') := by
  refine ⟨⟨w, b, w', x⟩, [], ?_, ?_, List.forall_mem_singleton.mpr ⟨hw, hw', hb⟩⟩
  · rw [List.map_singleton, List.foldlM_cons, hx]
    rfl
  · simp [commaSeparated, ItemText.render]

theorem Items.cons (hw : Spaces w) (hb : R b x) (hw' : Spaces w') (hx : step done x = some done₁)
    (h : Items R step done₁ done' t) :
    Items R step done done' (w ++ b ++ w' ++ ascii ',' :: t) := by
  obtain ⟨e, rest, hfold, rfl, hgood⟩ := h
  refine ⟨⟨w, b, w', x⟩, e :: rest, ?_, ?_,
    List.forall_mem_cons.mpr ⟨⟨hw, hw', hb⟩, hgood⟩⟩
  · rw [List.map_cons, List.foldlM_cons, hx]
    exact hfold
  · rw [commaSeparated_cons_cons]
    rfl

/-- **What the loop reads.** If each round reads one item, or gets stuck, then the loop reads
    items with commas between them, or gets stuck. -/
theorem items_of_parseItems {item : List β → List UInt8 → Option (List β × List UInt8)}
    (hitem : ∀ done s done' s', item done s = some (done', s') →
      Stuck s' ∨ ∃ w b x, step done x = some done' ∧ s = w ++ (b ++ s') ∧ Spaces w ∧ R b x)
    {fuel : Nat} {s : List UInt8} (hfuel : s.length ≤ fuel) {s' : List UInt8}
    (h : parseItems item fuel done s = some (done', s')) :
    Stuck s' ∨ ∃ t, s = t ++ s' ∧ Items R step done done' t ∧ skipWhitespaces s' = s' := by
  induction fuel generalizing done s with
  | zero =>
      obtain ⟨rfl, rfl⟩ := Prod.mk.inj (Option.some.inj h)
      exact Or.inl (Or.inl (List.length_eq_zero_iff.mp (Nat.le_zero.mp hfuel)))
  | succ fuel ih =>
      rw [parseItems] at h
      split_ifs at h with hend
      · obtain ⟨rfl, rfl⟩ := Prod.mk.inj (Option.some.inj h)
        exact Or.inl (Or.inl hend)
      split at h
      · cases h
      rename_i done₁ s₁ hread
      dsimp only at h
      obtain ⟨w', hw', hs₁⟩ := exists_spaces s₁
      rcases hitem _ _ _ _ hread with hstuck | ⟨w, b, x, hx, rfl, hw, hb⟩
      · rw [hstuck.skip, if_pos (hstuck.charAt_ne (by decide) (by decide))] at h
        obtain ⟨rfl, rfl⟩ := Prod.mk.inj (Option.some.inj h)
        exact Or.inl hstuck
      generalize hs₂ : skipWhitespaces s₁ = s₂ at h hs₁
      split_ifs at h with hsep
      · obtain ⟨rfl, rfl⟩ := Prod.mk.inj (Option.some.inj h)
        refine Or.inr ⟨w ++ b ++ w', ?_, .single hw hb hw' hx, ?_⟩
        · rw [hs₁]
          simp
        · rw [← hs₂, skipWhitespaces, skipWhitespaces, List.dropWhile_idempotent]
      · have hcomma := eq_cons_of_charAt (not_not.mp hsep) (by decide)
        obtain ⟨w'', hw'', hs₃⟩ := exists_spaces (s₂.drop 1)
        have hlen : (skipWhitespaces (s₂.drop 1)).length ≤ fuel := by
          have h₁ := congrArg List.length hs₁
          have h₂ := congrArg List.length hcomma
          have h₃ := congrArg List.length hs₃
          simp only [List.length_append, List.length_cons] at hfuel h₁ h₂ h₃
          omega
        rcases ih hlen h with hstuck | ⟨t, ht, hnew, hskip⟩
        · exact Or.inl hstuck
        · refine Or.inr ⟨w ++ b ++ w' ++ ascii ',' :: (w'' ++ t), ?_,
            .cons hw hb hw' hx (hnew.prepend hw''), hskip⟩
          rw [hs₁, hcomma, hs₃, ht]
          simp

/-- **What a container reads.** -/
theorem items_of_parseContainer {item : List β → List UInt8 → Option (List β × List UInt8)}
    (hitem : ∀ done s done' s', item done s = some (done', s') →
      Stuck s' ∨ ∃ w b x, step done x = some done' ∧ s = w ++ (b ++ s') ∧ Spaces w ∧ R b x)
    {close : UInt8} (hclose : close ≠ 0) (hminus : close ≠ ascii '-') {o : UInt8}
    {s : List UInt8} {r : List UInt8}
    (h : parseContainer item close (o :: s) = some (done', r)) :
    ∃ t, s = t ++ close :: r ∧ (done' = [] ∧ Spaces t ∨ Items R step [] done' t) := by
  unfold parseContainer at h
  rw [List.drop_succ_cons, List.drop_zero] at h
  obtain ⟨w, hw, hs⟩ := exists_spaces s
  generalize skipWhitespaces s = s₁ at h hs
  dsimp only at h
  split_ifs at h with hempty
  · obtain ⟨rfl, rfl⟩ := Prod.mk.inj (Option.some.inj h)
    refine ⟨w, ?_, Or.inl ⟨rfl, hw⟩⟩
    rw [← eq_cons_of_charAt hempty hclose]
    exact hs
  split at h
  · cases h
  rename_i done₁ s₂ hloop
  split_ifs at h with hend
  obtain ⟨rfl, rfl⟩ := Prod.mk.inj (Option.some.inj h)
  have hchar := not_not.mp (not_or.mp hend).1
  rcases items_of_parseItems hitem (Nat.le_refl _) hloop with hstuck | ⟨t, ht, hnew, hskip⟩
  · rw [hstuck.skip] at hchar
    exact absurd hchar (hstuck.charAt_ne hclose hminus)
  · rw [hskip] at hchar ⊢
    refine ⟨w ++ t, ?_, Or.inr (hnew.prepend hw)⟩
    rw [List.append_assoc, ← eq_cons_of_charAt hchar hclose, ← ht]
    exact hs

end Items

/-! ## Values -/

/-- What is read of `s`, with whitespace before it, when `r` is left. -/
def Reads (libc : Libc) (left : Nat) (v : JSONValue) (s r : List UInt8) : Prop :=
  ∃ w t, s = w ++ (t ++ r) ∧ Spaces w ∧
    ((∃ j, JsonText Numeral.Lax j t ∧ Ends j t r ∧ j.read libc left = some v) ∨
      t = [] ∧ Stray libc v r)

theorem ends_of_ne {j : JsonSyntax} {t r : List UInt8} (h : ∀ p, j ≠ .number p) :
    Ends j t r := fun p hp => absurd hp (h p)

/-- A decimal number that passes for one. -/
theorem lax_of_isDecimal {t : List UInt8} (ht : isNumber t = true)
    (hdecimal : isDecimal t t.length = true)
    (hhead : charAt t 0 = ascii '-' ∨ ascii '0' ≤ charAt t 0 ∧ charAt t 0 ≤ ascii '9') :
    ∃ p : Numeral, p.Lax ∧ ¬ p.ZeroExponent ∧ p.render = t := by
  obtain ⟨hzero, hchars⟩ := (isDecimal_eq_true_iff t).mp hdecimal
  have hx : ∀ c ∈ t, c ∉ literal "xX" := fun c hc hmem =>
    hchars c hc (List.mem_append_left [0] hmem)
  obtain ⟨p, hp, rfl⟩ := exists_of_isNumber ht hx
  rw [skipMinus_render hp] at hzero
  have hbegins : p.minus = true ∨ p.int ≠ [] := by
    cases hminus : p.minus with
    | true => exact Or.inl rfl
    | false =>
        refine Or.inr fun hnil => ?_
        have hpoint := (hp.first.resolve_left fun hne => hne.1 hnil).2
        have hrender : p.render = p.unsigned := by rw [Numeral.render, hminus]; rfl
        rw [hrender, hpoint] at hhead
        exact absurd hhead (by decide)
  obtain ⟨hlax, hexponent⟩ := (Numeral.not_leadingZero_iff hp hbegins).mp hzero
  exact ⟨p, hlax, hexponent, rfl⟩

/-- A number is read whole, if there is one. -/
theorem reads_of_parseNumberValue {libc : Libc} {left : Nat} {s : List UInt8} {v : JSONValue}
    {r : List UInt8}
    (hhead : charAt s 0 = ascii '-' ∨ ascii '0' ≤ charAt s 0 ∧ charAt s 0 ≤ ascii '9')
    (h : parseNumberValue libc s = some (v, r)) : Reads libc (left + 1) v s r := by
  unfold parseNumberValue at h
  split at h
  · cases h
  rename_i x n hread
  split_ifs at h with hdecimal
  obtain ⟨rfl, rfl⟩ := Prod.mk.inj (Option.some.inj h)
  obtain ⟨rfl, hx⟩ := eq_numberLength_of_strtod hread
  refine ⟨[], s.take (numberLength s), (List.take_append_drop _ s).symm, List.forall_mem_nil _, ?_⟩
  have hlongest := longest_numberLength s
  rcases Nat.eq_zero_or_pos (numberLength s) with hzero | hpos
  · rw [hzero, List.take_zero] at hx hlongest ⊢
    rw [List.drop_zero] at hlongest ⊢
    refine Or.inr ⟨rfl, hhead.resolve_right fun hdigit => ?_, hlongest, ?_, x, rfl, hx⟩
    · -- a digit is a number
      cases s with
      | nil => exact absurd hdigit.1 (by decide)
      | cons c s =>
          have hall : ∀ c : UInt8, ascii '0' ≤ c ∧ c ≤ ascii '9' → isNumber [c] = true :=
            forall_uint8 (by decide +kernel)
          have hlen := hlongest [c] (hall c hdigit) (List.prefix_append [c] s)
          exact Nat.not_succ_le_zero 0 hlen
    · unfold Libc.strtod at hread
      split_ifs at hread with hfinite
      exact Bool.eq_false_iff.mpr hfinite
  · have hnumber := isNumber_take hpos.ne'
    have hlen : (s.take (numberLength s)).length = numberLength s :=
      List.length_take_of_le (numberLength_le s)
    have hfirst := charAt_append (t := s.take (numberLength s)) (k := 0) (by rw [hlen]; exact hpos)
      (s.drop (numberLength s))
    have htext := isDecimal_append (s.take (numberLength s)) (s.drop (numberLength s))
    rw [List.take_append_drop] at hfirst htext
    rw [hlen, hdecimal] at htext
    rw [hfirst] at hhead
    obtain ⟨p, hlax, hexponent, hp⟩ :=
      lax_of_isDecimal hnumber (by rw [hlen]; exact htext.symm) hhead
    rw [← hp] at hx hlongest ⊢
    refine Or.inl ⟨.number p, .number hlax, fun _ _ => hlongest, ?_⟩
    rw [JsonSyntax.read, if_neg hexponent, hx]
    rfl

/-- The body of a member. -/
def MemberBody (body : List UInt8) (member : List UInt8 × JsonSyntax) : Prop :=
  ∃ m : MemberText, m.toItem.body = body ∧ m.toItem.item = member ∧ Spaces m.colon ∧
    Spaces m.element.before ∧ StringText m.quoted m.key ∧
    JsonText Numeral.Lax m.element.item m.element.body

/-- A round of `parse_array_value`. -/
theorem element_of_parseElement {libc : Libc} {left : Nat}
    (hvalue : ∀ {s v r}, parseValue libc left s = some (v, r) → Reads libc left v s r)
    {elements elements' : List JSONValue} {s s' : List UInt8}
    (h : parseElement (parseValue libc left) elements s = some (elements', s')) :
    Stuck s' ∨ ∃ w b j, readElement (JsonSyntax.read libc left) elements j = some elements' ∧
      s = w ++ (b ++ s') ∧ Spaces w ∧ JsonText Numeral.Lax j b := by
  unfold parseElement at h
  split at h
  · cases h
  rename_i new s₁ hnew
  obtain ⟨rfl, rfl⟩ := Prod.mk.inj (Option.some.inj h)
  obtain ⟨w, t, hs, hw, ⟨j, htext, -, hread⟩ | ⟨-, hstray⟩⟩ := hvalue hnew
  · exact Or.inr ⟨w, t, j, by rw [readElement, hread]; rfl, hs, hw, htext⟩
  · exact Or.inl (Or.inr hstray.minus)

/-- A round of `parse_object_value`. -/
theorem member_of_parseMember {libc : Libc} {left : Nat}
    (hvalue : ∀ {s v r}, parseValue libc left s = some (v, r) → Reads libc left v s r)
    {members members' : List (String × JSONValue)} {s s' : List UInt8}
    (h : parseMember (parseValue libc left) members s = some (members', s')) :
    Stuck s' ∨ ∃ w b m, readMember (JsonSyntax.read libc left) members m = some members' ∧
      s = w ++ (b ++ s') ∧ Spaces w ∧ MemberBody b m := by
  unfold parseMember at h
  split at h
  · cases h
  rename_i key s₁ hkey
  obtain ⟨quoted, m, rfl, hquoted, rfl⟩ := stringText_of_getQuotedString hkey
  obtain ⟨colon, hcolon, hs₁⟩ := exists_spaces s₁
  dsimp only at h
  split_ifs at h with hsep
  have hsep := eq_cons_of_charAt (not_not.mp hsep) (by decide)
  split at h
  · cases h
  rename_i new s₂ hnew
  split at h
  · cases h
  rename_i members₁ hadd
  obtain ⟨rfl, rfl⟩ := Prod.mk.inj (Option.some.inj h)
  obtain ⟨w, t, hs, hw, ⟨j, htext, -, hread⟩ | ⟨-, hstray⟩⟩ := hvalue hnew
  · refine Or.inr ⟨[], _, (m, j), ?_, ?_, List.forall_mem_nil _,
      ⟨[], quoted, m, colon, ⟨w, t, [], j⟩⟩, rfl, rfl, hcolon, hw, hquoted, htext⟩
    · rw [readMember, hread]
      exact hadd
    · rw [hs₁, hsep, hs]
      simp [MemberText.toItem]
  · exact Or.inl (Or.inr hstray.minus)

/-- A member in its text, as the grammar wants it. -/
def MemberText.Good (m : MemberText) : Prop :=
  (Spaces m.before ∧ Spaces m.colon ∧ Spaces m.element.before ∧ Spaces m.element.after) ∧
    StringText m.quoted m.key ∧ JsonText Numeral.Lax m.element.item m.element.body

/-- An item whose body is a member's is a member. -/
theorem exists_member {e : ItemText (List UInt8 × JsonSyntax)} (h : e.Good MemberBody) :
    ∃ m : MemberText, m.Good ∧ m.toItem = e := by
  obtain ⟨hbefore, hafter, m, hbody, hitem, hcolon, hvalue, hkey, htext⟩ := h
  refine ⟨⟨e.before, m.quoted, m.key, m.colon, { m.element with after := e.after }⟩,
    ⟨⟨hbefore, hcolon, hvalue, hafter⟩, hkey, htext⟩, ?_⟩
  cases e
  exact congrArg₂ (ItemText.mk _ · _ ·) hbody hitem

/-- The members that are read are a text of an object. -/
theorem jsonText_object {members : List (ItemText (List UInt8 × JsonSyntax))}
    (hne : members ≠ []) (hgood : ∀ b ∈ members, b.Good MemberBody) :
    JsonText Numeral.Lax (.object (members.map ItemText.item))
      (ascii '{' :: commaSeparated members ++ [ascii '}']) := by
  have htexts : members ∈
      Set.range (List.map fun m : {m : MemberText // m.Good} => m.1.toItem) := by
    rw [Set.range_list_map]
    intro b hb
    obtain ⟨m, hm, hb⟩ := exists_member (hgood b hb)
    exact ⟨⟨m, hm⟩, hb⟩
  obtain ⟨ms, rfl⟩ := htexts
  have hms : ∀ m ∈ ms.map Subtype.val, m.Good := by
    intro m hm
    obtain ⟨m', -, rfl⟩ := List.mem_map.mp hm
    exact m'.2
  have htext := @JsonText.object Numeral.Lax (ms.map Subtype.val)
    (fun hnil => hne (by rw [List.map_eq_nil_iff.mp hnil]; rfl))
    (fun m hm => (hms m hm).1) (fun m hm => (hms m hm).2.1) (fun m hm => (hms m hm).2.2)
  rw [List.map_map, List.map_map] at htext
  rw [List.map_map]
  exact htext

/-- **What is read.** What `parse_value` reads is a text that is read as the value, with
    whitespace before it, or a minus sign that stands alone. -/
theorem reads_of_parseValue {libc : Libc} : ∀ {left : Nat} {s : List UInt8} {v : JSONValue}
    {r : List UInt8}, parseValue libc left s = some (v, r) → Reads libc left v s r := by
  intro left
  induction left with
  | zero =>
      intro s v r h
      cases h
  | succ left ih =>
      intro s v r h
      obtain ⟨w, hw, hs⟩ := exists_spaces s
      -- what is read of the text without the whitespace
      suffices hread : Reads libc (left + 1) v (skipWhitespaces s) r by
        obtain ⟨w', t, ht, hw', hv⟩ := hread
        exact ⟨w ++ w', t, by rw [List.append_assoc, ← ht]; exact hs,
          List.forall_mem_append.mpr ⟨hw, hw'⟩, hv⟩
      rw [parseValue] at h
      generalize skipWhitespaces s = string at h ⊢
      split_ifs at h with hobject harray hstring hboolean hnumber hnull
      · obtain ⟨⟨members, rest⟩, hread, heq⟩ := Option.map_eq_some_iff.mp h
        obtain ⟨rfl, rfl⟩ := Prod.mk.inj heq
        rw [eq_cons_of_charAt hobject (by decide)] at hread ⊢
        obtain ⟨t, ht, hitems⟩ := items_of_parseContainer
          (fun _ _ _ _ h => member_of_parseMember ih h) (by decide) (by decide) hread
        refine ⟨[], ascii '{' :: t ++ [ascii '}'], by rw [ht]; simp, List.forall_mem_nil _,
          Or.inl ?_⟩
        rcases hitems with ⟨rfl, hspaces⟩ | ⟨e, rest, hfold, rfl, hgood⟩
        · exact ⟨_, .emptyObject hspaces, ends_of_ne (by simp), rfl⟩
        · exact ⟨_, jsonText_object (List.cons_ne_nil _ _) hgood, ends_of_ne (by simp),
            by rw [JsonSyntax.read, hfold]; rfl⟩
      · obtain ⟨⟨elements, rest⟩, hread, heq⟩ := Option.map_eq_some_iff.mp h
        obtain ⟨rfl, rfl⟩ := Prod.mk.inj heq
        rw [eq_cons_of_charAt harray (by decide)] at hread ⊢
        obtain ⟨t, ht, hitems⟩ := items_of_parseContainer
          (fun _ _ _ _ h => element_of_parseElement ih h) (by decide) (by decide) hread
        refine ⟨[], ascii '[' :: t ++ [ascii ']'], by rw [ht]; simp, List.forall_mem_nil _,
          Or.inl ?_⟩
        rcases hitems with ⟨rfl, hspaces⟩ | ⟨e, rest, hfold, rfl, hgood⟩
        · exact ⟨_, .emptyArray hspaces, ends_of_ne (by simp), rfl⟩
        · exact ⟨_, .array (List.cons_ne_nil _ _)
            (fun b hb => ⟨(hgood b hb).1, (hgood b hb).2.1⟩) (fun b hb => (hgood b hb).2.2),
            ends_of_ne (by simp), by rw [JsonSyntax.read, hfold]; rfl⟩
      · obtain ⟨⟨bytes, rest⟩, hread, heq⟩ := Option.map_eq_some_iff.mp h
        obtain ⟨rfl, rfl⟩ := Prod.mk.inj heq
        obtain ⟨t, m, ht, htext, rfl⟩ := stringText_of_getQuotedString hread
        exact ⟨[], ascii '"' :: t ++ [ascii '"'], by rw [ht]; simp, List.forall_mem_nil _,
          Or.inl ⟨_, .string htext, ends_of_ne (by simp), rfl⟩⟩
      · unfold parseBooleanValue at h
        split_ifs at h with htrue hfalse
        · obtain ⟨rfl, rfl⟩ := Prod.mk.inj (Option.some.inj h)
          obtain ⟨rest, rfl⟩ := List.isPrefixOf_iff_prefix.mp htrue
          exact ⟨[], literal "true", rfl, List.forall_mem_nil _,
            Or.inl ⟨_, .boolean true, ends_of_ne (by simp), rfl⟩⟩
        · obtain ⟨rfl, rfl⟩ := Prod.mk.inj (Option.some.inj h)
          obtain ⟨rest, rfl⟩ := List.isPrefixOf_iff_prefix.mp hfalse
          exact ⟨[], literal "false", rfl, List.forall_mem_nil _,
            Or.inl ⟨_, .boolean false, ends_of_ne (by simp), rfl⟩⟩
      · exact reads_of_parseNumberValue hnumber h
      · unfold parseNullValue at h
        split_ifs at h with hpre
        obtain ⟨rfl, rfl⟩ := Prod.mk.inj (Option.some.inj h)
        obtain ⟨rest, rfl⟩ := List.isPrefixOf_iff_prefix.mp hpre
        exact ⟨[], literal "null", rfl, List.forall_mem_nil _,
          Or.inl ⟨_, .null, ends_of_ne (by simp), rfl⟩⟩

/-- A minus sign that stands alone is read. -/
theorem jsonParseString_stray {libc : Libc} {v : JSONValue} {w r bom : List UInt8}
    (hw : Spaces w) (hr : Stray libc v r) (hbom : bom = [] ∨ bom = [0xEF, 0xBB, 0xBF]) :
    jsonParseString libc (bom ++ (w ++ r)) = some v := by
  obtain ⟨hminus, hnone, hfinite, x, rfl, hx⟩ := hr
  have hlength : numberLength r = 0 := by
    by_contra hne
    have hlen := hnone _ (isNumber_take hne) (List.take_prefix _ r)
    rw [List.length_take_of_le (numberLength_le r)] at hlen
    exact hne (Nat.le_zero.mp hlen)
  have hread : parseValue libc (maxNesting + 1) (w ++ r) = some (.number x, r) := by
    rw [parseValue_number libc maxNesting hw (Or.inl hminus), parseNumberValue, Libc.strtod,
      hfinite, if_neg Bool.false_ne_true, hlength, List.take_zero, hx]
    rfl
  unfold jsonParseString
  rcases hbom with rfl | rfl
  · rw [List.nil_append, not_bom hw (by rw [hminus]; decide)]
    dsimp only
    rw [if_neg Bool.false_ne_true, hread]
    rfl
  · have hmark : List.isPrefixOf [0xEF, 0xBB, 0xBF] ([0xEF, 0xBB, 0xBF] ++ (w ++ r)) = true :=
      List.isPrefixOf_iff_prefix.mpr (List.prefix_append _ _)
    rw [if_pos hmark]
    show (parseValue libc (maxNesting + 1) (w ++ r)).map Prod.fst = _
    rw [hread]
    rfl

/-- **What is accepted.** `json_parse_string` returns a value exactly for the texts that begin
    with a text of the grammar, where digits may be missing from the numbers: it has this value,
    is nested no deeper than allowed and fulfils what `parson.c` asks beyond the grammar. Or they
    begin with a minus sign that is no number. Before it there may be a byte order mark and
    whitespace; what stands behind it is not looked at, except that a number has to end there. -/
theorem jsonParseString_eq_some_iff (libc : Libc) (string : List UInt8) (v : JSONValue) :
    jsonParseString libc string = some v ↔
      ∃ bom w t r, string = bom ++ (w ++ (t ++ r)) ∧
        (bom = [] ∨ bom = [0xEF, 0xBB, 0xBF]) ∧ Spaces w ∧
        ((∃ j, JsonText Numeral.Lax j t ∧ Ends j t r ∧
          v = j.value libc ∧ Within (maxNesting + 1) (j.value libc) ∧ j.Taken libc) ∨
        t = [] ∧ Stray libc v r) := by
  simp only [← read_eq_some_iff]
  constructor
  · intro h
    obtain ⟨⟨v', r⟩, hread, rfl⟩ := Option.map_eq_some_iff.mp h
    split_ifs at hread with hbom
    · obtain ⟨s, rfl⟩ := List.isPrefixOf_iff_prefix.mp hbom
      obtain ⟨w, t, hs, hw, hv⟩ := reads_of_parseValue hread
      have hdrop : ([0xEF, 0xBB, 0xBF] ++ s).drop 3 = s := rfl
      rw [hdrop] at hs
      exact ⟨_, w, t, r, by rw [hs], Or.inr rfl, hw, hv⟩
    · obtain ⟨w, t, hs, hw, hv⟩ := reads_of_parseValue hread
      exact ⟨[], w, t, r, hs, Or.inl rfl, hw, hv⟩
  · rintro ⟨bom, w, t, r, rfl, hbom, hw, ⟨j, htext, hends, hread⟩ | ⟨rfl, hstray⟩⟩
    · rw [jsonParseString_of_ends (fun _ hp => hp) libc htext hw hends hbom, hread]
    · exact jsonParseString_stray hw hstray hbom

/-- A lone minus sign is a number. -/
theorem jsonParseString_eq_some_iff_minus :
    jsonParseString naturalLibc (literal "-") = some (.number 0) := by
  have hnone : Longest [] (literal "-") := by
    intro t ht hpre
    cases t with
    | nil => exact Nat.le_refl _
    | cons c t =>
        obtain ⟨rfl, hnil⟩ := List.cons_prefix_cons.mp hpre
        rw [List.prefix_nil.mp hnil] at ht
        exact absurd ht (by decide)
  have hvalue : naturalLibc.number [] = some 0 := by simp [naturalLibc, readNat]
  exact (jsonParseString_eq_some_iff naturalLibc _ _).mpr ⟨[], [], [], literal "-", rfl,
    Or.inl rfl, List.forall_mem_nil _, Or.inr ⟨rfl, rfl, hnone, by decide, 0, rfl, hvalue⟩⟩

end Lightsocks
