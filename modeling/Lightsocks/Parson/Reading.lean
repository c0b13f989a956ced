import Lightsocks.Parson.Grammar

/-
  `lib/parson.c`: reading the texts of JSON.

  `parse_value` reads a text as its syntax is read (`parseValue_text`). So `json_parse_string`
  reads a text of JSON exactly when it is nested within the limit and fulfils
  `JsonSyntax.Taken` (`jsonParseString_text`).
-/

namespace Lightsocks

open Lib

/-! ## Whitespace -/

theorem skipWhitespaces_append {w : List UInt8} (hw : Spaces w) (s : List UInt8) :
    skipWhitespaces (w ++ s) = skipWhitespaces s := by
  rw [skipWhitespaces, List.dropWhile_append_of_pos hw]
  rfl

theorem skipWhitespaces_cons {c : UInt8} (h : isspace c = false) (s : List UInt8) :
    skipWhitespaces (c :: s) = c :: s := by
  rw [skipWhitespaces, List.dropWhile_cons_of_neg (by rw [h]; exact Bool.false_ne_true)]

theorem skipWhitespaces_spaces {w : List UInt8} (hw : Spaces w) {c : UInt8}
    (h : isspace c = false) (s : List UInt8) :
    skipWhitespaces (w ++ c :: s) = c :: s := by
  rw [skipWhitespaces_append hw, skipWhitespaces_cons h]

theorem spaces_of_all {w : List UInt8} (h : w.all isspace = true) : Spaces w :=
  List.all_eq_true.mp h

/-- Whitespace delimits, and so does the end. -/
theorem delimits_spaces_end {w : List UInt8} (hw : Spaces w) : Delimits w :=
  fun c hc => Or.inl (hw c (List.mem_of_mem_head? hc))

/-- What follows an item delimits it. -/
theorem delimits_spaces {w : List UInt8} (hw : Spaces w) {c : UInt8} (hc : c ∈ literal ",]\x7d")
    (s : List UInt8) : Delimits (w ++ c :: s) := by
  intro d hd
  cases w with
  | nil =>
      obtain rfl := Option.some.inj hd
      exact Or.inr hc
  | cons a w =>
      obtain rfl := Option.some.inj hd
      exact Or.inl (hw _ List.mem_cons_self)

/-! ## The loop -/

/-- An item begins with a character that neither is skipped nor closes the container. -/
def Begins (t : List UInt8) : Prop :=
  ∃ c s, t = c :: s ∧ isspace c = false ∧ c ∉ literal "]\x7d"

/-- What stands behind the body of an item, up to the closing bracket and what follows that. -/
def behind {α : Type*} (e : ItemText α) (rest : List (ItemText α)) (s : List UInt8) :
    List UInt8 :=
  e.after ++ ((rest.flatMap fun e => ascii ',' :: e.render) ++ s)

theorem behind_cons {α : Type*} (e e' : ItemText α) (rest : List (ItemText α))
    (s : List UInt8) : behind e (e' :: rest) s =
      e.after ++ ascii ',' :: (e'.before ++ (e'.body ++ behind e' rest s)) := by
  simp [behind, ItemText.render]

theorem commaSeparated_cons {α : Type*} (e : ItemText α) (rest : List (ItemText α))
    (s : List UInt8) :
    commaSeparated (e :: rest) ++ s = e.before ++ (e.body ++ behind e rest s) := by
  simp [commaSeparated, behind, ItemText.render]

theorem commaSeparated_cons_cons {α : Type*} (e e' : ItemText α) (rest : List (ItemText α)) :
    commaSeparated (e :: e' :: rest) = e.render ++ ascii ',' :: commaSeparated (e' :: rest) := by
  simp [commaSeparated]

/-- **The loop over the items.** When the reader takes each item in its turn as `step` does, the
    loop takes them all as `step` does one after the other. -/
theorem parseItems_texts {α β : Type*} {step : List β → α → Option (List β)}
    {item : List β → List UInt8 → Option (List β × List UInt8)} {close : UInt8}
    {r : List UInt8} (hclose : isspace close = false) (hcloses : close ∈ literal "]\x7d") :
    ∀ (rest : List (ItemText α)) (e : ItemText α) (done : List β) (fuel : Nat),
      (∀ b ∈ e :: rest, (Spaces b.before ∧ Spaces b.after) ∧ Begins b.body) →
      (∀ b ∈ e :: rest, ∀ done s, Delimits s →
        item done (b.body ++ s) = (step done b.item).map (·, s)) →
      (e.body ++ behind e rest (close :: r)).length ≤ fuel →
      parseItems item fuel done (e.body ++ behind e rest (close :: r)) =
        (((e :: rest).map ItemText.item).foldlM step done).map (·, close :: r) := by
  have hsub : ∀ {c : UInt8}, c ∈ literal "]\x7d" → c ∈ literal ",]\x7d" := List.mem_cons_of_mem _
  have hcomma : close ≠ ascii ',' := by
    rintro rfl
    exact absurd hcloses (by decide)
  intro rest
  induction rest with
  | nil =>
      intro e done fuel htexts hitem hfuel
      obtain ⟨⟨-, hafter⟩, c, s, hbody, -, -⟩ := htexts e List.mem_cons_self
      have hread := hitem e List.mem_cons_self done _ (delimits_spaces hafter (hsub hcloses) r)
      have hbehind : behind e [] (close :: r) = e.after ++ close :: r := rfl
      rw [hbehind] at hfuel ⊢
      obtain ⟨fuel, rfl⟩ : ∃ k, fuel = k + 1 := by
        rw [hbody, List.cons_append, List.length_cons] at hfuel
        exact ⟨fuel - 1, by omega⟩
      rw [parseItems, if_neg (by rw [hbody]; exact List.cons_ne_nil _ _), hread, List.map_singleton,
        List.foldlM_cons]
      cases step done e.item with
      | none => rfl
      | some done' =>
          rw [Option.map_some]
          dsimp only
          rw [skipWhitespaces_spaces hafter hclose, charAt_zero_cons, if_pos hcomma]
          rfl
  | cons e' rest ih =>
      intro e done fuel htexts hitem hfuel
      obtain ⟨⟨⟨-, hafter⟩, c, s, hbody, -, -⟩, htexts⟩ := List.forall_mem_cons.mp htexts
      obtain ⟨⟨hbefore', -⟩, c', s', hbody', hc', -⟩ := htexts e' List.mem_cons_self
      have hread := hitem e List.mem_cons_self done _
        (delimits_spaces hafter (c := ascii ',') (by decide)
          (e'.before ++ (e'.body ++ behind e' rest (close :: r))))
      rw [behind_cons] at hfuel ⊢
      obtain ⟨fuel, rfl⟩ : ∃ k, fuel = k + 1 := by
        rw [hbody, List.cons_append, List.length_cons] at hfuel
        exact ⟨fuel - 1, by omega⟩
      rw [parseItems, if_neg (by rw [hbody]; exact List.cons_ne_nil _ _), hread, List.map_cons,
        List.foldlM_cons]
      cases step done e.item with
      | none => rfl
      | some done' =>
          have hskip : skipWhitespaces (e'.before ++ (e'.body ++ behind e' rest (close :: r))) =
              e'.body ++ behind e' rest (close :: r) := by
            rw [hbody', List.cons_append, skipWhitespaces_spaces hbefore' hc']
          have hrest := ih e' done' fuel htexts (fun b hb => hitem b (List.mem_cons_of_mem e hb))
            (by simp only [List.length_append, List.length_cons] at hfuel ⊢; omega)
          rw [Option.map_some]
          dsimp only
          rw [skipWhitespaces_spaces hafter (by decide), charAt_zero_cons, if_neg (by simp),
            List.drop_succ_cons, List.drop_zero, hskip, hrest]
          rfl

/-- Taking an item leaves some. -/
theorem foldlM_ne_nil {α β : Type*} {step : List β → α → Option (List β)}
    (hstep : ∀ {done a done'}, step done a = some done' → done' ≠ []) {l : List α} :
    ∀ {done done' : List β}, l ≠ [] ∨ done ≠ [] → l.foldlM step done = some done' →
      done' ≠ [] := by
  induction l with
  | nil =>
      rintro done done' (h | h) ⟨⟩
      · exact absurd rfl h
      · exact h
  | cons a l ih =>
      intro done done' _ h
      rw [List.foldlM_cons, Option.bind_eq_bind, Option.bind_eq_some_iff] at h
      obtain ⟨done₁, hfirst, hrest⟩ := h
      exact ih (Or.inr (hstep hfirst)) hrest

/-- The items between brackets. -/
theorem parseContainer_texts {α β : Type*} (step : List β → α → Option (List β))
    (hstep : ∀ {done a done'}, step done a = some done' → done' ≠ [])
    (item : List β → List UInt8 → Option (List β × List UInt8)) (first : UInt8) {close : UInt8}
    (hclose : isspace close = false) (hcloses : close ∈ literal "]\x7d")
    (items : List (ItemText α)) (hne : items ≠ [])
    (htexts : ∀ b ∈ items, (Spaces b.before ∧ Spaces b.after) ∧ Begins b.body)
    (hitem : ∀ b ∈ items, ∀ done s, Delimits s →
      item done (b.body ++ s) = (step done b.item).map (·, s))
    (r : List UInt8) :
    parseContainer item close (first :: (commaSeparated items ++ close :: r)) =
      ((items.map ItemText.item).foldlM step []).map (·, r) := by
  obtain ⟨e, rest, rfl⟩ := List.exists_cons_of_ne_nil hne
  obtain ⟨⟨hbefore, -⟩, c, s, hbody, hc, hc'⟩ := htexts e List.mem_cons_self
  have hskip : skipWhitespaces ((first :: (commaSeparated (e :: rest) ++ close :: r)).drop 1) =
      e.body ++ behind e rest (close :: r) := by
    rw [List.drop_succ_cons, List.drop_zero, commaSeparated_cons, hbody, List.cons_append,
      skipWhitespaces_spaces hbefore hc]
  have hfirst : charAt (e.body ++ behind e rest (close :: r)) 0 ≠ close := by
    rw [hbody]
    intro heq
    have hfirst : c = close := heq
    exact hc' (hfirst ▸ hcloses)
  have hloop := parseItems_texts (r := r) hclose hcloses rest e [] _ htexts hitem (Nat.le_refl _)
  unfold parseContainer
  rw [hskip]
  dsimp only
  rw [if_neg hfirst, hloop]
  cases hfold : ((e :: rest).map ItemText.item).foldlM step [] with
  | none => rfl
  | some done =>
      have hlen : done.length ≠ 0 := fun hzero =>
        foldlM_ne_nil hstep (Or.inl (by simp)) hfold (List.length_eq_zero_iff.mp hzero)
      rw [Option.map_some]
      dsimp only
      rw [skipWhitespaces_cons hclose, charAt_zero_cons, if_neg (by simp [hlen]),
        List.drop_succ_cons, List.drop_zero]
      rfl

theorem parseContainer_empty {α : Type*}
    (item : List α → List UInt8 → Option (List α × List UInt8)) {first close : UInt8}
    (hclose : isspace close = false) {w : List UInt8} (hw : Spaces w) (r : List UInt8) :
    parseContainer item close (first :: (w ++ close :: r)) = some ([], r) := by
  unfold parseContainer
  rw [List.drop_succ_cons, List.drop_zero, skipWhitespaces_spaces hw hclose]
  dsimp only
  rw [if_pos (charAt_zero_cons _ _), List.drop_succ_cons, List.drop_zero]

/-! ## Numbers -/

/-- A number ends where its text does. -/
def Ends (j : JsonSyntax) (t r : List UInt8) : Prop := ∀ p, j = .number p → Longest t r

theorem Delimits.ends {r : List UInt8} (hr : Delimits r) (j : JsonSyntax) (t : List UInt8) :
    Ends j t r := fun _ _ => hr.longest t

/-- The first character of a number that is not missing all its digits before the point. -/
theorem Numeral.Lax.head {p : Numeral} (h : p.Lax) :
    charAt p.render 0 = ascii '-' ∨ ascii '0' ≤ charAt p.render 0 ∧
      charAt p.render 0 ≤ ascii '9' := by
  cases hminus : p.minus with
  | true => exact Or.inl (by rw [render, hminus]; rfl)
  | false =>
      right
      have hne := h.begins.resolve_left (by rw [hminus]; exact Bool.false_ne_true)
      have hdigit := (h.decimal.first.resolve_right fun hnil => hne hnil.1).2
      have hrender : p.render = p.unsigned := by rw [render, hminus]; rfl
      rw [hrender]
      exact (isdigit_spec _ hdigit).1

theorem parseNumberValue_render (libc : Libc) {p : Numeral} (hp : p.Lax) {r : List UInt8}
    (hr : Longest p.render r) :
    parseNumberValue libc (p.render ++ r) =
      (if p.ZeroExponent then none else (libc.number p.render).map .number).map (·, r) := by
  have hdecimal : isDecimal (p.render ++ r) p.render.length = true ↔ ¬ p.ZeroExponent := by
    rw [isDecimal_append]
    exact isDecimal_render hp
  rw [parseNumberValue, strtod_render libc hp.decimal hr]
  cases libc.number p.render with
  | none => split_ifs <;> rfl
  | some x =>
      rw [Option.map_some]
      dsimp only
      by_cases hexponent : p.ZeroExponent
      · rw [if_neg fun h => hdecimal.mp h hexponent, if_pos hexponent]
        rfl
      · rw [if_pos (hdecimal.mpr hexponent), if_neg hexponent, List.drop_left]
        rfl

/-! ## Values -/

/-- The dispatch on the first character. -/
theorem parseValue_succ (libc : Libc) (left : Nat) {w : List UInt8} (hw : Spaces w) {c : UInt8}
    (hc : isspace c = false) (s : List UInt8) :
    parseValue libc (left + 1) (w ++ c :: s) =
      if c = ascii '{' then parseObjectValue (parseValue libc left) (c :: s)
      else if c = ascii '[' then parseArrayValue (parseValue libc left) (c :: s)
      else if c = ascii '"' then parseStringValue (c :: s)
      else if c = ascii 'f' ∨ c = ascii 't' then parseBooleanValue (c :: s)
      else if c = ascii '-' ∨ ascii '0' ≤ c ∧ c ≤ ascii '9' then parseNumberValue libc (c :: s)
      else if c = ascii 'n' then parseNullValue (c :: s)
      else none := by
  rw [parseValue, skipWhitespaces_spaces hw hc]
  rfl

/-- A number goes to `parse_number_value`. -/
theorem parseValue_number (libc : Libc) (left : Nat) {w : List UInt8} (hw : Spaces w)
    {s : List UInt8}
    (hs : charAt s 0 = ascii '-' ∨ ascii '0' ≤ charAt s 0 ∧ charAt s 0 ≤ ascii '9') :
    parseValue libc (left + 1) (w ++ s) = parseNumberValue libc s := by
  have hall : ∀ c : UInt8, (c = ascii '-' ∨ ascii '0' ≤ c ∧ c ≤ ascii '9') →
      isspace c = false ∧ c ≠ ascii '{' ∧ c ≠ ascii '[' ∧ c ≠ ascii '"' ∧
        ¬ (c = ascii 'f' ∨ c = ascii 't') :=
    forall_uint8 (by decide +kernel)
  cases s with
  | nil => exact absurd hs (by decide)
  | cons c s =>
      have hhead : c = ascii '-' ∨ ascii '0' ≤ c ∧ c ≤ ascii '9' := hs
      obtain ⟨hc, h₁, h₂, h₃, h₄⟩ := hall c hhead
      rw [parseValue_succ libc left hw hc, if_neg h₁, if_neg h₂, if_neg h₃, if_neg h₄,
        if_pos hhead]

section Texts

variable {Number : Numeral → Prop} (hlax : ∀ p, Number p → p.Lax)

include hlax

/-- The first character of a text. -/
theorem JsonText.head {j : JsonSyntax} {t : List UInt8} (h : JsonText Number j t) :
    ∃ c s, t = c :: s ∧ isspace c = false ∧ c ∉ literal "]\x7d" ∧ c.toNat < 0x80 := by
  have hdigit : ∀ c : UInt8, (c = ascii '-' ∨ ascii '0' ≤ c ∧ c ≤ ascii '9') →
      isspace c = false ∧ c ∉ literal "]\x7d" ∧ c.toNat < 0x80 :=
    forall_uint8 (by decide +kernel)
  cases h with
  | null => exact ⟨_, _, rfl, by decide⟩
  | boolean b => cases b <;> exact ⟨_, _, rfl, by decide⟩
  | @number p hp =>
      obtain ⟨c, s, ht⟩ := List.exists_cons_of_ne_nil (hlax p hp).decimal.render_ne_nil
      have hhead := (hlax p hp).head
      rw [ht] at hhead ⊢
      exact ⟨c, s, rfl, hdigit c hhead⟩
  | string => exact ⟨_, _, rfl, by decide⟩
  | emptyArray => exact ⟨_, _, rfl, by decide⟩
  | array => exact ⟨_, _, rfl, by decide⟩
  | emptyObject => exact ⟨_, _, rfl, by decide⟩
  | object => exact ⟨_, _, rfl, by decide⟩

theorem JsonText.begins {j : JsonSyntax} {t : List UInt8} (h : JsonText Number j t) :
    Begins t := by
  obtain ⟨c, s, ht, hspace, hcloses, -⟩ := h.head hlax
  exact ⟨c, s, ht, hspace, hcloses⟩

omit hlax

/-- A member in its text. -/
theorem parseMember_text {value : List UInt8 → Option (JSONValue × List UInt8)}
    {read : JsonSyntax → Option JSONValue} {m : MemberText}
    (hcolon : Spaces m.colon) (hkey : StringText m.quoted m.key)
    (done : List (String × JSONValue)) (s : List UInt8)
    (hvalue : value (m.element.before ++ (m.element.body ++ s)) =
      (read m.element.item).map (·, s)) :
    parseMember value done (m.toItem.body ++ s) =
      (readMember read done m.toItem.item).map (·, s) := by
  have hquoted : getQuotedString (m.toItem.body ++ s) = some (cString m.key,
      m.colon ++ ascii ':' :: (m.element.before ++ (m.element.body ++ s))) := by
    have hread := hkey.getQuotedString (m.colon ++ ascii ':' ::
      (m.element.before ++ (m.element.body ++ s)))
    rw [← hread]
    simp [MemberText.toItem]
  rw [parseMember, hquoted]
  dsimp only
  rw [skipWhitespaces_spaces hcolon (by decide), charAt_zero_cons, if_neg (by simp),
    List.drop_succ_cons, List.drop_zero, hvalue, readMember, MemberText.toItem]
  cases read m.element.item with
  | none => rfl
  | some new =>
      rw [Option.map_some, Option.bind_some]
      dsimp only
      cases jsonObjectAdd done (memberName (cString m.key)) new <;> rfl

/-- The elements of an array, which their texts are read as. -/
theorem parseArrayValue_texts {libc : Libc} {left : Nat} {elements : List (ItemText JsonSyntax)}
    (hne : elements ≠ []) (hw : ∀ e ∈ elements, Spaces e.before ∧ Spaces e.after)
    (hbegins : ∀ e ∈ elements, Begins e.body)
    (hread : ∀ e ∈ elements, ∀ s, Delimits s → parseValue libc left (e.body ++ s) =
      (e.item.read libc left).map (·, s)) (r : List UInt8) :
    parseArrayValue (parseValue libc left)
        (ascii '[' :: (commaSeparated elements ++ ascii ']' :: r)) =
      ((JsonSyntax.array (elements.map ItemText.item)).read libc (left + 1)).map (·, r) := by
  have hitems := parseContainer_texts (readElement (JsonSyntax.read libc left))
    (by
      intro done j done' h
      obtain ⟨v, -, rfl⟩ := Option.map_eq_some_iff.mp h
      simp)
    (parseElement (parseValue libc left)) (ascii '[') (show isspace (ascii ']') = false by decide)
    (by decide) elements hne (fun e he => ⟨hw e he, hbegins e he⟩)
    (by
      intro e he done s hs
      rw [parseElement, hread e he s hs, readElement]
      cases e.item.read libc left <;> rfl) r
  rw [parseArrayValue, hitems, JsonSyntax.read, Option.map_map, Option.map_map]
  rfl

/-- The members of an object. -/
theorem parseObjectValue_texts {libc : Libc} {left : Nat} {members : List MemberText}
    (hne : members ≠ [])
    (hw : ∀ m ∈ members, Spaces m.before ∧ Spaces m.colon ∧ Spaces m.element.before ∧
      Spaces m.element.after)
    (hkey : ∀ m ∈ members, StringText m.quoted m.key)
    (hread : ∀ m ∈ members, ∀ w s, Spaces w → Delimits s →
      parseValue libc left (w ++ (m.element.body ++ s)) =
        (m.element.item.read libc left).map (·, s)) (r : List UInt8) :
    parseObjectValue (parseValue libc left)
        (ascii '{' :: (commaSeparated (members.map MemberText.toItem) ++ ascii '}' :: r)) =
      ((JsonSyntax.object (members.map fun m => m.toItem.item)).read libc (left + 1)).map
        (·, r) := by
  have hitems := parseContainer_texts (readMember (JsonSyntax.read libc left))
    (by
      intro done m done' h
      obtain ⟨v, -, hadd⟩ := Option.bind_eq_some_iff.mp h
      unfold jsonObjectAdd at hadd
      split_ifs at hadd
      rw [← Option.some.inj hadd]
      simp)
    (parseMember (parseValue libc left)) (ascii '{') (show isspace (ascii '}') = false by decide)
    (by decide) (members.map MemberText.toItem) (by simpa using hne)
    (by
      intro b hb
      obtain ⟨m, hm, rfl⟩ := List.mem_map.mp hb
      obtain ⟨hbefore, -, -, hafter⟩ := hw m hm
      exact ⟨⟨hbefore, hafter⟩, _, _, rfl, by decide, by decide⟩)
    (by
      intro b hb done s hs
      obtain ⟨m, hm, rfl⟩ := List.mem_map.mp hb
      obtain ⟨-, hcolon, hbefore, -⟩ := hw m hm
      exact parseMember_text hcolon (hkey m hm) done s (hread m hm _ s hbefore hs)) r
  rw [parseObjectValue, hitems, JsonSyntax.read, Option.map_map, Option.map_map, List.map_map]
  rfl

include hlax

/-- **Reading a text.** `parse_value` reads a text as its syntax is read, with whitespace before
    it and whatever ends it behind. -/
theorem parseValue_text (libc : Libc) {j : JsonSyntax} {t : List UInt8}
    (h : JsonText Number j t) : ∀ (left : Nat) (w r : List UInt8), Spaces w → Ends j t r →
      parseValue libc left (w ++ (t ++ r)) = (j.read libc left).map (·, r) := by
  have container : ∀ (o c : UInt8) (body r : List UInt8),
      (o :: body ++ [c]) ++ r = o :: (body ++ c :: r) := by simp
  -- without levels left, nothing is read
  have zero : ∀ (j : JsonSyntax) (s r : List UInt8), parseValue libc 0 s =
      (j.read libc 0).map (·, r) := fun j _ _ => by cases j <;> rfl
  induction h with
  | null =>
      rintro (_ | left) w r hw hr
      · exact zero _ _ _
      · exact parseValue_succ libc left hw (c := ascii 'n') (by decide) _
  | boolean b =>
      rintro (_ | left) w r hw hr
      · exact zero _ _ _
      · cases b with
        | true => exact parseValue_succ libc left hw (c := ascii 't') (by decide) _
        | false => exact parseValue_succ libc left hw (c := ascii 'f') (by decide) _
  | @number p hp =>
      rintro (_ | left) w r hw hr
      · exact zero _ _ _
      · have hhead : charAt (p.render ++ r) 0 = charAt p.render 0 :=
          charAt_append (List.length_pos_iff.mpr (hlax p hp).decimal.render_ne_nil) r
        rw [parseValue_number libc left hw (by rw [hhead]; exact (hlax p hp).head),
          parseNumberValue_render libc (hlax p hp) (hr p rfl)]
        rfl
  | @string t m ht =>
      rintro (_ | left) w r hw hr
      · exact zero _ _ _
      · have hquoted : getQuotedString (ascii '"' :: (t ++ ascii '"' :: r)) =
            some (cString m, r) := ht.getQuotedString r
        rw [container, parseValue_succ libc left hw (by decide), if_neg (by decide),
          if_neg (by decide), if_pos rfl, parseStringValue, hquoted]
        rfl
  | emptyArray hw' =>
      rintro (_ | left) w r hw hr
      · exact zero _ _ _
      · rw [container, parseValue_succ libc left hw (by decide), if_neg (by decide),
          if_pos rfl, parseArrayValue, parseContainer_empty _ (by decide) hw']
        rfl
  | array hne hw' h ih =>
      rintro (_ | left) w r hw hr
      · exact zero _ _ _
      · rw [container, parseValue_succ libc left hw (by decide), if_neg (by decide),
          if_pos rfl]
        exact parseArrayValue_texts hne hw' (fun e he => (h e he).begins hlax)
          (fun e he s hs => ih e he left [] s (List.forall_mem_nil _) (hs.ends _ _)) r
  | emptyObject hw' =>
      rintro (_ | left) w r hw hr
      · exact zero _ _ _
      · rw [container, parseValue_succ libc left hw (by decide), if_pos rfl,
          parseObjectValue, parseContainer_empty _ (by decide) hw']
        rfl
  | object hne hw' hkey h ih =>
      rintro (_ | left) w r hw hr
      · exact zero _ _ _
      · rw [container, parseValue_succ libc left hw (by decide), if_pos rfl]
        exact parseObjectValue_texts hne hw' hkey
          (fun m hm w s hw hs => ih m hm left w s hw (hs.ends _ _)) r

end Texts

/-- What begins with ASCII does not begin with a byte order mark. -/
theorem not_bom {w s : List UInt8} (hw : Spaces w) (hs : (charAt s 0).toNat < 0x80) :
    [0xEF, 0xBB, 0xBF].isPrefixOf (w ++ s) = false := by
  have hspace : isspace 0xEF = false := by decide
  have hmark : ¬ (0xEF : UInt8).toNat < 0x80 := by decide
  cases w with
  | nil =>
      cases s with
      | nil => rfl
      | cons c s =>
          have hne : ((0xEF : UInt8) == c) = false := beq_eq_false_iff_ne.mpr (by
            rintro rfl
            exact hmark hs)
          rw [List.nil_append, List.isPrefixOf, hne, Bool.false_and]
  | cons c w =>
      have hne : ((0xEF : UInt8) == c) = false := beq_eq_false_iff_ne.mpr (by
        rintro rfl
        rw [hw _ List.mem_cons_self] at hspace
        cases hspace)
      rw [List.cons_append, List.isPrefixOf, hne, Bool.false_and]

/-- Behind a byte order mark, or without one. -/
theorem jsonParseString_of_ends {Number : Numeral → Prop} (hlax : ∀ p, Number p → p.Lax)
    (libc : Libc) {j : JsonSyntax} {t w r bom : List UInt8} (h : JsonText Number j t)
    (hw : Spaces w) (hr : Ends j t r) (hbom : bom = [] ∨ bom = [0xEF, 0xBB, 0xBF]) :
    jsonParseString libc (bom ++ (w ++ (t ++ r))) = j.read libc (maxNesting + 1) := by
  have hread := parseValue_text hlax libc h (maxNesting + 1) w r hw hr
  unfold jsonParseString
  rcases hbom with rfl | rfl
  · have hfirst : (charAt (t ++ r) 0).toNat < 0x80 := by
      obtain ⟨c, s, rfl, -, -, hc⟩ := h.head hlax
      exact hc
    rw [List.nil_append, not_bom hw hfirst]
    dsimp only
    rw [if_neg Bool.false_ne_true, hread, Option.map_map]
    exact Option.map_id'
  · have hmark : List.isPrefixOf [0xEF, 0xBB, 0xBF] ([0xEF, 0xBB, 0xBF] ++ (w ++ (t ++ r))) =
        true := List.isPrefixOf_iff_prefix.mpr (List.prefix_append _ _)
    rw [if_pos hmark]
    show (parseValue libc (maxNesting + 1) (w ++ (t ++ r))).map Prod.fst = _
    rw [hread, Option.map_map]
    exact Option.map_id'

theorem jsonParseString_of_text (libc : Libc) {j : JsonSyntax} {t w r : List UInt8}
    (h : JsonText Numeral.Json j t) (hw : Spaces w) (hr : Delimits r) :
    jsonParseString libc (w ++ (t ++ r)) = j.read libc (maxNesting + 1) := by
  have hnone : ([] : List UInt8) = [] ∨ ([] : List UInt8) = [0xEF, 0xBB, 0xBF] := Or.inl rfl
  have hread := jsonParseString_of_ends (fun _ hp => Or.inl hp) libc h hw (hr.ends j t) hnone
  rwa [List.nil_append] at hread

/-- **Texts of JSON.** `json_parse_string` reads a text of JSON as its value, however it is laid
    out and whatever escapes its strings are written with, with a byte order mark or without,
    exactly when it is nested within the limit, writes no number as `0e1`, has none that is out of
    range, and repeats no name. -/
theorem jsonParseString_text (libc : Libc) {j : JsonSyntax} {t w r bom : List UInt8}
    (h : JsonText Numeral.Json j t) (hw : Spaces w) (hr : Delimits r)
    (hbom : bom = [] ∨ bom = [0xEF, 0xBB, 0xBF]) (v : JSONValue) :
    jsonParseString libc (bom ++ (w ++ (t ++ r))) = some v ↔
      v = j.value libc ∧ Within (maxNesting + 1) (j.value libc) ∧ j.Taken libc := by
  rw [jsonParseString_of_ends (fun _ hp => Or.inl hp) libc h hw (hr.ends j t) hbom,
    read_eq_some_iff]

/-! ## No NUL -/

theorem Spaces.zero_not_mem {w : List UInt8} (hw : Spaces w) : (0 : UInt8) ∉ w := fun h =>
  absurd (hw 0 h) (by decide)

theorem zero_not_mem_commaSeparated {α : Type*} {items : List (ItemText α)}
    (h : ∀ e ∈ items, (0 : UInt8) ∉ e.render) : (0 : UInt8) ∉ commaSeparated items := by
  cases items with
  | nil => exact List.not_mem_nil
  | cons e rest =>
      obtain ⟨he, hrest⟩ := List.forall_mem_cons.mp h
      rw [commaSeparated, List.mem_append, not_or, List.mem_flatMap]
      refine ⟨he, ?_⟩
      rintro ⟨e', he', hmem⟩
      rcases List.mem_cons.mp hmem with hzero | hmem
      · exact absurd hzero (by decide)
      · exact hrest e' he' hmem

/-- A text has no NUL, so that it is a C string. -/
theorem JsonText.zero_not_mem {Number : Numeral → Prop} (hlax : ∀ p, Number p → p.Lax)
    {j : JsonSyntax} {t : List UInt8} (h : JsonText Number j t) : (0 : UInt8) ∉ t := by
  have brackets : ∀ {o c : UInt8} {s : List UInt8}, o ≠ 0 → c ≠ 0 → (0 : UInt8) ∉ s →
      (0 : UInt8) ∉ o :: s ++ [c] := by
    intro o c s ho hc hs
    simp only [List.cons_append, List.mem_cons, List.mem_append, List.not_mem_nil, or_false,
      not_or]
    exact ⟨ho.symm, hs, hc.symm⟩
  induction h with
  | null => decide
  | boolean b => cases b <;> decide
  | number hp => exact fun hmem => absurd ((hlax _ hp).decimal.chars 0 hmem) (by decide)
  | string ht => exact brackets (by decide) (by decide) ht.zero_not_mem
  | emptyArray hw => exact brackets (by decide) (by decide) hw.zero_not_mem
  | array hne hw h ih =>
      refine brackets (by decide) (by decide) (zero_not_mem_commaSeparated fun e he => ?_)
      rw [ItemText.render, List.mem_append, List.mem_append, not_or, not_or]
      exact ⟨⟨(hw e he).1.zero_not_mem, ih e he⟩, (hw e he).2.zero_not_mem⟩
  | emptyObject hw => exact brackets (by decide) (by decide) hw.zero_not_mem
  | object hne hw hkey h ih =>
      refine brackets (by decide) (by decide) (zero_not_mem_commaSeparated fun e he => ?_)
      obtain ⟨m, hm, rfl⟩ := List.mem_map.mp he
      obtain ⟨hbefore, hcolon, hvalue, hafter⟩ := hw m hm
      have hquote : (0 : UInt8) ≠ ascii '"' := by decide
      have hsep : (0 : UInt8) ≠ ascii ':' := by decide
      simp only [ItemText.render, MemberText.toItem, List.cons_append, List.append_assoc,
        List.mem_append, List.mem_cons, not_or]
      exact ⟨hbefore.zero_not_mem, hquote, (hkey m hm).zero_not_mem, hquote,
        hcolon.zero_not_mem, hsep, hvalue.zero_not_mem, ih m hm, hafter.zero_not_mem⟩

/-- The text in a file: `read_file` gives the file up to its first NUL. -/
theorem jsonParseFile_of_text (libc : Libc) {j : JsonSyntax} {t w r : List UInt8}
    (h : JsonText Numeral.Json j t) (hw : Spaces w) (hr : Delimits r) :
    jsonParseFile libc (some (w ++ (t ++ r))) = j.read libc (maxNesting + 1) := by
  have hlax : ∀ p : Numeral, p.Json → p.Lax := fun _ hp => Or.inl hp
  have hzero : (0 : UInt8) ∉ w ++ t := by
    rw [List.mem_append, not_or]
    exact ⟨hw.zero_not_mem, h.zero_not_mem hlax⟩
  have hstring : cString (w ++ (t ++ r)) = w ++ (t ++ cString r) := by
    rw [← List.append_assoc, cString_append hzero, List.append_assoc]
  have hrest : Delimits (cString r) := by
    cases r with
    | nil => exact hr
    | cons c r =>
        by_cases hc : c = 0
        · rw [hc, cString, List.takeWhile_cons_of_neg (by decide)]
          exact delimits_spaces_end (List.forall_mem_nil _)
        · rw [cString, List.takeWhile_cons_of_pos (by simpa using hc)]
          exact hr
  have hlen : (w ++ (t ++ r)).length ≠ 0 := by
    obtain ⟨c, s, rfl, -⟩ := h.head hlax
    simp
  rw [jsonParseFile, if_neg hlen, hstring, jsonParseString_of_text libc h hw hrest]

/-- A member with some whitespace. -/
def portText (number : List UInt8) : List UInt8 :=
  literal "\x7b \"p\\u006frt\": " ++ number ++ literal "\n\x7d"

/-- Its syntax. -/
def portSyntax (p : Numeral) : JsonSyntax := .object [(literal "port", .number p)]

theorem jsonText_port {p : Numeral} (hp : p.Json) :
    JsonText Numeral.Json (portSyntax p) (portText p.render) := by
  have hport : StringText (literal "p\\u006frt") (literal "port") := by
    have hunit : SpellsUnit (literal "006f") 'o'.toNat :=
      ⟨_, _, _, _, 0, 0, 6, 15, rfl, by decide, by decide, by decide, by decide, by decide⟩
    have hspells : Spells (utf16 'o') (literal "\\u006f") := spells_singleton.mpr ⟨_, hunit, rfl⟩
    have plain : ∀ b : UInt8, 0x20 ≤ b ∧ b ≠ ascii '"' ∧ b ≠ ascii '\\' → StringItem [b] [b] :=
      fun _ h => .plain h.1 h.2.1 h.2.2
    exact .cons (plain (ascii 'p') (by decide)) (.cons (.unicode hspells)
      (.cons (plain (ascii 'r') (by decide)) (.cons (plain (ascii 't') (by decide)) .nil)))
  have hspace : Spaces (literal " ") := spaces_of_all (by decide)
  have hline : Spaces (literal "\n") := spaces_of_all (by decide)
  have htext := @JsonText.object Numeral.Json [⟨literal " ", literal "p\\u006frt",
      literal "port", [], ⟨literal " ", p.render, literal "\n", .number p⟩⟩]
    (List.cons_ne_nil _ _)
    (List.forall_mem_singleton.mpr ⟨hspace, List.forall_mem_nil _, hspace, hline⟩)
    (List.forall_mem_singleton.mpr hport) (List.forall_mem_singleton.mpr (.number hp))
  simpa [commaSeparated, ItemText.render, MemberText.toItem, literal, portSyntax, portText]
    using htext

/-- The value of the member. -/
theorem value_port {n : Nat} (hn : n < 2 ^ 53) :
    (portSyntax (natNumeral n)).value naturalLibc = .object [("port", .number n)] := by
  have hname : memberName (cString (literal "port")) = "port" := by decide
  simp only [portSyntax, JsonSyntax.value, memberValues, hname, naturalLibc_number hn,
    Option.getD_some]

theorem taken_port {n : Nat} (hn : n < 2 ^ 53) :
    (portSyntax (natNumeral n)).Taken naturalLibc := by
  have hnumber : (JsonSyntax.number (natNumeral n)).Taken naturalLibc :=
    .number (not_zeroExponent_natNumeral n) (by rw [naturalLibc_number hn]; rfl)
  exact .object (List.nodup_singleton _) (List.forall_mem_singleton.mpr hnumber)

/-- One number is read, the other is not. -/
theorem jsonParseString_text_port :
    jsonParseString naturalLibc ([0xEF, 0xBB, 0xBF] ++
        ([] ++ (portText (natNumeral 1080).render ++ literal " "))) =
      some (.object [("port", .number 1080)]) ∧
    jsonParseString naturalLibc ([] ++ ([] ++ (portText (literal "0e1") ++ []))) = none := by
  have hzero : Numeral.Json ⟨false, literal "0", none, some (literal "e", literal "1")⟩ := by
    refine ⟨Or.inl rfl, by simp, ?_⟩
    rintro _ ⟨⟩
    exact ⟨by decide, by decide, List.forall_mem_singleton.mpr (by decide)⟩
  constructor
  · exact (jsonParseString_text naturalLibc (jsonText_port (json_natNumeral 1080))
      (List.forall_mem_nil _) (delimits_spaces_end (spaces_of_all (by decide))) (Or.inr rfl)
      _).mpr ⟨(value_port (by decide)).symm, by rw [value_port (by decide)]; decide,
        taken_port (by decide)⟩
  · refine Option.eq_none_iff_forall_ne_some.mpr fun v hv => ?_
    obtain ⟨-, -, htaken⟩ := (jsonParseString_text naturalLibc (jsonText_port hzero)
      (List.forall_mem_nil _) (delimits_spaces_end (List.forall_mem_nil _)) (Or.inl rfl) v).mp hv
    cases htaken with
    | object hdistinct h =>
        cases h _ (List.mem_singleton_self _) with
        | number hexponent => exact hexponent (by decide)

end Lightsocks
