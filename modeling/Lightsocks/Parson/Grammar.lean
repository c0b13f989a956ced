import Lightsocks.Parson.Parser

/-
  The texts of JSON, and what `lib/parson.c` makes of them.

  `JsonText Numeral.Json j t` says that `t` is a text of JSON with the syntax `j`: whitespace may
  stand anywhere between the tokens, strings may be written with any escapes, numbers are JSON's
  own and names may be repeated. `JsonSyntax.Taken` is what `json_parse_string` asks beyond that,
  apart from the limit of nesting. `JsonSyntax.read` goes through the syntax as the code goes
  through the text, and comes to its value under these conditions (`read_eq_some_iff`).
-/

namespace Lightsocks

open Lib

/-! ## The grammar -/

/-- Whitespace, maybe none: C's, with the vertical tab and the form feed that JSON has not. -/
def Spaces (w : List UInt8) : Prop := ∀ c ∈ w, isspace c = true

/-- The syntax of a text: numbers in their parts, strings and names with the bytes they stand
    for, members in their order. -/
inductive JsonSyntax where
  | null
  | boolean (b : Bool)
  | number (p : Numeral)
  | string (bytes : List UInt8)
  | array (elements : List JsonSyntax)
  | object (members : List (List UInt8 × JsonSyntax))

/-- An item of a container in its text, with the whitespace on both sides. -/
structure ItemText (α : Type*) where
  before : List UInt8
  body : List UInt8
  after : List UInt8
  item : α

/-- The whole of it. -/
def ItemText.render {α : Type*} (e : ItemText α) : List UInt8 := e.before ++ e.body ++ e.after

/-- A member in its text: its name between quotes, which stands for `key`, and its value. -/
structure MemberText where
  before : List UInt8
  quoted : List UInt8
  key : List UInt8
  colon : List UInt8
  element : ItemText JsonSyntax

/-- The member as an item. -/
def MemberText.toItem (m : MemberText) : ItemText (List UInt8 × JsonSyntax) where
  before := m.before
  body := ascii '"' :: m.quoted ++ ascii '"' :: m.colon ++
    ascii ':' :: m.element.before ++ m.element.body
  after := m.element.after
  item := (m.key, m.element.item)

/-- The items between the brackets of a container. -/
def commaSeparated {α : Type*} : List (ItemText α) → List UInt8
  | [] => []
  | e :: rest => e.render ++ rest.flatMap fun e => ascii ',' :: e.render

/-- `t` is a text with the syntax `j`, where the numbers are as `Number` says. -/
inductive JsonText (Number : Numeral → Prop) : JsonSyntax → List UInt8 → Prop
  | null : JsonText Number .null (literal "null")
  | boolean (b : Bool) :
      JsonText Number (.boolean b) (if b then literal "true" else literal "false")
  | number {p : Numeral} (hp : Number p) : JsonText Number (.number p) p.render
  | string {t m : List UInt8} (ht : StringText t m) :
      JsonText Number (.string m) (ascii '"' :: t ++ [ascii '"'])
  | emptyArray {w : List UInt8} (hw : Spaces w) :
      JsonText Number (.array []) (ascii '[' :: w ++ [ascii ']'])
  | array {elements : List (ItemText JsonSyntax)} (hne : elements ≠ [])
      (hw : ∀ e ∈ elements, Spaces e.before ∧ Spaces e.after)
      (h : ∀ e ∈ elements, JsonText Number e.item e.body) :
      JsonText Number (.array (elements.map ItemText.item))
        (ascii '[' :: commaSeparated elements ++ [ascii ']'])
  | emptyObject {w : List UInt8} (hw : Spaces w) :
      JsonText Number (.object []) (ascii '{' :: w ++ [ascii '}'])
  | object {members : List MemberText} (hne : members ≠ [])
      (hw : ∀ m ∈ members, Spaces m.before ∧ Spaces m.colon ∧ Spaces m.element.before ∧
        Spaces m.element.after)
      (hkey : ∀ m ∈ members, StringText m.quoted m.key)
      (h : ∀ m ∈ members, JsonText Number m.element.item m.element.body) :
      JsonText Number (.object (members.map fun m => m.toItem.item))
        (ascii '{' :: commaSeparated (members.map MemberText.toItem) ++ [ascii '}'])

/-! ## What a text stands for -/

mutual

/-- The value of a text. Strings and names end at their first NUL. -/
def JsonSyntax.value (libc : Libc) : JsonSyntax → JSONValue
  | .null => .null
  | .boolean b => .boolean b
  | .number p => .number ((libc.number p.render).getD 0)
  | .string bytes => .string (cString bytes)
  | .array elements => .array (elementValues libc elements)
  | .object members => .object (memberValues libc members)

/-- The values of the elements. -/
def elementValues (libc : Libc) : List JsonSyntax → List JSONValue
  | [] => []
  | j :: rest => j.value libc :: elementValues libc rest

/-- The members. -/
def memberValues (libc : Libc) : List (List UInt8 × JsonSyntax) → List (String × JSONValue)
  | [] => []
  | (key, j) :: rest => (memberName (cString key), j.value libc) :: memberValues libc rest

end

/-- What `parson.c` asks beyond the grammar: no number is written `0e1` or is out of range, and no
    two names of an object are the same up to their first NUL. -/
inductive JsonSyntax.Taken (libc : Libc) : JsonSyntax → Prop
  | null : Taken libc .null
  | boolean (b : Bool) : Taken libc (.boolean b)
  | number {p : Numeral} (hexponent : ¬ p.ZeroExponent)
      (hrange : (libc.number p.render).isSome = true) : Taken libc (.number p)
  | string (bytes : List UInt8) : Taken libc (.string bytes)
  | array {elements : List JsonSyntax} (h : ∀ j ∈ elements, Taken libc j) :
      Taken libc (.array elements)
  | object {members : List (List UInt8 × JsonSyntax)}
      (hdistinct : (members.map fun m => cString m.1).Nodup)
      (h : ∀ m ∈ members, Taken libc m.2) : Taken libc (.object members)

theorem elementValues_eq (libc : Libc) (elements : List JsonSyntax) :
    elementValues libc elements = elements.map (JsonSyntax.value libc) := by
  induction elements with
  | nil => rfl
  | cons j rest ih => rw [elementValues, ih, List.map_cons]

theorem memberValues_eq (libc : Libc) (members : List (List UInt8 × JsonSyntax)) :
    memberValues libc members =
      members.map fun m => (memberName (cString m.1), m.2.value libc) := by
  induction members with
  | nil => rfl
  | cons m rest ih => rw [memberValues, ih, List.map_cons]

/-! ### Item by item -/

/-- One more element. -/
def readElement (value : JsonSyntax → Option JSONValue) (elements : List JSONValue)
    (j : JsonSyntax) : Option (List JSONValue) :=
  (value j).map fun new => elements ++ [new]

/-- One more member, if its name is new. -/
def readMember (value : JsonSyntax → Option JSONValue) (members : List (String × JSONValue))
    (m : List UInt8 × JsonSyntax) : Option (List (String × JSONValue)) :=
  (value m.2).bind fun new => jsonObjectAdd members (memberName (cString m.1)) new

/-- How `parse_value` comes to the value, with so many levels of nesting left. -/
def JsonSyntax.read (libc : Libc) : Nat → JsonSyntax → Option JSONValue
  | 0, _ => none
  | _ + 1, .null => some .null
  | _ + 1, .boolean b => some (.boolean b)
  | _ + 1, .number p => if p.ZeroExponent then none else (libc.number p.render).map .number
  | _ + 1, .string bytes => some (.string (cString bytes))
  | left + 1, .array elements =>
      (elements.foldlM (readElement (read libc left)) []).map .array
  | left + 1, .object members =>
      (members.foldlM (readMember (read libc left)) []).map .object

/-- Where each is as `f` says, all are. -/
theorem map_eq_map_some_iff {α β : Type*} {f : α → Option β} {g : α → β} {P : α → Prop}
    (h : ∀ a b, f a = some b ↔ b = g a ∧ P a) (l : List α) (new : List β) :
    l.map f = new.map some ↔ new = l.map g ∧ ∀ a ∈ l, P a := by
  induction l generalizing new with
  | nil =>
      rw [List.map_nil, eq_comm, List.map_eq_nil_iff]
      exact (and_iff_left (List.forall_mem_nil _)).symm
  | cons a l ih =>
      cases new with
      | nil => simp
      | cons b new =>
          rw [List.map_cons, List.map_cons, List.map_cons, List.cons.injEq, List.cons.injEq, h, ih,
            List.forall_mem_cons]
          exact and_and_and_comm

theorem foldlM_readElement {value : JsonSyntax → Option JSONValue} {elements : List JsonSyntax}
    {done : List JSONValue} {vs : List JSONValue} :
    elements.foldlM (readElement value) done = some vs ↔
      ∃ new, vs = done ++ new ∧ elements.map value = new.map some := by
  induction elements generalizing done with
  | nil =>
      constructor
      · rintro ⟨⟩
        exact ⟨[], (List.append_nil _).symm, rfl⟩
      · rintro ⟨new, rfl, hnew⟩
        rw [List.map_eq_nil_iff.mp hnew.symm, List.append_nil]
        rfl
  | cons j elements ih =>
      rw [List.foldlM_cons, Option.bind_eq_bind, Option.bind_eq_some_iff]
      simp only [readElement, Option.map_eq_some_iff]
      constructor
      · rintro ⟨_, ⟨v, hv, rfl⟩, hrest⟩
        obtain ⟨new, rfl, hnew⟩ := ih.mp hrest
        exact ⟨v :: new, List.append_assoc _ _ _, by rw [List.map_cons, hv, hnew, List.map_cons]⟩
      · rintro ⟨new, rfl, hnew⟩
        obtain ⟨v, new, rfl, hv, hnew⟩ := List.map_eq_cons_iff.mp hnew.symm
        exact ⟨_, ⟨v, hv.symm, rfl⟩, ih.mpr ⟨new, List.append_cons _ _ _, hnew.symm⟩⟩

theorem foldlM_readMember {value : JsonSyntax → Option JSONValue}
    {members : List (List UInt8 × JsonSyntax)} {done ms : List (String × JSONValue)}
    (hdone : (done.map Prod.fst).Nodup) :
    members.foldlM (readMember value) done = some ms ↔
      ∃ new, ms = done ++ new ∧ (ms.map Prod.fst).Nodup ∧
        (members.map fun m => (value m.2).map fun v => (memberName (cString m.1), v)) =
          new.map some := by
  induction members generalizing done with
  | nil =>
      constructor
      · rintro ⟨⟩
        exact ⟨[], (List.append_nil _).symm, hdone, rfl⟩
      · rintro ⟨new, rfl, -, hnew⟩
        rw [List.map_eq_nil_iff.mp hnew.symm, List.append_nil]
        rfl
  | cons m members ih =>
      rw [List.foldlM_cons, Option.bind_eq_bind, Option.bind_eq_some_iff]
      simp only [readMember, Option.bind_eq_some_iff]
      constructor
      · rintro ⟨done', ⟨v, hv, hadd⟩, hrest⟩
        unfold jsonObjectAdd at hadd
        split_ifs at hadd with htaken
        obtain rfl := Option.some.inj hadd
        have hfree := jsonObjectGetValue_eq_none.mp (Option.not_isSome_iff_eq_none.mp htaken)
        have hdone' : ((done ++ [(memberName (cString m.1), v)]).map Prod.fst).Nodup := by
          rw [List.map_append, List.map_singleton, ← List.concat_eq_append]
          exact hdone.concat hfree
        obtain ⟨new, rfl, hdistinct, hnew⟩ := (ih hdone').mp hrest
        exact ⟨_ :: new, List.append_assoc _ _ _, hdistinct,
          by rw [List.map_cons, hv, hnew, List.map_cons]; rfl⟩
      · rintro ⟨new, rfl, hdistinct, hnew⟩
        obtain ⟨member, new, rfl, hmember, hrest⟩ := List.map_eq_cons_iff.mp hnew.symm
        obtain ⟨v, hv, rfl⟩ := Option.map_eq_some_iff.mp hmember.symm
        have hsplit : done ++ (memberName (cString m.1), v) :: new =
            (done ++ [(memberName (cString m.1), v)]) ++ new := List.append_cons _ _ _
        have hdone' : ((done ++ [(memberName (cString m.1), v)]).map Prod.fst).Nodup := by
          rw [hsplit, List.map_append] at hdistinct
          exact hdistinct.of_append_left
        have hfree : memberName (cString m.1) ∉ done.map Prod.fst := by
          rw [List.map_append, List.map_singleton] at hdone'
          exact fun hmem => List.disjoint_of_nodup_append hdone' hmem (List.mem_singleton_self _)
        exact ⟨_, ⟨v, hv, jsonObjectAdd_new hfree v⟩,
          (ih hdone').mpr ⟨new, hsplit, hdistinct, hrest.symm⟩⟩

section Containers

variable {libc : Libc} {left : Nat} (hread : ∀ {j : JsonSyntax} {v : JSONValue},
  j.read libc left = some v ↔ v = j.value libc ∧ Within left (j.value libc) ∧ j.Taken libc)

include hread

theorem read_array_eq_some_iff {elements : List JsonSyntax} {v : JSONValue} :
    (JsonSyntax.array elements).read libc (left + 1) = some v ↔
      v = .array (elements.map (JsonSyntax.value libc)) ∧
        (∀ j ∈ elements, Within left (j.value libc)) ∧ ∀ j ∈ elements, j.Taken libc := by
  have hitems := map_eq_map_some_iff (fun j v => @hread j v) elements
  rw [JsonSyntax.read, Option.map_eq_some_iff]
  constructor
  · rintro ⟨vs, hvs, rfl⟩
    obtain ⟨new, rfl, hnew⟩ := foldlM_readElement.mp hvs
    obtain ⟨rfl, hall⟩ := (hitems _).mp hnew
    exact ⟨rfl, fun j hj => (hall j hj).1, fun j hj => (hall j hj).2⟩
  · rintro ⟨rfl, hwithin, htaken⟩
    exact ⟨_, foldlM_readElement.mpr ⟨_, rfl, (hitems _).mpr
      ⟨rfl, fun j hj => ⟨hwithin j hj, htaken j hj⟩⟩⟩, rfl⟩

theorem read_object_eq_some_iff {members : List (List UInt8 × JsonSyntax)} {v : JSONValue} :
    (JsonSyntax.object members).read libc (left + 1) = some v ↔
      v = .object (members.map fun m => (memberName (cString m.1), m.2.value libc)) ∧
        (∀ m ∈ members, Within left (m.2.value libc)) ∧
          (members.map fun m => cString m.1).Nodup ∧ ∀ m ∈ members, m.2.Taken libc := by
  have hmember : ∀ (m : List UInt8 × JsonSyntax) (member : String × JSONValue),
      ((m.2.read libc left).map fun v => (memberName (cString m.1), v)) = some member ↔
        member = (memberName (cString m.1), m.2.value libc) ∧
          Within left (m.2.value libc) ∧ m.2.Taken libc := by
    intro m member
    rw [Option.map_eq_some_iff]
    constructor
    · rintro ⟨v, hv, rfl⟩
      obtain ⟨rfl, hboth⟩ := hread.mp hv
      exact ⟨rfl, hboth⟩
    · rintro ⟨rfl, hboth⟩
      exact ⟨_, hread.mpr ⟨rfl, hboth⟩, rfl⟩
  have hitems := map_eq_map_some_iff hmember members
  have hnames : (members.map fun m => (memberName (cString m.1), m.2.value libc)).map Prod.fst =
      (members.map fun m => cString m.1).map memberName := by
    rw [List.map_map, List.map_map]
    rfl
  have hnil : (([] : List (String × JSONValue)).map Prod.fst).Nodup := List.nodup_nil
  rw [JsonSyntax.read, Option.map_eq_some_iff]
  constructor
  · rintro ⟨ms, hms, rfl⟩
    obtain ⟨new, rfl, hdistinct, hnew⟩ := (foldlM_readMember hnil).mp hms
    obtain ⟨rfl, hall⟩ := (hitems _).mp hnew
    rw [hnames] at hdistinct
    exact ⟨rfl, fun m hm => (hall m hm).1, List.Nodup.of_map _ hdistinct,
      fun m hm => (hall m hm).2⟩
  · rintro ⟨rfl, hwithin, hdistinct, htaken⟩
    refine ⟨_, (foldlM_readMember hnil).mpr ⟨_, rfl, ?_, (hitems _).mpr
      ⟨rfl, fun m hm => ⟨hwithin m hm, htaken m hm⟩⟩⟩, rfl⟩
    rw [List.nil_append, hnames]
    exact hdistinct.map memberName_injective

end Containers

/-- **What is taken.** Reading comes to the value of the syntax, if it is nested no deeper than
    there are levels left and fulfils what is asked, and to nothing otherwise. -/
theorem read_eq_some_iff {libc : Libc} {left : Nat} {j : JsonSyntax} {v : JSONValue} :
    j.read libc left = some v ↔
      v = j.value libc ∧ Within left (j.value libc) ∧ j.Taken libc := by
  have scalar : ∀ {v v' : JSONValue} {P : Prop}, P → (some v' = some v ↔ v = v' ∧ P) := by
    intro v v' P hP
    rw [Option.some.injEq, eq_comm]
    exact (and_iff_left hP).symm
  induction left generalizing j v with
  | zero => exact iff_of_false (by simp [JsonSyntax.read]) fun h => h.2.1
  | succ left ih =>
      cases j with
      | null => exact scalar ⟨trivial, .null⟩
      | boolean b => exact scalar ⟨trivial, .boolean b⟩
      | string bytes => exact scalar ⟨trivial, .string bytes⟩
      | number p =>
          rw [JsonSyntax.read, JsonSyntax.value]
          split_ifs with hexponent
          · refine iff_of_false (by simp) ?_
            rintro ⟨-, -, ⟨⟩⟩
            contradiction
          · cases hx : libc.number p.render with
            | none =>
                refine iff_of_false (by simp) ?_
                rintro ⟨-, -, ⟨⟩⟩
                simp_all
            | some x => exact scalar ⟨trivial, .number hexponent (by rw [hx]; rfl)⟩
      | array elements =>
          have htaken : (JsonSyntax.array elements).Taken libc ↔
              ∀ j ∈ elements, j.Taken libc :=
            ⟨fun | .array h => h, .array⟩
          rw [read_array_eq_some_iff ih, JsonSyntax.value, elementValues_eq, htaken]
          simp only [Within, List.forall_mem_map]
      | object members =>
          have htaken : (JsonSyntax.object members).Taken libc ↔
              (members.map fun m => cString m.1).Nodup ∧ ∀ m ∈ members, m.2.Taken libc :=
            ⟨fun | .object hdistinct h => ⟨hdistinct, h⟩, fun h => .object h.1 h.2⟩
          rw [read_object_eq_some_iff ih, JsonSyntax.value, memberValues_eq, htaken]
          simp only [Within, List.forall_mem_map]

end Lightsocks
