import Lightsocks.Parson
import Lightsocks.Parson.Numbers
import Lightsocks.Parson.Strings

/-
  `lib/parson.c`: from a text to a value.

  `parse_value` counts the nesting up to `MAX_NESTING`; here the levels that are left are counted
  down, and a container hands its own reader of values to its loop.

  Memory is never short. The name of a member is the string with one character for each byte.
-/

namespace Lightsocks

open Lib

/-- `MAX_NESTING`. -/
def maxNesting : Nat := 2048

/-! ## Reading -/

/-- `SKIP_WHITESPACES`. -/
def skipWhitespaces (string : List UInt8) : List UInt8 := string.dropWhile isspace

/-- The C string of a member's name. -/
def memberName (name : List UInt8) : String :=
  String.ofList (name.map fun b => Char.ofNat b.toNat)

/-- `json_object_add`: it refuses a name that is taken. -/
def jsonObjectAdd (object : List (String × JSONValue)) (name : String) (value : JSONValue) :
    Option (List (String × JSONValue)) :=
  if (jsonObjectGetValue object name).isSome then none else some (object ++ [(name, value)])

/-- `parse_string_value`. -/
def parseStringValue (string : List UInt8) : Option (JSONValue × List UInt8) :=
  (getQuotedString string).map fun (bytes, rest) => (.string bytes, rest)

/-- `parse_boolean_value`. -/
def parseBooleanValue (string : List UInt8) : Option (JSONValue × List UInt8) :=
  if (literal "true").isPrefixOf string then some (.boolean true, string.drop 4)
  else if (literal "false").isPrefixOf string then some (.boolean false, string.drop 5)
  else none

/-- `parse_number_value`. -/
def parseNumberValue (libc : Libc) (string : List UInt8) : Option (JSONValue × List UInt8) :=
  match libc.strtod string with
  | none => none
  | some (number, length) =>
      if isDecimal string length then some (.number number, string.drop length) else none

/-- `parse_null_value`. -/
def parseNullValue (string : List UInt8) : Option (JSONValue × List UInt8) :=
  if (literal "null").isPrefixOf string then some (.null, string.drop 4) else none

/-- The loop of `parse_object_value` and `parse_array_value`, which goes on while there is text
    and a comma behind each item: `item` reads one and adds it to those before. -/
def parseItems {α : Type*} (item : List α → List UInt8 → Option (List α × List UInt8)) :
    Nat → List α → List UInt8 → Option (List α × List UInt8)
  | 0, items, string => some (items, string)
  | fuel + 1, items, string =>
      if string = [] then some (items, string)
      else
        match item items string with
        | none => none
        | some (items, string) =>
            let string := skipWhitespaces string
            if charAt string 0 ≠ ascii ',' then some (items, string)
            else parseItems item fuel items (skipWhitespaces (string.drop 1))

/-- What stands between the brackets of a container, and behind them. `json_object_resize` and
    `json_array_resize` fail for no items. Each round of the loop takes a comma, so that there
    are at most as many as characters. -/
def parseContainer {α : Type*} (item : List α → List UInt8 → Option (List α × List UInt8))
    (close : UInt8) (string : List UInt8) : Option (List α × List UInt8) :=
  let string := skipWhitespaces (string.drop 1)
  if charAt string 0 = close then some ([], string.drop 1)
  else
    match parseItems item string.length [] string with
    | none => none
    | some (items, string) =>
        let string := skipWhitespaces string
        if charAt string 0 ≠ close ∨ items.length = 0 then none
        else some (items, string.drop 1)

/-- The round of `parse_array_value`; `value` is `parse_value` at the nesting of the elements. -/
def parseElement (value : List UInt8 → Option (JSONValue × List UInt8))
    (elements : List JSONValue) (string : List UInt8) :
    Option (List JSONValue × List UInt8) :=
  match value string with
  | none => none
  | some (new, string) => some (elements ++ [new], string)

/-- The round of `parse_object_value`. -/
def parseMember (value : List UInt8 → Option (JSONValue × List UInt8))
    (members : List (String × JSONValue)) (string : List UInt8) :
    Option (List (String × JSONValue) × List UInt8) :=
  match getQuotedString string with
  | none => none
  | some (key, string) =>
      let string := skipWhitespaces string
      if charAt string 0 ≠ ascii ':' then none
      else
        match value (string.drop 1) with
        | none => none
        | some (new, string) =>
            match jsonObjectAdd members (memberName key) new with
            | none => none
            | some members => some (members, string)

/-- `parse_array_value`. -/
def parseArrayValue (value : List UInt8 → Option (JSONValue × List UInt8))
    (string : List UInt8) : Option (JSONValue × List UInt8) :=
  (parseContainer (parseElement value) (ascii ']') string).map
    fun (elements, rest) => (.array elements, rest)

/-- `parse_object_value`. -/
def parseObjectValue (value : List UInt8 → Option (JSONValue × List UInt8))
    (string : List UInt8) : Option (JSONValue × List UInt8) :=
  (parseContainer (parseMember value) (ascii '}') string).map
    fun (members, rest) => (.object members, rest)

/-- `parse_value(string, nesting)`, where `MAX_NESTING + 1 - nesting` levels are left. -/
def parseValue (libc : Libc) : Nat → List UInt8 → Option (JSONValue × List UInt8)
  | 0, _ => none
  | left + 1, string =>
      let string := skipWhitespaces string
      let c := charAt string 0
      if c = ascii '{' then parseObjectValue (parseValue libc left) string
      else if c = ascii '[' then parseArrayValue (parseValue libc left) string
      else if c = ascii '"' then parseStringValue string
      else if c = ascii 'f' ∨ c = ascii 't' then parseBooleanValue string
      else if c = ascii '-' ∨ ascii '0' ≤ c ∧ c ≤ ascii '9' then parseNumberValue libc string
      else if c = ascii 'n' then parseNullValue string
      else none

/-- `json_parse_string`: text behind the value is not looked at. -/
def jsonParseString (libc : Libc) (string : List UInt8) : Option JSONValue :=
  let string := if [0xEF, 0xBB, 0xBF].isPrefixOf string then string.drop 3 else string
  (parseValue libc (maxNesting + 1) string).map Prod.fst

/-- `json_parse_file`, with the contents of the file, if there is one. -/
def jsonParseFile (libc : Libc) (contents : Option (List UInt8)) : Option JSONValue :=
  match contents with
  | none => none
  | some bytes => if bytes.length = 0 then none else jsonParseString libc (cString bytes)

/-! ## Nesting -/

/-- The value is nested at most `n` levels deep, scalars and empty containers counting one. -/
def Within : Nat → JSONValue → Prop
  | 0, _ => False
  | n + 1, .array elements => ∀ value ∈ elements, Within n value
  | n + 1, .object members => ∀ member ∈ members, Within n member.2
  | _ + 1, _ => True

/-- Nesting can be decided. -/
instance decidableWithin : ∀ n v, Decidable (Within n v)
  | 0, _ => inferInstanceAs (Decidable False)
  | n + 1, .array elements =>
      have := decidableWithin n
      inferInstanceAs (Decidable (∀ value ∈ elements, Within n value))
  | n + 1, .object members =>
      have := decidableWithin n
      inferInstanceAs (Decidable (∀ member ∈ members, Within n member.2))
  | _ + 1, .null | _ + 1, .string _ | _ + 1, .number _ | _ + 1, .boolean _ =>
      inferInstanceAs (Decidable True)

/-! ## Members -/

theorem literal_memberName (name : List UInt8) : literal (memberName name) = name := by
  have hbyte : ∀ b : UInt8, ascii (Char.ofNat b.toNat) = b :=
    forall_uint8 (by decide +kernel)
  rw [literal, memberName, String.toList_ofList]
  exact map_map_eq_self fun b _ => hbyte b

theorem memberName_injective : Function.Injective memberName :=
  Function.LeftInverse.injective literal_memberName

theorem jsonObjectGetValue_eq_none {object : List (String × JSONValue)} {name : String} :
    jsonObjectGetValue object name = none ↔ name ∉ object.map Prod.fst := by
  simp only [jsonObjectGetValue, Option.map_eq_none_iff, List.find?_eq_none, List.mem_map,
    not_exists, not_and, decide_eq_true_eq]

theorem jsonObjectAdd_new {object : List (String × JSONValue)} {name : String}
    (h : name ∉ object.map Prod.fst) (value : JSONValue) :
    jsonObjectAdd object name value = some (object ++ [(name, value)]) := by
  rw [jsonObjectAdd, jsonObjectGetValue_eq_none.mpr h]
  rfl

end Lightsocks
