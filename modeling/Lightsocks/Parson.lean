import Mathlib.Data.Rat.Defs

/-
  `lib/parson.c`: what the programs use of a parsed JSON file.

  Numbers are taken as exact rationals. A string is the bytes before its terminating NUL. The
  names of an object are distinct, since `json_object_add` refuses a second member of the same
  name; so `jsonValidate` walks the members of the schema where the code looks each name up.
-/

namespace Lightsocks

/-- `JSON_Value`. -/
inductive JSONValue where
  | null
  | string (bytes : List UInt8)
  | number (n : ℚ)
  | object (members : List (String × JSONValue))
  | array (elements : List JSONValue)
  | boolean (b : Bool)

/-- `JSON_Value_Type`. -/
inductive JSONValueType where
  | null
  | string
  | number
  | object
  | array
  | boolean
  deriving DecidableEq

/-- `json_value_get_type`. -/
def JSONValue.type : JSONValue → JSONValueType
  | .null => .null
  | .string _ => .string
  | .number _ => .number
  | .object _ => .object
  | .array _ => .array
  | .boolean _ => .boolean

/-- `json_object`. What is not an object has no members. -/
def jsonObject : JSONValue → List (String × JSONValue)
  | .object members => members
  | _ => []

/-- `json_object_get_value`. -/
def jsonObjectGetValue (object : List (String × JSONValue)) (name : String) :
    Option JSONValue :=
  (object.find? fun member => member.1 = name).map Prod.snd

/-- `json_value_get_number`: `0` for what is not a number. -/
def jsonValueGetNumber : Option JSONValue → ℚ
  | some (.number n) => n
  | _ => 0

/-- `json_value_get_string`: `NULL` for what is not a string. -/
def jsonValueGetString : Option JSONValue → Option (List UInt8)
  | some (.string bytes) => some bytes
  | _ => none

/-- `json_object_get_number`. -/
def jsonObjectGetNumber (object : List (String × JSONValue)) (name : String) : ℚ :=
  jsonValueGetNumber (jsonObjectGetValue object name)

/-- `json_object_get_string`. -/
def jsonObjectGetString (object : List (String × JSONValue)) (name : String) :
    Option (List UInt8) :=
  jsonValueGetString (jsonObjectGetValue object name)

mutual

/-- `json_validate`, `true` for `JSONSuccess`. -/
def jsonValidate : JSONValue → JSONValue → Bool
  | .null, _ => true
  | .string _, value => value.type = .string
  | .number _, value => value.type = .number
  | .boolean _, value => value.type = .boolean
  | .array [], value => value.type = .array
  | .array (element :: _), .array elements => elements.all fun value => jsonValidate element value
  | .array _, _ => false
  | .object [], value => value.type = .object
  | .object members, .object members' =>
      if members'.length < members.length then false else jsonValidateMembers members members'
  | .object _, _ => false

/-- The loop of `json_validate` over the members of a schema. -/
def jsonValidateMembers : List (String × JSONValue) → List (String × JSONValue) → Bool
  | [], _ => true
  | (key, schema) :: rest, members =>
      match jsonObjectGetValue members key with
      | none => false
      | some value => jsonValidate schema value && jsonValidateMembers rest members

end

theorem jsonValidate_string_iff {bytes : List UInt8} {value : JSONValue} :
    jsonValidate (.string bytes) value = true ↔ ∃ bytes', value = .string bytes' := by
  cases value <;> simp [jsonValidate, JSONValue.type]

theorem jsonValidate_number_iff {n : ℚ} {value : JSONValue} :
    jsonValidate (.number n) value = true ↔ ∃ n', value = .number n' := by
  cases value <;> simp [jsonValidate, JSONValue.type]

/-- Every member of the schema has a counterpart of its kind. -/
theorem jsonValidateMembers_iff {schema members : List (String × JSONValue)} :
    jsonValidateMembers schema members = true ↔ ∀ member ∈ schema, ∃ value,
      jsonObjectGetValue members member.1 = some value ∧
        jsonValidate member.2 value = true := by
  induction schema with
  | nil => simp [jsonValidateMembers]
  | cons member rest ih =>
      obtain ⟨key, schema⟩ := member
      rw [jsonValidateMembers, List.forall_mem_cons, ← ih]
      cases jsonObjectGetValue members key with
      | none => simp
      | some value => simp

theorem jsonValidate_object_iff {schema : List (String × JSONValue)} (h : schema ≠ [])
    {value : JSONValue} : jsonValidate (.object schema) value = true ↔ ∃ members,
      value = .object members ∧ schema.length ≤ members.length ∧
        jsonValidateMembers schema members = true := by
  obtain ⟨member, rest, rfl⟩ := List.exists_cons_of_ne_nil h
  cases value <;> simp [jsonValidate]

end Lightsocks
