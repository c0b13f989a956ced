import Mathlib.Data.List.TakeWhile

/-
  Characters and C strings.
-/

namespace Lightsocks

/-- The code of an ASCII character. -/
def ascii (c : Char) : UInt8 := UInt8.ofNat c.toNat

/-- The bytes of an ASCII string literal. -/
def literal (s : String) : List UInt8 := s.toList.map ascii

/-- `isalnum` in the C locale. -/
def isalnum (c : UInt8) : Bool :=
  (ascii '0' ≤ c && c ≤ ascii '9') || (ascii 'A' ≤ c && c ≤ ascii 'Z') ||
    (ascii 'a' ≤ c && c ≤ ascii 'z')

/-- `isspace` in the C locale. -/
def isspace (c : UInt8) : Bool := c = ascii ' ' || (9 ≤ c && c ≤ 13)

/-- A C string: the bytes up to the first NUL. -/
def cString (bytes : List UInt8) : List UInt8 := bytes.takeWhile (· ≠ 0)

theorem cString_of_not_mem {bytes : List UInt8} (h : (0 : UInt8) ∉ bytes) :
    cString bytes = bytes := by
  refine List.takeWhile_eq_self_iff.mpr fun b hb => ?_
  exact decide_eq_true fun hz => h (hz ▸ hb)

theorem cString_append {a : List UInt8} (ha : (0 : UInt8) ∉ a) (b : List UInt8) :
    cString (a ++ b) = a ++ cString b := by
  refine List.takeWhile_append_of_pos fun c hc => ?_
  exact decide_eq_true fun hz => ha (hz ▸ hc)

/-- `string[k]`, where NUL follows the last byte. -/
def charAt (string : List UInt8) (k : Nat) : UInt8 := string.getD k 0

end Lightsocks
