import Lightsocks.Ctype
import Lightsocks.Lib.Bits
import Mathlib.Data.List.TakeWhile

/-
  IPv4 addresses as the two programs handle them: integers whose bytes in memory are the digits
  of the address in network order, on a host of either byte order.

  `inet_addr` reads the numbers-and-dots notation: one to four parts, in decimal, octal or
  hexadecimal. What follows white space is not looked at. `bytes32_inetAddr_dotted` gives its
  value on `a.b.c.d`; a text it cannot read is answered with the address `255.255.255.255`.
-/

namespace Lightsocks

open Lib

/-! ## Byte order -/

/-- Byte order of the host. -/
inductive ByteOrder where
  | little
  | big
  deriving DecidableEq

/-- The bytes of a 16-bit integer in memory. -/
def ByteOrder.bytes16 (o : ByteOrder) (v : UInt16) : List UInt8 :=
  let low := [UInt8.ofNat v.toNat, UInt8.ofNat (v.toNat / 2 ^ 8)]
  match o with
  | .little => low
  | .big => low.reverse

/-- The bytes of a 32-bit integer in memory. -/
def ByteOrder.bytes32 (o : ByteOrder) (v : UInt32) : List UInt8 :=
  let low := [UInt8.ofNat v.toNat, UInt8.ofNat (v.toNat / 2 ^ 8),
    UInt8.ofNat (v.toNat / 2 ^ 16), UInt8.ofNat (v.toNat / 2 ^ 24)]
  match o with
  | .little => low
  | .big => low.reverse

/-- The 32-bit integer with these base-256 digits, the most significant one first. -/
def ofDigits32 (b₃ b₂ b₁ b₀ : UInt8) : UInt32 :=
  UInt32.ofNat (b₃.toNat * 2 ^ 24 + b₂.toNat * 2 ^ 16 + b₁.toNat * 2 ^ 8 + b₀.toNat)

/-- The 32-bit integer that stands in memory as these bytes. -/
def ByteOrder.load32 (o : ByteOrder) (b₀ b₁ b₂ b₃ : UInt8) : UInt32 :=
  match o with
  | .little => ofDigits32 b₃ b₂ b₁ b₀
  | .big => ofDigits32 b₀ b₁ b₂ b₃

def htons (o : ByteOrder) (v : UInt16) : UInt16 :=
  match o with
  | .little => UInt16.ofNat (v.toNat % 2 ^ 8 * 2 ^ 8 + v.toNat / 2 ^ 8)
  | .big => v

def htonl (o : ByteOrder) (v : UInt32) : UInt32 :=
  match o with
  | .little => UInt32.ofNat (v.toNat % 2 ^ 8 * 2 ^ 24 + v.toNat / 2 ^ 8 % 2 ^ 8 * 2 ^ 16 +
      v.toNat / 2 ^ 16 % 2 ^ 8 * 2 ^ 8 + v.toNat / 2 ^ 24)
  | .big => v

/-- `AF_INET`. -/
abbrev afInet : UInt16 := 2

/-- `sockaddr_in`. -/
structure SockaddrIn where
  sinFamily : UInt16
  sinPort : UInt16
  sinAddr : UInt32
  deriving DecidableEq

/-- After `memset(&addr, 0, sizeof(sockaddr_in))`. -/
def SockaddrIn.zero : SockaddrIn := ⟨0, 0, 0⟩

/-- The address `a.b.c.d` with the port `256 * p₁ + p₂`, in network order. -/
def SockaddrIn.Names (o : ByteOrder) (addr : SockaddrIn) (a b c d p₁ p₂ : UInt8) : Prop :=
  addr.sinFamily = afInet ∧ o.bytes16 addr.sinPort = [p₁, p₂] ∧
    o.bytes32 addr.sinAddr = [a, b, c, d]

theorem ofNat_eq_iff (b : UInt8) (n : Nat) : UInt8.ofNat n = b ↔ n % 2 ^ 8 = b.toNat := by
  rw [← UInt8.toNat_inj, UInt8.toNat_ofNat']

/-- `htons` puts the high byte first in memory, on every host. -/
theorem bytes16_htons (o : ByteOrder) (v : UInt16) :
    o.bytes16 (htons o v) = [UInt8.ofNat (v.toNat / 2 ^ 8), UInt8.ofNat v.toNat] := by
  have hv : v.toNat < 2 ^ 16 := v.toNat_lt
  cases o with
  | little =>
      simp only [ByteOrder.bytes16, htons, List.cons.injEq, and_true, ofNat_eq_iff,
        UInt8.toNat_ofNat', UInt16.toNat_ofNat']
      have hr : v.toNat % 2 ^ 8 < 2 ^ 8 := Nat.mod_lt _ (by decide)
      have hq : v.toNat / 2 ^ 8 < 2 ^ 8 := by omega
      generalize v.toNat % 2 ^ 8 = r at hr ⊢
      generalize v.toNat / 2 ^ 8 = q at hq ⊢
      omega
  | big => rfl

/-- `htonl` puts the high bytes first in memory, on every host. -/
theorem bytes32_htonl (o : ByteOrder) (v : UInt32) :
    o.bytes32 (htonl o v) = [UInt8.ofNat (v.toNat / 2 ^ 24), UInt8.ofNat (v.toNat / 2 ^ 16),
      UInt8.ofNat (v.toNat / 2 ^ 8), UInt8.ofNat v.toNat] := by
  have hv : v.toNat < 2 ^ 32 := v.toNat_lt
  cases o with
  | little =>
      simp only [ByteOrder.bytes32, htonl, List.cons.injEq, and_true, ofNat_eq_iff,
        UInt8.toNat_ofNat', UInt32.toNat_ofNat']
      have h₀ : v.toNat % 2 ^ 8 < 2 ^ 8 := Nat.mod_lt _ (by decide)
      have h₁ : v.toNat / 2 ^ 8 % 2 ^ 8 < 2 ^ 8 := Nat.mod_lt _ (by decide)
      have h₂ : v.toNat / 2 ^ 16 % 2 ^ 8 < 2 ^ 8 := Nat.mod_lt _ (by decide)
      have h₃ : v.toNat / 2 ^ 24 < 2 ^ 8 := by omega
      generalize v.toNat % 2 ^ 8 = d₀ at h₀ ⊢
      generalize v.toNat / 2 ^ 8 % 2 ^ 8 = d₁ at h₁ ⊢
      generalize v.toNat / 2 ^ 16 % 2 ^ 8 = d₂ at h₂ ⊢
      generalize v.toNat / 2 ^ 24 = d₃ at h₃ ⊢
      omega
  | big => rfl

/-- A port in network order, from its two digits. -/
theorem bytes16_htons_of_toNat (o : ByteOrder) {v : UInt16} {p₁ p₂ : UInt8}
    (h : v.toNat = p₁.toNat * 2 ^ 8 + p₂.toNat) : o.bytes16 (htons o v) = [p₁, p₂] := by
  have h₁ := p₁.toNat_lt
  have h₂ := p₂.toNat_lt
  rw [bytes16_htons, h]
  simp only [List.cons.injEq, and_true, ofNat_eq_iff]
  omega

/-- An address in network order, from its four digits. -/
theorem bytes32_htonl_of_toNat (o : ByteOrder) {v : UInt32} {a b c d : UInt8}
    (h : v.toNat = a.toNat * 2 ^ 24 + b.toNat * 2 ^ 16 + c.toNat * 2 ^ 8 + d.toNat) :
    o.bytes32 (htonl o v) = [a, b, c, d] := by
  have ha := a.toNat_lt
  have hb := b.toNat_lt
  have hc := c.toNat_lt
  have hd := d.toNat_lt
  rw [bytes32_htonl, h]
  simp only [List.cons.injEq, and_true, ofNat_eq_iff]
  omega

/-! ## `inet_addr` -/

/-- The value of a digit in a base up to 16. -/
def digitValue (c : UInt8) : Option Nat :=
  if ascii '0' ≤ c ∧ c ≤ ascii '9' then some (c.toNat - (ascii '0').toNat)
  else if ascii 'a' ≤ c ∧ c ≤ ascii 'f' then some (c.toNat - (ascii 'a').toNat + 10)
  else if ascii 'A' ≤ c ∧ c ≤ ascii 'F' then some (c.toNat - (ascii 'A').toNat + 10)
  else none

/-- One or more digits of the base. -/
def numeral (base : Nat) (digits : List UInt8) : Option Nat :=
  if digits = [] then none
  else digits.foldlM (fun n c => (digitValue c).bind fun d =>
    if d < base then some (base * n + d) else none) 0

/-- A number as C writes it: octal behind `0`, hexadecimal behind `0x`, else decimal. -/
def cNumber : List UInt8 → Option Nat
  | [] => none
  | c :: rest =>
      if c ≠ ascii '0' then numeral 10 (c :: rest)
      else match rest with
        | [] => some 0
        | x :: digits =>
            if x = ascii 'x' ∨ x = ascii 'X' then numeral 16 digits else numeral 8 rest

/-- The address that the parts make up: all but the last are one byte each, and the last fills
    what is left. -/
def addrOfParts : List Nat → Option Nat
  | [a] => if a < 2 ^ 32 then some a else none
  | [a, b] => if a < 2 ^ 8 ∧ b < 2 ^ 24 then some (a * 2 ^ 24 + b) else none
  | [a, b, c] =>
      if a < 2 ^ 8 ∧ b < 2 ^ 8 ∧ c < 2 ^ 16 then some (a * 2 ^ 24 + b * 2 ^ 16 + c) else none
  | [a, b, c, d] =>
      if a < 2 ^ 8 ∧ b < 2 ^ 8 ∧ c < 2 ^ 8 ∧ d < 2 ^ 8 then
        some (a * 2 ^ 24 + b * 2 ^ 16 + c * 2 ^ 8 + d)
      else none
  | _ => none

/-- `INADDR_NONE`. -/
abbrev inaddrNone : UInt32 := 0xffffffff

/-- `INADDR_ANY`. -/
abbrev inaddrAny : UInt32 := 0

/-- `inet_addr` on the characters of a C string. -/
def inetAddr (o : ByteOrder) (cp : List UInt8) : UInt32 :=
  let text := cp.takeWhile fun c => !isspace c
  match ((text.splitOn (ascii '.')).mapM cNumber).bind addrOfParts with
  | some v => htonl o (UInt32.ofNat v)
  | none => inaddrNone

/-- A byte in decimal, without leading zeros. -/
def decimal (b : UInt8) : List UInt8 := (Nat.toDigits 10 b.toNat).map ascii

/-- The text `a.b.c.d`. -/
def dotted (a b c d : UInt8) : List UInt8 :=
  [ascii '.'].intercalate [decimal a, decimal b, decimal c, decimal d]

theorem cNumber_decimal (b : UInt8) : cNumber (decimal b) = some b.toNat :=
  forall_uint8 (P := fun b => cNumber (decimal b) = some b.toNat) (by decide +kernel) b

theorem digit_of_mem_decimal {b c : UInt8} (h : c ∈ decimal b) :
    ascii '0' ≤ c ∧ c ≤ ascii '9' := by
  obtain ⟨x, hx, rfl⟩ := List.mem_map.mp h
  have hdigit := Nat.isDigit_of_mem_toDigits (by decide) (by decide) hx
  obtain ⟨hlo, hhi⟩ := Char.isDigit_iff_toNat.mp hdigit
  have hlo' : 48 ≤ x.toNat := hlo
  have hhi' : x.toNat ≤ 57 := hhi
  have hbyte : (ascii x).toNat = x.toNat :=
    UInt8.toNat_ofNat_of_lt' (show x.toNat < 256 by omega)
  rw [UInt8.le_iff_toNat_le, UInt8.le_iff_toNat_le, hbyte]
  exact ⟨hlo', hhi'⟩

theorem not_isspace_decimal (b : UInt8) : ∀ c ∈ decimal b, isspace c = false := by
  intro c hc
  obtain ⟨hlo, -⟩ := digit_of_mem_decimal hc
  rw [UInt8.le_iff_toNat_le] at hlo
  have hlo' : 48 ≤ c.toNat := hlo
  have hspace : c ≠ ascii ' ' := by
    intro h
    rw [h] at hlo'
    exact absurd hlo' (by decide)
  have hcontrol : ¬ c ≤ 13 := by
    rw [UInt8.le_iff_toNat_le]
    show ¬ c.toNat ≤ 13
    omega
  simp [isspace, hspace, hcontrol]

theorem dot_notMem_decimal (b : UInt8) : ascii '.' ∉ decimal b := by
  intro h
  exact absurd (digit_of_mem_decimal h).1 (by decide)

theorem splitOn_dotted (a b c d : UInt8) :
    (dotted a b c d).splitOn (ascii '.') = [decimal a, decimal b, decimal c, decimal d] := by
  refine List.splitOn_intercalate _ ?_ (by simp)
  simp [dot_notMem_decimal]

theorem takeWhile_dotted (a b c d : UInt8) :
    (dotted a b c d).takeWhile (fun c => !isspace c) = dotted a b c d := by
  rw [List.takeWhile_eq_self_iff]
  intro x hx
  rw [Bool.not_eq_true']
  simp only [dotted, List.intercalate, List.intersperse, List.flatten_cons, List.mem_append,
    List.flatten_nil, List.not_mem_nil, or_false, List.mem_singleton] at hx
  rcases hx with hx | rfl | hx | rfl | hx | rfl | hx
  all_goals first
    | exact not_isspace_decimal _ _ hx
    | decide

/-- `inet_addr` reads `a.b.c.d` as that address. -/
theorem bytes32_inetAddr_dotted (o : ByteOrder) (a b c d : UInt8) :
    o.bytes32 (inetAddr o (dotted a b c d)) = [a, b, c, d] := by
  have hparts : (((dotted a b c d).splitOn (ascii '.')).mapM cNumber).bind addrOfParts =
      some (a.toNat * 2 ^ 24 + b.toNat * 2 ^ 16 + c.toNat * 2 ^ 8 + d.toNat) := by
    rw [splitOn_dotted]
    simp [cNumber_decimal, addrOfParts, a.toNat_lt, b.toNat_lt, c.toNat_lt, d.toNat_lt]
  rw [inetAddr, takeWhile_dotted, hparts]
  apply bytes32_htonl_of_toNat
  rw [UInt32.toNat_ofNat']
  have ha := a.toNat_lt
  have hb := b.toNat_lt
  have hc := c.toNat_lt
  have hd := d.toNat_lt
  exact Nat.mod_eq_of_lt (by omega)

end Lightsocks
