import Lightsocks.Key

/-
  The key parser when the decoder runs out of memory.

  `b64_decode_ex` writes the decoded size in its last step only, and returns `NULL` as soon as one
  of its requests for memory is not granted. `gen_password_by_string` does not look at the pointer
  but at the size, a local without an initial value: what it does then depends on what that
  happens to be, and for 256 it reads through the null pointer (`unset_size_iff`).

  `b64Requests` lists the requests. A text with one leading alphabet character asks for zero
  bytes, which glibc does not grant: no memory need be short (`not_grants_single`).
-/

namespace Lightsocks

/-- The allocator of glibc as long as there is memory: `realloc(p, 0)` returns `NULL`. -/
def Alloc.glibc : Alloc := fun _ n => n ≠ 0

/-- The requests, from the `k`-th call on, are all granted. -/
def Alloc.Grants (alloc : Alloc) : Nat → List Nat → Prop
  | _, [] => True
  | k, n :: ns => alloc k n = true ∧ alloc.Grants (k + 1) ns

/-- The requests after the loop, for `size` bytes decoded and a tail of `i` characters. -/
def b64TailRequests (size i : Nat) : List Nat :=
  if 0 < i then [size + (i - 1), size + (i - 1) + 1] else [size + 1]

/-- The requests for `m` characters, when `size` bytes are decoded already. -/
def b64RequestsFrom (size m : Nat) : List Nat :=
  (List.range (m / 4)).map (fun j => size + 3 * j + 3) ++
    b64TailRequests (size + 3 * (m / 4)) (m % 4)

/-- The sizes that `b64_decode_ex` asks for, in order, for a text with `m` leading alphabet
    characters. -/
def b64Requests (m : Nat) : List Nat := 1 :: b64RequestsFrom 0 m

example : b64Requests 6 = [1, 3, 4, 5] := by decide

/-! ## When the decoder returns `NULL` -/

theorem b64RequestsFrom_of_lt (size : Nat) {m : Nat} (hm : m < 4) :
    b64RequestsFrom size m = b64TailRequests size m := by
  rw [b64RequestsFrom, Nat.div_eq_of_lt hm, Nat.mod_eq_of_lt hm]
  rfl

theorem b64RequestsFrom_group (size m : Nat) :
    b64RequestsFrom size (4 + m) = (size + 3) :: b64RequestsFrom (size + 3) m := by
  have hdiv : (4 + m) / 4 = m / 4 + 1 := by omega
  have hsize : size + 3 * (m / 4 + 1) = size + 3 + 3 * (m / 4) := by omega
  have hshift : (fun j => size + 3 * j + 3) ∘ Nat.succ = fun j => size + 3 + 3 * j + 3 := by
    funext j
    show size + 3 * (j + 1) + 3 = size + 3 + 3 * j + 3
    omega
  rw [b64RequestsFrom, hdiv, Nat.add_mod_left, List.range_succ_eq_map, List.map_cons,
    List.map_map, hsize, hshift]
  rfl

theorem isSome_ite_none {α : Type} {c : Prop} [Decidable c] {x : Option α} :
    (if c then x else none).isSome = true ↔ c ∧ x.isSome = true := by
  by_cases hc : c
  · rw [if_pos hc]
    exact (and_iff_right hc).symm
  · rw [if_neg hc]
    exact ⟨fun h => absurd h Bool.false_ne_true, fun h => absurd h.1 hc⟩

theorem grants_pair {alloc : Alloc} {k m n : Nat} :
    alloc.Grants k [m, n] ↔ alloc k m = true ∧ alloc (k + 1) n = true := by
  simp [Alloc.Grants]

theorem grants_singleton {alloc : Alloc} {k n : Nat} :
    alloc.Grants k [n] ↔ alloc k n = true := by
  simp [Alloc.Grants]

theorem length_take_unpack {tmp : List UInt8} (h : tmp.length < 4) :
    ((b64Unpack tmp).take (tmp.length - 1)).length = tmp.length - 1 := by
  have hlen : (b64Unpack tmp).length = 3 := rfl
  rw [List.length_take, hlen]
  omega

/-- What follows the loop. -/
theorem b64DecodeRest_isSome_iff (alloc : Alloc) {tmp : List UInt8} (dec : List UInt8)
    (calls : Nat) (hlen : tmp.length < 4) :
    (b64DecodeRest alloc ⟨tmp, dec, calls⟩).isSome = true ↔
      alloc.Grants calls (b64RequestsFrom dec.length tmp.length) := by
  rw [b64RequestsFrom_of_lt dec.length hlen, b64TailRequests, b64DecodeRest]
  dsimp only
  by_cases hi : 0 < tmp.length
  · rw [if_pos hi, if_pos hi, grants_pair, List.length_append, length_take_unpack hlen,
      isSome_ite_none, Option.isSome_ite]
  · rw [if_neg hi, if_neg hi, grants_singleton, Option.isSome_ite]

/-- The loop and what follows it, from a group of `tmp.length` characters already read. -/
theorem b64DecodeLoop_isSome_iff (alloc : Alloc) (src tmp dec : List UInt8) (calls : Nat)
    (hlen : tmp.length < 4) :
    ((b64DecodeLoop alloc src ⟨tmp, dec, calls⟩).bind (b64DecodeRest alloc)).isSome = true ↔
      alloc.Grants calls
        (b64RequestsFrom dec.length (tmp.length + (src.takeWhile isBase64).length)) := by
  induction src generalizing tmp dec calls with
  | nil => exact b64DecodeRest_isSome_iff alloc dec calls hlen
  | cons c src ih =>
      rw [b64DecodeLoop_cons]
      by_cases hc : isBase64 c = true
      · have hcount : tmp.length + ((c :: src).takeWhile isBase64).length =
            (tmp ++ [c]).length + (src.takeWhile isBase64).length := by
          rw [List.takeWhile_cons_of_pos hc, List.length_cons, List.length_append,
            List.length_singleton]
          omega
        rw [if_pos hc, hcount]
        by_cases h4 : (tmp ++ [c]).length = 4
        · rw [if_pos h4, h4, b64RequestsFrom_group, Alloc.Grants]
          have hdec : (dec ++ b64Unpack (tmp ++ [c])).length = dec.length + 3 := by
            rw [List.length_append]
            rfl
          rw [apply_ite (Option.bind · (b64DecodeRest alloc)), Option.bind_none, isSome_ite_none,
            ih [] _ _ (by decide), hdec, List.length_nil, Nat.zero_add]
        · have hlt : (tmp ++ [c]).length < 4 := by
            rw [List.length_append, List.length_singleton] at h4 ⊢
            omega
          rw [if_neg h4]
          exact ih _ _ _ hlt
      · rw [if_neg hc, List.takeWhile_cons_of_neg hc]
        exact b64DecodeRest_isSome_iff alloc dec calls hlen

/-- The decoder returns `NULL` exactly if a request is not granted. -/
theorem b64DecodeEx_isSome_iff (alloc : Alloc) (string : List UInt8) (len : Nat) :
    (b64DecodeEx alloc string len).isSome = true ↔
      alloc.Grants 0 (b64Requests (keyChars string len).length) := by
  have hloop := b64DecodeLoop_isSome_iff alloc (string.take len) [] [] 1 (by decide)
  rw [List.length_nil, Nat.zero_add] at hloop
  rw [b64Requests, Alloc.Grants, b64DecodeEx, isSome_ite_none, hloop, keyChars]

/-! ## The unset size -/

theorem genPasswordByString_of_some {alloc : Alloc} {string dec : List UInt8} {len : Nat}
    (h : b64DecodeEx alloc string len = some dec) (decsize decsize' : Nat) :
    genPasswordByString alloc decsize string len = genPasswordByString alloc decsize' string len ∧
      genPasswordByString alloc decsize string len ≠ .nullDeref := by
  unfold genPasswordByString
  rw [h]
  refine ⟨rfl, ?_⟩
  dsimp only
  split
  · exact KeyOutcome.noConfusion
  · exact KeyOutcome.noConfusion

theorem genPasswordByString_of_none {alloc : Alloc} {string : List UInt8} {len : Nat}
    (h : b64DecodeEx alloc string len = none) (decsize : Nat) :
    genPasswordByString alloc decsize string len =
      if decsize = passLength then .nullDeref else .null := by
  unfold genPasswordByString
  rw [h]

/-- The parser does not decide on a size that was not written: the outcome does not depend on
    what `decsize` was before, nothing is read through a null pointer, and `NULL` from the decoder
    leads to `NULL`. -/
structure SizeSafe (alloc : Alloc) (string : List UInt8) (len : Nat) : Prop where
  same : ∀ v₁ v₂, genPasswordByString alloc v₁ string len =
    genPasswordByString alloc v₂ string len
  reads : ∀ v, genPasswordByString alloc v string len ≠ .nullDeref
  null : b64DecodeEx alloc string len = none →
    ∀ v, genPasswordByString alloc v string len = .null

/-- **The unset size.** For every allocator, every string and every length: the parser does not
    decide on an unset size exactly if all requests of the decoder are granted. -/
theorem unset_size_iff (alloc : Alloc) (string : List UInt8) (len : Nat) :
    SizeSafe alloc string len ↔ alloc.Grants 0 (b64Requests (keyChars string len).length) := by
  rw [← b64DecodeEx_isSome_iff]
  cases hdec : b64DecodeEx alloc string len with
  | none =>
      refine ⟨fun h => ?_, fun h => absurd h Bool.false_ne_true⟩
      have hread := h.reads passLength
      rw [genPasswordByString_of_none hdec, if_pos rfl] at hread
      exact absurd rfl hread
  | some dec =>
      refine ⟨fun _ => rfl, fun _ => ⟨?_, ?_, ?_⟩⟩
      · exact fun v₁ v₂ => (genPasswordByString_of_some hdec v₁ v₂).1
      · exact fun v => (genPasswordByString_of_some hdec v v).2
      · intro hnone
        rw [hdec] at hnone
        exact absurd hnone (by simp)

/-- Where `realloc(p, 0)` returns `NULL`, a text with one leading alphabet character is enough. -/
theorem not_grants_single {alloc : Alloc} (hzero : ∀ k, alloc k 0 = false) :
    ¬ alloc.Grants 0 (b64Requests 1) := by
  intro h
  have hrequests : b64Requests 1 = [1, 0, 1] := rfl
  rw [hrequests, Alloc.Grants, Alloc.Grants, hzero] at h
  exact absurd h.2.1 Bool.false_ne_true

/-- The text `A`: what happens depends on the value of the variable. -/
theorem single_character_undecided :
    genPasswordByString Alloc.glibc 0 [ascii 'A'] 1 = .null ∧
      genPasswordByString Alloc.glibc 256 [ascii 'A'] 1 = .nullDeref ∧
      ¬ SizeSafe Alloc.glibc [ascii 'A'] 1 := by
  have hchars : keyChars [ascii 'A'] 1 = [ascii 'A'] := by decide
  have hno : ¬ Alloc.glibc.Grants 0 (b64Requests (keyChars [ascii 'A'] 1).length) := by
    rw [hchars]
    exact not_grants_single fun _ => rfl
  have hnone : b64DecodeEx Alloc.glibc [ascii 'A'] 1 = none := by
    rwa [← b64DecodeEx_isSome_iff, Bool.not_eq_true, Option.isSome_eq_false_iff,
      Option.isNone_iff_eq_none] at hno
  have hread := genPasswordByString_of_none hnone 256
  rw [if_pos rfl] at hread
  refine ⟨genPasswordByString_of_none hnone 0, hread, fun h => h.reads 256 hread⟩

end Lightsocks
