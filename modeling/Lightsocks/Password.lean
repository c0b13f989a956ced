import Lightsocks.Lib.Table
import Mathlib.Data.FinEnum
import Mathlib.Data.List.Nodup
import Mathlib.Data.List.TFAE
import Mathlib.Tactic.TFAE

/-
  `lib/password.c`: the password table and the byte codec.

  A `Password` is a table of 256 bytes. `encode_data` replaces every byte by its table entry.
  `decode_data` first builds the inverse table with a loop of overwriting stores, then does
  the same with that. Both work in place on the first `size` bytes of a buffer; `size` is a
  C `int`, and a negative one makes the loop do nothing.

  `codec_characterised` says when the two undo each other, and what they do when they do not.
  The functions of this file that read and write the key text are in `Lightsocks.Key`.
-/

namespace Lightsocks

open Lib

/-- `PASS_LENGTH`. -/
abbrev passLength : Nat := 256

/-- `Password`: a table of 256 bytes, indexed by a byte. -/
structure Password where
  x : Vector UInt8 passLength
  deriving DecidableEq

/-- `pass->x[b]` for a byte `b`. -/
def Password.lookup (pass : Password) (b : UInt8) : UInt8 := pass.x.get b.toFin

/-- `encode_data`. -/
def encodeData (bytes : List UInt8) (size : Int) (encodePass : Password) : List UInt8 :=
  (List.range size.toNat).foldl (fun bytes i => bytes.modify i encodePass.lookup) bytes

/-- `decode_pass` as the first loop of `decode_data` leaves it: zeros, then
    `decode_pass.x[encode_pass->x[i]] = i` for `i = 0, …, 255`. -/
def decodePass (encodePass : Password) : Password :=
  ⟨(List.range passLength).foldl
    (fun x i => x.set (encodePass.lookup (UInt8.ofNat i)).toNat (UInt8.ofNat i)
      (UInt8.toNat_lt _))
    (Vector.replicate passLength 0)⟩

/-- `decode_data`. -/
def decodeData (bytes : List UInt8) (size : Int) (encodePass : Password) : List UInt8 :=
  (List.range size.toNat).foldl
    (fun bytes i => bytes.modify i (decodePass encodePass).lookup) bytes

/-- The bytes `0, …, 255`. -/
def allBytes : List UInt8 := (List.range passLength).map UInt8.ofNat

/-- The table is a permutation of `0..255`. -/
def Password.IsPermutation (pass : Password) : Prop := pass.x.toList.Perm allBytes

instance : DecidablePred Password.IsPermutation :=
  fun pass => inferInstanceAs (Decidable (pass.x.toList.Perm allBytes))

/-! ## The two loops map over the first `size` bytes -/

theorem encodeData_eq (bytes : List UInt8) (size : Int) (pass : Password) :
    encodeData bytes size pass =
      (bytes.take size.toNat).map pass.lookup ++ bytes.drop size.toNat :=
  foldl_modify_range pass.lookup bytes size.toNat

theorem decodeData_eq (bytes : List UInt8) (size : Int) (pass : Password) :
    decodeData bytes size pass =
      (bytes.take size.toNat).map (decodePass pass).lookup ++ bytes.drop size.toNat :=
  foldl_modify_range (decodePass pass).lookup bytes size.toNat

@[simp] theorem encodeData_length (bytes : List UInt8) (size : Int) (pass : Password) :
    (encodeData bytes size pass).length = bytes.length := by
  rw [encodeData_eq]
  simp
  omega

@[simp] theorem decodeData_length (bytes : List UInt8) (size : Int) (pass : Password) :
    (decodeData bytes size pass).length = bytes.length := by
  rw [decodeData_eq]
  simp
  omega

/-- `encode_data` over a whole buffer. -/
theorem encodeData_full (bytes : List UInt8) (pass : Password) :
    encodeData bytes bytes.length pass = bytes.map pass.lookup := by
  simp [encodeData_eq]

/-- `decode_data` over a whole buffer. -/
theorem decodeData_full (bytes : List UInt8) (pass : Password) :
    decodeData bytes bytes.length pass = bytes.map (decodePass pass).lookup := by
  simp [decodeData_eq]

/-- Both loops leave the buffer alone when `size` is negative. -/
theorem encodeData_of_neg (bytes : List UInt8) {size : Int} (h : size < 0) (pass : Password) :
    encodeData bytes size pass = bytes := by
  rw [encodeData_eq, Int.toNat_of_nonpos (by omega)]
  simp

theorem decodeData_of_neg (bytes : List UInt8) {size : Int} (h : size < 0) (pass : Password) :
    decodeData bytes size pass = bytes := by
  rw [decodeData_eq, Int.toNat_of_nonpos (by omega)]
  simp

/-! ## The inverse table -/

theorem lookup_ofNat (pass : Password) {j : Nat} (hj : j < passLength) :
    pass.lookup (UInt8.ofNat j) = pass.x[j] := by
  simp [Password.lookup, Vector.get, Nat.mod_eq_of_lt hj]

theorem lookup_mem (pass : Password) (b : UInt8) : pass.lookup b ∈ pass.x := by
  have hb : b.toNat < passLength := b.toNat_lt
  exact Vector.getElem_mem hb

theorem lookup_set (x : Vector UInt8 passLength) (b c v : UInt8) :
    (Password.mk (x.set b.toNat v (UInt8.toNat_lt b))).lookup c =
      Function.update (Password.mk x).lookup b v c := by
  unfold Password.lookup
  have hc : c.toNat < passLength := c.toNat_lt
  show (x.set b.toNat v (UInt8.toNat_lt b))[c.toNat] = _
  rw [Vector.getElem_set]
  by_cases h : b = c
  · subst h
    simp
  · have hne : ¬ b.toNat = c.toNat := fun e => h (UInt8.toNat_inj.mp e)
    rw [if_neg hne, Function.update_of_ne (Ne.symm h)]
    rfl

/-- The inverse table holds, at each byte, the last index the loop stored there, and zero
    where it stored none. -/
theorem decodePass_lookup (pass : Password) (b : UInt8) :
    (decodePass pass).lookup b =
      lastWrite (fun i => pass.lookup (UInt8.ofNat i)) UInt8.ofNat (fun _ => 0) passLength b := by
  have key : ∀ n : Nat, (Password.mk ((List.range n).foldl
      (fun x i => x.set (pass.lookup (UInt8.ofNat i)).toNat (UInt8.ofNat i) (UInt8.toNat_lt _))
      (Vector.replicate passLength 0))).lookup =
        lastWrite (fun i => pass.lookup (UInt8.ofNat i)) UInt8.ofNat (fun _ => 0) n := by
    intro n
    induction n with
    | zero =>
        funext c
        have hc : c.toNat < passLength := c.toNat_lt
        show (Vector.replicate passLength (0 : UInt8))[c.toNat] = 0
        rw [Vector.getElem_replicate]
    | succ n ih =>
        funext c
        rw [List.range_succ, List.foldl_append, List.foldl_cons, List.foldl_nil, lookup_set, ih,
          lastWrite_succ]
  exact congrFun (key passLength) b

/-- Every entry of the table is hit: byte `a` is stored at `x[a]`. -/
theorem exists_lookup_ofNat (pass : Password) (a : UInt8) :
    ∃ i < passLength, pass.lookup (UInt8.ofNat i) = pass.lookup a :=
  ⟨a.toNat, a.toNat_lt, by rw [UInt8.ofNat_toNat]⟩

/-- The inverse table picks the greatest index of a byte that occurs in the table. -/
theorem decodePass_isGreatest (pass : Password) (b : UInt8)
    (h : ∃ i < passLength, pass.lookup (UInt8.ofNat i) = b) :
    IsGreatest {j | j < passLength ∧ pass.lookup (UInt8.ofNat j) = b}
      ((decodePass pass).lookup b).toNat := by
  obtain ⟨j, hj⟩ := exists_isGreatest_write (fun i => pass.lookup (UInt8.ofNat i)) passLength b h
  have hw := lastWrite_of_isGreatest _ UInt8.ofNat (fun _ => 0) passLength b j hj
  have hlt : j < 256 := hj.1.1
  rw [decodePass_lookup, hw, UInt8.toNat_ofNat_of_lt' hlt]
  exact hj

/-- The inverse table holds zero at a byte that does not occur in the table. -/
theorem decodePass_of_not_image (pass : Password) (b : UInt8) (h : ∀ a, pass.lookup a ≠ b) :
    (decodePass pass).lookup b = 0 := by
  rw [decodePass_lookup]
  exact lastWrite_of_forall_ne _ _ _ _ _ fun i _ => h (UInt8.ofNat i)

theorem picks_decodePass (pass : Password) : Picks pass.lookup (decodePass pass).lookup := by
  intro a
  have h := (decodePass_isGreatest pass (pass.lookup a) (exists_lookup_ofNat pass a)).1.2
  rwa [UInt8.ofNat_toNat] at h

/-! ## Permutation tables -/

theorem mem_allBytes (b : UInt8) : b ∈ allBytes :=
  List.mem_map.mpr ⟨b.toNat, List.mem_range.mpr b.toNat_lt, UInt8.ofNat_toNat⟩

theorem nodup_allBytes : allBytes.Nodup := by
  refine List.Nodup.map_on ?_ List.nodup_range
  intro i hi j hj h
  have hi' : i < 256 := List.mem_range.mp hi
  have hj' : j < 256 := List.mem_range.mp hj
  have h' := congrArg UInt8.toNat h
  rwa [UInt8.toNat_ofNat_of_lt' hi', UInt8.toNat_ofNat_of_lt' hj'] at h'

/-- The table in index order. -/
theorem toList_eq_map_lookup (pass : Password) : pass.x.toList = allBytes.map pass.lookup := by
  apply List.ext_getElem
  · simp [allBytes]
  · intro i h1 h2
    have hi : i < 256 := by simpa using h1
    simp [allBytes, Password.lookup, Vector.get, Nat.mod_eq_of_lt hi]

theorem isPermutation_iff_bijective (pass : Password) :
    pass.IsPermutation ↔ Function.Bijective pass.lookup := by
  unfold Password.IsPermutation
  rw [toList_eq_map_lookup]
  constructor
  · intro h
    have hnd : (allBytes.map pass.lookup).Nodup := h.nodup_iff.mpr nodup_allBytes
    have hinj : Function.Injective pass.lookup := fun a b hab =>
      List.inj_on_of_nodup_map hnd (mem_allBytes a) (mem_allBytes b) hab
    exact ⟨hinj, fun b => by
      obtain ⟨a, _, ha⟩ := List.mem_map.mp (h.mem_iff.mpr (mem_allBytes b))
      exact ⟨a, ha⟩⟩
  · intro h
    refine (List.perm_ext_iff_of_nodup (nodup_allBytes.map h.1) nodup_allBytes).mpr ?_
    intro b
    obtain ⟨a, ha⟩ := h.2 b
    exact ⟨fun _ => mem_allBytes b, fun _ => List.mem_map.mpr ⟨a, mem_allBytes a, ha⟩⟩

/-- A table has no repeated byte iff it is a permutation. -/
theorem isPermutation_iff_nodup (pass : Password) :
    pass.IsPermutation ↔ pass.x.toList.Nodup := by
  constructor
  · exact fun h => h.nodup_iff.mpr nodup_allBytes
  · intro h
    rw [isPermutation_iff_bijective, ← Finite.injective_iff_bijective]
    rw [toList_eq_map_lookup] at h
    exact fun a b hab => List.inj_on_of_nodup_map h (mem_allBytes a) (mem_allBytes b) hab

/-- A permutation table undoes its own encoding, byte by byte. -/
theorem decode_lookup_encode {pass : Password} (h : pass.IsPermutation) (b : UInt8) :
    (decodePass pass).lookup (pass.lookup b) = b :=
  (picks_decodePass pass).leftInverse_iff.mpr ((isPermutation_iff_bijective pass).mp h).1 b

/-- The table that replaces every byte by itself. -/
def identityPassword : Password := ⟨⟨allBytes.toArray, by simp [allBytes]⟩⟩

theorem isPermutation_identityPassword : identityPassword.IsPermutation := List.Perm.refl _

theorem lookup_identity (b : UInt8) : identityPassword.lookup b = b := by
  have hb : b.toNat < passLength := b.toNat_lt
  show identityPassword.x[b.toNat] = b
  simp [identityPassword, allBytes]

theorem decode_lookup_identity (b : UInt8) : (decodePass identityPassword).lookup b = b :=
  calc (decodePass identityPassword).lookup b
      = (decodePass identityPassword).lookup (identityPassword.lookup b) := by
        rw [lookup_identity]
    _ = b := decode_lookup_encode isPermutation_identityPassword b

/-- The bytes of a buffer after `encode_data` and `decode_data`, under a permutation. -/
theorem map_decode_encode {pass : Password} (h : pass.IsPermutation) (bytes : List UInt8) :
    (bytes.map pass.lookup).map (decodePass pass).lookup = bytes := by
  rw [List.map_map]
  exact (forall_map_eq_self_iff _).mpr (decode_lookup_encode h) bytes

/-! ## The codec -/

/-- `decode_data` undoes `encode_data` on every byte string. -/
def LosslessCodec (pass : Password) : Prop :=
  ∀ b : List UInt8, decodeData (encodeData b b.length pass) b.length pass = b

theorem decodeData_encodeData (pass : Password) (b : List UInt8) :
    decodeData (encodeData b b.length pass) b.length pass =
      b.map ((decodePass pass).lookup ∘ pass.lookup) := by
  have h := decodeData_full (encodeData b b.length pass) pass
  rw [encodeData_length] at h
  rw [h, encodeData_full, List.map_map]

theorem encodeData_decodeData (pass : Password) (b : List UInt8) :
    encodeData (decodeData b b.length pass) b.length pass =
      b.map (pass.lookup ∘ (decodePass pass).lookup) := by
  have h := encodeData_full (decodeData b b.length pass) pass
  rw [decodeData_length] at h
  rw [h, decodeData_full, List.map_map]

/-- The other order: `encode_data` undoes `decode_data` exactly under a permutation. -/
theorem reversibleCodec_iff (pass : Password) :
    (∀ b : List UInt8, encodeData (decodeData b b.length pass) b.length pass = b) ↔
      pass.IsPermutation := by
  simp only [encodeData_decodeData]
  rw [forall_map_eq_self_iff, isPermutation_iff_bijective, ← Finite.surjective_iff_bijective]
  exact (picks_decodePass pass).rightInverse_iff

theorem losslessCodec_iff (pass : Password) : LosslessCodec pass ↔ pass.IsPermutation := by
  unfold LosslessCodec
  simp only [decodeData_encodeData]
  rw [forall_map_eq_self_iff, isPermutation_iff_bijective, ← Finite.injective_iff_bijective]
  exact (picks_decodePass pass).leftInverse_iff

/-- **The substitution codec.** For every table the three statements are equivalent:
    `decode_data` undoes `encode_data`, `encode_data` undoes `decode_data`, the table is a
    permutation. For every table, permutation or not, decoding an encoded string replaces each
    byte `b[i]` by the greatest index `j` with `x[j] = x[b[i]]`, and a byte outside the image
    decodes to zero. -/
theorem codec_characterised (pass : Password) :
    List.TFAE [
      ∀ b : List UInt8, decodeData (encodeData b b.length pass) b.length pass = b,
      ∀ b : List UInt8, encodeData (decodeData b b.length pass) b.length pass = b,
      pass.x.toList.Perm ((List.range 256).map UInt8.ofNat)] ∧
    (∀ (b : List UInt8) (i : Nat) (hi : i < b.length), ∃ r : UInt8,
      (decodeData (encodeData b b.length pass) b.length pass)[i]? = some r ∧
      IsGreatest {j : Nat | ∃ h : j < 256, pass.x[j] = pass.lookup b[i]} r.toNat) ∧
    (∀ (b : List UInt8) (i : Nat) (hi : i < b.length), b[i] ∉ pass.x →
      (decodeData b b.length pass)[i]? = some 0) := by
  refine ⟨?_, ?_, ?_⟩
  · tfae_have 1 ↔ 3 := losslessCodec_iff pass
    tfae_have 2 ↔ 3 := reversibleCodec_iff pass
    tfae_finish
  · intro b i hi
    refine ⟨(decodePass pass).lookup (pass.lookup b[i]), ?_, ?_⟩
    · rw [decodeData_encodeData, List.getElem?_map, List.getElem?_eq_getElem hi]
      rfl
    · have h := decodePass_isGreatest pass (pass.lookup b[i]) (exists_lookup_ofNat pass b[i])
      have hset : {j : Nat | ∃ h : j < 256, pass.x[j] = pass.lookup b[i]} =
          {j | j < passLength ∧ pass.lookup (UInt8.ofNat j) = pass.lookup b[i]} := by
        ext j
        constructor
        · rintro ⟨hj, hx⟩
          exact ⟨hj, by rw [lookup_ofNat pass hj, hx]⟩
        · rintro ⟨hj, hx⟩
          exact ⟨hj, by rw [← lookup_ofNat pass hj, hx]⟩
      rw [hset]
      exact h
  · intro b i hi hx
    rw [decodeData_full, List.getElem?_map, List.getElem?_eq_getElem hi]
    have h0 : (decodePass pass).lookup b[i] = 0 :=
      decodePass_of_not_image pass b[i] fun a ha => hx (ha ▸ lookup_mem pass a)
    rw [Option.map_some, h0]

end Lightsocks
