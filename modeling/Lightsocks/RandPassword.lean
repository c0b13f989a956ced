import Lightsocks.Password
import Lightsocks.Lib.Shuffle

/-
  `lib/password.c`: `rand_password`, the generator of keys.

  The table starts as `0, …, 255`, and its entry `i` is exchanged with an entry `v` drawn from
  all 256, for `i = 0, …, 255`. So every table it returns is a permutation, and every permutation
  is returned for some draws (`generated_keys`). The comment calls this Knuth's shuffle; that
  would draw `v` from the entries not passed yet. As it is, the `256 ^ 256` sequences of draws
  cannot be spread evenly over `256 !` permutations: no key has its share (`no_key_has_its_share`),
  and the one that encodes nothing has more than `10 ^ 100` times its share
  (`identity_overproduced`).
-/

namespace Lightsocks

open Lib

/-- `swap(&x[i], &x[j])`. -/
def swap (x : Vector UInt8 passLength) (i j : Fin passLength) : Vector UInt8 passLength :=
  let t := x.get i
  let x := x.set i (x.get j) i.isLt
  x.set j t j.isLt

/-- `password->x[i] = i` for `i = 0, …, 255`, on the zeroed table. -/
def initialTable : Vector UInt8 passLength :=
  (List.finRange passLength).foldl
    (fun x (i : Fin passLength) => x.set i (UInt8.ofNat i) i.isLt) (Vector.replicate passLength 0)

/-- `rand_password()`, where the `i`-th call of `rand` returns `rand i`. -/
def randPassword (rand : Nat → Nat) : Password :=
  ⟨(List.finRange passLength).foldl
    (fun x (i : Fin passLength) => swap x i ⟨rand i % 256, Nat.mod_lt _ (by decide)⟩)
    initialTable⟩

/-! ## The loop is an exchange shuffle -/

/-- The values `rand() % 256`. -/
def draws (rand : Nat → Nat) (i : Fin passLength) : Fin passLength :=
  ⟨rand i % 256, Nat.mod_lt _ (by decide)⟩

/-- The table whose entry `j` is `π j`. -/
def tableOf (π : Equiv.Perm (Fin passLength)) : Password :=
  ⟨Vector.ofFn fun j => UInt8.ofNat (π j)⟩

theorem getElem_tableOf (π : Equiv.Perm (Fin passLength)) (j : Nat) (hj : j < passLength) :
    (tableOf π).x[j] = UInt8.ofNat (π ⟨j, hj⟩) :=
  Vector.getElem_ofFn hj

theorem eq_tableOf_iff {pass : Password} {π : Equiv.Perm (Fin passLength)} :
    pass = tableOf π ↔ ∀ j, pass.x.get j = UInt8.ofNat (π j) := by
  constructor
  · intro h j
    rw [h]
    exact getElem_tableOf π j j.isLt
  · intro h
    have htable : pass.x = (tableOf π).x := by
      apply Vector.ext
      intro j hj
      exact (h ⟨j, hj⟩).trans (getElem_tableOf π j hj).symm
    exact congrArg Password.mk htable

theorem get_eq_lookup (pass : Password) (j : Fin passLength) :
    pass.x.get j = pass.lookup (UInt8.ofNat j) :=
  (lookup_ofNat pass j.isLt).symm

theorem get_set (x : Vector UInt8 passLength) (i j : Fin passLength) (b : UInt8) :
    (x.set i b i.isLt).get j = if i = j then b else x.get j := by
  show (x.set i b i.isLt)[j.val] = if i = j then b else x[j.val]
  rw [Vector.getElem_set]
  simp only [Fin.ext_iff]

theorem get_swap (x : Vector UInt8 passLength) (i j k : Fin passLength) :
    (swap x i j).get k = x.get (Equiv.swap i j k) := by
  unfold swap
  rw [get_set, get_set]
  by_cases hj : j = k
  · rw [if_pos hj, ← hj, Equiv.swap_apply_right]
  · rw [if_neg hj]
    by_cases hi : i = k
    · rw [if_pos hi, ← hi, Equiv.swap_apply_left]
    · rw [if_neg hi, Equiv.swap_apply_of_ne_of_ne (Ne.symm hi) (Ne.symm hj)]

theorem get_initialTable (j : Fin passLength) : initialTable.get j = UInt8.ofNat j := by
  have hloop : ∀ j : Fin passLength,
      initialTable.get j = if (j : ℕ) < passLength then UInt8.ofNat j else 0 := by
    unfold initialTable
    apply foldl_finRange (P := fun (k : ℕ) (x : Vector UInt8 passLength) =>
      ∀ j : Fin passLength, x.get j = if (j : ℕ) < k then UInt8.ofNat j else 0)
    · intro j
      show (Vector.replicate passLength (0 : UInt8))[j.val] = _
      rw [Vector.getElem_replicate, if_neg (Nat.not_lt_zero _)]
    · intro i x hx j
      rw [get_set]
      by_cases hij : i = j
      · rw [if_pos hij, if_pos (by omega), hij]
      · have hne : (i : ℕ) ≠ j := fun h => hij (Fin.ext h)
        have hiff : (j : ℕ) < i ↔ (j : ℕ) < i + 1 := by omega
        rw [if_neg hij, hx j]
        simp only [hiff]
  rw [hloop j, if_pos j.isLt]

/-- After `k` rounds of the second loop the table is the first one behind `k` exchanges. -/
theorem randPassword_eq (rand : Nat → Nat) :
    randPassword rand = tableOf (shuffle (draws rand)) := by
  rw [eq_tableOf_iff]
  unfold randPassword shuffle
  apply foldl_finRange (P := fun (k : ℕ) (x : Vector UInt8 passLength) =>
    ∀ j, x.get j = UInt8.ofNat (exchanges (draws rand) k j))
  · exact get_initialTable
  · intro i x hx j
    rw [get_swap, hx, exchanges_succ]
    rfl

/-! ## Which keys are generated -/

theorem ofNat_inj {a b : Fin passLength} (h : UInt8.ofNat a = UInt8.ofNat b) : a = b := by
  have ha : (a : Nat) < 256 := a.isLt
  have hb : (b : Nat) < 256 := b.isLt
  have hnat := congrArg UInt8.toNat h
  rw [UInt8.toNat_ofNat_of_lt' ha, UInt8.toNat_ofNat_of_lt' hb] at hnat
  exact Fin.ext hnat

theorem tableOf_injective : Function.Injective tableOf := by
  intro π π' h
  apply Equiv.ext
  intro j
  have hj := eq_tableOf_iff.mp h j
  rw [eq_tableOf_iff.mp rfl j] at hj
  exact ofNat_inj hj

theorem isPermutation_iff_exists_tableOf (pass : Password) :
    pass.IsPermutation ↔ ∃ π, pass = tableOf π := by
  constructor
  · intro h
    obtain ⟨hinj, -⟩ := (isPermutation_iff_bijective pass).mp h
    let place : Fin passLength → Fin passLength := fun j => (pass.x.get j).toFin
    have hplace : Function.Injective place := by
      intro i j hij
      have hget : pass.x.get i = pass.x.get j := UInt8.toFin_inj.mp hij
      rw [get_eq_lookup, get_eq_lookup] at hget
      exact ofNat_inj (hinj hget)
    refine ⟨Equiv.ofBijective place (Finite.injective_iff_bijective.mp hplace), ?_⟩
    rw [eq_tableOf_iff]
    intro j
    exact UInt8.ofNat_toNat.symm
  · intro h
    obtain ⟨π, rfl⟩ := h
    rw [isPermutation_iff_bijective, ← Finite.injective_iff_bijective]
    intro a b hab
    have hlookup : ∀ c : UInt8, (tableOf π).lookup c = UInt8.ofNat (π c.toFin) :=
      fun c => eq_tableOf_iff.mp rfl c.toFin
    rw [hlookup, hlookup] at hab
    exact UInt8.toFin_inj.mp (π.injective (ofNat_inj hab))

/-- The calls of `rand` that give the draws `v`. -/
def callsOf (v : Fin passLength → Fin passLength) (i : Nat) : Nat :=
  if h : i < passLength then v ⟨i, h⟩ else 0

theorem callsOf_lt (v : Fin passLength → Fin passLength) (i : Nat) : callsOf v i < 256 := by
  unfold callsOf
  split
  · exact (v _).isLt
  · decide

theorem draws_callsOf (v : Fin passLength → Fin passLength) : draws (callsOf v) = v := by
  funext i
  apply Fin.ext
  show callsOf v i % 256 = v i
  rw [Nat.mod_eq_of_lt (callsOf_lt v i), callsOf, dif_pos i.isLt]

theorem randPassword_callsOf (v : Fin passLength → Fin passLength) :
    randPassword (callsOf v) = tableOf (shuffle v) := by
  rw [randPassword_eq, draws_callsOf]

/-- **Generated keys.** Whatever `rand` returns, the key is a permutation, and `decode_data`
    undoes `encode_data` under it; and every permutation is the key for some values of `rand`,
    however small `RAND_MAX` is. -/
theorem generated_keys :
    (∀ rand : Nat → Nat, (randPassword rand).IsPermutation ∧ LosslessCodec (randPassword rand)) ∧
    ∀ pass : Password, pass.IsPermutation ↔
      ∃ rand : Nat → Nat, (∀ i, rand i < 256) ∧ randPassword rand = pass := by
  have hperm : ∀ rand : Nat → Nat, (randPassword rand).IsPermutation := by
    intro rand
    rw [isPermutation_iff_exists_tableOf]
    exact ⟨_, randPassword_eq rand⟩
  refine ⟨fun rand => ⟨hperm rand, (losslessCodec_iff _).mpr (hperm rand)⟩, fun pass => ?_⟩
  constructor
  · intro h
    obtain ⟨π, rfl⟩ := (isPermutation_iff_exists_tableOf pass).mp h
    obtain ⟨v, hv⟩ := exists_shuffle_eq π
    refine ⟨callsOf v, callsOf_lt v, ?_⟩
    rw [randPassword_callsOf, hv]
  · intro h
    obtain ⟨rand, -, rfl⟩ := h
    exact hperm rand

/-! ## How often they are generated -/

/-- The number of sequences of draws, out of `256 ^ 256`, for which `rand_password` returns the
    key. -/
def keyCount (pass : Password) : Nat :=
  (Finset.univ.filter fun v : Fin passLength → Fin passLength =>
    randPassword (callsOf v) = pass).card

/-- Every permutation is returned for the same number of sequences. -/
def EquallyLikely : Prop :=
  ∀ pass pass' : Password, pass.IsPermutation → pass'.IsPermutation →
    keyCount pass = keyCount pass'

theorem keyCount_tableOf (π : Equiv.Perm (Fin passLength)) :
    keyCount (tableOf π) = shuffleCount π := by
  apply congrArg Finset.card
  apply Finset.filter_congr
  intro v _
  rw [randPassword_callsOf]
  exact tableOf_injective.eq_iff

theorem exists_keyCount_ne (N : Nat) :
    ∃ pass : Password, pass.IsPermutation ∧ keyCount pass ≠ N := by
  obtain ⟨π, hπ⟩ := exists_shuffleCount_ne (n := passLength) Nat.prime_three (by decide)
    (by decide) N
  refine ⟨tableOf π, (isPermutation_iff_exists_tableOf _).mpr ⟨π, rfl⟩, ?_⟩
  rw [keyCount_tableOf]
  exact hπ

/-- **No key has its share.** No key is returned for the `256 !`-th part of the sequences, and
    for every key there is a permutation that is returned for another number of them. -/
theorem no_key_has_its_share (pass : Password) :
    keyCount pass * Nat.factorial 256 ≠ 256 ^ 256 ∧
      ∃ pass' : Password, pass'.IsPermutation ∧ keyCount pass' ≠ keyCount pass :=
  ⟨mul_factorial_ne Nat.prime_three (by decide) (by decide) (keyCount pass),
    exists_keyCount_ne (keyCount pass)⟩

theorem identityPassword_eq : identityPassword = tableOf 1 := by
  rw [eq_tableOf_iff]
  intro j
  have h := lookup_identity (UInt8.ofNat j)
  rwa [← get_eq_lookup] at h

/-- The key that replaces every byte by itself has more than its share by far. -/
theorem identity_overproduced :
    10 ^ 100 * 256 ^ 256 < keyCount identityPassword * Nat.factorial 256 ∧ ¬ EquallyLikely := by
  have hcount : Nat.factorial 128 ≤ keyCount identityPassword := by
    rw [identityPassword_eq, keyCount_tableOf]
    exact factorial_le_shuffleCount_one 128
  have hlarge : 10 ^ 100 * 256 ^ 256 < Nat.factorial 128 * Nat.factorial 256 := by
    decide +kernel
  refine ⟨lt_of_lt_of_le hlarge (Nat.mul_le_mul_right _ hcount), ?_⟩
  intro hall
  obtain ⟨pass, hperm, hne⟩ := exists_keyCount_ne (keyCount identityPassword)
  exact hne (hall pass identityPassword hperm isPermutation_identityPassword)

end Lightsocks
