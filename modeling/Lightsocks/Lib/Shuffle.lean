import Mathlib.Algebra.BigOperators.Ring.Finset
import Mathlib.Algebra.Group.Action.Defs
import Mathlib.Data.Fintype.BigOperators
import Mathlib.Data.Fintype.Perm
import Mathlib.Data.List.FinRange
import Mathlib.Data.Nat.Prime.Factorial

/-
  Exchange shuffles. Generic: the entry `i` of an arrangement of `n` things is exchanged with the
  entry `v i`, for `i = 0, …, n-1`, where every `v i` may be any of the `n` indices.

  Every arrangement comes from some `v` (`exists_shuffle_eq`): let `v i` be the place, `i` or
  behind it, where the thing that belongs to `i` is. But the `n ^ n` choices of `v` do not spread
  evenly over the `n !` arrangements, unless every prime up to `n` divides `n`
  (`mul_factorial_ne`, `exists_shuffleCount_ne`). The arrangement that changes
  nothing comes from each `v` that is its own inverse (`shuffle_of_involutive`), and so from
  `m !` of them at least when `n = m + m` (`factorial_le_shuffleCount_one`).
-/

namespace Lightsocks.Lib

open Finset Equiv

/-! ## Loops over all indices -/

/-- The rule for `for (i = 0; i < n; i++)`: a property of the loop counter and the state. -/
theorem foldl_finRange {β : Type*} {n : ℕ} {f : β → Fin n → β} {b : β} {P : ℕ → β → Prop}
    (hinit : P 0 b) (hstep : ∀ (i : Fin n) (s : β), P i s → P (i + 1) (f s i)) :
    P n ((List.finRange n).foldl f b) := by
  have key : ∀ k ≤ n, P k (((List.finRange n).take k).foldl f b) := by
    intro k
    induction k with
    | zero => exact fun _ => hinit
    | succ k ih =>
        intro hk
        have hget : (List.finRange n)[k]? = some ⟨k, hk⟩ := by
          rw [List.getElem?_eq_getElem (by rw [List.length_finRange]; exact hk),
            List.getElem_finRange]
          rfl
        rw [List.take_add_one, hget, Option.toList_some, List.foldl_concat]
        exact hstep ⟨k, hk⟩ _ (ih (by omega))
  have hall := key n le_rfl
  rwa [List.take_of_length_le (List.length_finRange (n := n)).le] at hall

/-! ## Exchanges -/

variable {n : ℕ}

/-- The arrangement after `k` exchanges: at the place `j` is what was at `exchanges v k j`. -/
def exchanges (v : Fin n → Fin n) : ℕ → Perm (Fin n)
  | 0 => 1
  | k + 1 => if h : k < n then exchanges v k * swap ⟨k, h⟩ (v ⟨k, h⟩) else exchanges v k

/-- The arrangement after all `n` exchanges. -/
def shuffle (v : Fin n → Fin n) : Perm (Fin n) := exchanges v n

theorem exchanges_succ (v : Fin n → Fin n) (i : Fin n) :
    exchanges v (i + 1) = exchanges v i * swap i (v i) := by
  rw [exchanges, dif_pos i.isLt]

theorem exchanges_congr {v w : Fin n → Fin n} {k : ℕ} (h : ∀ i : Fin n, i < k → v i = w i) :
    exchanges v k = exchanges w k := by
  induction k with
  | zero => rfl
  | succ k ih =>
      have hk := ih fun i hi => h i (by omega)
      rw [exchanges, exchanges]
      split
      · rename_i hlt
        rw [hk, h ⟨k, hlt⟩ (Nat.lt_succ_self k)]
      · exact hk

/-! ## Every arrangement is reached -/

/-- The first `k` places of an arrangement are filled by the first `k` exchanges, and later ones
    leave them alone. -/
theorem exists_exchanges (π : Perm (Fin n)) (k : ℕ) (hk : k ≤ n) :
    ∃ v : Fin n → Fin n, ∀ i : Fin n, i < k → exchanges v k i = π i := by
  induction k with
  | zero => exact ⟨id, fun i hi => absurd hi (Nat.not_lt_zero _)⟩
  | succ k ih =>
      obtain ⟨v, hv⟩ := ih (by omega)
      have hlt : k < n := hk
      -- where the thing for the place `k` is now
      obtain ⟨j, hj⟩ := (exchanges v k).surjective (π ⟨k, hlt⟩)
      have hkj : k ≤ j := by
        by_contra hjk
        have hjk' : (j : ℕ) < k := Nat.lt_of_not_le hjk
        have hπ : π j = π ⟨k, hlt⟩ := (hv j hjk').symm.trans hj
        rw [π.injective hπ] at hjk'
        exact Nat.lt_irrefl k hjk'
      have hsame : exchanges (Function.update v ⟨k, hlt⟩ j) k = exchanges v k := by
        apply exchanges_congr
        intro i hi
        exact Function.update_of_ne (Fin.ne_of_lt hi) _ _
      refine ⟨Function.update v ⟨k, hlt⟩ j, fun i hi => ?_⟩
      rw [exchanges_succ _ ⟨k, hlt⟩, hsame, Function.update_self, Perm.mul_apply]
      rcases Nat.lt_succ_iff_lt_or_eq.mp hi with hik | hik
      · have hne : i ≠ ⟨k, hlt⟩ := Fin.ne_of_lt hik
        have hij : (i : ℕ) < j := lt_of_lt_of_le hik hkj
        have hnj : i ≠ j := Fin.ne_of_lt hij
        rw [swap_apply_of_ne_of_ne hne hnj]
        exact hv i hik
      · have he : i = ⟨k, hlt⟩ := Fin.ext hik
        rw [he, swap_apply_left]
        exact hj

theorem exists_shuffle_eq (π : Perm (Fin n)) : ∃ v : Fin n → Fin n, shuffle v = π := by
  obtain ⟨v, hv⟩ := exists_exchanges π n le_rfl
  refine ⟨v, Equiv.ext fun i => ?_⟩
  exact hv i i.isLt

/-! ## The counts -/

/-- How many choices of `v` lead to an arrangement. -/
def shuffleCount (π : Perm (Fin n)) : ℕ :=
  (univ.filter fun v : Fin n → Fin n => shuffle v = π).card

theorem sum_shuffleCount : ∑ π : Perm (Fin n), shuffleCount π = n ^ n := by
  have htotal := card_eq_sum_card_fiberwise (f := shuffle (n := n)) (s := univ) (t := univ)
    fun _ _ => mem_univ _
  rw [card_univ, Fintype.card_fun, Fintype.card_fin] at htotal
  exact htotal.symm

/-- A prime that divides `n !` and not `n` rules out that a number of choices is the `n !`-th part
    of all of them. -/
theorem mul_factorial_ne {p : ℕ} (hp : p.Prime) (hle : p ≤ n) (hn : ¬ p ∣ n) (N : ℕ) :
    N * n.factorial ≠ n ^ n := by
  intro h
  have hfact : p ∣ n.factorial := hp.dvd_factorial.mpr hle
  have hpow : p ∣ n ^ n := by
    rw [← h]
    exact Dvd.dvd.mul_left hfact N
  exact hn (hp.dvd_of_dvd_pow hpow)

/-- Whatever the number, some arrangement has another one. -/
theorem exists_shuffleCount_ne {p : ℕ} (hp : p.Prime) (hle : p ≤ n) (hn : ¬ p ∣ n) (N : ℕ) :
    ∃ π : Perm (Fin n), shuffleCount π ≠ N := by
  by_contra hall
  push Not at hall
  apply mul_factorial_ne hp hle hn N
  calc N * n.factorial = ∑ _π : Perm (Fin n), N := by
        rw [sum_const, card_univ, Fintype.card_perm, Fintype.card_fin, smul_eq_mul, Nat.mul_comm]
    _ = ∑ π : Perm (Fin n), shuffleCount π := sum_congr rfl fun π _ => (hall π).symm
    _ = n ^ n := sum_shuffleCount

/-! ## The arrangement that changes nothing -/

/-- For a `v` that is its own inverse, a pair of places is exchanged when the first of them has
    its turn, and exchanged back when the second has. -/
theorem exchanges_of_involutive {v : Fin n → Fin n} (hv : Function.Involutive v) (k : ℕ)
    (hk : k ≤ n) (i : Fin n) :
    exchanges v k i = if ((i : ℕ) < k ↔ (v i : ℕ) < k) then i else v i := by
  induction k generalizing i with
  | zero => simp [exchanges]
  | succ k ih =>
      obtain ⟨t, ht⟩ : ∃ t : Fin n, (t : ℕ) = k := ⟨⟨k, hk⟩, rfl⟩
      have hsucc : exchanges v (k + 1) = exchanges v k * swap t (v t) := by
        rw [← ht]
        exact exchanges_succ v t
      rw [hsucc, Perm.mul_apply]
      by_cases hit : i = t
      · rw [hit, swap_apply_left, ih (by omega), hv t]
        rcases Nat.lt_trichotomy (v t) k with hlt | heq | hgt
        · rw [if_neg (by omega), if_pos (by omega)]
        · have he : v t = t := Fin.ext (heq.trans ht.symm)
          rw [he, ite_self, ite_self]
        · rw [if_pos (by omega), if_neg (by omega)]
      · have hne : (i : ℕ) ≠ k := fun h => hit (Fin.ext (h.trans ht.symm))
        by_cases hiv : i = v t
        · have hvi : v i = t := by
            rw [hiv]
            exact hv t
          rw [hvi, ← hiv, swap_apply_right, ih (by omega), ← hiv]
          by_cases hlt : (i : ℕ) < k
          · rw [if_neg (by omega), if_pos (by omega)]
          · rw [if_pos (by omega), if_neg (by omega)]
        · have hnv : (v i : ℕ) ≠ k := by
            intro h
            have hvi : v i = t := Fin.ext (h.trans ht.symm)
            rw [← hvi] at hiv
            exact hiv (hv i).symm
          have hiff : ((i : ℕ) < k ↔ (v i : ℕ) < k) ↔ ((i : ℕ) < k + 1 ↔ (v i : ℕ) < k + 1) := by
            omega
          rw [swap_apply_of_ne_of_ne hit hiv, ih (by omega)]
          simp only [hiff]

theorem shuffle_of_involutive {v : Fin n → Fin n} (hv : Function.Involutive v) :
    shuffle v = 1 := by
  apply Equiv.ext
  intro i
  rw [shuffle, exchanges_of_involutive hv n le_rfl, if_pos (by simp)]
  rfl

/-- The two halves of the places, matched by `e`. -/
def halves {m : ℕ} (e : Perm (Fin m)) : Fin (m + m) → Fin (m + m) :=
  Fin.addCases (fun i => Fin.natAdd m (e i)) fun i => Fin.castAdd m (e.symm i)

theorem halves_castAdd {m : ℕ} (e : Perm (Fin m)) (i : Fin m) :
    halves e (Fin.castAdd m i) = Fin.natAdd m (e i) := Fin.addCases_left i

theorem halves_natAdd {m : ℕ} (e : Perm (Fin m)) (i : Fin m) :
    halves e (Fin.natAdd m i) = Fin.castAdd m (e.symm i) := Fin.addCases_right i

theorem involutive_halves {m : ℕ} (e : Perm (Fin m)) : Function.Involutive (halves e) := by
  intro i
  induction i using Fin.addCases with
  | left i => rw [halves_castAdd, halves_natAdd, symm_apply_apply]
  | right i => rw [halves_natAdd, halves_castAdd, apply_symm_apply]

theorem halves_injective {m : ℕ} : Function.Injective (halves (m := m)) := by
  intro e e' h
  apply Equiv.ext
  intro i
  have hi := congrFun h (Fin.castAdd m i)
  rw [halves_castAdd, halves_castAdd] at hi
  exact Fin.natAdd_injective m m hi

theorem factorial_le_shuffleCount_one (m : ℕ) :
    m.factorial ≤ shuffleCount (1 : Perm (Fin (m + m))) := by
  have hcard : (univ : Finset (Perm (Fin m))).card = m.factorial := by
    rw [card_univ, Fintype.card_perm, Fintype.card_fin]
  rw [← hcard]
  apply card_le_card_of_injOn halves
  · intro e _
    rw [coe_filter, Set.mem_ofPred_eq]
    exact ⟨mem_univ _, shuffle_of_involutive (involutive_halves e)⟩
  · exact halves_injective.injOn

end Lightsocks.Lib
