import Mathlib.Data.Fintype.Card
import Mathlib.Data.Fintype.EquivFin
import Mathlib.Data.List.Basic
import Mathlib.Order.Bounds.Basic
import Mathlib.Order.Interval.Finset.Nat

/-
  Substitution tables. Generic: nothing here knows what the tables are for.

  `foldl_modify_range`: a loop that rewrites the first `n` entries of a list in place maps
  over them.

  `lastWrite f w t n` is the table `t` after the writes `t[f 0] := w 0, …,
  t[f (n-1)] := w (n-1)`. A cell holds what its last writer wrote
  (`lastWrite_of_isGreatest`), and a cell that is never written keeps the value it had
  (`lastWrite_of_forall_ne`).

  A map `g` that picks a preimage of every value `f` takes (`Picks f g`) undoes `f` on the left
  iff `f` is injective, and on the right iff `f` is surjective.
-/

namespace Lightsocks.Lib

variable {α β γ : Type*}

/-! ## Loops over a list in place -/

theorem getElem?_foldl_modify_range (f : α → α) (l : List α) (n k : Nat) :
    ((List.range n).foldl (fun l i => l.modify i f) l)[k]? =
      if k < n then l[k]?.map f else l[k]? := by
  induction n with
  | zero => simp
  | succ n ih =>
      rw [List.range_succ, List.foldl_append, List.foldl_cons, List.foldl_nil,
        List.getElem?_modify, ih]
      rcases Nat.lt_trichotomy k n with hk | hk | hk
      · have hne : ¬ n = k := by omega
        rw [if_pos hk, if_pos (by omega)]
        simp [hne]
      · subst hk
        simp
      · have hne : ¬ n = k := by omega
        rw [if_neg (by omega), if_neg (by omega)]
        simp [hne]

/-- `for i in [0, n) { l[i] = f(l[i]) }` maps `f` over the first `n` entries. -/
theorem foldl_modify_range (f : α → α) (l : List α) (n : Nat) :
    (List.range n).foldl (fun l i => l.modify i f) l = (l.take n).map f ++ l.drop n := by
  apply List.ext_getElem?
  intro k
  rw [getElem?_foldl_modify_range, List.getElem?_append, List.length_map, List.length_take]
  by_cases hl : k < l.length
  · by_cases hk : k < n
    · rw [if_pos hk, if_pos (by omega), List.getElem?_map, List.getElem?_take, if_pos hk]
    · have he : n + (k - min n l.length) = k := by omega
      rw [if_neg hk, if_neg (by omega), List.getElem?_drop, he]
  · have hk : l[k]? = none := List.getElem?_eq_none (by omega)
    have hd : l[n + (k - min n l.length)]? = none := List.getElem?_eq_none (by omega)
    rw [if_neg (show ¬ k < min n l.length by omega), List.getElem?_drop, hd, hk]
    simp

/-! ## A loop that writes a table -/

section LastWrite

variable [DecidableEq β]

/-- The table `t` after the writes `t[f i] := w i` for `i = 0, …, n-1`, in that order. -/
def lastWrite (f : ℕ → β) (w : ℕ → γ) (t : β → γ) (n : ℕ) : β → γ :=
  (List.range n).foldl (fun t i => Function.update t (f i) (w i)) t

theorem lastWrite_succ (f : ℕ → β) (w : ℕ → γ) (t : β → γ) (n : ℕ) :
    lastWrite f w t (n + 1) = Function.update (lastWrite f w t n) (f n) (w n) := by
  unfold lastWrite
  rw [List.range_succ, List.foldl_append]
  rfl

/-- A cell no write names keeps its value. -/
theorem lastWrite_of_forall_ne (f : ℕ → β) (w : ℕ → γ) (t : β → γ) (n : ℕ) (b : β)
    (h : ∀ i < n, f i ≠ b) : lastWrite f w t n b = t b := by
  induction n with
  | zero => rfl
  | succ n ih =>
      rw [lastWrite_succ, Function.update_of_ne (h n (by omega)).symm]
      exact ih fun i hi => h i (by omega)

/-- A cell holds the value of the last write that names it. -/
theorem lastWrite_of_isGreatest (f : ℕ → β) (w : ℕ → γ) (t : β → γ) (n : ℕ) (b : β) (j : ℕ)
    (h : IsGreatest {i | i < n ∧ f i = b} j) : lastWrite f w t n b = w j := by
  induction n with
  | zero => exact absurd h.1.1 (Nat.not_lt_zero j)
  | succ n ih =>
      obtain ⟨⟨hj, hfj⟩, hmax⟩ := h
      rw [lastWrite_succ]
      by_cases hn : f n = b
      · have hle : n ≤ j := hmax ⟨Nat.lt_succ_self n, hn⟩
        have hjn : n = j := by omega
        rw [hn, Function.update_self, hjn]
      · have hjn : j ≠ n := fun h => hn (h ▸ hfj)
        rw [Function.update_of_ne (Ne.symm hn)]
        exact ih ⟨⟨by omega, hfj⟩, fun i hi => hmax ⟨Nat.lt_succ_of_lt hi.1, hi.2⟩⟩

/-- A cell some write names has a last one. -/
theorem exists_isGreatest_write (f : ℕ → β) (n : ℕ) (b : β) (h : ∃ i < n, f i = b) :
    ∃ j, IsGreatest {i | i < n ∧ f i = b} j := by
  induction n with
  | zero => obtain ⟨i, hi, _⟩ := h; omega
  | succ n ih =>
      by_cases hn : f n = b
      · exact ⟨n, ⟨Nat.lt_succ_self n, hn⟩, fun i hi => Nat.lt_succ_iff.mp hi.1⟩
      · obtain ⟨i, hi, hfi⟩ := h
        have hin : i ≠ n := fun e => hn (e ▸ hfi)
        obtain ⟨j, hj, hmax⟩ := ih ⟨i, by omega, hfi⟩
        refine ⟨j, ⟨Nat.lt_succ_of_lt hj.1, hj.2⟩, fun k hk => hmax ⟨?_, hk.2⟩⟩
        have hkn : k ≠ n := fun e => hn (e ▸ hk.2)
        have := hk.1
        omega

end LastWrite

/-! ## Maps that pick a preimage -/

/-- `g` picks, for every value of `f`, an argument that `f` sends there. -/
def Picks (f : α → β) (g : β → α) : Prop := ∀ a, f (g (f a)) = f a

theorem Picks.leftInverse_iff {f : α → β} {g : β → α} (h : Picks f g) :
    Function.LeftInverse g f ↔ Function.Injective f := by
  constructor
  · exact Function.LeftInverse.injective
  · intro hf a
    exact hf (h a)

theorem Picks.rightInverse_iff {f : α → β} {g : β → α} (h : Picks f g) :
    Function.RightInverse g f ↔ Function.Surjective f := by
  constructor
  · exact Function.RightInverse.surjective
  · intro hf b
    obtain ⟨a, rfl⟩ := hf b
    exact h a

/-- Mapping `h` is the identity on every list iff `h` is the identity. -/
theorem forall_map_eq_self_iff (h : α → α) : (∀ l : List α, l.map h = l) ↔ ∀ a, h a = a := by
  constructor
  · intro hl a
    simpa using hl [a]
  · intro ha l
    rw [show h = id from funext ha, List.map_id]

end Lightsocks.Lib
