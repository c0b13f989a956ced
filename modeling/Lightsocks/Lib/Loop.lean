import Mathlib.Data.Option.Basic

/-
  Loops without an end condition of their own, `while (1) { … }`: the body returns a result or
  goes on with a new state.

  `loop body fuel s` runs at most `fuel` rounds from `s`; `rounds body n s` is the state after
  `n` rounds that all go on, for the statements about a loop that may never return.
  `loop_of_rounds` reduces the first to the second: more fuel than the rounds need changes
  nothing. `loop_eq_none_iff` says when the fuel runs out.
-/

namespace Lightsocks.Lib

variable {S R : Type*} (body : S → R ⊕ S)

/-- The result of the loop, `none` when the fuel runs out. -/
def loop : Nat → S → Option R
  | 0, _ => none
  | fuel + 1, s =>
      match body s with
      | .inl r => some r
      | .inr t => loop fuel t

/-- The state after `n` rounds, `none` when the loop returns before. -/
def rounds : Nat → S → Option S
  | 0, s => some s
  | n + 1, s =>
      match body s with
      | .inl _ => none
      | .inr t => rounds n t

variable {body}

theorem rounds_succ_of_inr {n : Nat} {s t : S} (h : body s = .inr t) :
    rounds body (n + 1) s = rounds body n t := by
  rw [rounds, h]

theorem loop_succ_of_inr {fuel : Nat} {s t : S} (h : body s = .inr t) :
    loop body (fuel + 1) s = loop body fuel t := by
  rw [loop, h]

/-- One round more at the end. -/
theorem rounds_succ {n : Nat} {s t u : S} (h : rounds body n s = some t)
    (ht : body t = .inr u) : rounds body (n + 1) s = some u := by
  induction n generalizing s with
  | zero =>
      rw [rounds, Option.some.injEq] at h
      rw [h, rounds_succ_of_inr ht, rounds]
  | succ n ih =>
      cases hs : body s with
      | inl r =>
          rw [rounds, hs] at h
          exact absurd h (by simp)
      | inr v =>
          rw [rounds_succ_of_inr hs] at h ⊢
          exact ih h

/-- The rounds use up the fuel and leave the rest of it. -/
theorem loop_add {n : Nat} {s t : S} (h : rounds body n s = some t) (fuel : Nat) :
    loop body (n + fuel) s = loop body fuel t := by
  induction n generalizing s with
  | zero =>
      rw [rounds, Option.some.injEq] at h
      rw [h, Nat.zero_add]
  | succ n ih =>
      cases hs : body s with
      | inl r =>
          rw [rounds, hs] at h
          exact absurd h (by simp)
      | inr v =>
          rw [rounds_succ_of_inr hs] at h
          rw [Nat.succ_add, loop_succ_of_inr hs]
          exact ih h

/-- The loop returns when the body does, whatever fuel is left. -/
theorem loop_of_rounds {n fuel : Nat} {s t : S} {r : R} (h : rounds body n s = some t)
    (ht : body t = .inl r) (hfuel : n < fuel) : loop body fuel s = some r := by
  obtain ⟨k, rfl⟩ : ∃ k, fuel = n + (k + 1) := ⟨fuel - n - 1, by omega⟩
  rw [loop_add h, loop, ht]

/-- The fuel runs out exactly when all rounds go on. -/
theorem loop_eq_none_iff {fuel : Nat} {s : S} :
    loop body fuel s = none ↔ ∃ t, rounds body fuel s = some t := by
  induction fuel generalizing s with
  | zero => exact ⟨fun _ => ⟨s, rfl⟩, fun _ => rfl⟩
  | succ fuel ih =>
      rw [loop, rounds]
      cases body s with
      | inl r => simp
      | inr t => exact ih

end Lightsocks.Lib
