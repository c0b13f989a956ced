import Mathlib.Logic.Function.Basic
import Mathlib.Data.List.Basic

/-
  Merges of streams. `Merge took whole` says that `whole` is made of the streams `took i`, chunk
  by chunk: every element of `whole` belongs to one of them, each of them is there in its own
  order, and nothing is there twice.

  The merged list and one of its streams grow at the end together (`Merge.chunk`).
-/

namespace Lightsocks.Lib

variable {ι α : Type*} [DecidableEq ι]

/-- `whole` is a merge of the streams. -/
inductive Merge : (ι → List α) → List α → Prop
  | nil : Merge (fun _ => []) []
  | chunk {took : ι → List α} {whole : List α} (h : Merge took whole) (i : ι) (c : List α) :
      Merge (Function.update took i (took i ++ c)) (whole ++ c)

namespace Merge

/-- Every stream is found in the merge, in its order. -/
theorem sublist {took : ι → List α} {whole : List α} (h : Merge took whole) (i : ι) :
    (took i).Sublist whole := by
  induction h with
  | nil => exact List.Sublist.refl _
  | chunk _ j c ih =>
      by_cases hij : i = j
      · subst hij
        rw [Function.update_self]
        exact ih.append_right c
      · rw [Function.update_of_ne hij]
        exact ih.trans (List.sublist_append_left _ c)

/-- Whatever is in the merge comes from one of the streams. -/
theorem exists_mem {took : ι → List α} {whole : List α} (h : Merge took whole) :
    ∀ x ∈ whole, ∃ i, x ∈ took i := by
  induction h with
  | nil => exact fun x hx => absurd hx List.not_mem_nil
  | @chunk took whole _ j c ih =>
      intro x hx
      rcases List.mem_append.mp hx with hold | hnew
      · obtain ⟨i, hi⟩ := ih x hold
        refine ⟨i, ?_⟩
        by_cases hij : i = j
        · subst hij
          rw [Function.update_self]
          exact List.mem_append_left c hi
        · rw [Function.update_of_ne hij]
          exact hi
      · refine ⟨j, ?_⟩
        rw [Function.update_self]
        exact List.mem_append_right _ hnew

end Merge

end Lightsocks.Lib
