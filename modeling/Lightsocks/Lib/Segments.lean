import Mathlib.Data.List.Infix

/-
  Segments of a list. `Segments parts whole` says that `parts` are segments of `whole`: each is
  a contiguous piece of it, they stand in this order, and no two share a place. What lies between
  them belongs to nobody.

  The list and its segments grow at the end: by a gap (`gap`), or by a segment (`part`).
-/

namespace Lightsocks.Lib

variable {α : Type*}

/-- `parts` are disjoint segments of `whole`, in order. -/
inductive Segments : List (List α) → List α → Prop
  | nil : Segments [] []
  | gap {parts : List (List α)} {whole : List α} (h : Segments parts whole) (g : List α) :
      Segments parts (whole ++ g)
  | part {parts : List (List α)} {whole : List α} (h : Segments parts whole) (p : List α) :
      Segments (parts ++ [p]) (whole ++ p)

namespace Segments

/-- A segment behind a gap. -/
theorem next {parts : List (List α)} {whole : List α} (h : Segments parts whole)
    (g p : List α) : Segments (parts ++ [p]) (whole ++ (g ++ p)) := by
  rw [← List.append_assoc]
  exact (h.gap g).part p

/-- The segments, one after the other, are found in the list, in this order. -/
theorem sublist {parts : List (List α)} {whole : List α} (h : Segments parts whole) :
    parts.flatten.Sublist whole := by
  induction h with
  | nil => exact List.Sublist.refl _
  | gap _ g ih => exact ih.trans (List.sublist_append_left _ g)
  | part _ p ih =>
      rw [List.flatten_concat]
      exact ih.append_right p

/-- Every segment is contiguous. -/
theorem isInfix {parts : List (List α)} {whole : List α} (h : Segments parts whole) :
    ∀ p ∈ parts, p <:+: whole := by
  induction h with
  | nil => exact fun p hp => absurd hp List.not_mem_nil
  | gap _ g ih => exact fun p hp => (ih p hp).trans (List.prefix_append _ g).isInfix
  | part _ q ih =>
      intro p hp
      rcases List.mem_append.mp hp with hp | hp
      · exact (ih p hp).trans (List.prefix_append _ q).isInfix
      · rw [List.mem_singleton.mp hp]
        exact (List.suffix_append _ q).isInfix

end Segments

end Lightsocks.Lib
