import Mathlib.Data.List.Basic

/-
  Runs of a system given by a partial step function: `step s a` is `some t` when the action
  `a` can happen in the state `s`, and `none` otherwise.

  `run step s as` is the state after the actions `as`. `Always step P s as` says that `P` holds
  of every state the actions `as` lead through from `s`, the first one included; `Each step C s
  as` says that `C` holds of every step they take.

  `run_invariant` is the invariant rule. `always_iff_each` is the rule for a property that
  holds exactly as long as no step violates a condition: an invariant that the good steps
  keep and that yields the property, and a bad step that ends in a state without it.
-/

namespace Lightsocks.Lib

variable {S A : Type*} (step : S → A → Option S)

/-- The state after the actions `as`, `none` when one of them cannot happen. -/
def run : S → List A → Option S
  | s, [] => some s
  | s, a :: as => (step s a).bind fun t => run t as

/-- `P` holds of every state the actions lead through. -/
def Always (P : S → Prop) : S → List A → Prop
  | s, [] => P s
  | s, a :: as => P s ∧ ∀ t, step s a = some t → Always P t as

/-- `C` holds of every step the actions take. -/
def Each (C : S → A → Prop) : S → List A → Prop
  | _, [] => True
  | s, a :: as => ∀ t, step s a = some t → C s a ∧ Each C t as

variable {step}

theorem run_cons_eq_some {s u : S} {a : A} {as : List A} :
    run step s (a :: as) = some u ↔ ∃ t, step s a = some t ∧ run step t as = some u := by
  rw [run, Option.bind_eq_some_iff]

/-- A run behind a run. -/
theorem run_append {s t u : S} {as bs : List A} (h : run step s as = some t)
    (h' : run step t bs = some u) : run step s (as ++ bs) = some u := by
  induction as generalizing s with
  | nil =>
      rw [Option.some.inj h]
      exact h'
  | cons a as ih =>
      obtain ⟨r, hr, hrest⟩ := run_cons_eq_some.mp h
      exact run_cons_eq_some.mpr ⟨r, hr, ih hrest⟩

/-- A property every step keeps holds after every run. -/
theorem run_invariant {I : S → Prop} (hstep : ∀ s a t, I s → step s a = some t → I t) {s : S}
    (hs : I s) {as : List A} {t : S} (h : run step s as = some t) : I t := by
  induction as generalizing s with
  | nil =>
      rw [← Option.some.inj h]
      exact hs
  | cons a as ih =>
      obtain ⟨u, hu, hrun⟩ := run_cons_eq_some.mp h
      exact ih (hstep s a u hs hu) hrun

theorem Always.head {P : S → Prop} {s : S} {as : List A} (h : Always step P s as) : P s := by
  cases as with
  | nil => exact h
  | cons a as => exact h.1

/-- An invariant that the steps meeting `C` keep. -/
theorem always_of_each {I P : S → Prop} {C : S → A → Prop} (hP : ∀ s, I s → P s)
    (hgood : ∀ s a t, I s → C s a → step s a = some t → I t) {s : S} (hs : I s) {as : List A}
    (h : Each step C s as) : Always step P s as := by
  induction as generalizing s with
  | nil => exact hP s hs
  | cons a as ih =>
      refine ⟨hP s hs, fun t ht => ?_⟩
      obtain ⟨hC, hrest⟩ := h t ht
      exact ih (hgood s a t hs hC ht) hrest

/-- Two conditions that agree on the steps from the states of an invariant. -/
theorem each_congr {I : S → Prop} {C D : S → A → Prop}
    (hstep : ∀ s a t, I s → step s a = some t → I t)
    (hCD : ∀ s a t, I s → step s a = some t → (C s a ↔ D s a)) {s : S} (hs : I s)
    (as : List A) : Each step C s as ↔ Each step D s as := by
  induction as generalizing s with
  | nil => exact Iff.rfl
  | cons a as ih =>
      constructor
      · intro h t ht
        obtain ⟨hC, hrest⟩ := h t ht
        exact ⟨(hCD s a t hs ht).mp hC, (ih (hstep s a t hs ht)).mp hrest⟩
      · intro h t ht
        obtain ⟨hD, hrest⟩ := h t ht
        exact ⟨(hCD s a t hs ht).mpr hD, (ih (hstep s a t hs ht)).mpr hrest⟩

/-- The property holds throughout a run exactly when every step of the run meets the
    condition. -/
theorem always_iff_each {I P : S → Prop} {C : S → A → Prop} (hP : ∀ s, I s → P s)
    (hgood : ∀ s a t, I s → C s a → step s a = some t → I t)
    (hbad : ∀ s a t, I s → ¬ C s a → step s a = some t → ¬ P t) {s : S} (hs : I s)
    (as : List A) : Always step P s as ↔ Each step C s as := by
  refine ⟨fun h => ?_, always_of_each hP hgood hs⟩
  induction as generalizing s with
  | nil => exact trivial
  | cons a as ih =>
      intro t ht
      have hC : C s a := by
        by_contra hC
        exact hbad s a t hs hC ht (h.2 t ht).head
      exact ⟨hC, ih (hgood s a t hs hC ht) (h.2 t ht)⟩

end Lightsocks.Lib
