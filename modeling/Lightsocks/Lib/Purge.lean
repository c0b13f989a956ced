import Lightsocks.Lib.Pool

/-
  Runs with actions left out.

  An observer tells the states of a system apart up to a relation `View`. If the actions that
  `keep` hides change nothing in the view, and the others do the same from states of the same
  view, then a run can be taken without the hidden actions, and the observer sees the same end
  (`run_purge`).

  In a pool a member sees its own actions only: its state is the one that these lead to alone
  (`run_own`).
-/

namespace Lightsocks.Lib

section

variable {S A : Type} {step : S → A → Option S} {View : S → S → Prop} {keep : A → Bool}

/-- A run without the hidden actions is possible, and ends in the same view. -/
theorem run_purge
    (hide : ∀ s u a t, View s u → keep a = false → step s a = some t → View t u)
    (same : ∀ s u a t, View s u → keep a = true → step s a = some t →
      ∃ v, step u a = some v ∧ View t v)
    {s t u : S} {as : List A} (hview : View s u) (hrun : run step s as = some t) :
    ∃ v, run step u (as.filter keep) = some v ∧ View t v := by
  induction as generalizing s u with
  | nil =>
      rw [← Option.some.inj hrun]
      exact ⟨u, rfl, hview⟩
  | cons a as ih =>
      obtain ⟨r, hr, hrest⟩ := run_cons_eq_some.mp hrun
      cases hk : keep a with
      | false =>
          rw [List.filter_cons_of_neg (by simp [hk])]
          exact ih (hide s u a r hview hk hr) hrest
      | true =>
          obtain ⟨v, hv, hview'⟩ := same s u a r hview hk hr
          obtain ⟨v', hv', hend⟩ := ih hview' hrest
          rw [List.filter_cons_of_pos hk]
          exact ⟨v', run_cons_eq_some.mpr ⟨v, hv, hv'⟩, hend⟩

end

/-! ## Pools -/

section

variable {S A : Type} {init : S} {step : S → A → Option S} {guard : List S → Nat → A → Bool}

/-- The step that an action of the pool takes in the member `i`. -/
def PoolAction.own (i : Nat) : PoolAction A → Option A
  | .spawn => none
  | .act j a => if j = i then some a else none

/-- The member `i`, in its initial state as long as it does not exist. -/
def member (init : S) (pool : List S) (i : Nat) : S := pool[i]?.getD init

/-- Other actions leave the member alone. -/
theorem member_poolStep_of_ne {pool pool' : List S} {act : PoolAction A} {i : Nat}
    (hstep : poolStep init step guard pool act = some pool') (hact : ∀ a, act ≠ .act i a) :
    member init pool' i = member init pool i := by
  by_cases hi : i < pool.length
  · rw [member, member, poolStep_other hstep hi hact]
  · have hnone : pool[i]? = none := List.getElem?_eq_none_iff.mpr (Nat.le_of_not_lt hi)
    cases act with
    | spawn =>
        rw [← Option.some.inj hstep, member, member, hnone]
        rcases Nat.eq_or_lt_of_le (Nat.le_of_not_lt hi) with heq | hlt
        · rw [← heq, List.getElem?_concat_length]
          rfl
        · have hnone' : (pool ++ [init])[i]? = none := by
            rw [List.getElem?_eq_none_iff, List.length_append, List.length_singleton]
            exact hlt
          rw [hnone']
    | act j a =>
        obtain ⟨-, s, t, -, -, rfl⟩ := poolStep_act_eq_some hstep
        rw [member, member, hnone, List.getElem?_eq_none_iff.mpr (by simpa using hi)]

/-- Its own actions step the member. -/
theorem member_poolStep_self {pool pool' : List S} {i : Nat} {a : A}
    (hstep : poolStep init step guard pool (.act i a) = some pool') :
    step (member init pool i) a = some (member init pool' i) := by
  obtain ⟨-, s, t, hs, hst, -⟩ := poolStep_act_eq_some hstep
  obtain ⟨t', ht', hpool⟩ := poolStep_self hstep hs
  rw [member, member, hs, hpool]
  exact ht'

/-- Whatever the other members do, a member is where its own actions lead to. -/
theorem run_own {i : Nat} {pool pool' : List S} {acts : List (PoolAction A)}
    (hrun : run (poolStep init step guard) pool acts = some pool') :
    run step (member init pool i) (acts.filterMap (PoolAction.own i)) =
      some (member init pool' i) := by
  induction acts generalizing pool with
  | nil =>
      rw [← Option.some.inj hrun]
      rfl
  | cons act acts ih =>
      obtain ⟨pool₁, hstep, hrest⟩ := run_cons_eq_some.mp hrun
      by_cases hact : ∃ a, act = .act i a
      · obtain ⟨a, rfl⟩ := hact
        rw [List.filterMap_cons_some (by rw [PoolAction.own, if_pos rfl])]
        exact run_cons_eq_some.mpr ⟨_, member_poolStep_self hstep, ih hrest⟩
      · have hnone : act.own i = none := by
          cases act with
          | spawn => rfl
          | act j a => exact if_neg fun hj => hact ⟨a, by rw [hj]⟩
        rw [List.filterMap_cons_none hnone, ← member_poolStep_of_ne hstep (not_exists.mp hact)]
        exact ih hrest

end

end Lightsocks.Lib
