import Lightsocks.Lib.Run

/-
  Pools: any number of independent copies of a system, created one after the other, whose steps
  interleave in any order.

  A pool is a list of states. `spawn` adds a copy in its initial state; `act i a` takes the step
  `a` in the copy `i`, when the guard, which may look at the whole pool, lets it. An invariant of
  one copy is an invariant of every member (`pool_invariant`), and a step of one copy leaves the
  others alone (`poolStep_other`). What the copies carry beside their states does not restrict the
  runs of the pool (`run_carry`).
-/

namespace Lightsocks.Lib

/-- A new copy, or a step of an existing one. -/
inductive PoolAction (A : Type) where
  | spawn
  | act (i : Nat) (a : A)
  deriving DecidableEq

variable {S A : Type} (init : S) (step : S → A → Option S) (guard : List S → Nat → A → Bool)

/-- One step of the pool. -/
def poolStep (pool : List S) : PoolAction A → Option (List S)
  | .spawn => some (pool ++ [init])
  | .act i a =>
      if guard pool i a then (pool[i]?.bind fun s => step s a).map fun t => pool.set i t
      else none

variable {init step guard}

/-- What a step of a member does. -/
theorem poolStep_act_eq_some {pool pool' : List S} {i : Nat} {a : A}
    (h : poolStep init step guard pool (.act i a) = some pool') :
    guard pool i a = true ∧
      ∃ s t, pool[i]? = some s ∧ step s a = some t ∧ pool' = pool.set i t := by
  rw [poolStep] at h
  split at h
  · rename_i hg
    obtain ⟨t, ht, rfl⟩ := Option.map_eq_some_iff.mp h
    obtain ⟨s, hs, hst⟩ := Option.bind_eq_some_iff.mp ht
    exact ⟨hg, s, t, hs, hst, rfl⟩
  · cases h

/-- A step leaves the members alone that it is not about. -/
theorem poolStep_other {pool pool' : List S} {act : PoolAction A}
    (h : poolStep init step guard pool act = some pool') {j : Nat} (hj : j < pool.length)
    (hact : ∀ a, act ≠ .act j a) : pool'[j]? = pool[j]? := by
  cases act with
  | spawn =>
      rw [← Option.some.inj h, List.getElem?_append_left hj]
  | act i a =>
      obtain ⟨-, s, t, -, -, rfl⟩ := poolStep_act_eq_some h
      have hij : i ≠ j := by
        rintro rfl
        exact hact a rfl
      exact List.getElem?_set_ne hij

/-- What a step does to the member it is about. -/
theorem poolStep_self {pool pool' : List S} {i : Nat} {a : A} {s : S}
    (h : poolStep init step guard pool (.act i a) = some pool') (hs : pool[i]? = some s) :
    ∃ t, step s a = some t ∧ pool'[i]? = some t := by
  obtain ⟨-, s', t, hs', hst, rfl⟩ := poolStep_act_eq_some h
  obtain ⟨hi, -⟩ := List.getElem?_eq_some_iff.mp hs
  rw [hs] at hs'
  rw [Option.some.inj hs']
  exact ⟨t, hst, List.getElem?_set_self hi⟩

theorem pool_step_invariant {I : S → Prop} (hinit : I init)
    (hstep : ∀ s a t, I s → step s a = some t → I t) {pool pool' : List S} {act : PoolAction A}
    (hI : ∀ s ∈ pool, I s) (h : poolStep init step guard pool act = some pool') :
    ∀ s ∈ pool', I s := by
  cases act with
  | spawn =>
      rw [← Option.some.inj h]
      intro s hs
      rcases List.mem_append.mp hs with hs | hs
      · exact hI s hs
      · rw [List.mem_singleton.mp hs]
        exact hinit
  | act i a =>
      obtain ⟨-, s, t, hs, hst, rfl⟩ := poolStep_act_eq_some h
      intro u hu
      rcases List.mem_or_eq_of_mem_set hu with hu | rfl
      · exact hI u hu
      · exact hstep s a u (hI s (List.mem_of_getElem? hs)) hst

/-- An invariant of one copy holds of every member after every run. -/
theorem pool_invariant {I : S → Prop} (hinit : I init)
    (hstep : ∀ s a t, I s → step s a = some t → I t) {acts : List (PoolAction A)}
    {pool : List S} (h : run (poolStep init step guard) [] acts = some pool) :
    ∀ s ∈ pool, I s :=
  run_invariant (I := fun pool => ∀ s ∈ pool, I s)
    (fun _ _ _ hI hs => pool_step_invariant hinit hstep hI hs)
    (fun _ hs => absurd hs List.not_mem_nil) h

/-- A run of one member is a run of the pool, as long as the guard lets it. -/
theorem run_act {J : S → Prop} {P : A → Prop} {pool : List S} {i : Nat}
    (hJ : ∀ s a t, J s → P a → step s a = some t → J t)
    (hguard : ∀ s a, J s → P a → guard (pool.set i s) i a = true) {as : List A}
    (hP : ∀ a ∈ as, P a) {s t : S} (hi : i < pool.length) (hs : J s)
    (h : run step s as = some t) :
    run (poolStep init step guard) (pool.set i s) (as.map (PoolAction.act i)) =
      some (pool.set i t) := by
  induction as generalizing s with
  | nil => rw [← Option.some.inj h, List.map_nil, run]
  | cons a as ih =>
      obtain ⟨u, hu, hrest⟩ := run_cons_eq_some.mp h
      obtain ⟨ha, has⟩ := List.forall_mem_cons.mp hP
      refine run_cons_eq_some.mpr ⟨pool.set i u, ?_, ih has (hJ s a u hs ha hu) hrest⟩
      rw [poolStep, if_pos (hguard s a hs ha), List.getElem?_set_self hi, Option.bind_some, hu,
        Option.map_some, List.set_set]

section

variable {T : Type} {f : T → S} {init' : T} {step' : T → A → Option T}
  {guard' : List T → Nat → A → Bool} (hinit : f init' = init)
  (hstep : ∀ t a s, step (f t) a = some s → ∃ t', step' t a = some t' ∧ f t' = s)
  (hguard : ∀ pool i a, guard' pool i a = guard (pool.map f) i a)

include hinit hstep hguard

theorem poolStep_carry {pool : List T} {act : PoolAction A} {pool' : List S}
    (h : poolStep init step guard (pool.map f) act = some pool') :
    ∃ pool'', poolStep init' step' guard' pool act = some pool'' ∧ pool''.map f = pool' := by
  cases act with
  | spawn =>
      refine ⟨pool ++ [init'], rfl, ?_⟩
      rw [← Option.some.inj h, List.map_append, List.map_singleton, hinit]
  | act i a =>
      obtain ⟨hg, s, t, hs, hst, rfl⟩ := poolStep_act_eq_some h
      rw [List.getElem?_map] at hs
      obtain ⟨u, hu, rfl⟩ := Option.map_eq_some_iff.mp hs
      obtain ⟨u', hu', rfl⟩ := hstep u a t hst
      refine ⟨pool.set i u', ?_, List.map_set⟩
      rw [poolStep, if_pos ((hguard pool i a).trans hg), hu, Option.bind_some, hu']
      rfl

/-- A run of the pool is a run of copies that carry more than their states, if their steps do
    not depend on what they carry. -/
theorem run_carry {acts : List (PoolAction A)} {pool : List T} {pool' : List S}
    (h : run (poolStep init step guard) (pool.map f) acts = some pool') :
    ∃ pool'', run (poolStep init' step' guard') pool acts = some pool'' ∧
      pool''.map f = pool' := by
  induction acts generalizing pool with
  | nil => exact ⟨pool, rfl, Option.some.inj h⟩
  | cons act acts ih =>
      obtain ⟨next, hnext, hrest⟩ := run_cons_eq_some.mp h
      obtain ⟨next', hnext', rfl⟩ := poolStep_carry hinit hstep hguard hnext
      obtain ⟨last, hlast, hmap⟩ := ih hrest
      exact ⟨last, run_cons_eq_some.mpr ⟨next', hnext', hlast⟩, hmap⟩

end

end Lightsocks.Lib
