import Mathlib.Data.List.Basic
import Mathlib.Logic.Function.Basic

/-
  Handle ledgers. Generic bookkeeping for a program that creates, uses and releases handles
  through pointers.

  A `Ledger` knows the life of every handle and keeps a log of the accesses made, each with the
  verdict whether its pointer was a handle that had been created and not yet released. The
  program under study may pass a null pointer or a variable it never assigned; such an access
  is logged as bad and changes no life.

  In a `Clean` ledger no access of the chosen kinds was bad. In a `Counted` ledger a handle has
  been released exactly once if its life is `released`, and not at all otherwise.
-/

namespace Lightsocks.Lib

/-- Where a handle is in its life. -/
inductive Life where
  | unborn
  | live
  | released
  deriving DecidableEq

/-- A pointer value: null, the value of a variable that was never assigned, or a handle. -/
inductive Ptr (H : Type) where
  | null
  | indeterminate
  | handle (h : H)
  deriving DecidableEq

/-- One access: what was done, through which pointer, and whether the pointer was good. -/
structure Access (K H : Type) where
  kind : K
  ptr : Ptr H
  ok : Bool
  deriving DecidableEq

/-- The life of every handle, and the accesses made so far. -/
structure Ledger (K H : Type) where
  life : H → Life
  log : List (Access K H)

namespace Ledger

variable {K H : Type}

/-- No handle has been created. -/
def empty : Ledger K H := ⟨fun _ => .unborn, []⟩

/-- The pointer is a handle that has been created and not yet released. -/
def valid (l : Ledger K H) : Ptr H → Bool
  | .handle h => l.life h == .live
  | _ => false

/-- An access through `p`. -/
def use (l : Ledger K H) (k : K) (p : Ptr H) : Ledger K H :=
  { l with log := l.log ++ [⟨k, p, l.valid p⟩] }

@[simp] theorem valid_null (l : Ledger K H) : l.valid .null = false := rfl

@[simp] theorem valid_indeterminate (l : Ledger K H) : l.valid .indeterminate = false := rfl

@[simp] theorem valid_handle (l : Ledger K H) (h : H) :
    l.valid (.handle h) = true ↔ l.life h = .live := by
  simp [valid]

@[simp] theorem life_use (l : Ledger K H) (k : K) (p : Ptr H) : (l.use k p).life = l.life := rfl

@[simp] theorem log_use (l : Ledger K H) (k : K) (p : Ptr H) :
    (l.use k p).log = l.log ++ [⟨k, p, l.valid p⟩] := rfl

/-- Every access of one of the kinds in `G` went through a good pointer. -/
def Clean (G : K → Bool) (l : Ledger K H) : Prop := ∀ a ∈ l.log, G a.kind = true → a.ok = true

theorem clean_append {G : K → Bool} {l l' : Ledger K H} {a : Access K H}
    (hlog : l'.log = l.log ++ [a]) :
    Clean G l' ↔ Clean G l ∧ (G a.kind = true → a.ok = true) := by
  unfold Clean
  rw [hlog]
  simp only [List.mem_append, List.mem_singleton]
  constructor
  · exact fun h => ⟨fun b hb => h b (Or.inl hb), h a (Or.inr rfl)⟩
  · rintro ⟨h, ha⟩ b (hb | rfl)
    · exact h b hb
    · exact ha

@[simp] theorem clean_use (G : K → Bool) (l : Ledger K H) (k : K) (p : Ptr H) :
    Clean G (l.use k p) ↔ Clean G l ∧ (G k = true → l.valid p = true) :=
  clean_append (log_use l k p)

/-- `l'` is `l` after further accesses that created and released nothing, all of which are as
    `A` says. -/
structure Touched (A : K → Ptr H → Prop) (l l' : Ledger K H) : Prop where
  life : l'.life = l.life
  log : ∃ as, l'.log = l.log ++ as ∧ ∀ a ∈ as, A a.kind a.ptr ∧ a.ok = l.valid a.ptr

theorem valid_congr {l l' : Ledger K H} (h : l'.life = l.life) (p : Ptr H) :
    l'.valid p = l.valid p := by
  cases p with
  | null => rfl
  | indeterminate => rfl
  | handle x => rw [valid, valid, h]

theorem Touched.refl {A : K → Ptr H → Prop} (l : Ledger K H) : Touched A l l :=
  ⟨rfl, [], (List.append_nil _).symm, fun _ ha => absurd ha List.not_mem_nil⟩

theorem Touched.trans {A : K → Ptr H → Prop} {l₁ l₂ l₃ : Ledger K H} (h : Touched A l₁ l₂)
    (h' : Touched A l₂ l₃) : Touched A l₁ l₃ := by
  obtain ⟨as, has, hA⟩ := h.log
  obtain ⟨bs, hbs, hB⟩ := h'.log
  refine ⟨h'.life.trans h.life, as ++ bs, by rw [hbs, has, List.append_assoc], fun a ha => ?_⟩
  rcases List.mem_append.mp ha with ha | ha
  · exact hA a ha
  · rw [← valid_congr h.life]
    exact hB a ha

theorem Touched.mono {A B : K → Ptr H → Prop} {l l' : Ledger K H} (h : Touched A l l')
    (hAB : ∀ k p, A k p → B k p) : Touched B l l' := by
  obtain ⟨as, has, hA⟩ := h.log
  exact ⟨h.life, as, has, fun a ha => ⟨hAB _ _ (hA a ha).1, (hA a ha).2⟩⟩

theorem touched_use {A : K → Ptr H → Prop} (l : Ledger K H) {k : K} {p : Ptr H} (hA : A k p) :
    Touched A l (l.use k p) := by
  refine ⟨rfl, [⟨k, p, l.valid p⟩], rfl, fun a ha => ?_⟩
  rw [List.mem_singleton.mp ha]
  exact ⟨hA, rfl⟩

theorem Touched.use {A : K → Ptr H → Prop} {l l' : Ledger K H} (h : Touched A l l') {k : K}
    {p : Ptr H} (hA : A k p) : Touched A l (l'.use k p) :=
  h.trans (touched_use l' hA)

theorem Touched.prefix_log {A : K → Ptr H → Prop} {l l' : Ledger K H} (h : Touched A l l') :
    l.log <+: l'.log := by
  obtain ⟨as, has, -⟩ := h.log
  exact ⟨as, has.symm⟩

/-- Accesses through good pointers keep a ledger clean. -/
theorem Touched.clean {A : K → Ptr H → Prop} {G : K → Bool} {l l' : Ledger K H}
    (h : Touched A l l') (hc : Clean G l) (hA : ∀ k p, A k p → l.valid p = true) :
    Clean G l' := by
  obtain ⟨as, has, has'⟩ := h.log
  intro a ha hG
  rw [has] at ha
  rcases List.mem_append.mp ha with ha | ha
  · exact hc a ha hG
  · obtain ⟨hk, hok⟩ := has' a ha
    rw [hok]
    exact hA _ _ hk

/-- From `life` to `life'` handles have only been released. -/
def Aged (life life' : H → Life) : Prop :=
  ∀ h, life' h = life h ∨ life h = .live ∧ life' h = .released

theorem Aged.refl (life : H → Life) : Aged life life := fun _ => Or.inl rfl

theorem Aged.trans {l₁ l₂ l₃ : H → Life} (h : Aged l₁ l₂) (h' : Aged l₂ l₃) : Aged l₁ l₃ := by
  intro x
  rcases h x with hx | ⟨hx, hx'⟩
  · rw [← hx]
    exact h' x
  · rcases h' x with hy | ⟨hy, _⟩
    · exact Or.inr ⟨hx, hy.trans hx'⟩
    · rw [hx'] at hy
      cases hy

theorem Aged.live {l l' : H → Life} (h : Aged l l') {x : H} (hx : l' x = .live) :
    l x = .live := by
  rcases h x with he | ⟨hl, _⟩
  · rw [← he, hx]
  · exact hl

theorem Aged.unborn {l l' : H → Life} (h : Aged l l') {x : H} (hx : l x = .unborn) :
    l' x = .unborn := by
  rcases h x with he | ⟨hl, _⟩
  · rw [he, hx]
  · rw [hx] at hl
    cases hl

theorem Aged.born {l l' : H → Life} (h : Aged l l') {x : H} (hx : l x ≠ .unborn) :
    l' x ≠ .unborn := by
  rcases h x with he | ⟨_, he⟩
  · rw [he]
    exact hx
  · rw [he]
    decide

/-! ## Creating and releasing -/

variable [DecidableEq H]

theorem aged_update {life : H → Life} {h : H} (hl : life h = .live) :
    Aged life (Function.update life h .released) := by
  intro x
  by_cases hx : x = h
  · subst hx
    exact Or.inr ⟨hl, Function.update_self ..⟩
  · exact Or.inl (Function.update_of_ne hx _ _)

/-- A new handle. -/
def create (l : Ledger K H) (h : H) : Ledger K H :=
  { l with life := Function.update l.life h .live }

/-- An access of kind `k` through `p` that releases the handle, when there is one. -/
def release (l : Ledger K H) (k : K) (p : Ptr H) : Ledger K H :=
  match p with
  | .handle h => if l.life h = .live then
      { (l.use k p) with life := Function.update l.life h .released } else l.use k p
  | _ => l.use k p

@[simp] theorem log_create (l : Ledger K H) (h : H) : (l.create h).log = l.log := rfl

@[simp] theorem life_create (l : Ledger K H) (h : H) :
    (l.create h).life = Function.update l.life h .live := rfl

@[simp] theorem log_release (l : Ledger K H) (k : K) (p : Ptr H) :
    (l.release k p).log = l.log ++ [⟨k, p, l.valid p⟩] := by
  unfold release
  split
  · split <;> rfl
  · rfl

theorem life_release_handle (l : Ledger K H) (k : K) {h : H} (hl : l.life h = .live) :
    (l.release k (.handle h)).life = Function.update l.life h .released := by
  simp [release, hl]

/-- A bad pointer releases nothing. -/
theorem life_release_of_invalid (l : Ledger K H) (k : K) {p : Ptr H} (hp : l.valid p = false) :
    (l.release k p).life = l.life := by
  unfold release
  split
  · rename_i h
    have hl : l.life h ≠ .live := by simpa [valid] using hp
    rw [if_neg hl]
    rfl
  · rfl

/-- What a release does to the lives depends on the lives alone. -/
theorem life_release_congr {l l' : Ledger K H} (h : l'.life = l.life) (k : K) (p : Ptr H) :
    (l'.release k p).life = (l.release k p).life := by
  cases p with
  | null => exact h
  | indeterminate => exact h
  | handle x =>
      simp only [release, h]
      split
      · rfl
      · exact h

theorem aged_release (l : Ledger K H) (k : K) (p : Ptr H) :
    Aged l.life (l.release k p).life := by
  cases hp : l.valid p with
  | false =>
      rw [life_release_of_invalid l k hp]
      exact Aged.refl _
  | true =>
      cases p with
      | null => exact absurd hp Bool.false_ne_true
      | indeterminate => exact absurd hp Bool.false_ne_true
      | handle h =>
          have hl := (valid_handle l h).mp hp
          rw [life_release_handle l k hl]
          exact aged_update hl

/-- After a release through the pointer to a handle, the handle is not live. -/
theorem not_live_release (l : Ledger K H) (k : K) (h : H) :
    (l.release k (.handle h)).life h ≠ .live := by
  by_cases hl : l.life h = .live
  · rw [life_release_handle l k hl, Function.update_self]
    decide
  · have hv : l.valid (.handle h) = false := by simpa [valid] using hl
    rw [life_release_of_invalid l k hv]
    exact hl

@[simp] theorem clean_release (G : K → Bool) (l : Ledger K H) (k : K) (p : Ptr H) :
    Clean G (l.release k p) ↔ Clean G l ∧ (G k = true → l.valid p = true) :=
  clean_append (log_release l k p)

@[simp] theorem clean_create (G : K → Bool) (l : Ledger K H) (h : H) :
    Clean G (l.create h) ↔ Clean G l := Iff.rfl

/-! ## Releases are counted -/

variable [DecidableEq K]

/-- How often the log releases `h`, through good pointers or bad ones. -/
def releases (free : K) (l : Ledger K H) (h : H) : Nat :=
  l.log.countP fun a => a.kind == free && a.ptr == .handle h

/-- A handle is released once if its life says so, and not at all otherwise. -/
def Counted (free : K) (l : Ledger K H) : Prop :=
  ∀ h, l.releases free h = if l.life h = .released then 1 else 0

/-- A counted ledger releases no handle twice. -/
theorem Counted.releases_le_one {free : K} {l : Ledger K H} (hc : l.Counted free) (h : H) :
    l.releases free h ≤ 1 := by
  rw [hc h]
  split <;> omega

theorem Counted.use {free k : K} {l : Ledger K H} (hc : l.Counted free) (hk : k ≠ free)
    (p : Ptr H) : (l.use k p).Counted free := by
  intro h
  have hsame : (l.use k p).releases free h = l.releases free h := by simp [releases, hk]
  rw [hsame]
  exact hc h

theorem Touched.counted {free : K} {A : K → Ptr H → Prop} {l l' : Ledger K H}
    (h : Touched A l l') (hc : l.Counted free) (hA : ∀ p, ¬ A free p) : l'.Counted free := by
  obtain ⟨as, has, has'⟩ := h.log
  intro x
  have hnone : (as.countP fun a => a.kind == free && a.ptr == .handle x) = 0 := by
    rw [List.countP_eq_zero]
    intro a ha hk
    have hfree : a.kind = free := by simpa using (Bool.and_eq_true_iff.mp hk).1
    exact hA a.ptr (hfree ▸ (has' a ha).1)
  have hcx := hc x
  rw [releases] at hcx ⊢
  rw [has, List.countP_append, hnone, Nat.add_zero, hcx, h.life]

theorem Counted.create {free : K} {l : Ledger K H} (hc : l.Counted free) {h : H}
    (hh : l.life h = .unborn) : (l.create h).Counted free := by
  intro h'
  show l.releases free h' = _
  rw [hc h', life_create]
  by_cases he : h' = h
  · subst he
    simp [hh]
  · rw [Function.update_of_ne he]

theorem Counted.release {free : K} {l : Ledger K H} (hc : l.Counted free) {h : H}
    (hh : l.life h = .live) : (l.release free (.handle h)).Counted free := by
  intro h'
  rw [life_release_handle l free hh]
  have hcount := hc h'
  simp only [releases, log_release, List.countP_append] at hcount ⊢
  rw [hcount]
  by_cases he : h' = h
  · subst he
    simp [hh]
  · rw [Function.update_of_ne he]
    simp [Ne.symm he]

/-- A release through a pointer that is no handle counts for none. -/
theorem Counted.release_of_forall_ne {free : K} {l : Ledger K H} (hc : l.Counted free)
    {p : Ptr H} (hp : ∀ h, p ≠ .handle h) : (l.release free p).Counted free := by
  intro h
  have hlife : (l.release free p).life = l.life := by
    cases p with
    | null => rfl
    | indeterminate => rfl
    | handle x => exact absurd rfl (hp x)
  have hcount := hc h
  simp only [releases, log_release, List.countP_append] at hcount ⊢
  rw [hcount, hlife]
  simp [hp h]

end Ledger

end Lightsocks.Lib
