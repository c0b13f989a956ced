import Lightsocks.Client
import Lightsocks.Lib.Pool

/-
  The life of the client's pairs.

  The client is a pool of pairs (`clientStep`). Two of the three cleanup paths release the two
  bufferevents and leave the context behind; they are taken when a copy reports `-1`, which it
  does only for an empty source or a missing password. With a password, and read callbacks that
  run on input, `local_eventcb` is the only path left, so a pair is either intact or torn down
  as a whole (`pair_lifecycle`).
-/

namespace Lightsocks.Client

open Lib

/-- The client: any number of accepted connections. -/
def clientStep (ss : SecureSocket) : List Pair → PoolAction Delivery → Option (List Pair) :=
  poolStep accepted (step ss) fun _ _ _ => true

/-- The two bufferevents and the context are live, and none of them was ever released. -/
def Intact (s : Pair) : Prop := ∀ h, s.Live h ∧ s.ledger.releases .free h = 0

/-- All three are released, each of them once. -/
def TornDown (s : Pair) : Prop := ∀ h, s.Released h ∧ s.ledger.releases .free h = 1

/-- The invariant of a pair. -/
structure Cared (s : Pair) : Prop where
  whole : (∀ h, s.Live h) ∨ ∀ h, s.Released h
  clean : s.ledger.Clean Op.guarded
  counted : s.ledger.Counted .free

theorem intact_of_live {s : Pair} (h : s.ledger.Counted .free) (hl : ∀ x, s.Live x) :
    Intact s := by
  intro x
  have hx : s.ledger.life x = .live := hl x
  refine ⟨hx, ?_⟩
  rw [h x, hx, if_neg (by decide)]

theorem tornDown_of_released {s : Pair} (h : s.ledger.Counted .free)
    (hr : ∀ x, s.Released x) : TornDown s := by
  intro x
  have hx : s.ledger.life x = .released := hr x
  refine ⟨hx, ?_⟩
  rw [h x, hx, if_pos rfl]

theorem cared_accepted : Cared accepted where
  whole := by
    refine Or.inl fun h => ?_
    cases h <;> rfl
  clean := by
    have hlog : accepted.ledger.log = [⟨.connect, .handle .remote, true⟩,
        ⟨.getfd, .handle .remote, true⟩, ⟨.context, .handle .ctx, true⟩,
        ⟨.setcb, .handle .loc, true⟩, ⟨.enable, .handle .loc, true⟩,
        ⟨.setcb, .handle .remote, true⟩, ⟨.enable, .handle .remote, true⟩] := rfl
    intro a ha _
    rw [hlog] at ha
    simp only [List.mem_cons, List.not_mem_nil, or_false] at ha
    rcases ha with rfl | rfl | rfl | rfl | rfl | rfl | rfl
    all_goals rfl
  counted := by
    intro h
    cases h <;> rfl

/-- A pair that goes on as it was, with further calls through its live handles. -/
theorem Cared.of_touched {s t : Pair} (h : Cared s) (hl : ∀ x, s.Live x)
    (ht : s.ledger.Touched (Bevs.Through [.loc, .remote, .ctx]) t.ledger) :
    Cared t ∧ ∀ x, t.Live x := by
  have hlive : ∀ x, t.Live x := fun x => by
    rw [Bevs.Live, ht.life]
    exact hl x
  exact ⟨⟨Or.inl hlive, Bevs.clean_of_through ht (fun x _ => hl x) h.clean,
    Bevs.counted_of_through ht h.counted⟩, hlive⟩

theorem cared_localEventcb {events : UInt16} {s : Pair} (h : Cared s) (hl : ∀ x, s.Live x) :
    Cared (localEventcb events s) ∧
      ((∀ x, (localEventcb events s).Live x) ∨ ∀ x, (localEventcb events s).Released x) := by
  unfold localEventcb
  split
  · have hended := Bevs.ended_endAll events (hl .loc) (hl .remote) (hl .ctx) (by decide)
      (by decide) (by decide)
    have hrel : ∀ x, (s.endAll .loc .ctx (.handle .remote) events).Released x := by
      intro x
      rw [Bevs.Released, hended.life]
      cases x <;> simp
    exact ⟨⟨Or.inr hrel, hended.clean h.clean, hended.counted h.counted⟩, Or.inr hrel⟩
  · exact ⟨h, Or.inl hl⟩

/-- A step of a pair starts from live handles and leaves all of them live or none. -/
theorem cared_step {pass : Password} {s t : Pair} {d : Delivery} (h : Cared s)
    (hstep : step ⟨some pass⟩ s d = some t) :
    (∀ x, s.Live x) ∧ Cared t ∧ ((∀ x, t.Live x) ∨ ∀ x, t.Released x) := by
  obtain ⟨⟨_, hlive, htimely⟩, rfl⟩ := step_eq_some.mp hstep
  have hl : ∀ x, s.Live x := by
    rcases h.whole with hl | hr
    · exact hl
    · have hrel := hr d.target
      rw [Bevs.Released, hlive] at hrel
      cases hrel
  refine ⟨hl, ?_⟩
  cases d with
  | arrive x data => exact ⟨⟨Or.inl hl, h.clean, h.counted⟩, Or.inl hl⟩
  | drain x n => exact ⟨⟨Or.inl hl, h.clean, h.counted⟩, Or.inl hl⟩
  | localReadcb =>
      rw [deliver]
      obtain ⟨hc, hl'⟩ := h.of_touched hl ((localReadcb_effect pass s).ledger htimely)
      exact ⟨hc, Or.inl hl'⟩
  | remoteReadcb =>
      rw [deliver]
      obtain ⟨hc, hl'⟩ := h.of_touched hl ((remoteReadcb_effect pass s).ledger htimely)
      exact ⟨hc, Or.inl hl'⟩
  | event x events =>
      have hn : Cared (s.notice x events) := ⟨Or.inl hl, h.clean, h.counted⟩
      rw [deliver]
      split
      · exact cared_localEventcb hn hl
      · exact ⟨hn, Or.inl hl⟩

/-- **The life of a pair.** With a password, after every run of the client: each pair is intact
    or torn down, and every call was made through a live handle, the context's included. A
    further step leaves the other pairs as they are, and if it releases anything of its own pair
    then it releases all of it. -/
theorem pair_lifecycle (pass : Password) (acts : List (PoolAction Delivery)) {pool : List Pair}
    (hrun : run (clientStep ⟨some pass⟩) [] acts = some pool) :
    (∀ s ∈ pool, (Intact s ∨ TornDown s) ∧ s.ledger.Clean Op.guarded) ∧
    ∀ act pool', clientStep ⟨some pass⟩ pool act = some pool' →
      ∀ (i : Nat) (s s' : Pair), pool[i]? = some s → pool'[i]? = some s' →
        ((∀ d, act ≠ .act i d) → s' = s) ∧
        ((∃ h, s.Live h ∧ s'.Released h) → Intact s ∧ TornDown s') := by
  have hcared := pool_invariant cared_accepted (fun _ _ _ h hs => (cared_step h hs).2.1) hrun
  refine ⟨fun s hs => ⟨?_, (hcared s hs).clean⟩, fun act pool' hstep i s s' hi hi' => ?_⟩
  · rcases (hcared s hs).whole with hl | hr
    · exact Or.inl (intact_of_live (hcared s hs).counted hl)
    · exact Or.inr (tornDown_of_released (hcared s hs).counted hr)
  · have hlt : i < pool.length := (List.getElem?_eq_some_iff.mp hi).1
    have hs := hcared s (List.mem_of_getElem? hi)
    have hother : (∀ d, act ≠ .act i d) → s' = s := by
      intro hact
      have he := poolStep_other hstep hlt hact
      rw [hi, hi'] at he
      exact Option.some.inj he
    refine ⟨hother, ?_⟩
    intro hboth
    obtain ⟨h, hl, hr⟩ := hboth
    by_cases hact : ∀ d, act ≠ .act i d
    · rw [hother hact, Bevs.Released, hl] at hr
      cases hr
    · obtain ⟨d, hd⟩ := not_forall.mp hact
      rw [not_not.mp hd] at hstep
      obtain ⟨t, ht, hi''⟩ := poolStep_self hstep hi
      rw [hi'] at hi''
      obtain ⟨hlive, hcared', hwhole⟩ := cared_step hs ht
      rw [← Option.some.inj hi''] at hcared' hwhole
      refine ⟨intact_of_live hs.counted hlive, tornDown_of_released hcared'.counted ?_⟩
      rcases hwhole with hl' | hr'
      · have hl'' := hl' h
        rw [Bevs.Live, hr] at hl''
        cases hl''
      · exact hr'

/-- Two connections; the first carries a byte in each direction and is then closed. -/
def twoPairs : List (PoolAction Delivery) :=
  [.spawn, .spawn, .act 0 (.arrive .loc [0x47]), .act 0 .localReadcb,
    .act 0 (.arrive .remote [0x48]), .act 0 .remoteReadcb, .act 0 (.event .loc bevEventEof)]

theorem pair_lifecycle_two_pairs :
    ∃ pool, run (clientStep ⟨some identityPassword⟩) [] twoPairs = some pool ∧
      (∀ s ∈ pool, (Intact s ∨ TornDown s) ∧ s.ledger.Clean Op.guarded) := by
  have hsome : (run (clientStep ⟨some identityPassword⟩) [] twoPairs).isSome = true := by
    decide +kernel
  obtain ⟨pool, hpool⟩ := Option.isSome_iff_exists.mp hsome
  exact ⟨pool, hpool, (pair_lifecycle identityPassword twoPairs hpool).1⟩

end Lightsocks.Client
