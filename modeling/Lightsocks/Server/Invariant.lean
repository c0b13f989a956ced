import Lightsocks.Server.Callbacks

/-
  What holds of a server connection in every reachable state.

  `Sound` is about the lives of the handles only: while the client's bufferevent is live, so
  are the context and every bufferevent created for a target, and `server->remote_bev` points
  to the last of these. It is kept by every delivery, those that misuse a handle included.
-/

namespace Lightsocks.Server

open Lib

/-- What `server->remote_bev` points to when `n` bufferevents have been created. -/
def lastRemote : Nat → Ptr Handle
  | 0 => .null
  | n + 1 => .handle (.remote n)

/-- The invariant of the handles' lives. -/
structure Sound (c : Conn) : Prop where
  ctx : c.Live .loc → c.Live .ctx
  remotes : c.Live .loc → ∀ i, i < c.remotes → c.Live (.remote i)
  pointer : c.Live .loc → c.remoteBev = lastRemote c.remotes
  born : c.ledger.life .loc ≠ .unborn ∧ ∀ i, i < c.remotes → c.ledger.life (.remote i) ≠ .unborn
  fresh : ∀ i, c.remotes ≤ i → c.ledger.life (.remote i) = .unborn

/-- A connection as `local_listener_cb` leaves it when no call failed. -/
def accepted : Conn := localListenerCb 0 0

theorem step_eq_some {host : Host} {pass : Password} {c c' : Conn} {d : Delivery} :
    step host pass c d = some c' ↔ d.Possible c ∧ deliver host pass c d = c' := by
  unfold step
  split
  · rename_i h
    simp [h]
  · rename_i h
    simp [h]

theorem step_arrive {host : Host} {pass : Password} {c : Conn} {data : List UInt8}
    (hrunning : c.crashed = false) (hlive : c.Live .loc) (hdata : data ≠ [])
    (hopen : (c.bev .loc).hungUp = false) : step host pass c (.arrive .loc data) =
      some { c with toBevs := c.toBevs.arrive .loc data } :=
  step_eq_some.mpr ⟨⟨hrunning, by simp [Delivery.target], hlive, hdata, hopen⟩, by rw [deliver]⟩

theorem step_localReadcb {host : Host} {pass : Password} {o : Outcome} {c : Conn}
    (hrunning : c.crashed = false) (hlive : c.Live .loc) :
    step host pass c (.localReadcb o) = some (localReadcb host pass o c) :=
  step_eq_some.mpr ⟨⟨hrunning, by simp [Delivery.target], hlive, trivial⟩, by rw [deliver]⟩

/-- A change that only releases, the client's bufferevent among others, keeps the invariant. -/
theorem Sound.of_aged {c c' : Conn} (h : Sound c)
    (hage : Ledger.Aged c.ledger.life c'.ledger.life) (hloc : ¬ c'.Live .loc)
    (hremotes : c'.remotes = c.remotes) : Sound c' where
  ctx hl := absurd hl hloc
  remotes hl := absurd hl hloc
  pointer hl := absurd hl hloc
  born := by
    rw [hremotes]
    exact ⟨hage.born h.born.1, fun i hi => hage.born (h.born.2 i hi)⟩
  fresh i hi := hage.unborn (h.fresh i (hremotes ▸ hi))

/-- A change that keeps the lives, the count and the pointer keeps the invariant. -/
theorem Sound.of_life_eq {c c' : Conn} (h : Sound c) (hlife : c'.ledger.life = c.ledger.life)
    (hremotes : c'.remotes = c.remotes) (hbev : c'.remoteBev = c.remoteBev) : Sound c' := by
  constructor
  case ctx => simpa [Bevs.Live, hlife] using h.ctx
  case remotes => simpa [Bevs.Live, hlife, hremotes] using h.remotes
  case pointer => simpa [Bevs.Live, hlife, hremotes, hbev] using h.pointer
  case born => simpa [hlife, hremotes] using h.born
  case fresh => simpa [hlife, hremotes] using h.fresh

theorem sound_accepted : Sound accepted := by
  constructor
  case ctx => exact fun _ => rfl
  case remotes => exact fun _ i hi => absurd hi (Nat.not_lt_zero i)
  case pointer => exact fun _ => rfl
  case born => exact ⟨by decide, fun i hi => absurd hi (Nat.not_lt_zero i)⟩
  case fresh => exact fun i _ => rfl

theorem Sound.lt_of_live {c : Conn} (h : Sound c) {i : Nat} (hi : c.Live (.remote i)) :
    i < c.remotes := by
  by_contra hge
  rw [Bevs.Live, h.fresh i (Nat.le_of_not_lt hge)] at hi
  cases hi

/-! ## The callbacks keep it -/

/-- The handle of a new bufferevent, live or already released again. -/
theorem Sound.of_update {c c' : Conn} (h : Sound c) {l : Life} (hl : l ≠ .unborn)
    {life : Handle → Life} (hage : Ledger.Aged c.ledger.life life)
    (hlife : c'.ledger.life = Function.update life (.remote c.remotes) l)
    (hremotes : c'.remotes = c.remotes + 1)
    (hloc : life .loc = .live → life = c.ledger.life ∧ l = .live ∧
      c'.remoteBev = .handle (.remote c.remotes)) : Sound c' := by
  have hat : ∀ i, c'.ledger.life (.remote i) = if i = c.remotes then l else life (.remote i) := by
    intro i
    rw [hlife, Function.update_apply]
    simp
  have hother : ∀ x, (∀ i, x ≠ .remote i) → c'.ledger.life x = life x := by
    intro x hx
    rw [hlife, Function.update_of_ne (hx _)]
  have hlocal : c'.Live .loc → life .loc = .live := by
    intro hl'
    rw [← hother .loc (by simp)]
    exact hl'
  constructor
  case ctx =>
    intro hl'
    obtain ⟨rfl, -, -⟩ := hloc (hlocal hl')
    rw [Bevs.Live, hother .ctx (by simp)]
    exact h.ctx (hlocal hl')
  case remotes =>
    intro hl' i hi
    obtain ⟨rfl, hll, -⟩ := hloc (hlocal hl')
    rw [Bevs.Live, hat]
    split
    · exact hll
    · exact h.remotes (hlocal hl') i (by omega)
  case pointer =>
    intro hl'
    rw [(hloc (hlocal hl')).2.2, hremotes]
    rfl
  case born =>
    refine ⟨?_, fun i hi => ?_⟩
    · rw [hother .loc (by simp)]
      exact hage.born h.born.1
    · rw [hat]
      split
      · exact hl
      · exact hage.born (h.born.2 i (by omega))
  case fresh =>
    intro i hi
    have hne : i ≠ c.remotes := by omega
    rw [hat, if_neg hne]
    exact hage.unborn (h.fresh i (by omega))

theorem sound_localReadcb {host : Host} {pass : Password} {o : Outcome} {c : Conn}
    (h : Sound c) (hloc : c.Live .loc) : Sound (localReadcb host pass o c) := by
  have e := localReadcb_effect host pass o hloc (h.fresh c.remotes le_rfl)
  have hlife := e.life
  have hremotes := e.remotes
  have hbev := e.remoteBev
  have hgone : Function.update c.ledger.life .loc Life.released .loc ≠ .live := by
    rw [Function.update_self]
    decide
  cases hr : localRun host pass o (c.bev .loc).input with
  | fault =>
      rw [hr] at hlife hremotes hbev
      exact h.of_life_eq hlife hremotes hbev
  | reject =>
      rw [hr] at hlife hremotes
      refine h.of_aged ?_ ?_ hremotes
      · rw [hlife]
        exact Ledger.aged_update hloc
      · rw [Bevs.Live, hlife]
        exact hgone
  | dialFailed =>
      rw [hr] at hlife hremotes
      exact h.of_update (by decide) (Ledger.aged_update hloc) hlife hremotes
        fun hl => absurd hl hgone
  | starved =>
      rw [hr] at hlife hremotes
      exact h.of_update (by decide) (Ledger.aged_update hloc) hlife hremotes
        fun hl => absurd hl hgone
  | relays =>
      rw [hr] at hlife hremotes hbev
      exact h.of_update (by decide) (Ledger.Aged.refl _) hlife hremotes
        fun _ => ⟨rfl, rfl, hbev⟩

theorem aged_remoteReadcb (pass : Password) (i : Nat) (c : Conn) :
    Ledger.Aged c.ledger.life (remoteReadcb pass i c).ledger.life := by
  have e := remoteReadcb_effect pass i c
  by_cases he : (c.bev (.remote i)).input = []
  · obtain ⟨s, hs, hc⟩ := e.closed he
    rw [hc, ← hs.life]
    exact Bevs.aged_clearFree_clearFree _ _ _
  · rw [(e.relayed he).life]
    exact Ledger.Aged.refl _

theorem sound_remoteReadcb {pass : Password} {i : Nat} {c : Conn} (h : Sound c) :
    Sound (remoteReadcb pass i c) := by
  have e := remoteReadcb_effect pass i c
  by_cases he : (c.bev (.remote i)).input = []
  · obtain ⟨s, hs, hc⟩ := e.closed he
    refine h.of_aged (aged_remoteReadcb pass i c) ?_ e.remotes
    rw [Bevs.Live, hc]
    exact Bevs.not_live_clearFree_clearFree s .loc _
  · exact h.of_life_eq (e.relayed he).life e.remotes e.remoteBev

theorem aged_localEventcb (events : UInt16) (c : Conn) :
    Ledger.Aged c.ledger.life (localEventcb events c).ledger.life := by
  unfold localEventcb
  split
  · exact (Bevs.aged_clearFree _ _).trans (Bevs.aged_endAll _ _ _ _ _)
  · exact Ledger.Aged.refl _

theorem remotes_localEventcb (events : UInt16) (c : Conn) :
    (localEventcb events c).remotes = c.remotes := by
  unfold localEventcb
  split <;> rfl

theorem bev_localEventcb (events : UInt16) (c : Conn) :
    (localEventcb events c).bev = c.bev := by
  unfold localEventcb
  split
  · dsimp only
    exact Bevs.bev_endAll Handle.loc .ctx c.remoteBev events c.toBevs
  · rfl

theorem not_live_localEventcb {events : UInt16} (c : Conn) (hev : events ≠ 0) :
    ¬ (localEventcb events c).Live .loc := by
  rw [localEventcb, if_pos hev]
  dsimp only
  exact Bevs.not_live_endAll Handle.loc .ctx c.remoteBev events c.toBevs

/-- The callback releases `local_bev`, the target dialled last, and the context. -/
theorem ended_localEventcb {events : UInt16} {c : Conn} (h : Sound c) (hloc : c.Live .loc)
    (hev : events ≠ 0) {n : Nat} (hn : c.remotes = n + 1) :
    Bevs.Ended .loc (.remote n) .ctx c.toBevs (localEventcb events c).toBevs := by
  have hpointer : c.remoteBev = .handle (.remote n) := by
    rw [h.pointer hloc, hn]
    rfl
  have hended := Bevs.ended_endAll events hloc (h.remotes hloc n (by omega)) (h.ctx hloc)
    (by simp) (by simp) (by simp)
  rw [← hpointer] at hended
  rw [localEventcb, if_pos hev]
  exact hended

/-- With two targets or more, the first one's bufferevent stays live. -/
theorem live_first_localEventcb {events : UInt16} {c : Conn} (h : Sound c) (hloc : c.Live .loc)
    (hev : events ≠ 0) (hmany : 1 < c.remotes) : (localEventcb events c).Live (.remote 0) := by
  obtain ⟨n, hn⟩ : ∃ n, c.remotes = n + 2 := ⟨c.remotes - 2, by omega⟩
  rw [Bevs.Live, (ended_localEventcb h hloc hev hn).life, Function.update_of_ne (by simp),
    Function.update_of_ne (by simp), Function.update_of_ne (by simp)]
  exact h.remotes hloc 0 (by omega)

theorem sound_localEventcb {events : UInt16} {c : Conn} (h : Sound c) :
    Sound (localEventcb events c) := by
  by_cases hev : events = 0
  · rw [localEventcb, if_neg (not_not.mpr hev)]
    exact h
  · exact h.of_aged (aged_localEventcb events c) (not_live_localEventcb c hev)
      (remotes_localEventcb events c)

/-- **Every reachable state is sound.** -/
theorem sound_step {host : Host} {pass : Password} {c c' : Conn} {d : Delivery} (h : Sound c)
    (hstep : step host pass c d = some c') : Sound c' := by
  obtain ⟨⟨_, _, hlive, _⟩, rfl⟩ := step_eq_some.mp hstep
  cases d with
  | arrive x data =>
      rw [deliver]
      exact h.of_life_eq rfl rfl rfl
  | drain x n =>
      rw [deliver]
      exact h.of_life_eq rfl rfl rfl
  | localReadcb o =>
      rw [deliver]
      exact sound_localReadcb h hlive
  | remoteReadcb i =>
      rw [deliver]
      exact sound_remoteReadcb h
  | event x events =>
      have hn : Sound { c with toBevs := c.toBevs.notice x events } := h.of_life_eq rfl rfl rfl
      rw [deliver]
      split
      · exact sound_localEventcb hn
      · exact hn

end Lightsocks.Server
