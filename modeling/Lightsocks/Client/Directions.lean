import Lightsocks.Client.Lifecycle
import Lightsocks.Lib.Purge

/-
  The two directions of a pair are independent, and so are the pairs.

  With a password a copy fails on nothing but an empty source, and the read callbacks run on
  input only; so no read callback ever closes anything, and the directions share no queue. What
  a direction sees of a pair (`SameWay`) is its two queues, what has left, and which handles are
  live; only events concern both.

  Take any run of the client and leave out the deliveries of all the other pairs, and those of
  the pair itself that serve the other direction. The rest is still possible, and the direction
  ends where it did (`direction_alone`).
-/

namespace Lightsocks.Client

open Lib

/-- A direction of a pair. -/
inductive Way where
  /-- From the application to the server. -/
  | up
  /-- From the server to the application. -/
  | down
  deriving DecidableEq

/-- Where a direction reads. -/
def Way.src : Way → Handle
  | .up => .loc
  | .down => .remote

/-- Where a direction writes. -/
def Way.dst : Way → Handle
  | .up => .remote
  | .down => .loc

/-- The callback of a direction. -/
def Way.readcb : Way → Delivery
  | .up => .localReadcb
  | .down => .remoteReadcb

/-- What the callback of a direction does to a byte. -/
def Way.codec (pass : Password) : Way → UInt8 → UInt8
  | .up => pass.lookup
  | .down => (decodePass pass).lookup

/-- The deliveries that concern a direction: its arrivals, its callback, its drains, and the
    events of either bufferevent. -/
def Way.serves (w : Way) : Delivery → Bool
  | .arrive h _ => h = w.src
  | .drain h _ => h = w.dst
  | .localReadcb => w = .up
  | .remoteReadcb => w = .down
  | .event _ _ => true

/-- What a direction sees of a pair is the same in `s` and `t`. -/
structure SameWay (w : Way) (s t : Pair) : Prop where
  life : t.ledger.life = s.ledger.life
  input : (t.bev w.src).input = (s.bev w.src).input
  output : (t.bev w.dst).output = (s.bev w.dst).output
  gone : (t.bev w.dst).gone = (s.bev w.dst).gone
  hungUp : ∀ h, (t.bev h).hungUp = (s.bev h).hungUp

theorem SameWay.refl (w : Way) (s : Pair) : SameWay w s s :=
  ⟨rfl, rfl, rfl, rfl, fun _ => rfl⟩

theorem SameWay.symm {w : Way} {s t : Pair} (h : SameWay w s t) : SameWay w t s :=
  ⟨h.life.symm, h.input.symm, h.output.symm, h.gone.symm, fun x => (h.hungUp x).symm⟩

theorem SameWay.trans {w : Way} {s t u : Pair} (h : SameWay w s t) (h' : SameWay w t u) :
    SameWay w s u :=
  ⟨h'.life.trans h.life, h'.input.trans h.input, h'.output.trans h.output, h'.gone.trans h.gone,
    fun x => (h'.hungUp x).trans (h.hungUp x)⟩

/-! ## One delivery -/

theorem readcb_effect (pass : Password) (w : Way) (s : Pair) :
    ReadEffect (w.codec pass) w.dst w.src s (deliver ⟨some pass⟩ s w.readcb) := by
  cases w with
  | up => exact localReadcb_effect pass s
  | down => exact remoteReadcb_effect pass s

/-- The life of every handle behind a callback that ran on input. -/
theorem life_readcb {pass : Password} {w : Way} {s : Pair} (h : (s.bev w.src).input ≠ []) :
    (deliver ⟨some pass⟩ s w.readcb).ledger.life = s.ledger.life :=
  ((readcb_effect pass w s).ledger h).life

/-- The callback of the other direction. -/
theorem sameWay_readcb {pass : Password} {w v : Way} {s : Pair} (hv : w ≠ v)
    (hs : (s.bev v.src).input ≠ []) : SameWay w s (deliver ⟨some pass⟩ s v.readcb) := by
  have e := readcb_effect pass v s
  have hsrc : w.src ≠ v.src := by
    revert hv
    cases w <;> cases v <;> decide
  have hdst : w.dst ≠ v.dst := by
    revert hv
    cases w <;> cases v <;> decide
  exact ⟨life_readcb hs, e.input _ hsrc, e.kept _ hdst, e.gone _, e.hungUp⟩

/-- A delivery that serves the other direction only. -/
theorem sameWay_of_hidden {pass : Password} {w : Way} {s t : Pair} {d : Delivery}
    (hd : w.serves d = false) (hstep : step ⟨some pass⟩ s d = some t) : SameWay w s t := by
  obtain ⟨⟨_, _, htimely⟩, rfl⟩ := step_eq_some.mp hstep
  cases d with
  | arrive x data =>
      have hx : w.src ≠ x := fun h => absurd hd (by rw [Way.serves, h]; simp)
      rw [deliver]
      exact ⟨rfl, congrArg Bev.input (Bevs.bev_arrive_of_ne s hx data), Bevs.output_arrive ..,
        Bevs.gone_arrive .., Bevs.hungUp_arrive s x data⟩
  | drain x n =>
      have hx : w.dst ≠ x := fun h => absurd hd (by rw [Way.serves, h]; simp)
      have hbev := Bevs.bev_drain_of_ne s hx n
      rw [deliver]
      exact ⟨rfl, Bevs.input_drain .., congrArg Bev.output hbev, congrArg Bev.gone hbev,
        Bevs.hungUp_drain s x n⟩
  | localReadcb => exact sameWay_readcb (w := w) (v := .up) (of_decide_eq_false hd) htimely
  | remoteReadcb => exact sameWay_readcb (w := w) (v := .down) (of_decide_eq_false hd) htimely
  | event x events => exact absurd hd (by simp [Way.serves])

/-- A callback in the direction's view. -/
theorem SameWay.readcb {pass : Password} {w : Way} {s t : Pair} (h : SameWay w s t)
    (hs : (s.bev w.src).input ≠ []) :
    SameWay w (deliver ⟨some pass⟩ s w.readcb) (deliver ⟨some pass⟩ t w.readcb) := by
  have e := readcb_effect pass w s
  have e' := readcb_effect pass w t
  have ht : (t.bev w.src).input ≠ [] := by rwa [h.input]
  refine ⟨?_, ?_, ?_, ?_, fun x => ?_⟩
  · rw [life_readcb hs, life_readcb ht, h.life]
  · rw [e.taken, e'.taken]
  · rw [e.output, e'.output, h.output, h.input]
  · rw [e.gone, e'.gone, h.gone]
  · rw [e.hungUp, e'.hungUp, h.hungUp]

/-- The lives behind `local_eventcb` depend on the lives before. -/
theorem life_localEventcb_congr {s t : Pair} (h : t.ledger.life = s.ledger.life)
    (events : UInt16) :
    (localEventcb events t).ledger.life = (localEventcb events s).ledger.life := by
  unfold localEventcb
  split
  · exact Bevs.life_endAll_congr h ..
  · exact h

theorem SameWay.event {w : Way} {s t : Pair} (h : SameWay w s t) (pass : Password) (x : Handle)
    (events : UInt16) : SameWay w (deliver ⟨some pass⟩ s (.event x events))
      (deliver ⟨some pass⟩ t (.event x events)) := by
  have hn : SameWay w (s.notice x events) (t.notice x events) := by
    refine ⟨h.life, ?_, ?_, ?_, fun y => ?_⟩
    · rw [Bevs.input_notice, Bevs.input_notice, h.input]
    · rw [Bevs.output_notice, Bevs.output_notice, h.output]
    · rw [Bevs.gone_notice, Bevs.gone_notice, h.gone]
    · by_cases hy : y = x
      · rw [hy, Bevs.notice, Bevs.notice, Bevs.bev_modify_self, Bevs.bev_modify_self, h.hungUp]
      · rw [Bevs.notice, Bevs.notice, Bevs.bev_modify_of_ne _ hy, Bevs.bev_modify_of_ne _ hy,
          h.hungUp]
  rw [deliver, deliver]
  split
  · refine ⟨life_localEventcb_congr hn.life events, ?_, ?_, ?_, fun y => ?_⟩
    · rw [bev_localEventcb, bev_localEventcb, hn.input]
    · rw [bev_localEventcb, bev_localEventcb, hn.output]
    · rw [bev_localEventcb, bev_localEventcb, hn.gone]
    · rw [bev_localEventcb, bev_localEventcb, hn.hungUp]
  · exact hn

/-- What the direction sees decides whether a delivery that serves it can happen. -/
theorem SameWay.possible {w : Way} {s t : Pair} {d : Delivery} (h : SameWay w s t)
    (hd : w.serves d = true) (hp : d.Possible s) : d.Possible t := by
  obtain ⟨hctx, hlive, htimely⟩ := hp
  refine ⟨hctx, ?_, ?_⟩
  · rw [Bevs.Live, h.life]
    exact hlive
  · cases d with
    | arrive x data => exact ⟨htimely.1, (h.hungUp x).trans htimely.2⟩
    | drain x n => trivial
    | localReadcb =>
        obtain rfl : w = .up := of_decide_eq_true hd
        exact fun he => htimely (h.input.symm.trans he)
    | remoteReadcb =>
        obtain rfl : w = .down := of_decide_eq_true hd
        exact fun he => htimely (h.input.symm.trans he)
    | event x events => trivial

/-- A delivery that serves the direction does the same where the direction sees the same. -/
theorem SameWay.step {pass : Password} {w : Way} {s u t : Pair} {d : Delivery}
    (h : SameWay w s u) (hd : w.serves d = true) (hstep : step ⟨some pass⟩ s d = some t) :
    ∃ v, Client.step ⟨some pass⟩ u d = some v ∧ SameWay w t v := by
  obtain ⟨hp, rfl⟩ := step_eq_some.mp hstep
  refine ⟨_, step_eq_some.mpr ⟨h.possible hd hp, rfl⟩, ?_⟩
  cases d with
  | arrive x data =>
      obtain rfl : x = w.src := of_decide_eq_true hd
      rw [deliver, deliver]
      refine ⟨h.life, ?_, ?_, ?_, fun y => ?_⟩
      · rw [Bevs.bev_arrive_self, Bevs.bev_arrive_self, h.input]
      · rw [Bevs.output_arrive, Bevs.output_arrive, h.output]
      · rw [Bevs.gone_arrive, Bevs.gone_arrive, h.gone]
      · rw [Bevs.hungUp_arrive, Bevs.hungUp_arrive, h.hungUp]
  | drain x n =>
      obtain rfl : x = w.dst := of_decide_eq_true hd
      rw [deliver, deliver]
      refine ⟨h.life, ?_, ?_, ?_, fun y => ?_⟩
      · rw [Bevs.input_drain, Bevs.input_drain, h.input]
      · rw [Bevs.bev_drain_self, Bevs.bev_drain_self, h.output]
      · rw [Bevs.bev_drain_self, Bevs.bev_drain_self, h.output, h.gone]
      · rw [Bevs.hungUp_drain, Bevs.hungUp_drain, h.hungUp]
  | localReadcb =>
      obtain rfl : w = .up := of_decide_eq_true hd
      exact h.readcb hp.2.2
  | remoteReadcb =>
      obtain rfl : w = .down := of_decide_eq_true hd
      exact h.readcb hp.2.2
  | event x events => exact h.event pass x events

/-! ## All runs -/

/-- **A direction by itself.** With a password, take any run of the client and any pair of it,
    and leave out what was delivered to other pairs, and what served the pair's other direction
    only. What remains can happen to a new pair, and ends with the same queues, the same bytes
    that have left and the same handles live. -/
theorem direction_alone (pass : Password) (w : Way) (acts : List (PoolAction Delivery))
    {pool : List Pair} (hrun : run (clientStep ⟨some pass⟩) [] acts = some pool) {i : Nat}
    {s : Pair} (hs : pool[i]? = some s) :
    ∃ t, run (step ⟨some pass⟩) accepted
        ((acts.filterMap (PoolAction.own i)).filter w.serves) = some t ∧
      (t.bev w.src).input = (s.bev w.src).input ∧ (t.bev w.dst).output = (s.bev w.dst).output ∧
      (t.bev w.dst).gone = (s.bev w.dst).gone ∧ ∀ h, t.Live h ↔ s.Live h := by
  have hown := run_own (i := i) hrun
  rw [member, member, hs] at hown
  have hide : ∀ s u d t, SameWay w s u → w.serves d = false → step ⟨some pass⟩ s d = some t →
      SameWay w t u := fun _ _ _ _ hview hd hstep => (sameWay_of_hidden hd hstep).symm.trans hview
  have same : ∀ s u d t, SameWay w s u → w.serves d = true → step ⟨some pass⟩ s d = some t →
      ∃ v, step ⟨some pass⟩ u d = some v ∧ SameWay w t v :=
    fun _ _ _ _ hview hd hstep => hview.step hd hstep
  obtain ⟨t, ht, hsame⟩ := run_purge hide same (SameWay.refl w accepted) hown
  refine ⟨t, ht, hsame.input, hsame.output, hsame.gone, fun h => ?_⟩
  rw [Bevs.Live, Bevs.Live, hsame.life]
  rfl

/-- Two connections: on the first a byte goes each way, on the second one goes up, and the first
    is then closed. -/
def crossing : List (PoolAction Delivery) :=
  [.spawn, .spawn, .act 0 (.arrive .loc [0x47]), .act 1 (.arrive .loc [0x48]),
    .act 0 (.arrive .remote [0x49]), .act 0 .localReadcb, .act 1 .localReadcb,
    .act 0 .remoteReadcb, .act 0 (.event .loc bevEventEof)]

theorem direction_alone_crossing :
    ∃ pool s t, run (clientStep ⟨some identityPassword⟩) [] crossing = some pool ∧
      pool[0]? = some s ∧ run (step ⟨some identityPassword⟩) accepted
        [.arrive .loc [0x47], .localReadcb, .event .loc bevEventEof] = some t ∧
      (t.bev .remote).output = (s.bev .remote).output := by
  have hsome : (run (clientStep ⟨some identityPassword⟩) [] crossing).isSome = true := by
    decide +kernel
  obtain ⟨pool, hpool⟩ := Option.isSome_iff_exists.mp hsome
  have hfirst : ((run (clientStep ⟨some identityPassword⟩) [] crossing).bind
      fun pool => pool[0]?).isSome = true := by
    decide +kernel
  rw [hpool, Option.bind_some] at hfirst
  obtain ⟨s, hs⟩ := Option.isSome_iff_exists.mp hfirst
  obtain ⟨t, ht, -, houtput, -, -⟩ := direction_alone identityPassword .up crossing hpool hs
  exact ⟨pool, s, t, hpool, hs, ht, houtput⟩

end Lightsocks.Client
