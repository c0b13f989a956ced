import Lightsocks.Server.Invariant

/-
  The handle protocol of a server connection.

  `HandlesRespected` is the protocol: every call goes to a handle that was created and not yet
  released, no handle is released twice, and once the client's bufferevent is released so is
  every bufferevent ever created for a target. `handles_respected_iff` says which runs keep to
  it: those whose every step is `HandleSafe`, a condition on the delivery and the state before.

  The steps that are not: a rejected request, whose cleanup releases a variable that was never
  assigned; an event on the client's bufferevent before there is a target, whose cleanup
  releases a null pointer; and any release of the client's bufferevent once there are two
  targets, since `server->remote_bev` has forgotten the first.
-/

namespace Lightsocks.Server

open Lib

/-- The handle protocol. -/
structure HandlesRespected (c : Conn) : Prop where
  clean : c.ledger.Clean Op.guarded
  once : ∀ h, c.ledger.releases .free h ≤ 1
  closed : c.Released .loc → ∀ i, i < c.remotes → c.Released (.remote i)

/-- The deliveries after which the protocol still holds. -/
def HandleSafe (host : Host) (pass : Password) (c : Conn) : Delivery → Prop
  | .localReadcb o =>
      let d₁ := firstChunk pass (c.bev .loc).input
      let d₂ := secondChunk pass (c.bev .loc).input
      Faults host d₁ d₂ ∨ Accepts d₁ d₂ ∧ (c.remotes = 0 ∨ o.connectRc ≠ -1 ∧
        o.setsockoptRc = 0 ∧ socksBuf + socksBuf < (c.bev .loc).input.length)
  | .remoteReadcb i => (c.bev (.remote i)).input ≠ [] ∨ c.remotes = 1
  | .event h events => h = .loc → events ≠ 0 → c.remotes = 1
  | .arrive _ _ => True
  | .drain _ _ => True

/-- The invariant of the safe runs. -/
structure Respected (c : Conn) : Prop where
  sound : Sound c
  clean : c.ledger.Clean Op.guarded
  counted : c.ledger.Counted .free
  closed : c.Released .loc → ∀ i, i < c.remotes → c.Released (.remote i)

theorem Respected.handlesRespected {c : Conn} (h : Respected c) : HandlesRespected c :=
  ⟨h.clean, h.counted.releases_le_one, h.closed⟩

theorem respected_accepted : Respected accepted where
  sound := sound_accepted
  clean := by
    intro a ha _
    have hlog : accepted.ledger.log = [⟨.context, .handle .ctx, true⟩,
        ⟨.setcb, .handle .loc, true⟩, ⟨.enable, .handle .loc, true⟩] := rfl
    rw [hlog] at ha
    simp only [List.mem_cons, List.not_mem_nil, or_false] at ha
    rcases ha with rfl | rfl | rfl
    all_goals rfl
  counted := by
    intro h
    cases h <;> rfl
  closed h := absurd h (by decide)

/-- While a target's bufferevent is live, so is the client's. -/
theorem Respected.live_loc {c : Conn} (h : Respected c) {i : Nat}
    (hi : c.Live (.remote i)) : i < c.remotes ∧ c.Live .loc := by
  have hlt := h.sound.lt_of_live hi
  refine ⟨hlt, ?_⟩
  cases hl : c.ledger.life .loc with
  | unborn => exact absurd hl h.sound.born.1
  | live => exact hl
  | released =>
      have hr := h.closed hl i hlt
      rw [Bevs.Released, hi] at hr
      cases hr

/-- The state does not depend on the delivery's log but by a clean extension. -/
theorem Respected.of_touched {c c' : Conn} (h : Respected c) {hs : List Handle}
    (ht : c.ledger.Touched (Bevs.Through hs) c'.ledger) (hl : ∀ x ∈ hs, c.Live x)
    (hremotes : c'.remotes = c.remotes) (hbev : c'.remoteBev = c.remoteBev) : Respected c' where
  sound := h.sound.of_life_eq ht.life hremotes hbev
  clean := Bevs.clean_of_through ht hl h.clean
  counted := Bevs.counted_of_through ht h.counted
  closed hr i hi := by
    rw [Bevs.Released, ht.life] at hr ⊢
    exact h.closed hr i (hremotes ▸ hi)

/-! ## The steps -/

theorem handleSafe_localReadcb_iff {host : Host} {pass : Password} {c : Conn} {o : Outcome} :
    HandleSafe host pass c (.localReadcb o) ↔
      localRun host pass o (c.bev .loc).input ≠ .reject ∧
      (c.remotes = 0 ∨ localRun host pass o (c.bev .loc).input = .fault ∨
        localRun host pass o (c.bev .loc).input = .relays) := by
  by_cases hf : Faults host (firstChunk pass (c.bev .loc).input)
    (secondChunk pass (c.bev .loc).input)
  · have hr := localRun_eq_fault_iff (o := o).mpr hf
    simp [HandleSafe, hf, hr]
  by_cases ha : Accepts (firstChunk pass (c.bev .loc).input)
    (secondChunk pass (c.bev .loc).input)
  · have hr := localRun_of_accepts host o ha
    have hf' := not_faults_of_accepts host ha
    by_cases hfail : o.connectRc = -1 ∨ o.setsockoptRc ≠ 0
    · rw [if_pos hfail] at hr
      simp only [HandleSafe, hf', ha, hr]
      rcases hfail with hrc | hopt
      · simp [hrc]
      · simp [hopt]
    · rw [if_neg hfail] at hr
      obtain ⟨hrc, hopt⟩ := not_or.mp hfail
      by_cases hlen : (c.bev .loc).input.length ≤ socksBuf + socksBuf
      · rw [if_pos hlen] at hr
        simp only [HandleSafe, hf', ha, hr, Nat.not_lt.mpr hlen]
        simp
      · rw [if_neg hlen] at hr
        simp only [HandleSafe, hf', ha, hr, Nat.lt_of_not_le hlen]
        simp [hrc, not_not.mp hopt]
  · have hr := localRun_eq_reject_iff (o := o).mpr ⟨hf, ha⟩
    simp [HandleSafe, hf, ha, hr]

theorem lives_of_closing {r : LocalRun} (hd : r.dials = true) (hne : r ≠ .relays)
    (remote : Handle) (life : Handle → Life) :
    r.lives remote life =
      Function.update (Function.update life .loc .released) remote .released := by
  cases r with
  | fault => cases hd
  | reject => cases hd
  | dialFailed => rfl
  | starved => rfl
  | relays => exact absurd rfl hne

/-- A run of `local_readcb` that keeps a bufferevent live, or has no other to forget. -/
theorem respected_localReadcb {host : Host} {pass : Password} {o : Outcome} {c : Conn}
    (h : Respected c) (hloc : c.Live .loc) (hsafe : HandleSafe host pass c (.localReadcb o)) :
    Respected (localReadcb host pass o c) := by
  obtain ⟨hkind, hlast⟩ := handleSafe_localReadcb_iff.mp hsafe
  have e := localReadcb_effect host pass o hloc (h.sound.fresh _ le_rfl)
  refine ⟨sound_localReadcb h.sound hloc, e.clean hkind (h.sound.ctx hloc) h.clean,
    e.counted h.counted, fun hrel i hi => ?_⟩
  have hlife := e.life
  have hremotes := e.remotes
  rw [Bevs.Released, hlife] at hrel ⊢
  rw [Bevs.Live] at hloc
  cases hr : localRun host pass o (c.bev .loc).input with
  | fault => simp [hr, LocalRun.lives, hloc] at hrel
  | reject => exact absurd hr hkind
  | dialFailed =>
      simp only [hr, LocalRun.dials, reduceCtorEq, or_false, if_true] at hlast hremotes
      have hi0 : i = c.remotes := by omega
      simp [LocalRun.lives, hi0]
  | starved =>
      simp only [hr, LocalRun.dials, reduceCtorEq, or_false, if_true] at hlast hremotes
      have hi0 : i = c.remotes := by omega
      simp [LocalRun.lives, hi0]
  | relays => simp [hr, LocalRun.lives, hloc] at hrel

/-- A run that dials again and closes releases the new target, and forgets the first. -/
theorem not_respected_of_second_dial {host : Host} {pass : Password} {o : Outcome} {c : Conn}
    (h : Respected c) (hloc : c.Live .loc)
    (hd : (localRun host pass o (c.bev .loc).input).dials = true)
    (hne : localRun host pass o (c.bev .loc).input ≠ .relays) (hdialled : c.remotes ≠ 0) :
    ¬ HandlesRespected (localReadcb host pass o c) := by
  have e := localReadcb_effect host pass o hloc (h.sound.fresh _ le_rfl)
  have hlife := e.life
  have hremotes := e.remotes
  rw [lives_of_closing hd hne] at hlife
  rw [if_pos hd] at hremotes
  have hloc' : (localReadcb host pass o c).Released .loc := by
    rw [Bevs.Released, hlife]
    simp
  have hlive := h.sound.remotes hloc 0 (by omega)
  have hfirst : Handle.remote 0 ≠ .remote c.remotes := fun he =>
    hdialled (Handle.remote.inj he).symm
  intro hp
  have h0 := hp.closed hloc' 0 (by omega)
  rw [Bevs.Released, hlife, Function.update_of_ne hfirst, Function.update_of_ne (by simp),
    hlive] at h0
  cases h0

/-- The other runs of `local_readcb`. -/
theorem not_respected_localReadcb {host : Host} {pass : Password} {o : Outcome} {c : Conn}
    (h : Respected c) (hloc : c.Live .loc)
    (hbad : ¬ HandleSafe host pass c (.localReadcb o)) :
    ¬ HandlesRespected (localReadcb host pass o c) := by
  have e := localReadcb_effect host pass o hloc (h.sound.fresh _ le_rfl)
  rw [handleSafe_localReadcb_iff] at hbad
  cases hr : localRun host pass o (c.bev .loc).input with
  | fault => simp [hr] at hbad
  | reject => exact fun hp => e.dirty hr hp.clean
  | dialFailed =>
      simp only [hr, ne_eq, reduceCtorEq, not_false_iff, or_false, true_and] at hbad
      exact not_respected_of_second_dial h hloc (by rw [hr]; rfl) (by simp [hr]) hbad
  | starved =>
      simp only [hr, ne_eq, reduceCtorEq, not_false_iff, or_false, true_and] at hbad
      exact not_respected_of_second_dial h hloc (by rw [hr]; rfl) (by simp [hr]) hbad
  | relays => simp [hr] at hbad

theorem respected_remoteReadcb {pass : Password} {i : Nat} {c : Conn} (h : Respected c)
    (hi : c.Live (.remote i)) (hsafe : (c.bev (.remote i)).input ≠ [] ∨ c.remotes = 1) :
    Respected (remoteReadcb pass i c) := by
  have e := remoteReadcb_effect pass i c
  obtain ⟨hlt, hloc⟩ := h.live_loc hi
  have hlive : ∀ x ∈ [Handle.loc, .ctx, .remote i], c.Live x := by
    simpa using ⟨hloc, h.sound.ctx hloc, hi⟩
  by_cases he : (c.bev (.remote i)).input = []
  · obtain ⟨s, hs, hc⟩ := e.closed he
    have hlive' : ∀ x, c.Live x → s.Live x := fun x hx => by
      rw [Bevs.Live, hs.life]
      exact hx
    have hclosed := Bevs.closed_clearFree (hlive' _ hloc) (hlive' _ hi)
      (by simp : Handle.remote i ≠ .loc)
    rw [← hc] at hclosed
    refine ⟨sound_remoteReadcb h.sound, hclosed.clean (Bevs.clean_of_through hs hlive h.clean),
      hclosed.counted (Bevs.counted_of_through hs h.counted), fun _ j hj => ?_⟩
    have hone : c.remotes = 1 := hsafe.resolve_left (not_not.mpr he)
    rw [e.remotes] at hj
    have hji : j = i := by omega
    rw [Bevs.Released, hclosed.life, hji]
    exact Function.update_self ..
  · exact h.of_touched (e.relayed he) hlive e.remotes e.remoteBev

theorem not_respected_remoteReadcb {pass : Password} {i : Nat} {c : Conn} (h : Respected c)
    (hi : c.Live (.remote i)) (hempty : (c.bev (.remote i)).input = []) (hone : c.remotes ≠ 1) :
    ¬ HandlesRespected (remoteReadcb pass i c) := by
  have e := remoteReadcb_effect pass i c
  obtain ⟨hlt, hloc⟩ := h.live_loc hi
  obtain ⟨s, hs, hc⟩ := e.closed hempty
  have hlive' : ∀ x, c.Live x → s.Live x := fun x hx => by
    rw [Bevs.Live, hs.life]
    exact hx
  have hclosed := Bevs.closed_clearFree (hlive' _ hloc) (hlive' _ hi)
    (by simp : Handle.remote i ≠ .loc)
  rw [← hc] at hclosed
  -- another target's bufferevent stays live
  obtain ⟨j, hj, hji⟩ : ∃ j, j < c.remotes ∧ j ≠ i := by
    by_cases h0 : i = 0
    · exact ⟨1, by omega, by omega⟩
    · exact ⟨0, by omega, by omega⟩
  intro hp
  have hlocal : (remoteReadcb pass i c).Released .loc := by
    rw [Bevs.Released, hclosed.life, Function.update_of_ne (by simp), Function.update_self]
  have hreleased := hp.closed hlocal j (by rw [e.remotes]; exact hj)
  have hlivej := h.sound.remotes hloc j hj
  rw [Bevs.Released, hclosed.life, Function.update_of_ne (by simpa using hji),
    Function.update_of_ne (by simp), hs.life, hlivej] at hreleased
  cases hreleased

theorem respected_localEventcb {events : UInt16} {c : Conn} (h : Respected c)
    (hloc : c.Live .loc) (hsafe : events ≠ 0 → c.remotes = 1) :
    Respected (localEventcb events c) := by
  by_cases hev : events = 0
  · rw [localEventcb, if_neg (not_not.mpr hev)]
    exact h
  · have hone := hsafe hev
    have hended := ended_localEventcb h.sound hloc hev hone
    refine ⟨sound_localEventcb h.sound, hended.clean h.clean, hended.counted h.counted,
      fun _ j hj => ?_⟩
    rw [remotes_localEventcb] at hj
    have hj0 : j = 0 := by omega
    rw [Bevs.Released, hended.life, hj0, Function.update_of_ne (by simp)]
    exact Function.update_self ..

theorem not_respected_localEventcb {events : UInt16} {c : Conn} (h : Respected c)
    (hloc : c.Live .loc) (hev : events ≠ 0) (hone : c.remotes ≠ 1) :
    ¬ HandlesRespected (localEventcb events c) := by
  intro hp
  by_cases hzero : c.remotes = 0
  · -- `server->remote_bev` is null
    have hpointer := h.sound.pointer hloc
    have hclean := hp.clean
    rw [hzero] at hpointer
    rw [localEventcb, if_pos hev] at hclean
    refine Bevs.not_clean_endAll events ?_ hclean
    rw [hpointer]
    rfl
  · have hmany : 1 < c.remotes := by omega
    obtain ⟨n, hn⟩ : ∃ n, c.remotes = n + 1 := ⟨c.remotes - 1, by omega⟩
    have hlocal : (localEventcb events c).Released .loc := by
      rw [Bevs.Released, (ended_localEventcb h.sound hloc hev hn).life,
        Function.update_of_ne (by simp), Function.update_of_ne (by simp), Function.update_self]
    have hreleased := hp.closed hlocal 0 (by rw [remotes_localEventcb]; omega)
    have hlive := live_first_localEventcb h.sound hloc hev hmany
    rw [Bevs.Released, hlive] at hreleased
    cases hreleased

/-! ## The runs -/

theorem Respected.notice {c : Conn} (h : Respected c) (x : Handle) (events : UInt16) :
    Respected { c with toBevs := c.toBevs.notice x events } :=
  ⟨h.sound.of_life_eq rfl rfl rfl, h.clean, h.counted, h.closed⟩

theorem respected_step {host : Host} {pass : Password} (c : Conn) (d : Delivery) (c' : Conn)
    (h : Respected c) (hsafe : HandleSafe host pass c d) (hstep : step host pass c d = some c') :
    Respected c' := by
  obtain ⟨⟨_, _, hlive, _⟩, rfl⟩ := step_eq_some.mp hstep
  cases d with
  | arrive x data =>
      rw [deliver]
      exact ⟨h.sound.of_life_eq rfl rfl rfl, h.clean, h.counted, h.closed⟩
  | drain x n =>
      rw [deliver]
      exact ⟨h.sound.of_life_eq rfl rfl rfl, h.clean, h.counted, h.closed⟩
  | localReadcb o =>
      rw [deliver]
      exact respected_localReadcb h hlive hsafe
  | remoteReadcb i =>
      rw [deliver]
      exact respected_remoteReadcb h hlive hsafe
  | event x events =>
      rw [deliver]
      split
      · rename_i hx
        rw [Delivery.target, hx] at hlive
        exact respected_localEventcb (h.notice x events) hlive (hsafe hx)
      · exact h.notice x events

theorem not_respected_step {host : Host} {pass : Password} (c : Conn) (d : Delivery) (c' : Conn)
    (h : Respected c) (hbad : ¬ HandleSafe host pass c d)
    (hstep : step host pass c d = some c') : ¬ HandlesRespected c' := by
  obtain ⟨⟨_, _, hlive, _⟩, rfl⟩ := step_eq_some.mp hstep
  cases d with
  | arrive x data => exact absurd trivial hbad
  | drain x n => exact absurd trivial hbad
  | localReadcb o =>
      rw [deliver]
      exact not_respected_localReadcb h hlive hbad
  | remoteReadcb i =>
      rw [deliver]
      obtain ⟨hempty, hone⟩ := not_or.mp hbad
      exact not_respected_remoteReadcb h hlive (not_not.mp hempty) hone
  | event x events =>
      rw [deliver]
      simp only [HandleSafe, Classical.not_imp] at hbad
      obtain ⟨hx, hev, hone⟩ := hbad
      rw [Delivery.target, hx] at hlive
      rw [if_pos hx]
      exact not_respected_localEventcb (h.notice x events) hlive hev hone

/-- **The handle protocol.** In every run of deliveries to an accepted connection, the protocol
    holds in every state exactly when every step is safe: `local_readcb` does not reject the
    request, no step releases the client's bufferevent while there are two targets, and no event
    on it comes before there is a target. -/
theorem handles_respected_iff (host : Host) (pass : Password) (ds : List Delivery) :
    Always (step host pass) HandlesRespected accepted ds ↔
      Each (step host pass) (HandleSafe host pass) accepted ds :=
  always_iff_each (fun _ => Respected.handlesRespected) respected_step not_respected_step
    respected_accepted ds

/-- The client hangs up before it has said anything. -/
theorem early_eof_not_respected : ¬ Always (step plainHost identityPassword) HandlesRespected
    accepted [.event .loc bevEventEof] := by
  intro h
  have hstep : step plainHost identityPassword accepted (.event .loc bevEventEof) =
      some (deliver plainHost identityPassword accepted (.event .loc bevEventEof)) :=
    if_pos (by decide)
  have hbad : ¬ HandleSafe plainHost identityPassword accepted (.event .loc bevEventEof) := by
    intro hs
    have hone : accepted.remotes = 1 := hs rfl (by decide)
    cases hone
  exact not_respected_step _ _ _ respected_accepted hbad hstep (h.2 _ hstep).head

end Lightsocks.Server
