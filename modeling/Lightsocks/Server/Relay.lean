import Lightsocks.Server.Invariant

/-
  The upstream relay after the handshake.

  Once a run of `local_readcb` has accepted a request and set `server->remote_bev`, later runs
  should append the decoded input to that bufferevent and do nothing else (`Relayed`). No run
  does: `local_readcb` keeps no phase, so every run parses its input as a handshake
  (`not_relayed`). It rejects it, or it answers it, or it dials.

  The accepting run itself keeps both bufferevents only if the input holds more than its two
  reads take, because `decode_copy_pass` reports an empty source as an error.
-/

namespace Lightsocks.Server

open Lib

/-- The state and the outcome of a run of `local_readcb` that accepts a request and sets
    `server->remote_bev`. -/
structure Accepting (pass : Password) (o : Outcome) (c : Conn) : Prop where
  live : c.Live .loc
  accepts : Accepts (firstChunk pass (c.bev .loc).input) (secondChunk pass (c.bev .loc).input)
  connected : o.connectRc ≠ -1
  lingers : o.setsockoptRc = 0

/-- What a run of `local_readcb` in the relay phase is to do. -/
structure Relayed (pass : Password) (remote : Handle) (c c' : Conn) : Prop where
  taken : (c'.bev .loc).input = []
  appended : (c'.bev remote).output =
    (c.bev remote).output ++ (c.bev .loc).input.map (decodePass pass).lookup
  quiet : (c'.bev .loc).output = (c.bev .loc).output
  dialled : c'.dialled = c.dialled
  pointer : c'.remoteBev = c.remoteBev
  kept : c'.Live .loc ∧ c'.Live remote

/-- The upstream relay after the accepting run: both bufferevents are open behind it, and every
    later run of `local_readcb` relays. -/
def UpstreamRelay (host : Host) (pass : Password) (o : Outcome) (c : Conn)
    (ds : List Delivery) : Prop :=
  ((localReadcb host pass o c).Live .loc ∧
    (localReadcb host pass o c).Live (.remote c.remotes)) ∧
  Each (step host pass)
    (fun c' d => ∀ o', d = .localReadcb o' →
      Relayed pass (.remote c.remotes) c' (localReadcb host pass o' c'))
    (localReadcb host pass o c) ds

/-- No run of `local_readcb` relays its input, whatever it is. -/
theorem not_relayed {host : Host} {pass : Password} {o : Outcome} {remote : Handle} {c : Conn}
    (h : Sound c) (hloc : c.Live .loc) :
    ¬ Relayed pass remote c (localReadcb host pass o c) := by
  intro hrel
  have e := localReadcb_effect host pass o hloc (h.fresh _ le_rfl)
  have dialled : (localRun host pass o (c.bev .loc).input).dials = true → False := by
    intro hd
    have hd' := e.dialled
    rw [if_pos hd, hrel.dialled] at hd'
    have hlen := congrArg List.length hd'
    rw [List.length_append, List.length_singleton] at hlen
    omega
  cases hr : localRun host pass o (c.bev .loc).input with
  | fault =>
      have hout := e.output
      rw [hrel.quiet, replies, if_pos (localRun_eq_fault_iff.mp hr).1] at hout
      have hlen := congrArg List.length hout
      simp only [List.length_append, List.length_map] at hlen
      have hreply : replyAuth.length = 2 := rfl
      omega
  | reject =>
      have hlive := hrel.kept.1
      rw [Bevs.Live, e.life, hr, LocalRun.lives, Function.update_self] at hlive
      cases hlive
  | dialFailed => exact dialled (by rw [hr]; rfl)
  | starved => exact dialled (by rw [hr]; rfl)
  | relays => exact dialled (by rw [hr]; rfl)

/-- The accepting run leaves both bufferevents open exactly if its two reads leave input. -/
theorem accepting_open_iff {host : Host} {pass : Password} {o : Outcome} {c : Conn}
    (h : Sound c) (hacc : Accepting pass o c) :
    ((localReadcb host pass o c).Live .loc ∧
      (localReadcb host pass o c).Live (.remote c.remotes)) ↔
      socksBuf + socksBuf < (c.bev .loc).input.length := by
  have e := localReadcb_effect host pass o hacc.live (h.fresh _ le_rfl)
  have hr := localRun_of_accepts host o hacc.accepts
  rw [if_neg (not_or.mpr ⟨hacc.connected, not_not.mpr hacc.lingers⟩)] at hr
  have hlive : c.ledger.life .loc = .live := hacc.live
  simp only [Bevs.Live, e.life]
  by_cases hlen : (c.bev .loc).input.length ≤ socksBuf + socksBuf
  · rw [hr, if_pos hlen]
    simp [LocalRun.lives, Nat.not_lt.mpr hlen]
  · rw [hr, if_neg hlen]
    simp [LocalRun.lives, hlive, Nat.lt_of_not_le hlen]

/-- **The upstream relay.** After an accepting run, for every sequence of deliveries: the relay
    works exactly if the accepting run had more than its two reads in the queue and no run of
    `local_readcb` follows. -/
theorem upstream_relay_iff (host : Host) (pass : Password) (o : Outcome) {c : Conn}
    (before after : List Delivery) (hreach : run (step host pass) accepted before = some c)
    (hacc : Accepting pass o c) :
    UpstreamRelay host pass o c after ↔
      socksBuf + socksBuf < (c.bev .loc).input.length ∧
      Each (step host pass) (fun _ d => ∀ o', d ≠ .localReadcb o')
        (localReadcb host pass o c) after := by
  have hsound : Sound c := run_invariant (fun _ _ _ => sound_step) sound_accepted hreach
  refine and_congr (accepting_open_iff hsound hacc) ?_
  refine each_congr (fun _ _ _ => sound_step) (fun c' d t hs hstep => ?_)
    (sound_localReadcb hsound hacc.live) after
  obtain ⟨⟨_, _, hlive, _⟩, -⟩ := step_eq_some.mp hstep
  constructor
  · rintro hrel o' rfl
    exact not_relayed hs hlive (hrel o' rfl)
  · intro hne o' hd
    exact absurd hd (hne o')

/-- One segment and one run of `local_readcb` end the relay. -/
theorem not_each_relayed {host : Host} {pass : Password} {o : Outcome} {remote : Handle}
    {c : Conn} {data : List UInt8} (h : Sound c) (hrunning : c.crashed = false)
    (hlive : c.Live .loc) (hopen : (c.bev .loc).hungUp = false) (hdata : data ≠ []) :
    ¬ Each (step host pass)
      (fun c' d => ∀ o', d = .localReadcb o' →
        Relayed pass remote c' (localReadcb host pass o' c'))
      c [.arrive .loc data, .localReadcb o] := by
  intro heach
  obtain ⟨-, hrest⟩ := heach _ (step_arrive hrunning hlive hdata hopen)
  have hsound : Sound { c with toBevs := c.toBevs.arrive .loc data } :=
    h.of_life_eq rfl rfl rfl
  have hrel := (hrest _ (step_localReadcb hrunning hlive)).1 o rfl
  exact not_relayed hsound hlive hrel

theorem not_upstreamRelay_of_segment {host : Host} {pass : Password} {o o' : Outcome} {c : Conn}
    {data : List UInt8} (h : Sound c) (hrunning : c.crashed = false)
    (hopen : (c.bev .loc).hungUp = false) (hacc : Accepting pass o c) (hdata : data ≠ []) :
    ¬ UpstreamRelay host pass o c [.arrive .loc data, .localReadcb o'] := by
  intro hguard
  obtain ⟨⟨hlive, _⟩, heach⟩ := hguard
  have e := localReadcb_effect host pass o hacc.live (h.fresh _ le_rfl)
  have hne : localRun host pass o (c.bev .loc).input ≠ .fault :=
    fun hf => not_faults_of_accepts host hacc.accepts (localRun_eq_fault_iff.mp hf)
  have hcrashed : (localReadcb host pass o c).crashed = false := by
    rw [e.crashed, hrunning]
    simpa using hne
  exact not_each_relayed (sound_localReadcb h hacc.live) hcrashed hlive (e.hungUp.trans hopen)
    hdata heach

/-! ## A connection that is accepted and then cut -/

/-- What fills the two reads, with a request for `127.0.0.1` at the start of the second, and one
    byte more. -/
def longRequest : List UInt8 :=
  0x05 :: List.replicate 256 0 ++ [0x05, 0x01, 0x00, 0x01, 127, 0, 0, 1] ++ List.replicate 250 0

/-- The connection when all of it has arrived. -/
def requested : Conn := { accepted with toBevs := accepted.toBevs.arrive .loc longRequest }

theorem run_requested : run (step plainHost identityPassword) accepted
    [.arrive .loc longRequest] = some requested := by
  have hstep : step plainHost identityPassword accepted (.arrive .loc longRequest) =
      some (deliver plainHost identityPassword accepted (.arrive .loc longRequest)) :=
    if_pos (by decide)
  rw [run, hstep, deliver]
  rfl

theorem accepting_requested : Accepting identityPassword ⟨0, 0⟩ requested := by
  refine ⟨rfl, ?_, by decide, rfl⟩
  have hinput : (requested.bev .loc).input = longRequest := rfl
  rw [hinput, firstChunk_identity, secondChunk_identity]
  decide

/-- The first segment after the accepting run. -/
def firstUpload : List Delivery := [.arrive .loc [0x47], .localReadcb ⟨0, 0⟩]

theorem upstream_relay_iff_requested :
    UpstreamRelay plainHost identityPassword ⟨0, 0⟩ requested firstUpload ↔
      socksBuf + socksBuf < (requested.bev .loc).input.length ∧
      Each (step plainHost identityPassword) (fun _ d => ∀ o', d ≠ .localReadcb o')
        (localReadcb plainHost identityPassword ⟨0, 0⟩ requested) firstUpload :=
  upstream_relay_iff plainHost identityPassword ⟨0, 0⟩ [.arrive .loc longRequest] firstUpload
    run_requested accepting_requested

/-- The first segment after the accepting run is not relayed. -/
theorem first_upload_not_relayed :
    run (step plainHost identityPassword) accepted [.arrive .loc longRequest] = some requested ∧
      Accepting identityPassword ⟨0, 0⟩ requested ∧
      ¬ UpstreamRelay plainHost identityPassword ⟨0, 0⟩ requested firstUpload := by
  have hsound : Sound requested :=
    run_invariant (fun _ _ _ => sound_step) sound_accepted run_requested
  exact ⟨run_requested, accepting_requested,
    not_upstreamRelay_of_segment hsound rfl rfl accepting_requested (by decide)⟩

end Lightsocks.Server
