import Lightsocks.Lib.Segments
import Lightsocks.Client.Upload
import Lightsocks.Tunnel

/-
  The way up: from the application, through the two programs, to the targets.

  An `Upstream` is a link and what its application has sent (`sent`), which is bookkeeping only.
  What was sent passes the client's two queues, the network and the server's input. There
  `local_readcb` takes it, in runs each of which may open a new target; a target is given the end
  of what its run took, past the two reads of the handshake (`localReadcb_draw`).

  So what the targets of a link were ever given are segments of what its application sent, in the
  order in which they were dialled (`upstream_segments`). What was sent and belongs to no segment
  was taken for a handshake, or stands in a queue; there it stays if its link has been torn down.
-/

namespace Lightsocks

open Lib

/-! ## What the server takes -/

namespace Server

/-- What was ever written to each target, in the order in which they were dialled. -/
def targets (c : Conn) : List (List UInt8) :=
  (List.range c.remotes).map fun i => (c.bev (.remote i)).written

theorem targets_congr {c c' : Conn} (hremotes : c'.remotes = c.remotes)
    (hwritten : ∀ i, (c'.bev (.remote i)).written = (c.bev (.remote i)).written) :
    targets c' = targets c := by
  rw [targets, targets, hremotes]
  exact List.map_congr_left fun i _ => hwritten i

/-- `c'` is `c` after a run that took `n` bytes of the input. If the run dialled, then the new
    target was given what it took past the two reads. -/
structure Draw (pass : Password) (dials : Prop) (n : Nat) (c c' : Conn) : Prop where
  input : (c'.bev .loc).input = (c.bev .loc).input.drop n
  kept : ¬ dials → targets c' = targets c
  given : dials → targets c' = targets c ++
    [(((c.bev .loc).input.take n).drop (socksBuf + socksBuf)).map (decodePass pass).lookup]

/-- A run that dials and leaves the older targets alone. -/
theorem Draw.of_dialled {pass : Password} {dials : Prop} {n : Nat} {c c' : Conn} (hd : dials)
    (hremotes : c'.remotes = c.remotes + 1)
    (hother : ∀ i, i ≠ c.remotes → c'.bev (.remote i) = c.bev (.remote i))
    (hinput : (c'.bev .loc).input = (c.bev .loc).input.drop n)
    (hgiven : (c'.bev (.remote c.remotes)).written =
      (((c.bev .loc).input.take n).drop (socksBuf + socksBuf)).map (decodePass pass).lookup) :
    Draw pass dials n c c' where
  input := hinput
  kept hnd := absurd hd hnd
  given _ := by
    rw [targets, hremotes, List.range_succ, List.map_append, List.map_singleton, hgiven]
    refine congrArg (· ++ _) (List.map_congr_left fun i hi => ?_)
    rw [hother i (List.mem_range.mp hi).ne]

/-- A run that does not get past the parse. -/
theorem draw_of_parse {pass : Password} {dials : Prop} {c c' : Conn} {s : Bevs Handle}
    (hd : ¬ dials) (hremotes : c'.remotes = c.remotes) (hbev : c'.bev = s.bev)
    (hframe : Bevs.Frame .loc .loc c.toBevs s)
    (hview : s.queues .loc .loc = parsed pass (c.queues .loc .loc)) :
    ∃ n, Draw pass dials n c c' := by
  have hsrc : (s.bev .loc).input = (parsed pass (c.queues .loc .loc)).src :=
    congrArg Queues.src hview
  have hkept : ¬ dials → targets c' = targets c := fun _ => targets_congr hremotes fun i => by
    rw [hbev, hframe.bev_of_ne (by simp) (by simp)]
  unfold parsed at hsrc
  by_cases hg : Greets (firstChunk pass (c.queues .loc .loc).src)
  · rw [if_pos hg] at hsrc
    refine ⟨socksBuf + socksBuf, ?_, hkept, fun h => absurd h hd⟩
    rw [hbev]
    exact hsrc
  · rw [if_neg hg] at hsrc
    refine ⟨socksBuf, ?_, hkept, fun h => absurd h hd⟩
    rw [hbev]
    exact hsrc

/-- The bytes a run takes that dials: the two reads, and the rest if it gets to the copy. -/
theorem draw_of_opened {pass : Password} {dials : Prop} {o : Outcome} {addr : SockaddrIn}
    {c c₁ : Conn} (hd : dials) (h : Dialled pass addr c c₁) :
    ∃ n, Draw pass dials n c
      (if o.connectRc = -1 ∨ o.setsockoptRc ≠ 0 then
        c₁.closeBoth (.handle .loc) (.handle (.remote c.remotes))
      else startTransmit pass (.remote c.remotes) c₁) := by
  by_cases hfail : o.connectRc = -1 ∨ o.setsockoptRc ≠ 0
  · refine ⟨socksBuf + socksBuf, ?_⟩
    rw [if_pos hfail]
    refine .of_dialled hd h.remotes h.other h.input ?_
    show (c₁.bev (.remote c.remotes)).written = _
    rw [h.fresh, List.drop_eq_nil_of_le (List.length_take_le _ _)]
    rfl
  · obtain ⟨t, ht, htransmit⟩ := startTransmit_cases pass
      (by simp : Handle.remote c.remotes ≠ .loc) c₁
    have hdraw : ∀ c', c'.remotes = c₁.remotes → c'.bev = t.bev →
        Draw pass dials (c.bev .loc).input.length c c' := by
      intro c' hremotes hbev
      refine .of_dialled hd (hremotes.trans h.remotes) (fun i hi => ?_) ?_ ?_
      · rw [hbev, ht.other _ (by simp) (by simp [hi]), h.other i hi]
      · rw [hbev, ht.empty, List.drop_length]
      · rw [hbev, Bev.written, ht.gone, ht.payload, h.fresh, h.input, List.take_length]
        rfl
    refine ⟨(c.bev .loc).input.length, ?_⟩
    rw [if_neg hfail, htransmit]
    split
    · exact hdraw _ rfl rfl
    · exact hdraw _ rfl rfl

/-- What a run of `local_readcb` takes, and what it gives to the target. -/
theorem localReadcb_draw (host : Host) (pass : Password) (o : Outcome) {c : Conn}
    (hloc : c.Live .loc) (hnew : c.ledger.life (.remote c.remotes) = .unborn) :
    ∃ n, Draw pass ((localRun host pass o (c.bev .loc).input).dials = true) n c
      (localReadcb host pass o c) := by
  obtain ⟨s, hframe, hview, hfault, hreject, hdials⟩ := localReadcb_cases host pass o c
  cases hr : localRun host pass o (c.bev .loc).input with
  | fault =>
      rw [hfault hr]
      exact draw_of_parse (s := s) (by decide) rfl rfl hframe hview
  | reject =>
      rw [hreject hr]
      exact draw_of_parse (s := s) (by decide) rfl rfl hframe hview
  | dialFailed | starved | relays =>
      have hd : (localRun host pass o (c.bev .loc).input).dials = true := by
        rw [hr]
        rfl
      obtain ⟨c₁, hopen, hdial⟩ := dial_cases pass o (dialAddr host pass (c.bev .loc).input)
        { c with toBevs := s }
      rw [hdials hd, hdial]
      exact draw_of_opened rfl
        (dialled_of_opened (localRun_dials_iff.mp hd).1 hloc hnew hframe hview hopen)

/-- The invariant of the server's side of the way up: of what came in, the targets were given
    segments, and the input is what was not taken. -/
structure Draws (pass : Password) (came : List UInt8) (c : Conn) : Prop where
  fresh : Fresh c
  taken : ∃ took, came = took ++ (c.bev .loc).input ∧
    Segments (targets c) (took.map (decodePass pass).lookup)

/-- A delivery that takes nothing, and gives nothing to a target. -/
theorem Draws.of_eq {pass : Password} {came data : List UInt8} {c c' : Conn}
    (h : Draws pass came c) (hfresh : Fresh c') (htargets : targets c' = targets c)
    (hinput : (c'.bev .loc).input = (c.bev .loc).input ++ data) :
    Draws pass (came ++ data) c' := by
  obtain ⟨took, hcame, hseg⟩ := h.taken
  refine ⟨hfresh, took, ?_, ?_⟩
  · rw [hinput, hcame, List.append_assoc]
  · rw [htargets]
    exact hseg

theorem Draws.of_eq_nil {pass : Password} {came : List UInt8} {c c' : Conn}
    (h : Draws pass came c) (hfresh : Fresh c') (htargets : targets c' = targets c)
    (hinput : (c'.bev .loc).input = (c.bev .loc).input) : Draws pass came c' := by
  have hnil : (c'.bev .loc).input = (c.bev .loc).input ++ [] := by
    rw [hinput, List.append_nil]
  have h' := h.of_eq hfresh htargets hnil
  rwa [List.append_nil] at h'

theorem draws_localReadcb {host : Host} {pass : Password} {o : Outcome} {came : List UInt8}
    {c : Conn} (h : Draws pass came c) (hloc : c.Live .loc) :
    Draws pass came (localReadcb host pass o c) := by
  obtain ⟨n, hdraw⟩ := localReadcb_draw host pass o hloc (h.fresh _ le_rfl)
  obtain ⟨took, hcame, hseg⟩ := h.taken
  refine ⟨fresh_localReadcb h.fresh hloc, took ++ (c.bev .loc).input.take n, ?_, ?_⟩
  · rw [hdraw.input, List.append_assoc, List.take_append_drop]
    exact hcame
  · rw [List.map_append]
    by_cases hd : (localRun host pass o (c.bev .loc).input).dials = true
    · -- the two reads are the gap before the new target's segment
      rw [hdraw.given hd, ← List.take_append_drop (socksBuf + socksBuf)
        ((c.bev .loc).input.take n), List.map_append]
      rw [List.take_append_drop]
      exact hseg.next _ _
    · rw [hdraw.kept hd]
      exact hseg.gap _

/-- What a delivery other than an arrival leaves of the invariant. -/
theorem draws_of_step {host : Host} {pass : Password} {came : List UInt8} {c c' : Conn}
    {d : Delivery} (h : Draws pass came c) (harrive : ∀ data, d ≠ .arrive .loc data)
    (hstep : step host pass c d = some c') : Draws pass came c' := by
  obtain ⟨⟨_, _, hlive, _⟩, rfl⟩ := step_eq_some.mp hstep
  cases d with
  | arrive x data =>
      have hx : Handle.loc ≠ x := by
        rintro rfl
        exact harrive data rfl
      rw [deliver]
      exact h.of_eq_nil h.fresh (targets_congr rfl fun i => Bevs.written_arrive ..)
        (congrArg Bev.input (Bevs.bev_arrive_of_ne c.toBevs hx data))
  | drain x n =>
      rw [deliver]
      refine h.of_eq_nil h.fresh (targets_congr rfl fun i => ?_) (Bevs.input_drain ..)
      by_cases hx : Handle.remote i = x
      · rw [← hx]
        exact Bevs.written_drain ..
      · exact congrArg Bev.written (Bevs.bev_drain_of_ne c.toBevs hx n)
  | localReadcb o =>
      rw [deliver]
      exact draws_localReadcb h hlive
  | remoteReadcb i =>
      have e := remoteReadcb_effect pass i c
      rw [deliver]
      refine h.of_eq_nil (h.fresh.of_aged e.remotes (aged_remoteReadcb pass i c))
        (targets_congr e.remotes fun j => ?_) e.input
      by_cases hj : j = i
      · rw [hj, Bev.written, e.gone, e.kept]
        rfl
      · rw [e.other _ (by simp) (by simp [hj])]
  | event x events =>
      have hn : Draws pass came { c with toBevs := c.toBevs.notice x events } :=
        h.of_eq_nil h.fresh (targets_congr rfl fun i => Bevs.written_notice ..)
          (Bevs.input_notice ..)
      rw [deliver]
      split
      · have hbev := bev_localEventcb events { c with toBevs := c.toBevs.notice x events }
        refine hn.of_eq_nil
          (hn.fresh.of_aged (remotes_localEventcb ..) (aged_localEventcb _ _)) ?_ ?_
        · exact targets_congr (remotes_localEventcb ..) fun i => by rw [hbev]
        · rw [hbev]
      · exact hn

/-- What arrives waits in the input. -/
theorem draws_arrive {host : Host} {pass : Password} {came data : List UInt8} {c c' : Conn}
    (h : Draws pass came c) (hstep : step host pass c (.arrive .loc data) = some c') :
    Draws pass (came ++ data) c' := by
  obtain ⟨-, rfl⟩ := step_eq_some.mp hstep
  rw [deliver]
  exact h.of_eq h.fresh (targets_congr rfl fun i => Bevs.written_arrive ..)
    (congrArg Bev.input (Bevs.bev_arrive_self c.toBevs .loc data))

end Server

/-! ## What leaves the client -/

namespace Client

/-- A delivery keeps every byte of the upload. -/
theorem conserved_of_step {pass : Password} {s t : Pair} {sent : List UInt8} {d : Delivery}
    (h : Upload.Conserved pass ⟨s, sent⟩) (hstep : step ⟨some pass⟩ s d = some t) :
    Upload.Conserved pass ⟨t, sent ++ d.sends⟩ := by
  obtain ⟨-, rfl⟩ := step_eq_some.mp hstep
  cases d with
  | arrive x data =>
      rw [deliver]
      exact conserved_arrive (u := ⟨s, sent⟩) h x data
  | drain x n =>
      rw [deliver]
      exact conserved_drain (u := ⟨s, sent⟩) h x n
  | localReadcb =>
      rw [deliver]
      exact conserved_localReadcb (u := ⟨s, sent⟩) h
  | remoteReadcb =>
      rw [deliver]
      exact conserved_remoteReadcb (u := ⟨s, sent⟩) h
  | event x events => exact conserved_event (u := ⟨s, sent⟩) h x events

/-- Only the network makes bytes leave. -/
theorem gone_of_step {pass : Password} {s t : Pair} {d : Delivery} {x : Handle}
    (hdrain : ∀ n, d ≠ .drain x n) (hstep : step ⟨some pass⟩ s d = some t) :
    (t.bev x).gone = (s.bev x).gone := by
  obtain ⟨-, rfl⟩ := step_eq_some.mp hstep
  cases d with
  | arrive y data => exact Bevs.gone_arrive ..
  | drain y n =>
      have hy : x ≠ y := by
        rintro rfl
        exact hdrain n rfl
      exact congrArg Bev.gone (Bevs.bev_drain_of_ne s hy n)
  | localReadcb =>
      rw [deliver]
      exact (localReadcb_effect pass s).gone x
  | remoteReadcb =>
      rw [deliver]
      exact (remoteReadcb_effect pass s).gone x
  | event y events =>
      rw [deliver]
      split
      · rw [bev_localEventcb, Bevs.gone_notice]
      · exact Bevs.gone_notice ..

end Client

/-! ## The link -/

/-- A link, and what its application has sent. -/
structure Upstream where
  link : Link
  sent : List UInt8

namespace Upstream

/-- Both programs have accepted. -/
def accepted : Upstream := ⟨Link.accepted, []⟩

/-- What the application sends in an action. -/
def sends : Link.Action → List UInt8
  | .client d => d.sends
  | _ => []

/-- One action. -/
def step (host : Host) (pass : Password) (u : Upstream) (a : Link.Action) : Option Upstream :=
  (Link.step host pass u.link a).map fun l => ⟨l, u.sent ++ sends a⟩

/-- What is queued for the server's `local_readcb`, decoded. It is on its way as long as the link
    has not been torn down. -/
def onTheWay (pass : Password) (u : Upstream) : List UInt8 :=
  ((u.link.server.bev .loc).input ++ (u.link.client.bev .remote).output).map
    (decodePass pass).lookup ++ (u.link.client.bev .loc).input

/-- The invariant of the way up. -/
structure Rises (pass : Password) (u : Upstream) : Prop where
  conserved : Client.Upload.Conserved pass ⟨u.link.client, u.sent⟩
  drawn : Server.Draws pass (u.link.client.bev .remote).gone u.link.server

theorem rises_accepted (pass : Password) : Rises pass accepted :=
  ⟨rfl, fun _ _ => rfl, [], rfl, .nil⟩

theorem rises_step (host : Host) (pass : Password) (u : Upstream) (a : Link.Action)
    (u' : Upstream) (h : Rises pass u) (hstep : step host pass u a = some u') :
    Rises pass u' := by
  obtain ⟨l, hl, rfl⟩ := Option.map_eq_some_iff.mp hstep
  cases Link.moves_of_step hl with
  | @server d c hown hc =>
      have hsends : sends (.server d) = [] := rfl
      rw [hsends, List.append_nil]
      refine ⟨h.conserved, Server.draws_of_step h.drawn (fun data hd => ?_) hc⟩
      rw [hd] at hown
      exact Bool.false_ne_true hown
  | @client d s hown hs =>
      refine ⟨Client.conserved_of_step h.conserved hs, ?_⟩
      have hgone := Client.gone_of_step (x := .remote) (fun n hd => by
        rw [hd] at hown
        exact Bool.false_ne_true hown) hs
      show Server.Draws pass (s.bev .remote).gone u.link.server
      rw [hgone]
      exact h.drawn
  | @up n s c hs hc =>
      refine ⟨Client.conserved_of_step h.conserved hs, ?_⟩
      have hgone : (s.bev .remote).gone = (u.link.client.bev .remote).gone ++
          (u.link.client.bev .remote).output.take n := by
        obtain ⟨-, rfl⟩ := Client.step_eq_some.mp hs
        exact congrArg Bev.gone (Bevs.bev_drain_self u.link.client .remote n)
      show Server.Draws pass (s.bev .remote).gone c
      rw [hgone]
      exact Server.draws_arrive h.drawn hc
  | @down n s c hc hs =>
      refine ⟨Client.conserved_of_step h.conserved hs, ?_⟩
      have hgone := Client.gone_of_step (x := .remote) (fun _ => by simp) hs
      show Server.Draws pass (s.bev .remote).gone c
      rw [hgone]
      exact Server.draws_of_step h.drawn (fun _ => by simp) hc
  | strayServer x =>
      have hsends : sends (.strayServer x) = [] := rfl
      rw [hsends, List.append_nil]
      exact ⟨h.conserved,
        h.drawn.of_eq_nil (h.drawn.fresh.of_aged rfl (Bevs.aged_clearFree _ _)) rfl rfl⟩
  | strayClient x =>
      have hsends : sends (.strayClient x) = [] := rfl
      rw [hsends, List.append_nil]
      exact ⟨h.conserved, h.drawn⟩

/-- What was sent: what the server's callback took, then what is on the way. -/
theorem Rises.segments {pass : Password} (hperm : pass.IsPermutation) {u : Upstream}
    (h : Rises pass u) :
    ∃ took, u.sent = took ++ u.onTheWay pass ∧
      Segments (Server.targets u.link.server) took := by
  obtain ⟨took, hcame, hseg⟩ := h.drawn.taken
  refine ⟨took.map (decodePass pass).lookup, ?_, hseg⟩
  calc u.sent
      = (u.sent.map pass.lookup).map (decodePass pass).lookup :=
        (map_decode_encode hperm _).symm
    _ = ((took ++ (u.link.server.bev .loc).input ++ (u.link.client.bev .remote).output) ++
          (u.link.client.bev .loc).input.map pass.lookup).map (decodePass pass).lookup := by
        rw [Client.conserved_iff.mp h.conserved, hcame]
    _ = _ := by
        rw [Upstream.onTheWay, List.map_append, map_decode_encode hperm, List.append_assoc,
          List.map_append, List.append_assoc]

end Upstream

/-! ## The tunnel -/

/-- The tunnel, with what its applications send. -/
def upstreamStep (host : Host) (pass : Password) :
    List Upstream → PoolAction Link.Action → Option (List Upstream) :=
  poolStep Upstream.accepted (Upstream.step host pass) fun links _ a =>
    !a.needsServer || links.all fun u => !u.link.server.crashed

/-- Every run of the tunnel is one with what its applications send. -/
theorem exists_upstream_run {host : Host} {pass : Password} {acts : List (PoolAction Link.Action)}
    (us : List Upstream) {links : List Link}
    (hrun : run (tunnelStep host pass) (us.map Upstream.link) acts = some links) :
    ∃ us', run (upstreamStep host pass) us acts = some us' ∧ us'.map Upstream.link = links := by
  refine run_carry rfl (fun u a l hl => ⟨⟨l, u.sent ++ Upstream.sends a⟩, ?_, rfl⟩)
    (fun us i a => ?_) hrun
  · rw [Upstream.step, hl]
    rfl
  · rw [List.all_map]
    rfl

/-- **The way up.** In every run of the tunnel, what the application of a link has sent is what
    the server's callback took of it, followed by what is queued between; in a link that was torn
    down, this goes no further. The targets of the link
    were given disjoint segments of what was taken, in the order in which they were dialled; so
    no target was ever given a byte that the application did not send for it. -/
theorem upstream_segments (host : Host) {pass : Password} (hperm : pass.IsPermutation)
    (acts : List (PoolAction Link.Action)) {links : List Upstream}
    (hrun : run (upstreamStep host pass) [] acts = some links) :
    ∀ u ∈ links, ∃ took,
      u.sent = took ++ u.onTheWay pass ∧
      Segments (Server.targets u.link.server) took ∧
      (Server.targets u.link.server).flatten.Sublist u.sent ∧
      ∀ t ∈ Server.targets u.link.server, t <:+: u.sent := by
  intro u hu
  have h := pool_invariant (Upstream.rises_accepted pass) (Upstream.rises_step host pass) hrun u hu
  obtain ⟨took, hsent, hseg⟩ := h.segments hperm
  refine ⟨took, hsent, hseg, ?_, fun t ht => ?_⟩
  · rw [hsent]
    exact hseg.sublist.trans (List.sublist_append_left _ _)
  · rw [hsent]
    exact (hseg.isInfix t ht).trans (List.prefix_append _ _).isInfix

theorem upstream_segments_answered :
    ∃ links, run (upstreamStep plainHost identityPassword) [] answered = some links ∧
      ∀ u ∈ links, ∀ t ∈ Server.targets u.link.server, t <:+: u.sent := by
  have hsome : (run (upstreamStep plainHost identityPassword) [] answered).isSome = true := by
    decide +kernel
  obtain ⟨links, hlinks⟩ := Option.isSome_iff_exists.mp hsome
  refine ⟨links, hlinks, fun u hu => ?_⟩
  obtain ⟨took, -, -, -, hinfix⟩ :=
    upstream_segments plainHost isPermutation_identityPassword answered hlinks u hu
  exact hinfix

end Lightsocks
