import Lightsocks.Upstream

/-
  The tunnel is never stuck with bytes in it.

  As long as both ends of a link are open and no link has ended the server, the network and the
  client's two callbacks can empty the four queues between the application and the server,
  whatever happened before: then the application has been given all that the server sent, and
  the server's input holds all that the application sent and no run of `local_readcb` took
  (`drained`). What becomes of that input is up to the server.

  Each queue is emptied by one action, and no later one fills it again (`Stage`).
-/

namespace Lightsocks

open Lib

namespace Link

/-- Nothing is queued between the application and the server. -/
structure Drained (l : Link) : Prop where
  sent : (l.client.bev .loc).input = []
  up : (l.client.bev .remote).output = []
  down : (l.server.bev .loc).output = []
  received : (l.client.bev .remote).input = []

/-- The actions that empty queues. -/
def Action.Flushes : Action → Prop
  | .client d => d = .localReadcb ∨ d = .remoteReadcb
  | .up _ | .down _ => True
  | _ => False

/-- A callback of the client on input. -/
theorem Open.readcb {f : UInt8 → UInt8} {dst src : Client.Handle} {l : Link}
    {s : Client.Pair} (h : l.Open) (e : Client.ReadEffect f dst src l.client s)
    (hin : (l.client.bev src).input ≠ []) : ({ l with client := s } : Link).Open where
  client x := by
    rw [Bevs.Live, (e.ledger hin).life]
    exact h.client x
  server := h.server
  running := h.running
  downstream := (e.hungUp _).trans h.downstream
  upstream := h.upstream

/-- Bytes moved to the server. -/
theorem Open.up {l : Link} (h : l.Open) (n : Nat) (data : List UInt8) :
    ({ l with
      client := l.client.drain .remote n
      server := { l.server with toBevs := l.server.toBevs.arrive .loc data } } : Link).Open where
  client := h.client
  server := h.server
  running := h.running
  downstream := (Bevs.hungUp_drain l.client .remote n .remote).trans h.downstream
  upstream := (Bevs.hungUp_arrive l.server.toBevs .loc data .loc).trans h.upstream

/-- Bytes moved to the client. -/
theorem Open.down {l : Link} (h : l.Open) (n : Nat) (data : List UInt8) :
    ({ l with
      client := l.client.arrive .remote data
      server := { l.server with toBevs := l.server.toBevs.drain .loc n } } : Link).Open where
  client := h.client
  server := h.server
  running := h.running
  downstream := (Bevs.hungUp_arrive l.client .remote data .remote).trans h.downstream
  upstream := (Bevs.hungUp_drain l.server.toBevs .loc n .loc).trans h.upstream

end Link

namespace Upstream

/-! ## Stages -/

/-- From `u` to `u'` by actions that empty queues. Nothing is sent, and no target is given
    anything. -/
structure Stage (host : Host) (pass : Password) (u u' : Upstream) : Prop where
  run : ∃ as, (∀ a ∈ as, a.Flushes) ∧ run (step host pass) u as = some u'
  opened : u'.link.Open
  sent : u'.sent = u.sent
  served : u'.link.sent = u.link.sent
  targets : Server.targets u'.link.server = Server.targets u.link.server

theorem Stage.refl {host : Host} {pass : Password} {u : Upstream} (h : u.link.Open) :
    Stage host pass u u :=
  ⟨⟨[], by simp, rfl⟩, h, rfl, rfl, rfl⟩

theorem Stage.trans {host : Host} {pass : Password} {u₁ u₂ u₃ : Upstream}
    (h : Stage host pass u₁ u₂) (h' : Stage host pass u₂ u₃) : Stage host pass u₁ u₃ := by
  obtain ⟨as, has, hrun⟩ := h.run
  obtain ⟨bs, hbs, hrun'⟩ := h'.run
  exact ⟨⟨as ++ bs, List.forall_mem_append.mpr ⟨has, hbs⟩, run_append hrun hrun'⟩, h'.opened,
    h'.sent.trans h.sent, h'.served.trans h.served, h'.targets.trans h.targets⟩

/-- One action. -/
theorem stage_of_step {host : Host} {pass : Password} {u : Upstream} {l : Link}
    {a : Link.Action} (ha : a.Flushes) (hsends : sends a = [])
    (hstep : Link.step host pass u.link a = some l) (hopen : l.Open)
    (hserved : l.sent = u.link.sent)
    (htargets : Server.targets l.server = Server.targets u.link.server) :
    Stage host pass u { u with link := l } := by
  refine ⟨⟨[a], List.forall_mem_singleton.mpr ha, run_cons_eq_some.mpr ⟨_, ?_, rfl⟩⟩, hopen, rfl,
    hserved, htargets⟩
  rw [step, hstep, hsends, List.append_nil]
  rfl

/-- The client's callback `d` on the input of `src`. -/
theorem stage_readcb {host : Host} {pass : Password} {f : UInt8 → UInt8}
    {dst src : Client.Handle} {u : Upstream} {d : Client.Delivery} {s : Client.Pair}
    (h : u.link.Open) (hd : d = .localReadcb ∨ d = .remoteReadcb) (hsrc : d.target = src)
    (hs : Client.deliver ⟨some pass⟩ u.link.client d = s)
    (e : Client.ReadEffect f dst src u.link.client s)
    (hin : (u.link.client.bev src).input ≠ []) :
    Stage host pass u { u with link := { u.link with client := s } } := by
  have hclient : Client.step ⟨some pass⟩ u.link.client d = some s := by
    subst hsrc
    refine Client.step_eq_some.mpr ⟨⟨?_, h.client _, ?_⟩, hs⟩
    · rcases hd with rfl | rfl <;> decide
    · rcases hd with rfl | rfl <;> exact hin
  refine stage_of_step (a := .client d) hd ?_ ?_ (h.readcb e hin) rfl rfl
  · rcases hd with rfl | rfl <;> rfl
  · have hown : Link.ownClient d = true := by
      rcases hd with rfl | rfl <;> rfl
    rw [Link.step, if_pos hown, hclient]
    rfl

/-- `local_readcb` of the client empties its input. -/
theorem readUp (host : Host) (pass : Password) {u : Upstream} (h : u.link.Open) :
    ∃ u', Stage host pass u u' ∧ (u'.link.client.bev .loc).input = [] := by
  by_cases hin : (u.link.client.bev .loc).input = []
  · exact ⟨u, Stage.refl h, hin⟩
  · obtain ⟨s, hs⟩ : ∃ s, Client.localReadcb ⟨some pass⟩ u.link.client = s := ⟨_, rfl⟩
    have e := Client.localReadcb_effect pass u.link.client
    rw [hs] at e
    exact ⟨_, stage_readcb (d := .localReadcb) h (Or.inl rfl) rfl hs e hin, e.taken⟩

/-- The network takes what the client wrote. -/
theorem moveUp (host : Host) (pass : Password) {u : Upstream} (h : u.link.Open)
    (hin : (u.link.client.bev .loc).input = []) :
    ∃ u', Stage host pass u u' ∧ (u'.link.client.bev .loc).input = [] ∧
      (u'.link.client.bev .remote).output = [] := by
  by_cases hout : (u.link.client.bev .remote).output = []
  · exact ⟨u, Stage.refl h, hin, hout⟩
  · set data := (u.link.client.bev .remote).output with hdata
    have hclient : Client.step ⟨some pass⟩ u.link.client (.drain .remote data.length) =
        some (u.link.client.drain .remote data.length) :=
      Client.step_eq_some.mpr ⟨⟨by simp [Client.Delivery.target], h.client _, trivial⟩, rfl⟩
    have hserver : Server.step host pass u.link.server (.arrive .loc data) =
        some { u.link.server with toBevs := u.link.server.toBevs.arrive .loc data } :=
      Server.step_eq_some.mpr
        ⟨⟨h.running, by simp [Server.Delivery.target], h.server, hout, h.upstream⟩, rfl⟩
    have htargets : Server.targets
        { u.link.server with toBevs := u.link.server.toBevs.arrive .loc data } =
          Server.targets u.link.server :=
      Server.targets_congr rfl fun _ => Bevs.written_arrive ..
    refine ⟨_, stage_of_step (a := .up data.length) trivial rfl ?_ (h.up data.length data) rfl
      htargets, ?_, ?_⟩
    · rw [Link.step, hclient, Option.bind_some, ← hdata, List.take_length, hserver]
      rfl
    · exact (Bevs.input_drain ..).trans hin
    · show ((u.link.client.drain .remote data.length).bev .remote).output = []
      rw [Bevs.bev_drain_self]
      exact List.drop_length

/-- The network takes what the server wrote. -/
theorem moveDown (host : Host) (pass : Password) {u : Upstream} (h : u.link.Open)
    (hin : (u.link.client.bev .loc).input = [])
    (hup : (u.link.client.bev .remote).output = []) :
    ∃ u', Stage host pass u u' ∧ (u'.link.client.bev .loc).input = [] ∧
      (u'.link.client.bev .remote).output = [] ∧ (u'.link.server.bev .loc).output = [] := by
  by_cases hout : (u.link.server.bev .loc).output = []
  · exact ⟨u, Stage.refl h, hin, hup, hout⟩
  · set data := (u.link.server.bev .loc).output with hdata
    have hserver : Server.step host pass u.link.server (.drain .loc data.length) =
        some { u.link.server with toBevs := u.link.server.toBevs.drain .loc data.length } :=
      Server.step_eq_some.mpr
        ⟨⟨h.running, by simp [Server.Delivery.target], h.server, trivial⟩, rfl⟩
    have hclient : Client.step ⟨some pass⟩ u.link.client (.arrive .remote data) =
        some (u.link.client.arrive .remote data) :=
      Client.step_eq_some.mpr
        ⟨⟨by simp [Client.Delivery.target], h.client _, hout, h.downstream⟩, rfl⟩
    refine ⟨_, stage_of_step (a := .down data.length) trivial rfl ?_
      (h.down data.length data) rfl (Server.targets_congr rfl fun i => ?_), ?_, ?_, ?_⟩
    · rw [Link.step, hserver, Option.bind_some, ← hdata, List.take_length, hclient]
      rfl
    · exact congrArg Bev.written (Bevs.bev_drain_of_ne u.link.server.toBevs (by simp) _)
    · exact (congrArg Bev.input
        (Bevs.bev_arrive_of_ne u.link.client (by decide) data)).trans hin
    · exact (Bevs.output_arrive ..).trans hup
    · show ((u.link.server.toBevs.drain .loc data.length).bev .loc).output = []
      rw [Bevs.bev_drain_self]
      exact List.drop_length

/-- `remote_readcb` of the client empties its input. -/
theorem readDown (host : Host) (pass : Password) {u : Upstream} (h : u.link.Open)
    (hin : (u.link.client.bev .loc).input = [])
    (hup : (u.link.client.bev .remote).output = [])
    (hdown : (u.link.server.bev .loc).output = []) :
    ∃ u', Stage host pass u u' ∧ u'.link.Drained := by
  by_cases hrest : (u.link.client.bev .remote).input = []
  · exact ⟨u, Stage.refl h, hin, hup, hdown, hrest⟩
  · obtain ⟨s, hs⟩ : ∃ s, Client.remoteReadcb ⟨some pass⟩ u.link.client = s := ⟨_, rfl⟩
    have e := Client.remoteReadcb_effect pass u.link.client
    rw [hs] at e
    have hinput := (e.input .loc (by decide)).trans hin
    have houtput := (e.kept .remote (by decide)).trans hup
    exact ⟨_, stage_readcb (d := .remoteReadcb) h (Or.inr rfl) rfl hs e hrest, hinput, houtput,
      hdown, e.taken⟩

/-- All four of them. -/
theorem exists_stage (host : Host) (pass : Password) {u : Upstream} (h : u.link.Open) :
    ∃ u', Stage host pass u u' ∧ u'.link.Drained := by
  obtain ⟨u₁, h₁, hin₁⟩ := readUp host pass h
  obtain ⟨u₂, h₂, hin₂, hup₂⟩ := moveUp host pass h₁.opened hin₁
  obtain ⟨u₃, h₃, hin₃, hup₃, hdown₃⟩ := moveDown host pass h₂.opened hin₂ hup₂
  obtain ⟨u₄, h₄, hempty⟩ := readDown host pass h₃.opened hin₃ hup₃ hdown₃
  exact ⟨u₄, h₁.trans (h₂.trans (h₃.trans h₄)), hempty⟩

/-- Nor do they end the server. -/
theorem running_of_flushes {host : Host} {pass : Password} {u u' : Upstream} {a : Link.Action}
    (h : u.link.server.crashed = false) (ha : a.Flushes) (hstep : step host pass u a = some u') :
    u'.link.server.crashed = false := by
  obtain ⟨l, hl, rfl⟩ := Option.map_eq_some_iff.mp hstep
  cases Link.moves_of_step hl with
  | server _ _ => exact ha.elim
  | client _ _ => exact h
  | up _ hc =>
      obtain ⟨-, rfl⟩ := Server.step_eq_some.mp hc
      exact h
  | down hc _ =>
      obtain ⟨-, rfl⟩ := Server.step_eq_some.mp hc
      exact h
  | strayServer _ => exact ha.elim
  | strayClient _ => exact ha.elim

/-! ## What is left then -/

/-- Both invariants of a link. -/
structure Carries (pass : Password) (u : Upstream) : Prop where
  flows : Link.Flows pass u.link
  rises : Rises pass u

theorem carries_accepted (pass : Password) : Carries pass accepted :=
  ⟨Link.flows_accepted pass, rises_accepted pass⟩

theorem carries_step (host : Host) (pass : Password) (u : Upstream) (a : Link.Action)
    (u' : Upstream) (h : Carries pass u) (hstep : step host pass u a = some u') :
    Carries pass u' := by
  obtain ⟨l, hl, hu⟩ := Option.map_eq_some_iff.mp hstep
  refine ⟨?_, rises_step host pass u a u' h.rises hstep⟩
  rw [← hu]
  exact Link.flows_step host pass u.link a l h.flows hl

/-- With no byte between the server and the application, the application has it all. -/
theorem Carries.delivered {pass : Password} (hperm : pass.IsPermutation) {u : Upstream}
    (h : Carries pass u) (hd : u.link.Drained) :
    (u.link.client.bev .loc).written = u.link.sent := by
  have hsent := h.flows.sent_eq hperm
  rw [hd.received, hd.down, List.append_nil, List.map_nil, List.append_nil] at hsent
  exact hsent.symm

/-- With no byte between the application and the server, the rest is in the server's input. -/
theorem Carries.arrived {pass : Password} (hperm : pass.IsPermutation) {u : Upstream}
    (h : Carries pass u) (hd : u.link.Drained) :
    ∃ took, u.sent = took ++ (u.link.server.bev .loc).input.map (decodePass pass).lookup ∧
      Segments (Server.targets u.link.server) took := by
  obtain ⟨took, hsent, hseg⟩ := h.rises.segments hperm
  refine ⟨took, ?_, hseg⟩
  rwa [onTheWay, hd.sent, hd.up, List.append_nil, List.append_nil] at hsent

end Upstream

/-- **Progress.** Whatever a run of the tunnel has done, the queues of an open link can be
    emptied, by actions of the network and of the client's callbacks on that link alone. Then the
    application has been given all that the server sent, and what it has sent itself is what the
    server's callback took followed by the server's input. -/
theorem drained (host : Host) {pass : Password} (hperm : pass.IsPermutation)
    (acts : List (PoolAction Link.Action)) {links : List Upstream}
    (hrun : run (upstreamStep host pass) [] acts = some links)
    (hrunning : ∀ u ∈ links, u.link.server.crashed = false) {i : Nat} {u : Upstream}
    (hu : links[i]? = some u) (hopen : u.link.Open) :
    ∃ (as : List Link.Action) (u' : Upstream), (∀ a ∈ as, a.Flushes) ∧
      run (upstreamStep host pass) links (as.map (PoolAction.act i)) = some (links.set i u') ∧
      u'.link.Open ∧ u'.link.Drained ∧ u'.sent = u.sent ∧ u'.link.sent = u.link.sent ∧
      (u'.link.client.bev .loc).written = u.link.sent ∧
      ∃ took, u.sent = took ++ (u'.link.server.bev .loc).input.map (decodePass pass).lookup ∧
        Segments (Server.targets u.link.server) took := by
  obtain ⟨hi, hget⟩ := List.getElem?_eq_some_iff.mp hu
  obtain ⟨u', hstage, hdrained⟩ := Upstream.exists_stage host pass hopen
  obtain ⟨as, has, hsteps⟩ := hstage.run
  have hmore : run (upstreamStep host pass) (links.set i u) (as.map (PoolAction.act i)) =
      some (links.set i u') := by
    refine run_act (J := fun u => u.link.server.crashed = false) (P := Link.Action.Flushes)
      (fun s a t => Upstream.running_of_flushes) (fun s a hs _ => ?_) has hi hopen.running hsteps
    rw [Bool.or_eq_true, List.all_eq_true]
    refine Or.inr fun v hv => ?_
    rcases List.mem_or_eq_of_mem_set hv with hv | rfl
    · rw [hrunning v hv, Bool.not_false]
    · rw [hs, Bool.not_false]
  rw [← hget, List.set_getElem_self] at hmore
  have hcarries := pool_invariant (Upstream.carries_accepted pass)
    (Upstream.carries_step host pass) (run_append hrun hmore) u' (List.mem_set hi u')
  obtain ⟨took, hsent, hseg⟩ := hcarries.arrived hperm hdrained
  rw [hstage.targets] at hseg
  rw [hstage.sent] at hsent
  refine ⟨as, u', has, hmore, hstage.opened, hdrained, hstage.sent, hstage.served, ?_, took,
    hsent, hseg⟩
  rw [← hstage.served]
  exact hcarries.delivered hperm hdrained

/-- Bytes wait on both ways; they get there. -/
theorem drained_relaying :
    ∃ links u, run (upstreamStep plainHost identityPassword) [] relaying = some links ∧
      links[0]? = some u ∧ (u.link.client.bev .loc).written = [] ∧
      (u.link.client.bev .loc).input = [0x47] ∧
      ∃ (as : List Link.Action) (u' : Upstream), (∀ a ∈ as, a.Flushes) ∧
        run (upstreamStep plainHost identityPassword) links (as.map (PoolAction.act 0)) =
          some (links.set 0 u') ∧
        u'.link.Drained ∧ (u'.link.client.bev .loc).written = firstBytes ∧
        ∃ took, u.sent = took ++
            (u'.link.server.bev .loc).input.map (decodePass identityPassword).lookup ∧
          Segments (Server.targets u.link.server) took := by
  obtain ⟨links, _, hrun, -, hrunning, ⟨l, hl, hopen, hsent, hin, hwritten⟩, -⟩ := run_relaying
  obtain ⟨us, hus, rfl⟩ := exists_upstream_run [] hrun
  rw [List.getElem?_map] at hl
  obtain ⟨u, hu, rfl⟩ := Option.map_eq_some_iff.mp hl
  obtain ⟨as, u', has, hmore, -, hdrained, -, -, hgiven, took, htook, hseg⟩ :=
    drained plainHost isPermutation_identityPassword relaying hus
      (fun v hv => hrunning _ (List.mem_map_of_mem hv)) hu hopen
  exact ⟨us, u, hus, hu, hwritten, hin, as, u', has, hmore, hdrained, hgiven.trans hsent, took,
    htook, hseg⟩

end Lightsocks
