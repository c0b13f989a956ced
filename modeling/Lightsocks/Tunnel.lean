import Lightsocks.Client.Lifecycle
import Lightsocks.Server.Relay

/-
  The two programs together: client, network and server.

  A `Link` is one tunnelled connection: the client's pair, the server's connection, and the
  plaintext that the server has sent down so far (`sent`), which is bookkeeping only. The
  network moves any non-empty prefix of a bufferevent's output to the other end's input; the
  targets, the application and the callbacks of either program come in between in any order.

  `downstream_transparent` is about the way down: what the application's bufferevent was given
  is a prefix of `sent`, and the rest of `sent` is in the two queues between. Four queues are
  passed, with two copies whose chunks do not line up; the invariant (`Flows`) relates them by
  what was ever written, so that the chunks do not appear in it.

  A cleanup of another connection may release any handle through a variable that was never
  assigned. Such a release can come at any time (`strayServer`, `strayClient`).
-/

namespace Lightsocks

open Lib

/-- One tunnelled connection. -/
structure Link where
  client : Client.Pair
  server : Server.Conn
  /-- The plaintext of all that the server wrote to `local_bev`. -/
  sent : List UInt8

namespace Link

/-- Both programs have accepted. -/
def accepted : Link := ⟨Client.accepted, Server.accepted, []⟩

/-- Neither end of the link has been released. -/
structure Live (l : Link) : Prop where
  client : ∀ h, l.client.Live h
  server : l.server.Live .loc

/-- Both ends of the link are open, and the server runs. -/
structure Open (l : Link) : Prop extends Live l where
  running : l.server.crashed = false
  downstream : (l.client.bev .remote).hungUp = false
  upstream : (l.server.bev .loc).hungUp = false

theorem open_iff {l : Link} :
    l.Open ↔ (l.client.Live .loc ∧ l.client.Live .remote ∧ l.client.Live .ctx) ∧
      l.server.Live .loc ∧ l.server.crashed = false ∧
      (l.client.bev .remote).hungUp = false ∧ (l.server.bev .loc).hungUp = false := by
  constructor
  · intro h
    exact ⟨⟨h.client _, h.client _, h.client _⟩, h.server, h.running, h.downstream, h.upstream⟩
  · rintro ⟨⟨hloc, hremote, hctx⟩, hserver, hrunning, hdownstream, hupstream⟩
    refine ⟨⟨fun x => ?_, hserver⟩, hrunning, hdownstream, hupstream⟩
    cases x with
    | loc => exact hloc
    | remote => exact hremote
    | ctx => exact hctx

instance (l : Link) : Decidable l.Open := decidable_of_iff _ open_iff.symm

/-! ## Steps -/

/-- The server's side of the network is not the server's to move. -/
def ownServer : Server.Delivery → Bool
  | .arrive .loc _ | .drain .loc _ => false
  | _ => true

/-- Nor is the client's the client's. -/
def ownClient : Client.Delivery → Bool
  | .arrive .remote _ | .drain .remote _ => false
  | _ => true

/-- The plaintext that the server writes to `local_bev` in this delivery. -/
def sends (host : Host) (pass : Password) (c : Server.Conn) : Server.Delivery → List UInt8
  | .localReadcb o => Server.replies host pass o (c.bev .loc).input
  | .remoteReadcb i => (c.bev (.remote i)).input
  | _ => []

/-- What can happen to a link. -/
inductive Action where
  /-- A delivery to the server's connection that is not the network's. -/
  | server (d : Server.Delivery)
  /-- A delivery to the client's pair that is not the network's. -/
  | client (d : Client.Delivery)
  /-- The network moves up to `n` bytes to the server. -/
  | up (n : Nat)
  /-- The network moves up to `n` bytes to the client. -/
  | down (n : Nat)
  /-- A cleanup elsewhere in the server hits a handle of this connection. -/
  | strayServer (h : Server.Handle)
  /-- A cleanup elsewhere in the client hits a handle of this pair. -/
  | strayClient (h : Client.Handle)

/-- The action takes the server to run. -/
def Action.needsServer : Action → Bool
  | .client _ | .strayClient _ => false
  | _ => true

/-- One action. -/
def step (host : Host) (pass : Password) (l : Link) : Action → Option Link
  | .server d =>
      if ownServer d then
        (Server.step host pass l.server d).map fun c =>
          { l with server := c, sent := l.sent ++ sends host pass l.server d }
      else none
  | .client d =>
      if ownClient d then
        (Client.step ⟨some pass⟩ l.client d).map fun s => { l with client := s }
      else none
  | .up n =>
      (Client.step ⟨some pass⟩ l.client (.drain .remote n)).bind fun s =>
        (Server.step host pass l.server
          (.arrive .loc ((l.client.bev .remote).output.take n))).map fun c =>
            { l with client := s, server := c }
  | .down n =>
      (Server.step host pass l.server (.drain .loc n)).bind fun c =>
        (Client.step ⟨some pass⟩ l.client
          (.arrive .remote ((l.server.bev .loc).output.take n))).map fun s =>
            { l with client := s, server := c }
  | .strayServer h =>
      some { l with server := { l.server with toBevs := l.server.toBevs.clearFree (.handle h) } }
  | .strayClient h => some { l with client := l.client.clearFree (.handle h) }

/-- What an action does to a link, by the kinds of actions. -/
inductive Moves (host : Host) (pass : Password) (l : Link) : Action → Link → Prop
  | server {d : Server.Delivery} {c : Server.Conn} (hown : ownServer d = true)
      (hc : Server.step host pass l.server d = some c) :
      Moves host pass l (.server d) ⟨l.client, c, l.sent ++ sends host pass l.server d⟩
  | client {d : Client.Delivery} {s : Client.Pair} (hown : ownClient d = true)
      (hs : Client.step ⟨some pass⟩ l.client d = some s) :
      Moves host pass l (.client d) ⟨s, l.server, l.sent⟩
  | up {n : Nat} {s : Client.Pair} {c : Server.Conn}
      (hs : Client.step ⟨some pass⟩ l.client (.drain .remote n) = some s)
      (hc : Server.step host pass l.server
        (.arrive .loc ((l.client.bev .remote).output.take n)) = some c) :
      Moves host pass l (.up n) ⟨s, c, l.sent⟩
  | down {n : Nat} {s : Client.Pair} {c : Server.Conn}
      (hc : Server.step host pass l.server (.drain .loc n) = some c)
      (hs : Client.step ⟨some pass⟩ l.client
        (.arrive .remote ((l.server.bev .loc).output.take n)) = some s) :
      Moves host pass l (.down n) ⟨s, c, l.sent⟩
  | strayServer (h : Server.Handle) :
      Moves host pass l (.strayServer h)
        ⟨l.client, { l.server with toBevs := l.server.toBevs.clearFree (.handle h) }, l.sent⟩
  | strayClient (h : Client.Handle) :
      Moves host pass l (.strayClient h) ⟨l.client.clearFree (.handle h), l.server, l.sent⟩

theorem moves_of_step {host : Host} {pass : Password} {l l' : Link} {a : Action}
    (hstep : step host pass l a = some l') : Moves host pass l a l' := by
  cases a with
  | server d =>
      rw [step] at hstep
      split at hstep
      · rename_i hown
        obtain ⟨c, hc, rfl⟩ := Option.map_eq_some_iff.mp hstep
        exact .server hown hc
      · cases hstep
  | client d =>
      rw [step] at hstep
      split at hstep
      · rename_i hown
        obtain ⟨s, hs, rfl⟩ := Option.map_eq_some_iff.mp hstep
        exact .client hown hs
      · cases hstep
  | up n =>
      obtain ⟨s, hs, hstep⟩ := Option.bind_eq_some_iff.mp hstep
      obtain ⟨c, hc, rfl⟩ := Option.map_eq_some_iff.mp hstep
      exact .up hs hc
  | down n =>
      obtain ⟨c, hc, hstep⟩ := Option.bind_eq_some_iff.mp hstep
      obtain ⟨s, hs, rfl⟩ := Option.map_eq_some_iff.mp hstep
      exact .down hc hs
  | strayServer x =>
      obtain rfl := Option.some.inj hstep
      exact .strayServer x
  | strayClient x =>
      obtain rfl := Option.some.inj hstep
      exact .strayClient x

end Link

/-- The tunnel: any number of links. When the server ends by a null dereference it ends for all
    of them. -/
def tunnelStep (host : Host) (pass : Password) :
    List Link → PoolAction Link.Action → Option (List Link) :=
  poolStep Link.accepted (Link.step host pass) fun links _ a =>
    !a.needsServer || links.all fun l => !l.server.crashed

/-! ## The server's side -/

namespace Server

/-- No bufferevent beyond the count was ever created. -/
def Fresh (c : Conn) : Prop := ∀ i, c.remotes ≤ i → c.ledger.life (.remote i) = .unborn

theorem Fresh.of_aged {c c' : Conn} (h : Fresh c) (hremotes : c'.remotes = c.remotes)
    (hage : Ledger.Aged c.ledger.life c'.ledger.life) : Fresh c' :=
  fun i hi => hage.unborn (h i (hremotes ▸ hi))

theorem fresh_localReadcb {host : Host} {pass : Password} {o : Outcome} {c : Conn}
    (h : Fresh c) (hloc : c.Live .loc) : Fresh (localReadcb host pass o c) := by
  have e := localReadcb_effect host pass o hloc (h _ le_rfl)
  intro i hi
  rw [e.remotes] at hi
  rw [e.life]
  cases hr : localRun host pass o (c.bev .loc).input with
  | fault =>
      rw [hr] at hi
      exact h i hi
  | reject =>
      rw [hr] at hi
      exact h i hi
  | dialFailed =>
      rw [hr] at hi
      have hle : c.remotes + 1 ≤ i := hi
      have hne : i ≠ c.remotes := by omega
      simpa [LocalRun.lives, hne] using h i (by omega)
  | starved =>
      rw [hr] at hi
      have hle : c.remotes + 1 ≤ i := hi
      have hne : i ≠ c.remotes := by omega
      simpa [LocalRun.lives, hne] using h i (by omega)
  | relays =>
      rw [hr] at hi
      have hle : c.remotes + 1 ≤ i := hi
      have hne : i ≠ c.remotes := by omega
      simpa [LocalRun.lives, hne] using h i (by omega)

/-- What a delivery of the server's own does to the way down: the plaintext it sends is written
    to `local_bev`, encoded. -/
structure Sends (pass : Password) (plain : List UInt8) (c c' : Conn) : Prop where
  fresh : Fresh c'
  gone : (c'.bev .loc).gone = (c.bev .loc).gone
  output : (c'.bev .loc).output = (c.bev .loc).output ++ plain.map pass.lookup

/-- A delivery that leaves `local_bev` alone. -/
theorem sends_nil {pass : Password} {c c' : Conn} (hfresh : Fresh c')
    (hgone : (c'.bev .loc).gone = (c.bev .loc).gone)
    (houtput : (c'.bev .loc).output = (c.bev .loc).output) : Sends pass [] c c' :=
  ⟨hfresh, hgone, by rw [houtput, List.map_nil, List.append_nil]⟩

theorem sends_of_step {host : Host} {pass : Password} {c c' : Conn} {d : Delivery}
    (h : Fresh c) (hown : Link.ownServer d = true) (hstep : step host pass c d = some c') :
    Sends pass (Link.sends host pass c d) c c' := by
  obtain ⟨⟨_, _, hlive, _⟩, rfl⟩ := step_eq_some.mp hstep
  cases d with
  | arrive x data =>
      have hx : Handle.loc ≠ x := by
        rintro rfl
        exact Bool.false_ne_true hown
      have hbev := Bevs.bev_arrive_of_ne c.toBevs hx data
      rw [deliver]
      exact sends_nil h (congrArg Bev.gone hbev) (congrArg Bev.output hbev)
  | drain x n =>
      have hx : Handle.loc ≠ x := by
        rintro rfl
        exact Bool.false_ne_true hown
      have hbev := Bevs.bev_drain_of_ne c.toBevs hx n
      rw [deliver]
      exact sends_nil h (congrArg Bev.gone hbev) (congrArg Bev.output hbev)
  | localReadcb o =>
      have e := localReadcb_effect host pass o hlive (h _ le_rfl)
      rw [deliver]
      exact ⟨fresh_localReadcb h hlive, e.gone, e.output⟩
  | remoteReadcb i =>
      have e := remoteReadcb_effect pass i c
      rw [deliver]
      exact ⟨h.of_aged e.remotes (aged_remoteReadcb pass i c), e.gone _, e.output⟩
  | event x events =>
      have hgone := Bevs.gone_notice c.toBevs x events .loc
      have houtput := Bevs.output_notice c.toBevs x events .loc
      have hn : Fresh { c with toBevs := c.toBevs.notice x events } := h
      rw [deliver]
      split
      · have hbev := congrFun (bev_localEventcb events
          { c with toBevs := c.toBevs.notice x events }) .loc
        refine sends_nil (hn.of_aged (remotes_localEventcb ..) (aged_localEventcb _ _)) ?_ ?_
        · exact (congrArg Bev.gone hbev).trans hgone
        · exact (congrArg Bev.output hbev).trans houtput
      · exact sends_nil hn hgone houtput

end Server

/-! ## The client's side -/

namespace Client

/-- What the application was given, and what is queued for it, decoded. -/
def received (pass : Password) (s : Pair) : List UInt8 :=
  (s.bev .loc).written ++ (s.bev .remote).input.map (decodePass pass).lookup

theorem received_congr (pass : Password) {s t : Pair}
    (hwritten : (t.bev .loc).written = (s.bev .loc).written)
    (hinput : (t.bev .remote).input = (s.bev .remote).input) :
    received pass t = received pass s := by
  rw [received, received, hwritten, hinput]

/-- A delivery of the client's own passes on what was received, and loses nothing. -/
theorem received_of_step {pass : Password} {s t : Pair} {d : Delivery}
    (hown : Link.ownClient d = true) (hstep : step ⟨some pass⟩ s d = some t) :
    received pass t = received pass s := by
  obtain ⟨⟨hctx, _, _⟩, rfl⟩ := step_eq_some.mp hstep
  cases d with
  | arrive x data =>
      rw [deliver]
      cases x with
      | loc =>
          refine received_congr pass ?_ (congrArg Bev.input (Bevs.bev_arrive_of_ne s (by decide) _))
          rw [Bevs.bev_arrive_self]
          rfl
      | remote => exact absurd hown Bool.false_ne_true
      | ctx => exact absurd rfl hctx
  | drain x n =>
      rw [deliver]
      cases x with
      | loc =>
          exact received_congr pass (Bevs.written_drain s .loc n)
            (congrArg Bev.input (Bevs.bev_drain_of_ne s (by decide) _))
      | remote => exact absurd hown Bool.false_ne_true
      | ctx => exact absurd rfl hctx
  | localReadcb =>
      have e := localReadcb_effect pass s
      rw [deliver]
      refine received_congr pass ?_ (e.input .remote (by decide))
      rw [Bev.written, e.gone, e.kept .loc (by decide)]
      rfl
  | remoteReadcb =>
      have e := remoteReadcb_effect pass s
      rw [deliver, received, received, Bev.written, Bev.written, e.gone, e.output, e.taken,
        List.map_nil, List.append_nil, List.append_assoc]
  | event x events =>
      have hn : received pass (s.notice x events) = received pass s := by
        rw [received, Bev.written, Bevs.gone_notice, Bevs.output_notice, Bevs.input_notice]
        rfl
      rw [deliver, ← hn]
      split
      · have hbev := bev_localEventcb events (s.notice x events)
        exact received_congr pass (by rw [hbev]) (by rw [hbev])
      · rfl

end Client

/-! ## The link -/

namespace Link

/-- The invariant of the way down. -/
structure Flows (pass : Password) (l : Link) : Prop where
  fresh : Server.Fresh l.server
  /-- The server wrote what it sent, encoded. -/
  encoded : (l.server.bev .loc).written = l.sent.map pass.lookup
  /-- The client received what left the server. -/
  moved : Client.received pass l.client =
    (l.server.bev .loc).gone.map (decodePass pass).lookup

theorem flows_accepted (pass : Password) : Flows pass accepted :=
  ⟨fun _ _ => rfl, rfl, rfl⟩

/-- A step on the server's side only. -/
theorem Flows.server {pass : Password} {l : Link} (h : Flows pass l) {c : Server.Conn}
    {plain : List UInt8} (hs : Server.Sends pass plain l.server c) :
    Flows pass { l with server := c, sent := l.sent ++ plain } where
  fresh := hs.fresh
  encoded := by
    show (c.bev .loc).gone ++ (c.bev .loc).output = _
    rw [hs.gone, hs.output, ← List.append_assoc, List.map_append, ← h.encoded]
    rfl
  moved := by
    rw [hs.gone]
    exact h.moved

/-- A step on the client's side only. -/
theorem Flows.client {pass : Password} {l : Link} (h : Flows pass l) {s : Client.Pair}
    (hs : Client.received pass s = Client.received pass l.client) :
    Flows pass { l with client := s } :=
  ⟨h.fresh, h.encoded, hs.trans h.moved⟩

theorem Flows.up {host : Host} {pass : Password} {l : Link} (h : Flows pass l) {n : Nat}
    {s : Client.Pair} {c : Server.Conn} {data : List UInt8}
    (hs : Client.step ⟨some pass⟩ l.client (.drain .remote n) = some s)
    (hc : Server.step host pass l.server (.arrive .loc data) = some c) :
    Flows pass { l with client := s, server := c } := by
  obtain ⟨-, rfl⟩ := Client.step_eq_some.mp hs
  obtain ⟨-, rfl⟩ := Server.step_eq_some.mp hc
  rw [Client.deliver, Server.deliver]
  have hserver : (l.server.toBevs.arrive .loc data).bev .loc =
      { l.server.bev .loc with input := (l.server.bev .loc).input ++ data } :=
    Bevs.bev_arrive_self ..
  constructor
  case fresh => exact h.fresh
  case encoded => exact (congrArg Bev.written hserver).trans h.encoded
  case moved =>
    refine (Client.received_congr pass ?_ ?_).trans (h.moved.trans (congrArg _ ?_))
    · rw [Bevs.bev_drain_of_ne _ (by decide)]
    · rw [Bevs.bev_drain_self]
    · exact (congrArg Bev.gone hserver).symm

/-- What leaves the server is received by the client. -/
theorem Flows.down {host : Host} {pass : Password} {l : Link} (h : Flows pass l) {n : Nat}
    {s : Client.Pair} {c : Server.Conn}
    (hc : Server.step host pass l.server (.drain .loc n) = some c)
    (hs : Client.step ⟨some pass⟩ l.client
      (.arrive .remote ((l.server.bev .loc).output.take n)) = some s) :
    Flows pass { l with client := s, server := c } := by
  obtain ⟨-, rfl⟩ := Client.step_eq_some.mp hs
  obtain ⟨-, rfl⟩ := Server.step_eq_some.mp hc
  rw [Client.deliver, Server.deliver]
  have hgone : ((l.server.toBevs.drain .loc n).bev .loc).gone =
      (l.server.bev .loc).gone ++ (l.server.bev .loc).output.take n :=
    congrArg Bev.gone (Bevs.bev_drain_self l.server.toBevs .loc n)
  have hmoved := h.moved
  rw [Client.received] at hmoved
  constructor
  case fresh => exact h.fresh
  case encoded => exact (Bevs.written_drain l.server.toBevs .loc n).trans h.encoded
  case moved =>
    rw [Client.received, Bevs.bev_arrive_of_ne _ (by decide), Bevs.bev_arrive_self]
    rw [List.map_append, ← List.append_assoc, hmoved, ← List.map_append]
    exact congrArg _ hgone.symm

theorem flows_step (host : Host) (pass : Password) (l : Link) (a : Action) (l' : Link)
    (h : Flows pass l) (hstep : step host pass l a = some l') : Flows pass l' := by
  cases a with
  | server d =>
      rw [step] at hstep
      split at hstep
      · rename_i hown
        obtain ⟨c, hc, rfl⟩ := Option.map_eq_some_iff.mp hstep
        exact h.server (Server.sends_of_step h.fresh hown hc)
      · cases hstep
  | client d =>
      rw [step] at hstep
      split at hstep
      · rename_i hown
        obtain ⟨s, hs, rfl⟩ := Option.map_eq_some_iff.mp hstep
        exact h.client (Client.received_of_step hown hs)
      · cases hstep
  | up n =>
      obtain ⟨s, hs, hstep⟩ := Option.bind_eq_some_iff.mp hstep
      obtain ⟨c, hc, rfl⟩ := Option.map_eq_some_iff.mp hstep
      exact h.up hs hc
  | down n =>
      obtain ⟨c, hc, hstep⟩ := Option.bind_eq_some_iff.mp hstep
      obtain ⟨s, hs, rfl⟩ := Option.map_eq_some_iff.mp hstep
      exact h.down hc hs
  | strayServer x =>
      obtain rfl := Option.some.inj hstep
      exact ⟨h.fresh.of_aged rfl (Bevs.aged_clearFree _ _), h.encoded, h.moved⟩
  | strayClient x =>
      obtain rfl := Option.some.inj hstep
      exact h.client rfl

/-- What the server sent: what the application was given, then what is on the way. -/
theorem Flows.sent_eq {pass : Password} (hperm : pass.IsPermutation) {l : Link}
    (h : Flows pass l) :
    l.sent = (l.client.bev .loc).written ++ ((l.client.bev .remote).input ++
      (l.server.bev .loc).output).map (decodePass pass).lookup := by
  have hmoved := h.moved
  rw [Client.received] at hmoved
  rw [List.map_append, ← List.append_assoc, hmoved, ← List.map_append]
  have hencoded : (l.server.bev .loc).gone ++ (l.server.bev .loc).output =
      l.sent.map pass.lookup := h.encoded
  rw [hencoded, map_decode_encode hperm]

end Link

/-! ## The tunnel -/

/-- **Downstream transparency.** In every run of the tunnel, the server wrote to a link's
    `local_bev` the encoding of what it sent. What the application was given is a prefix of that
    plaintext, and the rest of it is what the two queues between decode to. A link that was torn
    down is no exception: what it had in its queues then, which goes no further, is still counted
    as theirs. -/
theorem downstream_transparent (host : Host) {pass : Password} (hperm : pass.IsPermutation)
    (acts : List (PoolAction Link.Action)) {links : List Link}
    (hrun : run (tunnelStep host pass) [] acts = some links) :
    ∀ l ∈ links, (l.server.bev .loc).written = l.sent.map pass.lookup ∧
      (l.client.bev .loc).written <+: l.sent ∧
      l.sent = (l.client.bev .loc).written ++ ((l.client.bev .remote).input ++
        (l.server.bev .loc).output).map (decodePass pass).lookup ∧
      ((l.client.bev .remote).input = [] → (l.server.bev .loc).output = [] →
        (l.client.bev .loc).written = l.sent) := by
  intro l hl
  have h := pool_invariant (Link.flows_accepted pass) (Link.flows_step host pass) hrun l hl
  have hsent : l.sent = (l.client.bev .loc).written ++ ((l.client.bev .remote).input ++
      (l.server.bev .loc).output).map (decodePass pass).lookup :=
    calc l.sent
        = (l.sent.map pass.lookup).map (decodePass pass).lookup := (map_decode_encode hperm _).symm
      _ = ((l.server.bev .loc).gone ++ (l.server.bev .loc).output).map
            (decodePass pass).lookup := by
          rw [← h.encoded]
          rfl
      _ = Client.received pass l.client ++
            (l.server.bev .loc).output.map (decodePass pass).lookup := by
          rw [List.map_append, h.moved]
      _ = _ := by rw [Client.received, List.append_assoc, List.map_append]
  refine ⟨h.encoded, ?_, hsent, fun hin hout => ?_⟩
  · rw [hsent]
    exact List.prefix_append _ _
  · rw [hsent, hin, hout]
    simp

/-! ### A run -/

/-- Two connections; the first one's request reaches the server, which answers it. -/
def answered : List (PoolAction Link.Action) :=
  [.spawn, .spawn, .act 0 (.client (.arrive .loc Server.longRequest)),
    .act 0 (.client .localReadcb), .act 0 (.up 515),
    .act 0 (.server (.localReadcb ⟨0, 0⟩))]

/-- Its target sends two bytes, which the server takes, and its application one more. -/
def relaying : List (PoolAction Link.Action) :=
  answered ++ [.act 0 (.server (.arrive (.remote 0) [0x48, 0x49])),
    .act 0 (.server (.remoteReadcb 0)), .act 0 (.client (.arrive .loc [0x47]))]

/-- What the server has sent goes down to the application. -/
def delivering : List (PoolAction Link.Action) :=
  [.act 0 (.down 14), .act 0 (.client .remoteReadcb)]

/-- The replies of the server and the two bytes of the target. -/
def firstBytes : List UInt8 := replyAuth ++ Server.socks5Reply ++ [0x48, 0x49]

/-- The first link when bytes wait on both ways, and when those on the way down have arrived. -/
theorem run_relaying : ∃ links links',
    run (tunnelStep plainHost identityPassword) [] relaying = some links ∧
    run (tunnelStep plainHost identityPassword) links delivering = some links' ∧
    (∀ l ∈ links, l.server.crashed = false) ∧
    (∃ l, links[0]? = some l ∧ l.Open ∧ l.sent = firstBytes ∧
      (l.client.bev .loc).input = [0x47] ∧ (l.client.bev .loc).written = []) ∧
    ∃ l, links'[0]? = some l ∧ l.Open ∧ (l.client.bev .loc).written = firstBytes := by
  have hcheck : (run (tunnelStep plainHost identityPassword) [] relaying).any (fun links =>
      (links.all fun l => l.server.crashed = false) &&
      (links[0]?.any fun l => l.Open && l.sent = firstBytes &&
        (l.client.bev .loc).input = [0x47] && (l.client.bev .loc).written = []) &&
      (run (tunnelStep plainHost identityPassword) links delivering).any fun links =>
        links[0]?.any fun l => l.Open && (l.client.bev .loc).written = firstBytes) = true := by
    decide +kernel
  simp only [Option.any_eq_true, Bool.and_eq_true, List.all_eq_true, decide_eq_true_eq] at hcheck
  obtain ⟨links, hrun, ⟨hrunning, l, hl, ⟨⟨hopen, hsent⟩, hin⟩, hwritten⟩, links', hrun', l', hl',
    hopen', hwritten'⟩ := hcheck
  exact ⟨links, links', hrun, hrun', hrunning, ⟨l, hl, hopen, hsent, hin, hwritten⟩, l', hl',
    hopen', hwritten'⟩

/-- The replies and the target's bytes have reached the application. -/
theorem downstream_transparent_relayed :
    ∃ links l, run (tunnelStep plainHost identityPassword) [] (relaying ++ delivering) =
        some links ∧ links[0]? = some l ∧ (l.client.bev .loc).written = firstBytes ∧
      (l.server.bev .loc).written = l.sent.map identityPassword.lookup ∧
      (l.client.bev .loc).written <+: l.sent ∧
      l.sent = (l.client.bev .loc).written ++ ((l.client.bev .remote).input ++
        (l.server.bev .loc).output).map (decodePass identityPassword).lookup := by
  obtain ⟨links, links', hrun, hrun', -, -, l, hl, -, hwritten⟩ := run_relaying
  have hall := run_append hrun hrun'
  obtain ⟨hencoded, hprefix, hsent, -⟩ := downstream_transparent plainHost
    isPermutation_identityPassword (relaying ++ delivering) hall l (List.mem_of_getElem? hl)
  exact ⟨links', l, hall, hl, hwritten, hencoded, hprefix, hsent⟩

end Lightsocks
