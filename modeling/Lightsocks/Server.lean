import Lightsocks.Socks5
import Lightsocks.Bufferevent

/-
  `server/server.c`: one accepted connection.

  A `Conn` holds the connection's own structure (`LsServer`), the bufferevent towards the
  client and every bufferevent ever created towards a target; the last one dialled is what
  `server->remote_bev` points to. The three callbacks are functions on it. Results of system
  calls are inputs of the callback that makes them (`Outcome`).

  `step` is one delivery to the connection: data that arrives, data that leaves, a callback that
  libevent runs, an event that it reports. libevent runs the callbacks of live bufferevents
  only, and reports events on a target's bufferevent to nobody, since its event callback is
  `NULL`. Once the program has ended (`crashed`) there is no further step.

  `startTransmit_cases` says what the end of an accepted run does, in terms of the bytes that are
  left; the rest of what the callbacks can do is in `Lightsocks.Server.Callbacks`.
-/

namespace Lightsocks.Server

open Lib

/-- The handles of one connection: the bufferevent towards the client, those towards the
    targets in the order they were created, and the context. -/
inductive Handle where
  | loc
  | remote (i : Nat)
  | ctx
  deriving DecidableEq

/-- One connection. -/
structure Conn extends Bevs Handle where
  /-- How many bufferevents towards targets have been created. -/
  remotes : Nat
  /-- The addresses dialled so far. -/
  dialled : List SockaddrIn
  /-- `server->remote_bev`. -/
  remoteBev : Ptr Handle
  /-- The program has ended by a null dereference. -/
  crashed : Bool

/-- The system calls of one `local_readcb` run that may fail. -/
structure Outcome where
  connectRc : Int
  setsockoptRc : Int
  deriving DecidableEq

/-- `socks5_reply`. -/
def socks5Reply : List UInt8 := [0x05, 0x00, 0x00, 0x01, 0x00, 0x00, 0x00, 0x00, 0x00, 0x00]

/-! ## Callbacks -/

/-- Release two bufferevents, as after the labels `error`. -/
def Conn.closeBoth (c : Conn) (p q : Ptr Handle) : Conn :=
  { c with toBevs := (c.toBevs.clearFree p).clearFree q }

/-- `local_listener_cb`, with the results of `evutil_make_socket_nonblocking` and `setsockopt`.
    The jump to `error` passes by the assignments of `local_bev` and `ls_server`. -/
def localListenerCb (nonblockingRc setsockoptRc : Int) : Conn :=
  let none : Bevs Handle := Bevs.empty
  if nonblockingRc ≠ 0 ∨ setsockoptRc ≠ 0 then
    ⟨(none.clearFree .indeterminate).free .indeterminate, 0, [], .null, false⟩
  else
    let s := (none.create .ctx).create .loc
    let s := s.call .context (.handle .ctx)
    ⟨(s.call .setcb (.handle .loc)).call .enable (.handle .loc), 0, [], .null, false⟩

/-- `local_readcb` from `server->remote_bev = remote_bev` on, for the new bufferevent
    `remote`. -/
def startTransmit (globalPassword : Password) (remote : Handle) (c : Conn) : Conn :=
  let s := c.toBevs.call .context (.handle .ctx)
  let c := { c with remoteBev := .handle remote }
  let s := (s.call .setcb (.handle remote)).call .enable (.handle remote)
  let s := (encodeWrite (Bevs.io .loc .loc) globalPassword socks5Reply 10 s).2
  let r := s.runCopy (fun io => decodeCopyPass io globalPassword) remote .loc
  if r.1 = -1 then { c with toBevs := r.2 }.closeBoth (.handle .loc) (.handle remote)
  else { c with toBevs := r.2 }

/-- `bufferevent_socket_new` and `bufferevent_socket_connect`. -/
def connectRemote (remoteAddr : SockaddrIn) (c : Conn) : Conn :=
  { c with
    toBevs := (c.toBevs.create (.remote c.remotes)).call .connect (.handle (.remote c.remotes))
    remotes := c.remotes + 1
    dialled := c.dialled ++ [remoteAddr] }

/-- `bufferevent_getfd(remote_bev)`. -/
def getRemotefd (remote : Handle) (c : Conn) : Conn :=
  { c with toBevs := c.toBevs.call .getfd (.handle remote) }

/-- `local_readcb` from `bufferevent_socket_new` on. -/
def dial (globalPassword : Password) (o : Outcome) (remoteAddr : SockaddrIn) (c : Conn) : Conn :=
  let remote := Handle.remote c.remotes
  let c := connectRemote remoteAddr c
  if o.connectRc = -1 then c.closeBoth (.handle .loc) (.handle remote)
  else
    let c := getRemotefd remote c
    if o.setsockoptRc ≠ 0 then c.closeBoth (.handle .loc) (.handle remote)
    else startTransmit globalPassword remote c

/-- `local_readcb` after `parse_socks5`. When the request is rejected, `remote_bev` has not been
    assigned. -/
def afterParse (globalPassword : Password) (o : Outcome) (remoteAddr : SockaddrIn) (c : Conn) :
    ParseReturn → Conn
  | .nullDeref => { c with crashed := true }
  | .ret rc =>
      if rc = -1 then c.closeBoth (.handle .loc) .indeterminate
      else dial globalPassword o remoteAddr c

/-- `local_readcb`. -/
def localReadcb (host : Host) (globalPassword : Password) (o : Outcome) (c : Conn) : Conn :=
  let r := parseSocks5 (Bevs.io .loc .loc) host globalPassword SockaddrIn.zero c.toBevs
  afterParse globalPassword o r.2.1 { c with toBevs := r.2.2 } r.1

/-- `remote_readcb` on the bufferevent `remote i`. -/
def remoteReadcb (globalPassword : Password) (i : Nat) (c : Conn) : Conn :=
  let s := c.toBevs.call .context (.handle .ctx)
  let r := s.runCopy (fun io => encodeCopyPass io globalPassword) .loc (.remote i)
  if r.1 = -1 then
    { c with toBevs := r.2.call .context (.handle .ctx) }.closeBoth (.handle .loc)
      (.handle (.remote i))
  else { c with toBevs := r.2 }

/-- `local_eventcb`. The test `events && (BEV_EVENT_EOF | BEV_EVENT_ERROR)` holds for every
    event that is not zero. -/
def localEventcb (events : UInt16) (c : Conn) : Conn :=
  if events ≠ 0 then { c with toBevs := c.toBevs.endAll .loc .ctx c.remoteBev events } else c

/-! ## Deliveries -/

/-- What can happen to a connection. -/
inductive Delivery where
  /-- Data arrives at a bufferevent. -/
  | arrive (h : Handle) (data : List UInt8)
  /-- Up to `n` bytes of a bufferevent's output leave. -/
  | drain (h : Handle) (n : Nat)
  /-- libevent runs `local_readcb`. -/
  | localReadcb (o : Outcome)
  /-- libevent runs `remote_readcb` on a bufferevent. -/
  | remoteReadcb (i : Nat)
  /-- libevent reports an event on a bufferevent. -/
  | event (h : Handle) (events : UInt16)
  deriving DecidableEq

/-- The bufferevent that a delivery is about. -/
def Delivery.target : Delivery → Handle
  | .arrive h _ | .drain h _ | .event h _ => h
  | .localReadcb _ => .loc
  | .remoteReadcb i => .remote i

/-- Data that arrives is not empty, and none arrives after the end of the stream. -/
def Delivery.Timely (c : Conn) : Delivery → Prop
  | .arrive h data => data ≠ [] ∧ (c.bev h).hungUp = false
  | _ => True

/-- The delivery can happen: the program runs and the bufferevent is live. -/
def Delivery.Possible (c : Conn) (d : Delivery) : Prop :=
  c.crashed = false ∧ d.target ≠ .ctx ∧ c.Live d.target ∧ d.Timely c

instance (c : Conn) : (d : Delivery) → Decidable (d.Timely c)
  | .arrive h data => inferInstanceAs (Decidable (data ≠ [] ∧ (c.bev h).hungUp = false))
  | .drain _ _ | .localReadcb _ | .remoteReadcb _ | .event _ _ => isTrue trivial

instance (c : Conn) (d : Delivery) : Decidable (d.Possible c) :=
  inferInstanceAs (Decidable (_ ∧ _ ∧ _ ∧ _))

/-- The connection after a delivery. -/
def deliver (host : Host) (globalPassword : Password) (c : Conn) : Delivery → Conn
  | .arrive h data => { c with toBevs := c.toBevs.arrive h data }
  | .drain h n => { c with toBevs := c.toBevs.drain h n }
  | .localReadcb o => localReadcb host globalPassword o c
  | .remoteReadcb i => remoteReadcb globalPassword i c
  | .event h events =>
      let c := { c with toBevs := c.toBevs.notice h events }
      if h = .loc then localEventcb events c else c

/-- One delivery. -/
def step (host : Host) (globalPassword : Password) (c : Conn) (d : Delivery) : Option Conn :=
  if d.Possible c then some (deliver host globalPassword c d) else none

/-! ## What a run of `local_readcb` can do -/

/-- `t` is `s` after the success reply and the copy of what was left of the input. -/
structure Transmitted (pass : Password) (remote : Handle) (s t : Bevs Handle) : Prop where
  ledger : s.ledger.Touched (Bevs.Through [.loc, .ctx, remote]) t.ledger
  reply : (t.bev .loc).output = (s.bev .loc).output ++ socks5Reply.map pass.lookup
  empty : (t.bev .loc).input = []
  payload : (t.bev remote).output =
    (s.bev remote).output ++ (s.bev .loc).input.map (decodePass pass).lookup
  input : (t.bev remote).input = (s.bev remote).input
  other : ∀ h, h ≠ .loc → h ≠ remote → t.bev h = s.bev h
  gone : ∀ h, (t.bev h).gone = (s.bev h).gone
  hungUp : ∀ h, (t.bev h).hungUp = (s.bev h).hungUp

theorem startTransmit_cases (pass : Password) {remote : Handle} (hne : remote ≠ .loc)
    (c : Conn) :
    ∃ t, Transmitted pass remote c.toBevs t ∧ startTransmit pass remote c =
      if (c.bev .loc).input = [] then
        { c with remoteBev := .handle remote, toBevs := t }.closeBoth (.handle .loc)
          (.handle remote)
      else { c with remoteBev := .handle remote, toBevs := t } := by
  have hlen : socks5Reply.length < 2 ^ 31 := by decide
  obtain ⟨s, hwrite, hview, hframe⟩ := encodeWrite_view (Bevs.io_onQueues .loc .loc) pass []
    socks5Reply hlen
    (((c.toBevs.call .context (.handle .ctx)).call .setcb (.handle remote)).call .enable
      (.handle remote))
  obtain ⟨t, hcopy, hview', hframe'⟩ := Bevs.runCopy_decode pass remote .loc s
  have hin : (s.bev .loc).input = (c.bev .loc).input := congrArg Queues.src hview
  have hout : (s.bev .loc).output = (c.bev .loc).output ++ socks5Reply.map pass.lookup :=
    congrArg Queues.dst hview
  have hother : ∀ h, h ≠ .loc → s.bev h = c.bev h := fun h hh => hframe.bev_of_ne hh hh
  refine ⟨t, ?_, ?_⟩
  · refine ⟨?_, ?_, ?_, ?_, ?_, ?_, ?_, ?_⟩
    · have hcalls : c.ledger.Touched (Bevs.Through [.loc, .ctx, remote])
          (((c.toBevs.call .context (.handle .ctx)).call .setcb (.handle remote)).call .enable
            (.handle remote)).ledger :=
        (((Ledger.Touched.refl _).use ⟨by decide, .ctx, by simp, rfl⟩).use
          ⟨by decide, remote, by simp, rfl⟩).use ⟨by decide, remote, by simp, rfl⟩
      exact (hcalls.trans (hframe.through (by simp) (by simp))).trans
        (hframe'.through (by simp) (by simp))
    · rw [hframe'.output _ hne.symm, hout]
    · exact congrArg Queues.src hview'
    · have hpay : (t.bev remote).output = (s.bev remote).output ++ _ :=
        congrArg Queues.dst hview'
      rw [hpay, hother remote hne]
      exact congrArg _ (congrArg _ hin)
    · rw [hframe'.input remote hne, hother remote hne]
    · intro h hloc hrem
      rw [← hother h hloc]
      exact hframe'.bev_of_ne hrem hloc
    · exact fun h => (hframe'.gone h).trans (hframe.gone h)
    · exact fun h => (hframe'.hungUp h).trans (hframe.hungUp h)
  · have hs : (encodeWrite (Bevs.io .loc .loc) pass socks5Reply 10
        (((c.toBevs.call .context (.handle .ctx)).call .setcb (.handle remote)).call .enable
          (.handle remote))).2 = s := congrArg Prod.snd hwrite
    rw [hin] at hcopy
    simp only [startTransmit, hs, hcopy]
    by_cases he : (c.bev .loc).input = []
    · simp [he]
    · simp [he]

end Lightsocks.Server
