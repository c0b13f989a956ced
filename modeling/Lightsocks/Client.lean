import Lightsocks.Bufferevent

/-
  `client/client.c`: one accepted connection and its two bufferevents.

  A `Pair` is the bufferevent towards the application, the one towards the server, and the
  context (`Client`), whose two pointers are set once, when the connection is accepted. `ss`
  is the program's global; its password is `NULL` when the key was not accepted.

  `step` is one delivery to the pair: data that arrives, data that leaves, a callback that
  libevent runs, an event that it reports. A read callback runs on a live bufferevent with
  input. Events on the server's side are reported to nobody, since its event callback is `NULL`.
-/

namespace Lightsocks.Client

open Lib

/-- The handles of one pair. -/
inductive Handle where
  | loc
  | remote
  | ctx
  deriving DecidableEq

/-- One connection. -/
abbrev Pair := Bevs Handle

/-! ## Callbacks -/

/-- The system calls of one `local_listener_cb` run that may fail. -/
structure Outcome where
  nonblockingRc : Int
  setsockoptRc : Int
  connectRc : Int
  remoteSetsockoptRc : Int

/-- Release two bufferevents, as after the labels `error`. -/
def closeBoth (p q : Ptr Handle) (s : Pair) : Pair := (s.clearFree p).clearFree q

/-- `local_listener_cb`. The first jumps to `error` pass by the assignments of `bufev` and
    `remote_bev`. -/
def localListenerCb (o : Outcome) : Pair :=
  if o.nonblockingRc ≠ 0 ∨ o.setsockoptRc ≠ 0 then
    closeBoth .indeterminate .indeterminate Bevs.empty
  else
    let s : Pair := ((Bevs.empty.create .ctx).create .loc).create .remote
    let s := s.call .connect (.handle .remote)
    if o.connectRc = -1 then closeBoth (.handle .loc) (.handle .remote) s
    else
      let s := s.call .getfd (.handle .remote)
      if o.remoteSetsockoptRc ≠ 0 then closeBoth (.handle .loc) (.handle .remote) s
      else
        let s := s.call .context (.handle .ctx)
        let s := (s.call .setcb (.handle .loc)).call .enable (.handle .loc)
        (s.call .setcb (.handle .remote)).call .enable (.handle .remote)

/-- `remote_readcb`. -/
def remoteReadcb (ss : SecureSocket) (s : Pair) : Pair :=
  let r := (s.call .context (.handle .ctx)).runCopy (fun io => decodeCopy io (some ss)) .loc .remote
  if r.1 = -1 then closeBoth (.handle .loc) (.handle .remote) r.2 else r.2

/-- `local_readcb`. -/
def localReadcb (ss : SecureSocket) (s : Pair) : Pair :=
  let r := (s.call .context (.handle .ctx)).runCopy (fun io => encodeCopy io (some ss)) .remote .loc
  if r.1 = -1 then closeBoth (.handle .loc) (.handle .remote) r.2 else r.2

/-- `local_eventcb`. The test `events && (BEV_EVENT_EOF | BEV_EVENT_ERROR)` holds for every
    event that is not zero. -/
def localEventcb (events : UInt16) (s : Pair) : Pair :=
  if events ≠ 0 then s.endAll .loc .ctx (.handle .remote) events else s

/-! ## Deliveries -/

/-- What can happen to a pair. -/
inductive Delivery where
  /-- Data arrives at a bufferevent. -/
  | arrive (h : Handle) (data : List UInt8)
  /-- Up to `n` bytes of a bufferevent's output leave. -/
  | drain (h : Handle) (n : Nat)
  /-- libevent runs `local_readcb`. -/
  | localReadcb
  /-- libevent runs `remote_readcb`. -/
  | remoteReadcb
  /-- libevent reports an event on a bufferevent. -/
  | event (h : Handle) (events : UInt16)
  deriving DecidableEq

/-- The bufferevent that a delivery is about. -/
def Delivery.target : Delivery → Handle
  | .arrive h _ | .drain h _ | .event h _ => h
  | .localReadcb => .loc
  | .remoteReadcb => .remote

/-- Data that arrives is not empty, none arrives after the end of the stream, and a read callback
    runs when there is input. -/
def Delivery.Timely (s : Pair) : Delivery → Prop
  | .arrive h data => data ≠ [] ∧ (s.bev h).hungUp = false
  | .localReadcb => (s.bev .loc).input ≠ []
  | .remoteReadcb => (s.bev .remote).input ≠ []
  | _ => True

/-- The delivery can happen. -/
def Delivery.Possible (s : Pair) (d : Delivery) : Prop :=
  d.target ≠ .ctx ∧ s.Live d.target ∧ d.Timely s

instance (s : Pair) : (d : Delivery) → Decidable (d.Timely s)
  | .arrive h data => inferInstanceAs (Decidable (data ≠ [] ∧ (s.bev h).hungUp = false))
  | .localReadcb => inferInstanceAs (Decidable ((s.bev .loc).input ≠ []))
  | .remoteReadcb => inferInstanceAs (Decidable ((s.bev .remote).input ≠ []))
  | .drain _ _ | .event _ _ => isTrue trivial

instance (s : Pair) (d : Delivery) : Decidable (d.Possible s) :=
  inferInstanceAs (Decidable (_ ∧ _ ∧ _))

/-- The pair after a delivery. -/
def deliver (ss : SecureSocket) (s : Pair) : Delivery → Pair
  | .arrive h data => s.arrive h data
  | .drain h n => s.drain h n
  | .localReadcb => localReadcb ss s
  | .remoteReadcb => remoteReadcb ss s
  | .event h events =>
      let s := s.notice h events
      if h = .loc then localEventcb events s else s

/-- One delivery. -/
def step (ss : SecureSocket) (s : Pair) (d : Delivery) : Option Pair :=
  if d.Possible s then some (deliver ss s d) else none

/-- A pair as `local_listener_cb` leaves it when no call failed. -/
def accepted : Pair := localListenerCb ⟨0, 0, 0, 0⟩

theorem step_eq_some {ss : SecureSocket} {s t : Pair} {d : Delivery} :
    step ss s d = some t ↔ d.Possible s ∧ deliver ss s d = t := by
  unfold step
  split
  · rename_i h
    simp [h]
  · rename_i h
    simp [h]

/-! ## What the callbacks do -/

theorem bev_localEventcb (events : UInt16) (s : Pair) : (localEventcb events s).bev = s.bev := by
  unfold localEventcb
  split
  · exact Bevs.bev_endAll ..
  · rfl

/-- What a read callback from `src` to `dst` changes: the whole input of `src`, every byte
    replaced by `f`, is appended to `dst`. -/
structure ReadEffect (f : UInt8 → UInt8) (dst src : Handle) (s t : Pair) : Prop where
  taken : (t.bev src).input = []
  output : (t.bev dst).output = (s.bev dst).output ++ (s.bev src).input.map f
  input : ∀ h, h ≠ src → (t.bev h).input = (s.bev h).input
  kept : ∀ h, h ≠ dst → (t.bev h).output = (s.bev h).output
  gone : ∀ h, (t.bev h).gone = (s.bev h).gone
  hungUp : ∀ h, (t.bev h).hungUp = (s.bev h).hungUp
  ledger : (s.bev src).input ≠ [] →
    s.ledger.Touched (Bevs.Through [.loc, .remote, .ctx]) t.ledger

/-- A copy from `src` to `dst`, and the cleanup when there was nothing to copy. -/
theorem readEffect_of_copy {f : UInt8 → UInt8} {dst src : Handle} {s t : Pair}
    (hdst : dst ∈ [Handle.loc, .remote, .ctx]) (hsrc : src ∈ [Handle.loc, .remote, .ctx])
    (hview : t.queues dst src = copied f (s.queues dst src))
    (hframe : Bevs.Frame dst src (s.call .context (.handle .ctx)) t) :
    ReadEffect f dst src s (if (if (s.bev src).input = [] then (-1 : Int) else 0) = -1 then
      closeBoth (.handle .loc) (.handle .remote) t else t) := by
  have htouch : s.ledger.Touched (Bevs.Through [.loc, .remote, .ctx]) t.ledger :=
    ((Ledger.Touched.refl _).use ⟨by decide, .ctx, by simp, rfl⟩).trans
      (hframe.through hdst hsrc)
  have he : ReadEffect f dst src s t :=
    ⟨congrArg Queues.src hview, congrArg Queues.dst hview, hframe.input, hframe.output,
      hframe.gone, hframe.hungUp, fun _ => htouch⟩
  by_cases hin : (s.bev src).input = []
  · rw [if_pos hin, if_pos rfl]
    exact { he with ledger := absurd hin }
  · rw [if_neg hin, if_neg (by decide)]
    exact he

theorem remoteReadcb_effect (pass : Password) (s : Pair) :
    ReadEffect (decodePass pass).lookup .loc .remote s (remoteReadcb ⟨some pass⟩ s) := by
  obtain ⟨t, hcopy, hview, hframe⟩ := Bevs.runCopy_decode pass Handle.loc .remote
    (s.call .context (.handle .ctx))
  have hrun : (s.call .context (.handle .ctx)).runCopy
      (fun io => decodeCopy io (some ⟨some pass⟩)) .loc .remote = _ := hcopy
  rw [remoteReadcb, hrun]
  exact readEffect_of_copy (by decide) (by decide) hview hframe

theorem localReadcb_effect (pass : Password) (s : Pair) :
    ReadEffect pass.lookup .remote .loc s (localReadcb ⟨some pass⟩ s) := by
  obtain ⟨t, hcopy, hview, hframe⟩ := Bevs.runCopy_encode pass Handle.remote .loc
    (s.call .context (.handle .ctx))
  have hrun : (s.call .context (.handle .ctx)).runCopy
      (fun io => encodeCopy io (some ⟨some pass⟩)) .remote .loc = _ := hcopy
  rw [localReadcb, hrun]
  exact readEffect_of_copy (by decide) (by decide) hview hframe

end Lightsocks.Client
