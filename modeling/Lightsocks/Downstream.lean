import Lightsocks.Lib.Merge
import Lightsocks.Tunnel

/-
  The way down: from the targets, through the two programs, to the application.

  A `Downstream` is a link and what each of its targets has sent (`came`), which is bookkeeping
  only. `remote_readcb` of the server takes all that has come from one target; `local_readcb`
  writes replies in between. So what the server has sent is a merge of the streams of the targets
  and of the replies (`Falls`), and with the invariant of the way behind the server the merge goes
  on to the application (`downstream_merge`).
-/

namespace Lightsocks

open Lib

namespace Server

/-! ## What the server sends -/

/-- Where a byte comes from that the server sends. -/
inductive Source where
  | server
  | target (i : Nat)
  deriving DecidableEq

/-- What a run of `local_readcb` writes to the client, unless it writes nothing: the reply to the
    greeting, or this and the success reply. -/
def Reply (r : List UInt8) : Prop := r = replyAuth ∨ r = replyAuth ++ socks5Reply

theorem replies_cases (host : Host) (pass : Password) (o : Outcome) (input : List UInt8) :
    replies host pass o input = [] ∨ Reply (replies host pass o input) := by
  rw [replies]
  by_cases hr : (localRun host pass o input).replies = true
  · have hdials : (localRun host pass o input).dials = true := by
      cases h : localRun host pass o input with
      | starved | relays => rfl
      | fault | reject | dialFailed =>
          rw [h] at hr
          cases hr
    rw [if_pos (localRun_dials_iff.mp hdials).1, if_pos hr]
    exact Or.inr (Or.inr rfl)
  · rw [if_neg hr, List.append_nil]
    by_cases hg : Greets (firstChunk pass input)
    · rw [if_pos hg]
      exact Or.inr (Or.inl rfl)
    · rw [if_neg hg]
      exact Or.inl rfl

/-- Replies, one after the other. -/
def Replies (s : List UInt8) : Prop := ∃ rs : List (List UInt8), s = rs.flatten ∧ ∀ r ∈ rs, Reply r

theorem replies_append {s : List UInt8} (h : Replies s) (host : Host) (pass : Password)
    (o : Outcome) (input : List UInt8) : Replies (s ++ replies host pass o input) := by
  rcases replies_cases host pass o input with hnone | hone
  · rw [hnone, List.append_nil]
    exact h
  · obtain ⟨rs, rfl, hrs⟩ := h
    refine ⟨rs ++ [replies host pass o input], List.flatten_concat.symm, ?_⟩
    exact List.forall_mem_append.mpr ⟨hrs, List.forall_mem_singleton.mpr hone⟩

/-- What has come from target `i` and waits for `remote_readcb`. -/
def waiting (c : Conn) (i : Nat) : List UInt8 :=
  if i < c.remotes then (c.bev (.remote i)).input else []

theorem waiting_congr {c c' : Conn} (hremotes : c'.remotes = c.remotes) {i : Nat}
    (hinput : (c'.bev (.remote i)).input = (c.bev (.remote i)).input) :
    waiting c' i = waiting c i := by
  rw [waiting, waiting, hremotes, hinput]

/-- A live target was dialled. -/
theorem Fresh.lt {c : Conn} (h : Fresh c) {i : Nat} (hlive : c.Live (.remote i)) :
    i < c.remotes := by
  by_contra hle
  have hunborn := h i (Nat.le_of_not_lt hle)
  rw [Bevs.Live, hunborn] at hlive
  cases hlive

/-- A run of `local_readcb` takes nothing that waits. The target it dials has sent nothing. -/
theorem LocalEffect.waiting {host : Host} {pass : Password} {o : Outcome} {c c' : Conn}
    (e : LocalEffect host pass o c c') (i : Nat) : waiting c' i = Server.waiting c i := by
  rw [Server.waiting, Server.waiting, e.remotes]
  by_cases hdials : (localRun host pass o (c.bev .loc).input).dials = true
  · rw [if_pos hdials]
    by_cases hi : i = c.remotes
    · rw [hi, if_pos (Nat.lt_succ_self _), if_neg (lt_irrefl _)]
      exact (e.fresh hdials).1
    · have hiff : i < c.remotes + 1 ↔ i < c.remotes := by omega
      simp only [hiff, e.other i hi]
  · rw [if_neg hdials]
    split_ifs with hi
    · rw [e.other i hi.ne]
    · rfl

/-- What the targets have sent after a delivery. -/
def Delivery.arrived (came : Nat → List UInt8) : Delivery → Nat → List UInt8
  | .arrive (.remote i) data => Function.update came i (came i ++ data)
  | _ => came

/-- The invariant of the targets' side of the way down: what the server sent is a merge of its
    replies and of what it took from each target, and the rest of what has come waits. -/
def Falls (came : Nat → List UInt8) (sent : List UInt8) (c : Conn) : Prop :=
  ∃ took : Source → List UInt8, Merge took sent ∧ Replies (took .server) ∧
    ∀ i, came i = took (.target i) ++ waiting c i

/-- A delivery that sends nothing. -/
theorem Falls.of_eq {came : Nat → List UInt8} {sent : List UInt8} {c c' : Conn}
    (h : Falls came sent c) (hwaiting : ∀ i, waiting c' i = waiting c i) :
    Falls came (sent ++ []) c' := by
  obtain ⟨took, hmerge, hreplies, hcame⟩ := h
  refine ⟨took, ?_, hreplies, fun i => ?_⟩
  · rw [List.append_nil]
    exact hmerge
  · rw [hwaiting i]
    exact hcame i

theorem Falls.arrive {came : Nat → List UInt8} {sent : List UInt8} {c : Conn}
    (h : Falls came sent c) {i : Nat} (hi : i < c.remotes) (data : List UInt8) :
    Falls (Function.update came i (came i ++ data)) (sent ++ [])
      { c with toBevs := c.toBevs.arrive (.remote i) data } := by
  obtain ⟨took, hmerge, hreplies, hcame⟩ := h
  refine ⟨took, ?_, hreplies, fun j => ?_⟩
  · rw [List.append_nil]
    exact hmerge
  · by_cases hj : j = i
    · subst hj
      rw [Function.update_self, hcame j, waiting, waiting, if_pos hi, if_pos hi,
        Bevs.bev_arrive_self, List.append_assoc]
    · rw [Function.update_of_ne hj, hcame j]
      have hbev := Bevs.bev_arrive_of_ne c.toBevs
        (show Handle.remote j ≠ .remote i by simp [hj]) data
      rw [waiting, waiting, hbev]

theorem falls_of_step {host : Host} {pass : Password} {came : Nat → List UInt8}
    {sent : List UInt8} {c c' : Conn} {d : Delivery} (hfresh : Fresh c) (h : Falls came sent c)
    (hstep : step host pass c d = some c') :
    Falls (d.arrived came) (sent ++ Link.sends host pass c d) c' := by
  obtain ⟨⟨_, _, hlive, _⟩, rfl⟩ := step_eq_some.mp hstep
  cases d with
  | arrive x data =>
      rw [deliver]
      cases x with
      | remote i => exact h.arrive (hfresh.lt hlive) data
      | loc | ctx =>
          exact h.of_eq fun i => waiting_congr rfl
            (congrArg Bev.input (Bevs.bev_arrive_of_ne c.toBevs (by simp) data))
  | drain x n =>
      rw [deliver]
      refine h.of_eq fun i => waiting_congr ?_ ?_
      · rfl
      · exact Bevs.input_drain ..
  | localReadcb o =>
      obtain ⟨took, hmerge, hreplies, hcame⟩ := h
      have e := localReadcb_effect host pass o hlive (hfresh _ le_rfl)
      rw [deliver]
      refine ⟨_, hmerge.chunk .server (replies host pass o (c.bev .loc).input), ?_, fun i => ?_⟩
      · rw [Function.update_self]
        exact replies_append hreplies host pass o _
      · rw [Function.update_of_ne (by simp), e.waiting i]
        exact hcame i
  | remoteReadcb i =>
      obtain ⟨took, hmerge, hreplies, hcame⟩ := h
      have e := remoteReadcb_effect pass i c
      have hi : i < c.remotes := hfresh.lt hlive
      rw [deliver]
      refine ⟨_, hmerge.chunk (.target i) (c.bev (.remote i)).input, ?_, fun j => ?_⟩
      · rw [Function.update_of_ne (by simp)]
        exact hreplies
      · show came j = _
        by_cases hj : j = i
        · subst hj
          rw [Function.update_self, hcame j, waiting, waiting, e.remotes, if_pos hi, if_pos hi,
            e.taken, List.append_nil]
        · rw [Function.update_of_ne (by simp [hj]), hcame j]
          rw [waiting_congr e.remotes (by rw [e.other _ (by simp) (by simp [hj])])]
  | event x events =>
      have hnotice : ∀ i, waiting { c with toBevs := c.toBevs.notice x events } i =
          waiting c i := by
        intro i
        refine waiting_congr ?_ ?_
        · rfl
        · exact Bevs.input_notice ..
      rw [deliver]
      split
      · refine h.of_eq fun i => Eq.trans (waiting_congr (remotes_localEventcb ..) ?_) (hnotice i)
        rw [bev_localEventcb]
      · exact h.of_eq hnotice

end Server

/-! ## The link -/

/-- A link, and what each of its targets has sent. -/
structure Downstream where
  link : Link
  came : Nat → List UInt8

namespace Downstream

/-- Both programs have accepted. -/
def accepted : Downstream := ⟨Link.accepted, fun _ => []⟩

/-- What the targets have sent after an action. -/
def arrived (came : Nat → List UInt8) : Link.Action → Nat → List UInt8
  | .server d => d.arrived came
  | _ => came

/-- One action. -/
def step (host : Host) (pass : Password) (d : Downstream) (a : Link.Action) : Option Downstream :=
  (Link.step host pass d.link a).map fun l => ⟨l, arrived d.came a⟩

/-- What is on the way from the server to the application, decoded. -/
def onTheWay (pass : Password) (d : Downstream) : List UInt8 :=
  ((d.link.client.bev .remote).input ++ (d.link.server.bev .loc).output).map
    (decodePass pass).lookup

/-- The invariant of the way down, from the targets on. -/
structure Falls (pass : Password) (d : Downstream) : Prop where
  flows : Link.Flows pass d.link
  falls : Server.Falls d.came d.link.sent d.link.server

theorem falls_accepted (pass : Password) : Falls pass accepted where
  flows := Link.flows_accepted pass
  falls := ⟨fun _ => [], .nil, ⟨[], rfl, List.forall_mem_nil _⟩, fun _ => rfl⟩

theorem falls_step (host : Host) (pass : Password) (d : Downstream) (a : Link.Action)
    (d' : Downstream) (h : Falls pass d) (hstep : step host pass d a = some d') :
    Falls pass d' := by
  obtain ⟨l, hl, rfl⟩ := Option.map_eq_some_iff.mp hstep
  refine ⟨Link.flows_step host pass d.link a l h.flows hl, ?_⟩
  cases Link.moves_of_step hl with
  | server _ hc => exact Server.falls_of_step h.flows.fresh h.falls hc
  | client _ _ => exact h.falls
  | up _ hc =>
      have hfalls : Server.Falls d.came (d.link.sent ++ []) _ :=
        Server.falls_of_step h.flows.fresh h.falls hc
      rwa [List.append_nil] at hfalls
  | down hc _ =>
      have hfalls : Server.Falls d.came (d.link.sent ++ []) _ :=
        Server.falls_of_step h.flows.fresh h.falls hc
      rwa [List.append_nil] at hfalls
  | strayServer _ => exact h.falls
  | strayClient _ => exact h.falls

end Downstream

/-! ## The tunnel -/

/-- The tunnel, with what its targets send. -/
def downstreamStep (host : Host) (pass : Password) :
    List Downstream → PoolAction Link.Action → Option (List Downstream) :=
  poolStep Downstream.accepted (Downstream.step host pass) fun links _ a =>
    !a.needsServer || links.all fun d => !d.link.server.crashed

/-- Every run of the tunnel is one with what its targets send. -/
theorem exists_downstream_run {host : Host} {pass : Password}
    {acts : List (PoolAction Link.Action)} (ds : List Downstream) {links : List Link}
    (hrun : run (tunnelStep host pass) (ds.map Downstream.link) acts = some links) :
    ∃ ds', run (downstreamStep host pass) ds acts = some ds' ∧
      ds'.map Downstream.link = links := by
  refine run_carry rfl (fun d a l hl => ⟨⟨l, Downstream.arrived d.came a⟩, ?_, rfl⟩)
    (fun ds i a => ?_) hrun
  · rw [Downstream.step, hl]
    rfl
  · rw [List.all_map]
    rfl

/-- **The way down.** In every run of the tunnel, what the application of a link was given,
    followed by what is on the way, is a merge of the server's replies and of what was taken from
    each target of the link, as long as neither end of the link has been released. The rest of
    what a target has sent waits at the server, unless the target's bufferevent has been
    released. So every target's bytes come in their order, and the application is given no byte
    that neither a target of its own nor the server has sent. -/
theorem downstream_merge (host : Host) {pass : Password} (hperm : pass.IsPermutation)
    (acts : List (PoolAction Link.Action)) {links : List Downstream}
    (hrun : run (downstreamStep host pass) [] acts = some links) :
    ∀ d ∈ links, d.link.Live → ∃ took : Server.Source → List UInt8,
      (∀ i, took (.target i) <+: d.came i) ∧
      (∀ i, d.link.server.Live (.remote i) →
        d.came i = took (.target i) ++ (d.link.server.bev (.remote i)).input) ∧
      Server.Replies (took .server) ∧
      Merge took ((d.link.client.bev .loc).written ++ d.onTheWay pass) ∧
      (∀ i, (took i).Sublist ((d.link.client.bev .loc).written ++ d.onTheWay pass)) ∧
      ∀ b ∈ (d.link.client.bev .loc).written, ∃ i, b ∈ took i := by
  intro d hd _
  have h := pool_invariant (Downstream.falls_accepted pass) (Downstream.falls_step host pass)
    hrun d hd
  obtain ⟨took, hmerge, hreplies, hcame⟩ := h.falls
  rw [h.flows.sent_eq hperm] at hmerge
  refine ⟨took, fun i => ?_, fun i hlive => ?_, hreplies, hmerge, hmerge.sublist, fun b hb =>
    hmerge.exists_mem b (List.mem_append_left _ hb)⟩
  · rw [hcame i]
    exact List.prefix_append _ _
  · rw [hcame i, Server.waiting, if_pos (h.flows.fresh.lt hlive)]

/-- The replies and the target's bytes have reached the application. -/
theorem downstream_merge_relayed :
    ∃ links d, run (downstreamStep plainHost identityPassword) [] (relaying ++ delivering) =
        some links ∧ links[0]? = some d ∧ (d.link.client.bev .loc).written = firstBytes ∧
      ∃ took : Server.Source → List UInt8, (∀ i, took (.target i) <+: d.came i) ∧
        Server.Replies (took .server) ∧
        Merge took ((d.link.client.bev .loc).written ++ d.onTheWay identityPassword) := by
  obtain ⟨_, links, hrun, hrun', -, -, l, hl, hopen, hwritten⟩ := run_relaying
  obtain ⟨ds, hds, rfl⟩ := exists_downstream_run [] (run_append hrun hrun')
  rw [List.getElem?_map] at hl
  obtain ⟨d, hd, rfl⟩ := Option.map_eq_some_iff.mp hl
  obtain ⟨took, hcame, -, hreplies, hmerge, -⟩ := downstream_merge plainHost
    isPermutation_identityPassword (relaying ++ delivering) hds d (List.mem_of_getElem? hd)
    hopen.toLive
  exact ⟨ds, d, hds, hd, hwritten, took, hcame, hreplies, hmerge⟩

end Lightsocks
