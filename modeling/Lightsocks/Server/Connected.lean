import Lightsocks.Server.Relay

/-
  The success reply and the outcome of the connect.

  `bufferevent_socket_connect` starts a connect and returns; how it went is reported later, as an
  event on the target's bufferevent. `Dialling` records these reports next to a connection, and
  the targets for which the success reply was written.

  `local_readcb` writes the reply in the run that starts the connect, before anything can have
  been reported, and the bufferevent has no event callback that could tell it later. So every
  reply is early, and the replies of a run are right only if there are none
  (`reply_means_connected_iff`).
-/

namespace Lightsocks.Server

open Lib

/-- `BEV_EVENT_CONNECTED`. -/
abbrev bevEventConnected : UInt16 := 0x80

/-- A connection, and what is known of its targets. -/
structure Dialling where
  conn : Conn
  /-- The targets that have reported CONNECTED. -/
  connected : List Nat
  /-- The targets that have reported ERROR without it. -/
  failed : List Nat
  /-- The targets that the success reply was written for. -/
  replied : List Nat

/-- A new connection. -/
def Dialling.start : Dialling := ⟨accepted, [], [], []⟩

/-- The target whose bufferevent reports an event of this kind. -/
def Delivery.reports (kind : UInt16) : Delivery → List Nat
  | .event (.remote i) events => if events &&& kind ≠ 0 then [i] else []
  | _ => []

/-- The delivery is a run of `local_readcb` that wrote the method reply and the success reply. -/
def Answers (pass : Password) (c c' : Conn) : Delivery → Prop
  | .localReadcb _ => (c'.bev .loc).output =
      (c.bev .loc).output ++ (replyAuth ++ socks5Reply).map pass.lookup
  | _ => False

instance (pass : Password) (c c' : Conn) : DecidablePred (Answers pass c c')
  | .localReadcb _ => inferInstanceAs (Decidable (_ = _))
  | .arrive _ _ | .drain _ _ | .remoteReadcb _ | .event _ _ => isFalse id

/-- What is known after a delivery. A run of `local_readcb` dials the next target. -/
def Dialling.observe (pass : Password) (p : Dialling) (d : Delivery) (c' : Conn) : Dialling where
  conn := c'
  connected := d.reports bevEventConnected ++ p.connected
  failed := (d.reports bevEventError).filter (· ∉ p.connected) ++ p.failed
  replied := if Answers pass p.conn c' d then p.conn.remotes :: p.replied else p.replied

/-- One delivery. -/
def diallingStep (host : Host) (pass : Password) (p : Dialling) (d : Delivery) :
    Option Dialling :=
  (step host pass p.conn d).map (p.observe pass d)

/-- The success reply is there only for targets that are connected, and for none that failed. -/
structure ReplyMeansConnected (p : Dialling) : Prop where
  connected : ∀ i ∈ p.replied, i ∈ p.connected
  failed : ∀ i ∈ p.failed, i ∉ p.replied

/-- The delivery does not run `local_readcb` on an accepted request whose connect is started. -/
def NoReply (pass : Password) (p : Dialling) (d : Delivery) : Prop :=
  ∀ o, d = .localReadcb o →
    ¬ (Accepts (firstChunk pass (p.conn.bev .loc).input)
        (secondChunk pass (p.conn.bev .loc).input) ∧ o.connectRc ≠ -1 ∧ o.setsockoptRc = 0)

/-! ## When the reply is written -/

theorem localRun_replies_iff {host : Host} {pass : Password} {o : Outcome}
    {input : List UInt8} : (localRun host pass o input).replies = true ↔
      Accepts (firstChunk pass input) (secondChunk pass input) ∧ o.connectRc ≠ -1 ∧
        o.setsockoptRc = 0 := by
  by_cases ha : Accepts (firstChunk pass input) (secondChunk pass input)
  · rw [localRun_of_accepts host o ha]
    by_cases hfail : o.connectRc = -1 ∨ o.setsockoptRc ≠ 0
    · rw [if_pos hfail]
      constructor
      · intro h
        exact absurd h (by decide)
      · intro hans
        obtain ⟨-, hconnect, hlinger⟩ := hans
        exact absurd hfail (not_or.mpr ⟨hconnect, not_not.mpr hlinger⟩)
    · rw [if_neg hfail]
      obtain ⟨hconnect, hlinger⟩ := not_or.mp hfail
      refine ⟨fun _ => ⟨ha, hconnect, not_not.mp hlinger⟩, fun _ => ?_⟩
      split
      · rfl
      · rfl
  · refine ⟨fun h => ?_, fun h => absurd h.1 ha⟩
    by_cases hf : Faults host (firstChunk pass input) (secondChunk pass input)
    · rw [localRun_eq_fault_iff.mpr hf] at h
      exact absurd h (by decide)
    · rw [localRun_eq_reject_iff.mpr ⟨hf, ha⟩] at h
      exact absurd h (by decide)

theorem replies_of_replies {host : Host} {pass : Password} {o : Outcome} {input : List UInt8}
    (h : (localRun host pass o input).replies = true) :
    replies host pass o input = replyAuth ++ socks5Reply := by
  unfold replies
  rw [if_pos h, if_pos (localRun_replies_iff.mp h).1.1]

/-- A run that does not get to the success reply writes less. -/
theorem length_replies_lt {host : Host} {pass : Password} {o : Outcome} {input : List UInt8}
    (h : ¬ (localRun host pass o input).replies = true) :
    (replies host pass o input).length < (replyAuth ++ socks5Reply).length := by
  unfold replies
  rw [if_neg h, List.append_nil]
  split
  · decide
  · decide

theorem answers_localReadcb_iff {host : Host} {pass : Password} {o : Outcome} {c : Conn}
    (h : Sound c) (hloc : c.Live .loc) :
    Answers pass c (localReadcb host pass o c) (.localReadcb o) ↔
      Accepts (firstChunk pass (c.bev .loc).input) (secondChunk pass (c.bev .loc).input) ∧
        o.connectRc ≠ -1 ∧ o.setsockoptRc = 0 := by
  have e := localReadcb_effect host pass o hloc (h.fresh _ le_rfl)
  have hout : Answers pass c (localReadcb host pass o c) (.localReadcb o) ↔
      (replies host pass o (c.bev .loc).input).map pass.lookup =
        (replyAuth ++ socks5Reply).map pass.lookup := by
    unfold Answers
    rw [e.output, List.append_cancel_left_eq]
  rw [hout, ← localRun_replies_iff]
  constructor
  · intro hmap
    by_contra hno
    have hlen := congrArg List.length hmap
    rw [List.length_map, List.length_map] at hlen
    exact absurd hlen (length_replies_lt hno).ne
  · intro hreplies
    rw [replies_of_replies hreplies]

/-! ## All runs -/

/-- The invariant of the runs without a reply: whatever has been reported comes from a target
    that was dialled before. -/
structure Unanswered (p : Dialling) : Prop where
  sound : Sound p.conn
  replied : p.replied = []
  dialled : ∀ i ∈ p.connected, i < p.conn.remotes

theorem unanswered_start : Unanswered Dialling.start where
  sound := sound_accepted
  replied := rfl
  dialled _ hi := absurd hi List.not_mem_nil

theorem Unanswered.replyMeansConnected {p : Dialling} (h : Unanswered p) :
    ReplyMeansConnected p := by
  constructor
  · intro i hi
    rw [h.replied] at hi
    exact absurd hi List.not_mem_nil
  · intro i _ hi
    rw [h.replied] at hi
    exact absurd hi List.not_mem_nil

theorem diallingStep_eq_some {host : Host} {pass : Password} {p p' : Dialling} {d : Delivery} :
    diallingStep host pass p d = some p' ↔
      ∃ c', step host pass p.conn d = some c' ∧ p.observe pass d c' = p' := by
  unfold diallingStep
  rw [Option.map_eq_some_iff]

/-- Only live bufferevents report, so that the targets were dialled. -/
theorem lt_of_mem_reports {host : Host} {pass : Password} {c c' : Conn} {d : Delivery}
    {kind : UInt16} (h : Sound c) (hstep : step host pass c d = some c') {i : Nat}
    (hi : i ∈ d.reports kind) : i < c.remotes := by
  obtain ⟨⟨-, -, hlive, -⟩, -⟩ := step_eq_some.mp hstep
  unfold Delivery.reports at hi
  split at hi
  · split at hi
    · rw [List.mem_singleton.mp hi]
      exact h.lt_of_live hlive
    · exact absurd hi List.not_mem_nil
  · exact absurd hi List.not_mem_nil

/-- No delivery forgets a target. -/
theorem remotes_le_of_step {host : Host} {pass : Password} {c c' : Conn} {d : Delivery}
    (h : Sound c) (hstep : step host pass c d = some c') : c.remotes ≤ c'.remotes := by
  obtain ⟨⟨-, -, hlive, -⟩, rfl⟩ := step_eq_some.mp hstep
  cases d with
  | arrive x data => exact le_rfl
  | drain x n => exact le_rfl
  | localReadcb o =>
      have e := localReadcb_effect host pass o hlive (h.fresh _ le_rfl)
      rw [deliver, e.remotes]
      split
      · exact Nat.le_succ _
      · exact le_rfl
  | remoteReadcb i =>
      rw [deliver, (remoteReadcb_effect pass i c).remotes]
  | event x events =>
      rw [deliver]
      split
      · rw [remotes_localEventcb]
      · exact le_rfl

theorem not_answers {pass : Password} {p : Dialling} {c' : Conn} {d : Delivery} {host : Host}
    (h : Sound p.conn) (hd : NoReply pass p d) (hstep : step host pass p.conn d = some c') :
    ¬ Answers pass p.conn c' d := by
  obtain ⟨⟨-, -, hlive, -⟩, hdeliver⟩ := step_eq_some.mp hstep
  cases d with
  | localReadcb o =>
      rw [deliver] at hdeliver
      rw [← hdeliver, answers_localReadcb_iff h hlive]
      exact hd o rfl
  | arrive x data => exact id
  | drain x n => exact id
  | remoteReadcb i => exact id
  | event x events => exact id

theorem unanswered_step {host : Host} {pass : Password} (p : Dialling) (d : Delivery)
    (p' : Dialling) (h : Unanswered p) (hd : NoReply pass p d)
    (hstep : diallingStep host pass p d = some p') : Unanswered p' := by
  obtain ⟨c', hc, rfl⟩ := diallingStep_eq_some.mp hstep
  refine ⟨sound_step h.sound hc, ?_, ?_⟩
  · refine (if_neg (not_answers h.sound hd hc)).trans h.replied
  · intro i hi
    refine lt_of_lt_of_le ?_ (remotes_le_of_step h.sound hc)
    rcases List.mem_append.mp hi with hreport | hold
    · exact lt_of_mem_reports h.sound hc hreport
    · exact h.dialled i hold

/-- The target of an early reply has not been dialled before, so that it cannot be
    connected. -/
theorem not_replyMeansConnected_step {host : Host} {pass : Password} (p : Dialling)
    (d : Delivery) (p' : Dialling) (h : Unanswered p) (hd : ¬ NoReply pass p d)
    (hstep : diallingStep host pass p d = some p') : ¬ ReplyMeansConnected p' := by
  obtain ⟨c', hc, rfl⟩ := diallingStep_eq_some.mp hstep
  obtain ⟨o, ho⟩ := not_forall.mp hd
  obtain ⟨rfl, hacc⟩ := Classical.not_imp.mp ho
  obtain ⟨⟨-, -, hlive, -⟩, hdeliver⟩ := step_eq_some.mp hc
  rw [deliver] at hdeliver
  have hans : Answers pass p.conn c' (.localReadcb o) := by
    rw [← hdeliver, answers_localReadcb_iff h.sound hlive]
    exact not_not.mp hacc
  intro hright
  have hreplied : (p.observe pass (.localReadcb o) c').replied =
      p.conn.remotes :: p.replied := if_pos hans
  have hin := hright.connected p.conn.remotes (by rw [hreplied]; exact List.mem_cons_self)
  exact absurd (h.dialled _ hin) (Nat.lt_irrefl _)

/-- **The success reply.** For every run of a connection, with whatever targets and whatever
    comes of their connects: the success reply is written only for targets that have reported
    CONNECTED, and for none that failed, exactly if no run of `local_readcb` finds an accepted
    request and starts its connect. -/
theorem reply_means_connected_iff (host : Host) (pass : Password) (ds : List Delivery) :
    Always (diallingStep host pass) ReplyMeansConnected Dialling.start ds ↔
      Each (diallingStep host pass) (NoReply pass) Dialling.start ds :=
  always_iff_each (fun _ => Unanswered.replyMeansConnected) unanswered_step
    not_replyMeansConnected_step unanswered_start ds

/-- The request arrives, its connect is started, and is refused after that. -/
def refused : List Delivery :=
  [.arrive .loc longRequest, .localReadcb ⟨0, 0⟩, .event (.remote 0) bevEventError]

/-- The client has been told that it is connected. -/
theorem refused_target_answered :
    ¬ Always (diallingStep plainHost identityPassword) ReplyMeansConnected Dialling.start
      refused := by
  intro hall
  obtain ⟨-, h⟩ := hall
  have harrive : diallingStep plainHost identityPassword Dialling.start
      (.arrive .loc longRequest) = some ⟨requested, [], [], []⟩ := by
    obtain ⟨c, hc, hrun⟩ := run_cons_eq_some.mp run_requested
    rw [← Option.some.inj hrun]
    exact diallingStep_eq_some.mpr ⟨c, hc, rfl⟩
  obtain ⟨-, h⟩ := h _ harrive
  have hsound : Sound requested :=
    run_invariant (fun _ _ _ => sound_step) sound_accepted run_requested
  have hun : Unanswered ⟨requested, [], [], []⟩ :=
    ⟨hsound, rfl, fun i hi => absurd hi List.not_mem_nil⟩
  have hstep : diallingStep plainHost identityPassword ⟨requested, [], [], []⟩
      (.localReadcb ⟨0, 0⟩) = some (Dialling.observe identityPassword ⟨requested, [], [], []⟩
        (.localReadcb ⟨0, 0⟩) (localReadcb plainHost identityPassword ⟨0, 0⟩ requested)) :=
    diallingStep_eq_some.mpr ⟨_, step_localReadcb rfl accepting_requested.live, rfl⟩
  have hno : ¬ NoReply identityPassword ⟨requested, [], [], []⟩ (.localReadcb ⟨0, 0⟩) :=
    fun h => h _ rfl ⟨accepting_requested.accepts, by decide, rfl⟩
  exact not_replyMeansConnected_step _ _ _ hun hno hstep (h _ hstep).head

end Lightsocks.Server
