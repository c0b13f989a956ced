import Lightsocks.Server.Invariant
import Lightsocks.Client.Lifecycle

/-
  What happens to one half of a relay pair when the other half hangs up.

  Both programs register an event callback on the bufferevent towards the side that connected to
  them, and `NULL` on the one they dialled. An EOF or an error on the first ends both halves. On
  the second it is noticed by libevent and reported to nobody: the other half stays open, with
  nothing under way that would close it. `no_abandoned_half_iff` says that these are the only
  steps that abandon a half, but for one more in the server, where the client hangs up after two
  targets were dialled.
-/

namespace Lightsocks

open Lib

theorem ne_zero_of_closing {events : UInt16} (h : Bevs.closing events = true) : events ≠ 0 := by
  rintro rfl
  cases h

theorem Bevs.hungUp_notice {H : Type} [DecidableEq H] {s : Bevs H} {x y : H} {events : UInt16}
    (h : y = x → Bevs.closing events = false) :
    ((s.notice x events).bev y).hungUp = (s.bev y).hungUp := by
  by_cases hxy : y = x
  · rw [hxy, Bevs.notice, Bevs.bev_modify_self, h hxy, Bool.or_false]
  · rw [Bevs.notice, Bevs.bev_modify_of_ne _ hxy]

theorem Bevs.hungUp_notice_self {H : Type} [DecidableEq H] (s : Bevs H) (x : H)
    {events : UInt16} (h : Bevs.closing events = true) :
    ((s.notice x events).bev x).hungUp = true := by
  rw [Bevs.notice, Bevs.bev_modify_self, h, Bool.or_true]

namespace Client

/-- No half of the pair is left open when the other has hung up. -/
def Attended (s : Pair) : Prop :=
  ((s.bev .loc).hungUp = true → ¬ s.Live .remote) ∧
    ((s.bev .remote).hungUp = true → ¬ s.Live .loc)

/-- The deliveries that abandon no half: the server's side does not hang up. -/
def Attends (_ : Pair) : Delivery → Prop
  | .event h events => h = .remote → Bevs.closing events = false
  | _ => True

/-- The invariant: both halves are open, or none is. -/
structure Together (s : Pair) : Prop where
  both : s.Live .loc ↔ s.Live .remote
  ctx : s.Live .loc → s.Live .ctx
  loc : s.Live .loc → (s.bev .loc).hungUp = false ∧ (s.bev .remote).hungUp = false

theorem Together.attended {s : Pair} (h : Together s) : Attended s := by
  refine ⟨fun hh hl => ?_, fun hh hl => ?_⟩
  · rw [(h.loc (h.both.mpr hl)).1] at hh
    cases hh
  · rw [(h.loc hl).2] at hh
    cases hh

theorem together_accepted : Together accepted :=
  ⟨⟨fun _ => rfl, fun _ => rfl⟩, fun _ => rfl, fun _ => ⟨rfl, rfl⟩⟩

/-- Both halves are closed. -/
theorem together_of_closed {s : Pair} (hloc : ¬ s.Live .loc) (hremote : ¬ s.Live .remote) :
    Together s :=
  ⟨⟨fun h => absurd h hloc, fun h => absurd h hremote⟩, fun h => absurd h hloc,
    fun h => absurd h hloc⟩

/-- A read callback copies, or closes both halves; with any password or none. -/
theorem together_of_copy {s t : Pair} {rc : Int} (h : Together s)
    (hlife : t.ledger.life = s.ledger.life) (hhungUp : ∀ x, (t.bev x).hungUp = (s.bev x).hungUp) :
    Together (if rc = -1 then closeBoth (.handle .loc) (.handle .remote) t else t) := by
  split
  · exact together_of_closed (Bevs.not_live_clearFree_clearFree t .loc _)
      (Bevs.not_live_clearFree (t.clearFree (.handle .loc)) .remote)
  · constructor
    case both => simpa [Bevs.Live, hlife] using h.both
    case ctx => simpa [Bevs.Live, hlife] using h.ctx
    case loc => simpa [Bevs.Live, hlife, hhungUp] using h.loc

theorem together_localReadcb {ss : SecureSocket} {s : Pair} (h : Together s) :
    Together (localReadcb ss s) := by
  obtain ⟨password⟩ := ss
  cases password with
  | none =>
      have hrun : (s.call .context (.handle .ctx)).runCopy
          (fun io => encodeCopy io (some ⟨none⟩)) .remote .loc =
            (-1, s.call .context (.handle .ctx)) := rfl
      rw [localReadcb, hrun]
      exact together_of_copy h rfl fun _ => rfl
  | some pass =>
      obtain ⟨t, hcopy, -, hframe⟩ := Bevs.runCopy_encode pass Handle.remote .loc
        (s.call .context (.handle .ctx))
      have hrun : (s.call .context (.handle .ctx)).runCopy
          (fun io => encodeCopy io (some ⟨some pass⟩)) .remote .loc = _ := hcopy
      rw [localReadcb, hrun]
      exact together_of_copy h hframe.ledger.life hframe.hungUp

theorem together_remoteReadcb {ss : SecureSocket} {s : Pair} (h : Together s) :
    Together (remoteReadcb ss s) := by
  obtain ⟨password⟩ := ss
  cases password with
  | none =>
      have hrun : (s.call .context (.handle .ctx)).runCopy
          (fun io => decodeCopy io (some ⟨none⟩)) .loc .remote =
            (-1, s.call .context (.handle .ctx)) := rfl
      rw [remoteReadcb, hrun]
      exact together_of_copy h rfl fun _ => rfl
  | some pass =>
      obtain ⟨t, hcopy, -, hframe⟩ := Bevs.runCopy_decode pass Handle.loc .remote
        (s.call .context (.handle .ctx))
      have hrun : (s.call .context (.handle .ctx)).runCopy
          (fun io => decodeCopy io (some ⟨some pass⟩)) .loc .remote = _ := hcopy
      rw [remoteReadcb, hrun]
      exact together_of_copy h hframe.ledger.life hframe.hungUp

/-- A change that keeps the lives and notices nothing on a live pair. -/
theorem Together.of_hungUp {s t : Pair} (h : Together s)
    (hlife : t.ledger.life = s.ledger.life)
    (hhungUp : ∀ x, s.Live .loc → x ≠ .ctx → (t.bev x).hungUp = (s.bev x).hungUp) :
    Together t := by
  constructor
  case both => simpa [Bevs.Live, hlife] using h.both
  case ctx => simpa [Bevs.Live, hlife] using h.ctx
  case loc =>
    intro hl
    rw [Bevs.Live, hlife] at hl
    rw [hhungUp .loc hl (by decide), hhungUp .remote hl (by decide)]
    exact h.loc hl

theorem together_step {ss : SecureSocket} (s : Pair) (d : Delivery) (t : Pair) (h : Together s)
    (hgood : Attends s d) (hstep : step ss s d = some t) : Together t := by
  obtain ⟨⟨_, hlive, _⟩, rfl⟩ := step_eq_some.mp hstep
  cases d with
  | arrive x data =>
      rw [deliver]
      exact h.of_hungUp rfl fun y _ _ => Bevs.hungUp_arrive s x data y
  | drain x n =>
      rw [deliver]
      exact h.of_hungUp rfl fun y _ _ => Bevs.hungUp_drain s x n y
  | localReadcb =>
      rw [deliver]
      exact together_localReadcb h
  | remoteReadcb =>
      rw [deliver]
      exact together_remoteReadcb h
  | event x events =>
      rw [deliver]
      by_cases hx : x = .loc ∧ events ≠ 0
      · obtain ⟨rfl, hev⟩ := hx
        have hl : (s.notice .loc events).Live .loc := hlive
        rw [if_pos rfl]
        refine together_of_closed ?_ ?_
        all_goals
          rw [localEventcb, if_pos hev, Bevs.Live, (Bevs.ended_endAll events hl (h.both.mp hl)
            (h.ctx hl) (by decide) (by decide) (by decide)).life]
          simp
      · -- nothing is released, and no live half has hung up
        have hclosing : x ≠ .ctx → Bevs.closing events = false := by
          intro hctx
          cases x with
          | loc =>
              have hzero : events = 0 := by
                by_contra hne
                exact hx ⟨rfl, hne⟩
              rw [hzero]
              decide
          | remote => exact hgood rfl
          | ctx => exact absurd rfl hctx
        have hn : Together (s.notice x events) := h.of_hungUp rfl fun y _ hy =>
          Bevs.hungUp_notice fun hyx => hclosing (hyx ▸ hy)
        split
        · rename_i hloc
          rw [localEventcb, if_neg fun hev => hx ⟨hloc, hev⟩]
          exact hn
        · exact hn

theorem not_attended_step {ss : SecureSocket} (s : Pair) (d : Delivery) (t : Pair)
    (h : Together s) (hbad : ¬ Attends s d) (hstep : step ss s d = some t) : ¬ Attended t := by
  obtain ⟨⟨_, hlive, _⟩, rfl⟩ := step_eq_some.mp hstep
  cases d with
  | arrive x data => exact absurd trivial hbad
  | drain x n => exact absurd trivial hbad
  | localReadcb => exact absurd trivial hbad
  | remoteReadcb => exact absurd trivial hbad
  | event x events =>
      obtain ⟨rfl, hclosing⟩ := Classical.not_imp.mp hbad
      rw [Bool.not_eq_false] at hclosing
      rw [deliver, if_neg (by decide)]
      exact fun hatt => hatt.2 (Bevs.hungUp_notice_self s _ hclosing) (h.both.mpr hlive)

/-- Which runs of one pair abandon no half. -/
theorem always_attended_iff (ss : SecureSocket) (ds : List Delivery) :
    Always (step ss) Attended accepted ds ↔ Each (step ss) Attends accepted ds :=
  always_iff_each (fun _ => Together.attended) together_step not_attended_step
    together_accepted ds

end Client

namespace Server

/-- No bufferevent of the connection is left open when its other side has hung up. -/
def Attended (c : Conn) : Prop :=
  ∀ i, i < c.remotes →
    ((c.bev .loc).hungUp = true → ¬ c.Live (.remote i)) ∧
      ((c.bev (.remote i)).hungUp = true → ¬ c.Live .loc)

/-- The deliveries that abandon no half: a target does not hang up while the client's side is
    open, and the client does not once two targets were dialled. -/
def Attends (c : Conn) : Delivery → Prop
  | .event .loc events => Bevs.closing events = true → c.remotes ≤ 1
  | .event _ events => Bevs.closing events = true → ¬ c.Live .loc
  | _ => True

/-- The invariant. -/
structure Watched (c : Conn) : Prop where
  sound : Sound c
  attended : Attended c
  loc : c.Live .loc → (c.bev .loc).hungUp = false

theorem watched_accepted : Watched accepted where
  sound := sound_accepted
  attended i hi := absurd hi (Nat.not_lt_zero i)
  loc _ := rfl

/-- Nothing hangs up, and handles are released at most. -/
theorem Watched.of_aged {c c' : Conn} (h : Watched c) (hsound : Sound c')
    (hage : Ledger.Aged c.ledger.life c'.ledger.life) (hremotes : c'.remotes = c.remotes)
    (hhungUp : ∀ x, (c'.bev x).hungUp = (c.bev x).hungUp) : Watched c' := by
  refine ⟨hsound, fun i hi => ?_, fun hl => ?_⟩
  · rw [hremotes] at hi
    rw [hhungUp, hhungUp]
    exact ⟨fun hh hl => (h.attended i hi).1 hh (hage.live hl),
      fun hh hl => (h.attended i hi).2 hh (hage.live hl)⟩
  · rw [hhungUp]
    exact h.loc (hage.live hl)

theorem watched_localReadcb {host : Host} {pass : Password} {o : Outcome} {c : Conn}
    (h : Watched c) (hloc : c.Live .loc) : Watched (localReadcb host pass o c) := by
  have e := localReadcb_effect host pass o hloc (h.sound.fresh _ le_rfl)
  have hopen : ((localReadcb host pass o c).bev .loc).hungUp = false := by
    rw [e.hungUp]
    exact h.loc hloc
  refine ⟨sound_localReadcb h.sound hloc, fun i hi => ⟨fun hh => ?_, fun hh => ?_⟩,
    fun _ => hopen⟩
  · rw [hopen] at hh
    cases hh
  · have hremotes := e.remotes
    by_cases hnew : i = c.remotes
    · -- the bufferevent of this run
      have hd : (localRun host pass o (c.bev .loc).input).dials = true := by
        by_contra hd
        rw [if_neg hd] at hremotes
        omega
      rw [hnew, (e.fresh hd).2.2] at hh
      cases hh
    · have hlt : i < c.remotes := by
        split at hremotes <;> omega
      rw [e.other i hnew] at hh
      exact absurd hloc ((h.attended i hlt).2 hh)

theorem watched_remoteReadcb {pass : Password} {i : Nat} {c : Conn} (h : Watched c) :
    Watched (remoteReadcb pass i c) := by
  have e := remoteReadcb_effect pass i c
  exact h.of_aged (sound_remoteReadcb h.sound) (aged_remoteReadcb pass i c) e.remotes e.hungUp

/-- The client's side is released, and the target's if there is one. -/
theorem watched_localEventcb {events : UInt16} {c : Conn} (hsound : Sound c)
    (hloc : c.Live .loc) (hev : events ≠ 0)
    (hgood : (c.bev .loc).hungUp = true → c.remotes ≤ 1) : Watched (localEventcb events c) := by
  have hdead := not_live_localEventcb c hev
  refine ⟨sound_localEventcb hsound, fun i hi => ⟨fun hh => ?_, fun _ => hdead⟩,
    fun hl => absurd hl hdead⟩
  rw [remotes_localEventcb] at hi
  rw [bev_localEventcb] at hh
  have hle := hgood hh
  have hone : c.remotes = 0 + 1 := by omega
  have hi0 : i = 0 := by omega
  rw [Bevs.Live, (ended_localEventcb hsound hloc hev hone).life, hi0,
    Function.update_of_ne (by simp), Function.update_self]
  decide

/-- A target hangs up behind a connection that is closed. -/
theorem Watched.of_closed {c : Conn} (h : Watched c) {i : Nat} {events : UInt16}
    (hsound : Sound { c with toBevs := c.toBevs.notice (.remote i) events })
    (hloc : ¬ c.Live .loc) : Watched { c with toBevs := c.toBevs.notice (.remote i) events } where
  sound := hsound
  attended j hj := by
    have hsame : ((c.toBevs.notice (.remote i) events).bev .loc).hungUp =
        (c.bev .loc).hungUp := Bevs.hungUp_notice fun he => by cases he
    exact ⟨fun hh => (h.attended j hj).1 (hsame.symm.trans hh), fun _ => hloc⟩
  loc hl := absurd hl hloc

theorem watched_step {host : Host} {pass : Password} (c : Conn) (d : Delivery) (c' : Conn)
    (h : Watched c) (hgood : Attends c d) (hstep : step host pass c d = some c') :
    Watched c' := by
  have hsound := sound_step h.sound hstep
  obtain ⟨⟨_, hctx, hlive, _⟩, rfl⟩ := step_eq_some.mp hstep
  cases d with
  | arrive x data =>
      rw [deliver] at hsound ⊢
      exact h.of_aged hsound (Ledger.Aged.refl _) rfl (Bevs.hungUp_arrive c.toBevs x data)
  | drain x n =>
      rw [deliver] at hsound ⊢
      exact h.of_aged hsound (Ledger.Aged.refl _) rfl (Bevs.hungUp_drain c.toBevs x n)
  | localReadcb o =>
      rw [deliver]
      exact watched_localReadcb h hlive
  | remoteReadcb i =>
      rw [deliver]
      exact watched_remoteReadcb h
  | event x events =>
      cases x with
      | loc =>
          rw [deliver, if_pos rfl] at hsound ⊢
          have hn : Sound { c with toBevs := c.toBevs.notice .loc events } :=
            h.sound.of_life_eq rfl rfl rfl
          have hopen : (c.bev .loc).hungUp = false := h.loc hlive
          by_cases hev : events = 0
          · rw [localEventcb, if_neg (not_not.mpr hev)] at hsound ⊢
            refine h.of_aged hsound (Ledger.Aged.refl _) rfl fun y => Bevs.hungUp_notice fun _ => ?_
            rw [hev]
            decide
          · refine watched_localEventcb hn hlive hev fun hh => hgood ?_
            by_contra hclosing
            rw [Bool.not_eq_true] at hclosing
            have hsame := Bevs.hungUp_notice (s := c.toBevs) (x := Handle.loc) (y := .loc)
              fun _ => hclosing
            rw [hopen] at hsame
            exact absurd (hh.symm.trans hsame) (by decide)
      | remote i =>
          rw [deliver, if_neg (by simp)] at hsound ⊢
          by_cases hclosing : Bevs.closing events = true
          · exact h.of_closed hsound (hgood hclosing)
          · exact h.of_aged hsound (Ledger.Aged.refl _) rfl fun y =>
              Bevs.hungUp_notice fun _ => (Bool.not_eq_true _).mp hclosing
      | ctx => exact absurd rfl hctx

/-- After two dials `server->remote_bev` has forgotten the first. -/
theorem not_attended_localEventcb {events : UInt16} {c : Conn} (h : Watched c)
    (hloc : c.Live .loc) (hclosing : Bevs.closing events = true) (hmany : 1 < c.remotes) :
    ¬ Attended (localEventcb events { c with toBevs := c.toBevs.notice .loc events }) := by
  intro hatt
  have hn : Sound { c with toBevs := c.toBevs.notice .loc events } :=
    h.sound.of_life_eq rfl rfl rfl
  refine (hatt 0 ?_).1 ?_ (live_first_localEventcb hn hloc (ne_zero_of_closing hclosing) hmany)
  · rw [remotes_localEventcb]
    show 0 < c.remotes
    omega
  · rw [bev_localEventcb]
    exact Bevs.hungUp_notice_self c.toBevs .loc hclosing

/-- A delivery that is not attended to leaves a half open. -/
theorem not_attended_step {host : Host} {pass : Password} (c : Conn) (d : Delivery) (c' : Conn)
    (h : Watched c) (hbad : ¬ Attends c d) (hstep : step host pass c d = some c') :
    ¬ Attended c' := by
  obtain ⟨⟨_, hctx, hlive, _⟩, rfl⟩ := step_eq_some.mp hstep
  cases d with
  | arrive x data => exact absurd trivial hbad
  | drain x n => exact absurd trivial hbad
  | localReadcb o => exact absurd trivial hbad
  | remoteReadcb i => exact absurd trivial hbad
  | event x events =>
      cases x with
      | loc =>
          obtain ⟨hclosing, hmany⟩ := Classical.not_imp.mp hbad
          have hclosing' : Bevs.closing events = true := hclosing
          exact not_attended_localEventcb h hlive hclosing' (Nat.lt_of_not_le hmany)
      | remote i =>
          obtain ⟨hclosing, hopen⟩ := Classical.not_imp.mp hbad
          have hlt : i < c.remotes := h.sound.lt_of_live hlive
          rw [deliver, if_neg (by simp)]
          exact fun hatt => hopen fun hloc =>
            (hatt i hlt).2 (Bevs.hungUp_notice_self c.toBevs _ hclosing) hloc
      | ctx => exact absurd rfl hctx

/-- Which runs of one connection abandon no half. -/
theorem always_attended_iff (host : Host) (pass : Password) (ds : List Delivery) :
    Always (step host pass) Attended accepted ds ↔
      Each (step host pass) Attends accepted ds :=
  always_iff_each (fun _ => Watched.attended) watched_step not_attended_step watched_accepted ds

end Server

/-- **No abandoned half.** In a run of either program's connection, no half is ever left open
    behind one that hung up, exactly if no EOF or error is reported on the dialled side while the
    accepted side is open, nor, in the server, on the accepted side after two dials. -/
theorem no_abandoned_half_iff (host : Host) (pass : Password) (ss : SecureSocket)
    (cs : List Client.Delivery) (ds : List Server.Delivery) :
    (Always (Client.step ss) Client.Attended Client.accepted cs ↔
      Each (Client.step ss) Client.Attends Client.accepted cs) ∧
    (Always (Server.step host pass) Server.Attended Server.accepted ds ↔
      Each (Server.step host pass) Server.Attends Server.accepted ds) :=
  ⟨Client.always_attended_iff ss cs, Server.always_attended_iff host pass ds⟩

/-- The server's end of an accepted pair closes. -/
theorem remote_eof_abandons_loc : ¬ Always (Client.step ⟨some identityPassword⟩) Client.Attended
    Client.accepted [.event .remote bevEventEof] := by
  intro h
  have hstep : Client.step ⟨some identityPassword⟩ Client.accepted (.event .remote bevEventEof) =
      some (Client.deliver ⟨some identityPassword⟩ Client.accepted
        (.event .remote bevEventEof)) := if_pos (by decide)
  exact ((h.2 _ hstep).2 rfl) rfl

end Lightsocks
