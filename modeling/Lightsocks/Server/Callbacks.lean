import Lightsocks.Server

/-
  What the server's callbacks do, as functions of the bytes that were there.

  `localRun` sorts the runs of `local_readcb` into five kinds, by the input and the outcome of
  the system calls; `localReadcb_effect` gives everything such a run changes. There is no run
  that keeps the connection without dialling.
-/

namespace Lightsocks.Server

open Lib

/-- The five ways a run of `local_readcb` can go. -/
inductive LocalRun where
  /-- The resolver found nothing and its null result is dereferenced. -/
  | fault
  /-- The request is rejected. -/
  | reject
  /-- `connect` or `setsockopt` failed. -/
  | dialFailed
  /-- Nothing is left of the input after the two reads. -/
  | starved
  /-- The rest of the input is sent to the target. -/
  | relays
  deriving DecidableEq

/-- The kind of the run on this input. -/
def localRun (host : Host) (pass : Password) (o : Outcome) (input : List UInt8) : LocalRun :=
  if Faults host (firstChunk pass input) (secondChunk pass input) then .fault
  else if ¬ Accepts (firstChunk pass input) (secondChunk pass input) then .reject
  else if o.connectRc = -1 ∨ o.setsockoptRc ≠ 0 then .dialFailed
  else if input.length ≤ socksBuf + socksBuf then .starved
  else .relays

/-- A new bufferevent is created and dialled. -/
def LocalRun.dials : LocalRun → Bool
  | .dialFailed | .starved | .relays => true
  | _ => false

/-- The success reply is written. -/
def LocalRun.replies : LocalRun → Bool
  | .starved | .relays => true
  | _ => false

/-- The plaintext of what the run writes to the client. -/
def replies (host : Host) (pass : Password) (o : Outcome) (input : List UInt8) : List UInt8 :=
  (if Greets (firstChunk pass input) then replyAuth else []) ++
    (if (localRun host pass o input).replies then socks5Reply else [])

/-- The address the run dials, when it does. -/
def dialAddr (host : Host) (pass : Password) (input : List UInt8) : SockaddrIn :=
  (parseResult host (firstChunk pass input) (secondChunk pass input) SockaddrIn.zero).2

/-- The lives of the handles after a run of this kind. -/
def LocalRun.lives (r : LocalRun) (remote : Handle) (life : Handle → Life) : Handle → Life :=
  match r with
  | .fault => life
  | .reject => Function.update life .loc .released
  | .dialFailed | .starved =>
      Function.update (Function.update life .loc .released) remote .released
  | .relays => Function.update life remote .live

/-- All that a run of `local_readcb` changes. -/
structure LocalEffect (host : Host) (pass : Password) (o : Outcome) (c c' : Conn) : Prop where
  crashed : c'.crashed = (c.crashed || localRun host pass o (c.bev .loc).input = .fault)
  remotes : c'.remotes =
    if (localRun host pass o (c.bev .loc).input).dials then c.remotes + 1 else c.remotes
  dialled : c'.dialled =
    if (localRun host pass o (c.bev .loc).input).dials then
      c.dialled ++ [dialAddr host pass (c.bev .loc).input] else c.dialled
  remoteBev : c'.remoteBev =
    if (localRun host pass o (c.bev .loc).input).replies then .handle (.remote c.remotes)
    else c.remoteBev
  life : c'.ledger.life =
    (localRun host pass o (c.bev .loc).input).lives (.remote c.remotes) c.ledger.life
  output : (c'.bev .loc).output =
    (c.bev .loc).output ++ (replies host pass o (c.bev .loc).input).map pass.lookup
  payload : localRun host pass o (c.bev .loc).input = .relays →
    (c'.bev .loc).input = [] ∧ (c'.bev (.remote c.remotes)).output =
      ((c.bev .loc).input.drop (socksBuf + socksBuf)).map (decodePass pass).lookup
  gone : (c'.bev .loc).gone = (c.bev .loc).gone
  hungUp : (c'.bev .loc).hungUp = (c.bev .loc).hungUp
  fresh : (localRun host pass o (c.bev .loc).input).dials →
    (c'.bev (.remote c.remotes)).input = [] ∧ (c'.bev (.remote c.remotes)).gone = [] ∧
      (c'.bev (.remote c.remotes)).hungUp = false
  other : ∀ i, i ≠ c.remotes → c'.bev (.remote i) = c.bev (.remote i)
  log : c.ledger.log <+: c'.ledger.log
  clean : localRun host pass o (c.bev .loc).input ≠ .reject → c.Live .ctx →
    c.ledger.Clean Op.guarded → c'.ledger.Clean Op.guarded
  dirty : localRun host pass o (c.bev .loc).input = .reject → ¬ c'.ledger.Clean Op.guarded
  counted : c.ledger.Counted .free → c'.ledger.Counted .free

theorem localRun_eq_fault_iff {host : Host} {pass : Password} {o : Outcome}
    {input : List UInt8} : localRun host pass o input = .fault ↔
      Faults host (firstChunk pass input) (secondChunk pass input) := by
  unfold localRun
  repeat' split
  all_goals simp_all

theorem localRun_eq_reject_iff {host : Host} {pass : Password} {o : Outcome}
    {input : List UInt8} : localRun host pass o input = .reject ↔
      ¬ Faults host (firstChunk pass input) (secondChunk pass input) ∧
      ¬ Accepts (firstChunk pass input) (secondChunk pass input) := by
  unfold localRun
  repeat' split
  all_goals simp_all

theorem localRun_dials_iff {host : Host} {pass : Password} {o : Outcome}
    {input : List UInt8} : (localRun host pass o input).dials = true ↔
      Accepts (firstChunk pass input) (secondChunk pass input) := by
  unfold localRun
  split
  · rename_i h
    exact ⟨fun hd => absurd hd (by decide), fun ha => absurd h (not_faults_of_accepts host ha)⟩
  · repeat' split
    all_goals simp_all [LocalRun.dials]

theorem localRun_of_accepts (host : Host) {pass : Password} {input : List UInt8} (o : Outcome)
    (h : Accepts (firstChunk pass input) (secondChunk pass input)) :
    localRun host pass o input =
      if o.connectRc = -1 ∨ o.setsockoptRc ≠ 0 then .dialFailed
      else if input.length ≤ socksBuf + socksBuf then .starved else .relays := by
  rw [localRun, if_neg (not_faults_of_accepts host h), if_neg (not_not.mpr h)]

/-- `local_readcb` after the parse. -/
theorem localReadcb_of_parse {host : Host} {pass : Password} {o : Outcome} {c : Conn}
    {rc : ParseReturn} {addr : SockaddrIn} {s : Bevs Handle}
    (h : parseSocks5 (Bevs.io .loc .loc) host pass SockaddrIn.zero c.toBevs = (rc, addr, s)) :
    localReadcb host pass o c = afterParse pass o addr { c with toBevs := s } rc := by
  unfold localReadcb
  rw [h]

theorem afterParse_rejected (pass : Password) (o : Outcome) (addr : SockaddrIn) (c : Conn) :
    afterParse pass o addr c (.ret (-1)) = c.closeBoth (.handle .loc) .indeterminate := by
  rw [afterParse, if_pos rfl]

theorem afterParse_accepted (pass : Password) (o : Outcome) (addr : SockaddrIn) (c : Conn) :
    afterParse pass o addr c (.ret 0) = dial pass o addr c := by
  rw [afterParse, if_neg (by decide)]

/-- The parse, and what follows it. -/
theorem localReadcb_cases (host : Host) (pass : Password) (o : Outcome) (c : Conn) :
    ∃ s, Bevs.Frame .loc .loc c.toBevs s ∧
      s.queues .loc .loc = parsed pass (c.queues .loc .loc) ∧
      (localRun host pass o (c.bev .loc).input = .fault →
        localReadcb host pass o c = { c with toBevs := s, crashed := true }) ∧
      (localRun host pass o (c.bev .loc).input = .reject → localReadcb host pass o c =
        { c with toBevs := s }.closeBoth (.handle .loc) .indeterminate) ∧
      ((localRun host pass o (c.bev .loc).input).dials = true → localReadcb host pass o c =
        dial pass o (dialAddr host pass (c.bev .loc).input) { c with toBevs := s }) := by
  obtain ⟨s, hparse, hview, hframe⟩ := parseSocks5_view (Bevs.io_onQueues .loc .loc) host pass
    SockaddrIn.zero c.toBevs
  have hq : (c.queues .loc .loc).src = (c.bev .loc).input := rfl
  rw [hq] at hparse
  refine ⟨s, hframe, hview, fun hr => ?_, fun hr => ?_, fun hr => ?_⟩
  · rw [parseResult_of_faults (localRun_eq_fault_iff.mp hr)] at hparse
    exact localReadcb_of_parse hparse
  · obtain ⟨hf, ha⟩ := localRun_eq_reject_iff.mp hr
    rw [parseResult_of_rejects ha hf] at hparse
    exact (localReadcb_of_parse hparse).trans (afterParse_rejected ..)
  · rw [parseResult_of_accepts host (localRun_dials_iff.mp hr)] at hparse
    exact (localReadcb_of_parse hparse).trans (afterParse_accepted ..)

/-- `c'` is `c` with a new bufferevent, dialled but not yet used. -/
structure Opened (addr : SockaddrIn) (c c' : Conn) : Prop where
  ledger : (c.ledger.create (.remote c.remotes)).Touched (Bevs.Through [.remote c.remotes])
    c'.ledger
  bev : c'.bev = Function.update c.bev (.remote c.remotes) Bev.fresh
  remotes : c'.remotes = c.remotes + 1
  dialled : c'.dialled = c.dialled ++ [addr]
  remoteBev : c'.remoteBev = c.remoteBev
  crashed : c'.crashed = c.crashed

theorem opened_connectRemote (addr : SockaddrIn) (c : Conn) :
    Opened addr c (connectRemote addr c) :=
  ⟨(Ledger.Touched.refl _).use ⟨by decide, _, List.mem_singleton.mpr rfl, rfl⟩, rfl, rfl, rfl,
    rfl, rfl⟩

theorem Opened.getRemotefd {addr : SockaddrIn} {c c' : Conn} (h : Opened addr c c') :
    Opened addr c (getRemotefd (.remote c.remotes) c') :=
  { h with ledger := h.ledger.use ⟨by decide, _, List.mem_singleton.mpr rfl, rfl⟩ }

theorem dial_cases (pass : Password) (o : Outcome) (addr : SockaddrIn) (c : Conn) :
    ∃ c₁, Opened addr c c₁ ∧ dial pass o addr c =
      if o.connectRc = -1 ∨ o.setsockoptRc ≠ 0 then
        c₁.closeBoth (.handle .loc) (.handle (.remote c.remotes))
      else startTransmit pass (.remote c.remotes) c₁ := by
  have hopen := opened_connectRemote addr c
  unfold dial
  by_cases hrc : o.connectRc = -1
  · exact ⟨_, hopen, by rw [if_pos hrc, if_pos (Or.inl hrc)]⟩
  · refine ⟨_, hopen.getRemotefd, ?_⟩
    rw [if_neg hrc]
    by_cases hopt : o.setsockoptRc ≠ 0
    · rw [if_pos hopt, if_pos (Or.inr hopt)]
    · rw [if_neg hopt, if_neg (not_or.mpr ⟨hrc, hopt⟩)]

/-- The client sees the method reply, if the first read starts like a greeting. -/
theorem output_of_parsed {pass : Password} {s t : Bevs Handle}
    (h : t.queues .loc .loc = parsed pass (s.queues .loc .loc)) :
    (t.bev .loc).output = (s.bev .loc).output ++
      (if Greets (firstChunk pass (s.bev .loc).input) then replyAuth else []).map pass.lookup :=
  (congrArg Queues.dst h).trans (dst_parsed _ _)

theorem touched_of_parse {s t : Bevs Handle} (h : Bevs.Frame .loc .loc s t) :
    s.ledger.Touched (Bevs.Through [.loc]) t.ledger :=
  h.through (List.mem_singleton.mpr rfl) (List.mem_singleton.mpr rfl)

theorem effect_fault {host : Host} {pass : Password} {o : Outcome} {c : Conn} {s : Bevs Handle}
    (hr : localRun host pass o (c.bev .loc).input = .fault) (hloc : c.Live .loc)
    (hframe : Bevs.Frame .loc .loc c.toBevs s)
    (hview : s.queues .loc .loc = parsed pass (c.queues .loc .loc)) :
    LocalEffect host pass o c { c with toBevs := s, crashed := true } where
  crashed := by simp [hr]
  remotes := by simp [hr, LocalRun.dials]
  dialled := by simp [hr, LocalRun.dials]
  remoteBev := by simp [hr, LocalRun.replies]
  life := by simp [hr, LocalRun.lives, hframe.ledger.life]
  output := by simp [output_of_parsed hview, replies, hr, LocalRun.replies]
  payload h := by simp [hr] at h
  gone := hframe.gone _
  hungUp := hframe.hungUp _
  fresh h := by simp [hr, LocalRun.dials] at h
  other i _ := hframe.bev_of_ne (by simp) (by simp)
  log := hframe.ledger.prefix_log
  clean _ _ := Bevs.clean_of_through (touched_of_parse hframe) (by simpa using hloc)
  dirty h := by simp [hr] at h
  counted := Bevs.counted_of_through (touched_of_parse hframe)

theorem effect_reject {host : Host} {pass : Password} {o : Outcome} {c : Conn} {s : Bevs Handle}
    (hr : localRun host pass o (c.bev .loc).input = .reject) (hloc : c.Live .loc)
    (hframe : Bevs.Frame .loc .loc c.toBevs s)
    (hview : s.queues .loc .loc = parsed pass (c.queues .loc .loc)) :
    LocalEffect host pass o c
      ({ c with toBevs := s }.closeBoth (.handle .loc) .indeterminate) where
  crashed := by simp [hr, Conn.closeBoth]
  remotes := by simp [hr, LocalRun.dials, Conn.closeBoth]
  dialled := by simp [hr, LocalRun.dials, Conn.closeBoth]
  remoteBev := by simp [hr, LocalRun.replies, Conn.closeBoth]
  life := by
    have hlive : s.Live .loc := by
      rw [Bevs.Live, hframe.ledger.life]
      exact hloc
    simp only [hr, LocalRun.lives, Conn.closeBoth]
    rw [Bevs.life_clearFree_of_invalid _ rfl, Bevs.life_clearFree s hlive, hframe.ledger.life]
  output := by simp [Conn.closeBoth, output_of_parsed hview, replies, hr, LocalRun.replies]
  payload h := by simp [hr] at h
  gone := hframe.gone _
  hungUp := hframe.hungUp _
  fresh h := by simp [hr, LocalRun.dials] at h
  other i _ := hframe.bev_of_ne (by simp) (by simp)
  log := hframe.ledger.prefix_log.trans
    ((Bevs.prefix_log_clearFree _ _).trans (Bevs.prefix_log_clearFree _ _))
  clean h := absurd hr h
  dirty _ h := by simp [Conn.closeBoth] at h
  counted h := by
    have hlive : s.Live .loc := by
      rw [Bevs.Live, hframe.ledger.life]
      exact hloc
    have hs := Bevs.counted_of_through (touched_of_parse hframe) h
    exact Bevs.counted_clearFree_of_forall_ne (Bevs.counted_clearFree hs hlive) (by simp)

/-! ### The runs that dial -/

/-- `c₁` is `c` after an accepted request, with the new bufferevent dialled. -/
structure Dialled (pass : Password) (addr : SockaddrIn) (c c₁ : Conn) : Prop where
  crashed : c₁.crashed = c.crashed
  remotes : c₁.remotes = c.remotes + 1
  dialled : c₁.dialled = c.dialled ++ [addr]
  remoteBev : c₁.remoteBev = c.remoteBev
  life : c₁.ledger.life = Function.update c.ledger.life (.remote c.remotes) .live
  input : (c₁.bev .loc).input = (c.bev .loc).input.drop (socksBuf + socksBuf)
  output : (c₁.bev .loc).output = (c.bev .loc).output ++ replyAuth.map pass.lookup
  gone : (c₁.bev .loc).gone = (c.bev .loc).gone
  hungUp : (c₁.bev .loc).hungUp = (c.bev .loc).hungUp
  fresh : c₁.bev (.remote c.remotes) = Bev.fresh
  other : ∀ i, i ≠ c.remotes → c₁.bev (.remote i) = c.bev (.remote i)
  log : c.ledger.log <+: c₁.ledger.log
  clean : c.ledger.Clean Op.guarded → c₁.ledger.Clean Op.guarded
  counted : c.ledger.Counted .free → c₁.ledger.Counted .free

theorem dialled_of_opened {pass : Password} {addr : SockaddrIn} {c c₁ : Conn} {s : Bevs Handle}
    (hgreets : Greets (firstChunk pass (c.bev .loc).input)) (hloc : c.Live .loc)
    (hnew : c.ledger.life (.remote c.remotes) = .unborn)
    (hframe : Bevs.Frame .loc .loc c.toBevs s)
    (hview : s.queues .loc .loc = parsed pass (c.queues .loc .loc))
    (hopen : Opened addr { c with toBevs := s } c₁) : Dialled pass addr c c₁ := by
  have hlife : c₁.ledger.life = Function.update c.ledger.life (.remote c.remotes) .live := by
    rw [hopen.ledger.life, Ledger.life_create, hframe.ledger.life]
  have hbev : ∀ h, h ≠ .remote c.remotes → c₁.bev h = s.bev h := by
    intro h hne
    rw [hopen.bev]
    exact Function.update_of_ne hne _ _
  have hlocbev : c₁.bev .loc = s.bev .loc := hbev .loc (by simp)
  refine ⟨hopen.crashed, hopen.remotes, hopen.dialled, hopen.remoteBev, hlife, ?_, ?_, ?_, ?_, ?_,
    ?_, ?_, ?_, ?_⟩
  · rw [hlocbev]
    exact (congrArg Queues.src hview).trans (src_parsed hgreets)
  · rw [hlocbev, output_of_parsed hview, if_pos hgreets]
  · rw [hlocbev, hframe.gone]
  · rw [hlocbev, hframe.hungUp]
  · rw [hopen.bev]
    exact Function.update_self ..
  · intro i hi
    rw [hbev _ (by simp [hi])]
    exact hframe.bev_of_ne (by simp) (by simp)
  · exact hframe.ledger.prefix_log.trans hopen.ledger.prefix_log
  · intro hc
    have hs := Bevs.clean_of_through (touched_of_parse hframe) (by simpa using hloc) hc
    refine hopen.ledger.clean ((Ledger.clean_create ..).mpr hs) ?_
    rintro k p ⟨_, x, hx, rfl⟩
    rw [List.mem_singleton.mp hx, Ledger.valid_handle, Ledger.life_create]
    exact Function.update_self ..
  · intro hc
    have hs := Bevs.counted_of_through (touched_of_parse hframe) hc
    have hborn : s.ledger.life (.remote c.remotes) = .unborn := by
      rw [hframe.ledger.life]
      exact hnew
    exact hopen.ledger.counted (hs.create hborn) fun _ hA => hA.1 rfl

/-- What was live still is. -/
theorem Dialled.live_of_ne {pass : Password} {addr : SockaddrIn} {c c₁ : Conn} {x : Handle}
    (h : Dialled pass addr c c₁) (hx : x ≠ .remote c.remotes) (hlive : c.Live x) :
    c₁.Live x := by
  rw [Bevs.Live, h.life, Function.update_of_ne hx]
  exact hlive

theorem Dialled.live_remote {pass : Password} {addr : SockaddrIn} {c c₁ : Conn}
    (h : Dialled pass addr c c₁) : c₁.Live (.remote c.remotes) := by
  rw [Bevs.Live, h.life]
  exact Function.update_self ..

/-- Releasing the new bufferevent forgets that it was live. -/
theorem lives_of_closed {r : Handle} (hr : r ≠ .loc) (life : Handle → Life) :
    Function.update (Function.update (Function.update life r .live) .loc .released) r .released =
      Function.update (Function.update life .loc .released) r .released := by
  rw [Function.update_comm hr, Function.update_idem]

theorem effect_dialFailed {host : Host} {pass : Password} {o : Outcome} {c c₁ : Conn}
    (hr : localRun host pass o (c.bev .loc).input = .dialFailed) (hloc : c.Live .loc)
    (hgreets : Greets (firstChunk pass (c.bev .loc).input))
    (h : Dialled pass (dialAddr host pass (c.bev .loc).input) c c₁) :
    LocalEffect host pass o c
      (c₁.closeBoth (.handle .loc) (.handle (.remote c.remotes))) := by
  have hclosed := Bevs.closed_clearFree (h.live_of_ne (by simp) hloc) h.live_remote
    (by simp : Handle.remote c.remotes ≠ .loc)
  constructor
  case crashed => simp [hr, Conn.closeBoth, h.crashed]
  case remotes => simp [hr, Conn.closeBoth, LocalRun.dials, h.remotes]
  case dialled => simp [hr, Conn.closeBoth, LocalRun.dials, h.dialled]
  case remoteBev => simp [hr, Conn.closeBoth, LocalRun.replies, h.remoteBev]
  case life =>
    simp only [hr, LocalRun.lives]
    refine hclosed.life.trans ?_
    rw [h.life, lives_of_closed (by simp)]
  case output => simp [Conn.closeBoth, h.output, replies, hr, hgreets, LocalRun.replies]
  case payload => simp [hr]
  case gone => exact h.gone
  case hungUp => exact h.hungUp
  case fresh => simp [Conn.closeBoth, h.fresh, Bev.fresh]
  case other => exact h.other
  case log => exact h.log.trans hclosed.log
  case clean => exact fun _ _ hc => hclosed.clean (h.clean hc)
  case dirty => simp [hr]
  case counted => exact fun hc => hclosed.counted (h.counted hc)

/-- The connection after the success reply and the copy, still open. -/
theorem effect_relays {host : Host} {pass : Password} {o : Outcome} {c c₁ : Conn}
    {t : Bevs Handle} (hr : localRun host pass o (c.bev .loc).input = .relays)
    (hloc : c.Live .loc) (hgreets : Greets (firstChunk pass (c.bev .loc).input))
    (h : Dialled pass (dialAddr host pass (c.bev .loc).input) c c₁)
    (ht : Transmitted pass (.remote c.remotes) c₁.toBevs t) :
    LocalEffect host pass o c
      { c₁ with remoteBev := .handle (.remote c.remotes), toBevs := t } := by
  constructor
  case crashed => simp [hr, h.crashed]
  case remotes => simp [hr, LocalRun.dials, h.remotes]
  case dialled => simp [hr, LocalRun.dials, h.dialled]
  case remoteBev => simp [hr, LocalRun.replies]
  case life => simp only [hr, LocalRun.lives, ht.ledger.life, h.life]
  case output => simp [ht.reply, h.output, replies, hr, hgreets, LocalRun.replies]
  case payload =>
    intro _
    refine ⟨ht.empty, ?_⟩
    rw [ht.payload, h.fresh, h.input]
    rfl
  case gone => exact (ht.gone _).trans h.gone
  case hungUp => exact (ht.hungUp _).trans h.hungUp
  case fresh =>
    intro _
    rw [ht.input, ht.gone, ht.hungUp, h.fresh]
    exact ⟨rfl, rfl, rfl⟩
  case other =>
    intro i hi
    exact (ht.other _ (by simp) (by simp [hi])).trans (h.other i hi)
  case log => exact h.log.trans ht.ledger.prefix_log
  case clean =>
    intro _ hctx hc
    refine Bevs.clean_of_through ht.ledger ?_ (h.clean hc)
    simpa using ⟨h.live_of_ne (by simp) hloc, h.live_of_ne (by simp) hctx, h.live_remote⟩
  case dirty => simp [hr]
  case counted => exact fun hc => Bevs.counted_of_through ht.ledger (h.counted hc)

/-- Nothing is left to send, so that both bufferevents are released behind the reply. -/
theorem effect_starved {host : Host} {pass : Password} {o : Outcome} {c c₁ : Conn}
    {t : Bevs Handle} (hr : localRun host pass o (c.bev .loc).input = .starved)
    (hloc : c.Live .loc) (hgreets : Greets (firstChunk pass (c.bev .loc).input))
    (h : Dialled pass (dialAddr host pass (c.bev .loc).input) c c₁)
    (ht : Transmitted pass (.remote c.remotes) c₁.toBevs t) :
    LocalEffect host pass o c
      ({ c₁ with remoteBev := .handle (.remote c.remotes), toBevs := t }.closeBoth
        (.handle .loc) (.handle (.remote c.remotes))) := by
  have hlive : ∀ x, c₁.Live x → t.Live x := fun x hx => by
    rw [Bevs.Live, ht.ledger.life]
    exact hx
  have hclosed := Bevs.closed_clearFree (hlive _ (h.live_of_ne (by simp) hloc))
    (hlive _ h.live_remote) (by simp : Handle.remote c.remotes ≠ .loc)
  constructor
  case crashed => simp [hr, Conn.closeBoth, h.crashed]
  case remotes => simp [hr, Conn.closeBoth, LocalRun.dials, h.remotes]
  case dialled => simp [hr, Conn.closeBoth, LocalRun.dials, h.dialled]
  case remoteBev => simp [hr, Conn.closeBoth, LocalRun.replies]
  case life =>
    simp only [hr, LocalRun.lives]
    refine hclosed.life.trans ?_
    rw [ht.ledger.life, h.life, lives_of_closed (by simp)]
  case output => simp [Conn.closeBoth, ht.reply, h.output, replies, hr, hgreets, LocalRun.replies]
  case payload => simp [hr]
  case gone => exact (ht.gone _).trans h.gone
  case hungUp => exact (ht.hungUp _).trans h.hungUp
  case fresh => simp [Conn.closeBoth, ht.input, ht.gone, ht.hungUp, h.fresh, Bev.fresh]
  case other =>
    intro i hi
    exact (ht.other _ (by simp) (by simp [hi])).trans (h.other i hi)
  case log => exact (h.log.trans ht.ledger.prefix_log).trans hclosed.log
  case clean =>
    intro _ hctx hc
    refine hclosed.clean (Bevs.clean_of_through ht.ledger ?_ (h.clean hc))
    simpa using ⟨h.live_of_ne (by simp) hloc, h.live_of_ne (by simp) hctx, h.live_remote⟩
  case dirty => simp [hr]
  case counted =>
    exact fun hc => hclosed.counted (Bevs.counted_of_through ht.ledger (h.counted hc))

/-- **One run of `local_readcb`** on a live bufferevent. -/
theorem localReadcb_effect (host : Host) (pass : Password) (o : Outcome) {c : Conn}
    (hloc : c.Live .loc) (hnew : c.ledger.life (.remote c.remotes) = .unborn) :
    LocalEffect host pass o c (localReadcb host pass o c) := by
  obtain ⟨s, hframe, hview, hfault, hreject, hdials⟩ := localReadcb_cases host pass o c
  by_cases hf : Faults host (firstChunk pass (c.bev .loc).input)
    (secondChunk pass (c.bev .loc).input)
  · have hr := localRun_eq_fault_iff (o := o).mpr hf
    rw [hfault hr]
    exact effect_fault hr hloc hframe hview
  by_cases ha : Accepts (firstChunk pass (c.bev .loc).input)
    (secondChunk pass (c.bev .loc).input)
  · have hr := localRun_of_accepts host o ha
    obtain ⟨c₁, hopen, hdial⟩ := dial_cases pass o (dialAddr host pass (c.bev .loc).input)
      { c with toBevs := s }
    have h := dialled_of_opened ha.1 hloc hnew hframe hview hopen
    have hempty : (c₁.bev .loc).input = [] ↔
        (c.bev .loc).input.length ≤ socksBuf + socksBuf := by
      rw [h.input, List.drop_eq_nil_iff]
    obtain ⟨t, ht, htransmit⟩ := startTransmit_cases pass
      (by simp : Handle.remote c.remotes ≠ .loc) c₁
    rw [hdials (localRun_dials_iff.mpr ha), hdial]
    by_cases hfail : o.connectRc = -1 ∨ o.setsockoptRc ≠ 0
    · rw [if_pos hfail] at hr ⊢
      exact effect_dialFailed hr hloc ha.1 h
    · rw [if_neg hfail] at hr ⊢
      by_cases hlen : (c.bev .loc).input.length ≤ socksBuf + socksBuf
      · rw [if_pos hlen] at hr
        rw [htransmit, if_pos (hempty.mpr hlen)]
        exact effect_starved hr hloc ha.1 h ht
      · rw [if_neg hlen] at hr
        rw [htransmit, if_neg (fun he => hlen (hempty.mp he))]
        exact effect_relays hr hloc ha.1 h ht
  · have hr := localRun_eq_reject_iff (o := o).mpr ⟨hf, ha⟩
    rw [hreject hr]
    exact effect_reject hr hloc hframe hview

/-! ## What a run of `remote_readcb` can do -/

/-- All that a run of `remote_readcb` on `remote i` changes. -/
structure RemoteEffect (pass : Password) (i : Nat) (c c' : Conn) : Prop where
  crashed : c'.crashed = c.crashed
  remotes : c'.remotes = c.remotes
  dialled : c'.dialled = c.dialled
  remoteBev : c'.remoteBev = c.remoteBev
  output : (c'.bev .loc).output =
    (c.bev .loc).output ++ (c.bev (.remote i)).input.map pass.lookup
  input : (c'.bev .loc).input = (c.bev .loc).input
  taken : (c'.bev (.remote i)).input = []
  kept : (c'.bev (.remote i)).output = (c.bev (.remote i)).output
  other : ∀ h, h ≠ .loc → h ≠ .remote i → c'.bev h = c.bev h
  gone : ∀ h, (c'.bev h).gone = (c.bev h).gone
  hungUp : ∀ h, (c'.bev h).hungUp = (c.bev h).hungUp
  log : c.ledger.log <+: c'.ledger.log
  relayed : (c.bev (.remote i)).input ≠ [] →
    c.ledger.Touched (Bevs.Through [.loc, .ctx, .remote i]) c'.ledger
  closed : (c.bev (.remote i)).input = [] → ∃ s : Bevs Handle,
    c.ledger.Touched (Bevs.Through [.loc, .ctx, .remote i]) s.ledger ∧
      c'.toBevs = (s.clearFree (.handle .loc)).clearFree (.handle (.remote i))

/-- **One run of `remote_readcb`.** -/
theorem remoteReadcb_effect (pass : Password) (i : Nat) (c : Conn) :
    RemoteEffect pass i c (remoteReadcb pass i c) := by
  obtain ⟨t, hcopy, hview, hframe⟩ := Bevs.runCopy_encode pass .loc (.remote i)
    (c.toBevs.call .context (.handle .ctx))
  have htouch : c.ledger.Touched (Bevs.Through [.loc, .ctx, .remote i]) t.ledger :=
    ((Ledger.Touched.refl _).use ⟨by decide, .ctx, by simp, rfl⟩).trans
      (hframe.through (by simp) (by simp))
  have htouch' : c.ledger.Touched (Bevs.Through [.loc, .ctx, .remote i])
      (t.call .context (.handle .ctx)).ledger := htouch.use ⟨by decide, .ctx, by simp, rfl⟩
  have hrun : remoteReadcb pass i c =
      if (c.bev (.remote i)).input = [] then
        { c with toBevs := t.call .context (.handle .ctx) }.closeBoth (.handle .loc)
          (.handle (.remote i))
      else { c with toBevs := t } := by
    rw [remoteReadcb, hcopy]
    by_cases he : (c.bev (.remote i)).input = []
    · simp [he]
    · simp [he]
  have hout : (t.bev .loc).output = (c.bev .loc).output ++ _ := congrArg Queues.dst hview
  have hin : (t.bev (.remote i)).input = [] := congrArg Queues.src hview
  by_cases he : (c.bev (.remote i)).input = []
  · rw [hrun, if_pos he]
    exact {
      crashed := rfl
      remotes := rfl
      dialled := rfl
      remoteBev := rfl
      output := hout
      input := hframe.input _ (by simp)
      taken := hin
      kept := hframe.output _ (by simp)
      other := fun h hl hr => hframe.bev_of_ne hl hr
      gone := hframe.gone
      hungUp := hframe.hungUp
      log := htouch'.prefix_log.trans
        ((Bevs.prefix_log_clearFree _ _).trans (Bevs.prefix_log_clearFree _ _))
      relayed := absurd he
      closed := fun _ => ⟨_, htouch', rfl⟩ }
  · rw [hrun, if_neg he]
    exact {
      crashed := rfl
      remotes := rfl
      dialled := rfl
      remoteBev := rfl
      output := hout
      input := hframe.input _ (by simp)
      taken := hin
      kept := hframe.output _ (by simp)
      other := fun h hl hr => hframe.bev_of_ne hl hr
      gone := hframe.gone
      hungUp := hframe.hungUp
      log := htouch.prefix_log
      relayed := fun _ => htouch
      closed := fun h => absurd h he }

end Lightsocks.Server
