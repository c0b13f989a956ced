import Lightsocks.Server.Invariant
import Lightsocks.Client

/-
  Accepted connections that fail while they are set up.

  In both programs one label `error` serves every failure in `local_listener_cb`. A jump from the
  first two calls gets there before anything is created: the descriptor that was accepted is
  closed by nobody, and the cleanup goes through variables that were never assigned. In the client
  a jump from the last two gets there when everything is created, and releases the two
  bufferevents, but not the context.

  `Listening` is what the two programs have in common: connections are accepted, with any outcome
  of the calls, and go on in any order. Every accept that fails leaves one resource behind
  (`owns_of_fails`), so that nothing is left behind exactly in the runs where none fails
  (`failed_accepts_iff`).
-/

namespace Lightsocks

open Lib

/-- A program that accepts connections. -/
structure Listening (O S D H : Type) where
  /-- `local_listener_cb`: the new connection. -/
  accept : O → S
  /-- The run takes its error exit. -/
  Fails : O → Prop
  /-- A delivery to a connection. -/
  step : S → D → Option S
  bevs : S → Bevs H
  /-- The bufferevent that takes the accepted descriptor over. -/
  loc : H
  /-- The program has ended. -/
  ended : S → Bool

/-- What a connection can own: the descriptor that was accepted, or a handle. -/
inductive Resource (H : Type) where
  | fd
  | handle (h : H)
  deriving DecidableEq

/-- What happens to a program: `listener` reports a connection, or something is delivered to one
    of them. -/
inductive ListenEvent (O D : Type) where
  | accept (o : O)
  | act (i : Nat) (d : D)
  deriving DecidableEq

namespace Listening

variable {O S D H : Type} (L : Listening O S D H)

/-- The connection owns the resource. The accepted descriptor is closed with the bufferevent that
    took it over (`BEV_OPT_CLOSE_ON_FREE`), and by nothing else. -/
def Owns (s : S) : Resource H → Prop
  | .fd => ¬ (L.bevs s).Released L.loc
  | .handle h => (L.bevs s).Live h

/-- The live descriptors, contexts and bufferevents, each with the number of its connection. -/
def live (conns : List S) : Set (Nat × Resource H) :=
  {r | ∃ s, conns[r.1]? = some s ∧ L.Owns s r.2}

/-- One event. -/
def listenStep (conns : List S) (e : ListenEvent O D) : Option (List S) :=
  if conns.any L.ended then none
  else
    match e with
    | .accept o => some (conns ++ [L.accept o])
    | .act i d => (conns[i]?.bind fun s => L.step s d).map fun t => conns.set i t

/-- From `conns` to `conns'` one connection was accepted, and nothing is left of it: the live
    resources are those of before, every call in the run went through a handle that it had
    created, and the other connections are as they were. -/
structure LeavesNothing (conns conns' : List S) : Prop where
  live : L.live conns' = L.live conns
  calls : ∀ s, conns'[conns.length]? = some s → (L.bevs s).ledger.Clean fun _ => true
  others : ∀ i < conns.length, conns'[i]? = conns[i]?

/-- If the event is an accept that fails, then it leaves nothing behind. -/
def CleansUp (conns : List S) (e : ListenEvent O D) : Prop :=
  ∀ o, e = .accept o → L.Fails o →
    ∀ conns', L.listenStep conns e = some conns' → L.LeavesNothing conns conns'

/-- The event is not an accept that fails. -/
def Succeeds (_ : List S) (e : ListenEvent O D) : Prop := ∀ o, e = .accept o → ¬ L.Fails o

variable {L}

theorem listenStep_accept {conns conns' : List S} {o : O}
    (h : L.listenStep conns (.accept o) = some conns') : conns' = conns ++ [L.accept o] := by
  unfold listenStep at h
  split at h
  · exact absurd h (by simp)
  · exact (Option.some.inj h).symm

/-- A new connection owns what it owns, and the others what they did. -/
theorem live_append (conns : List S) (s : S) :
    L.live (conns ++ [s]) = L.live conns ∪ {r | r.1 = conns.length ∧ L.Owns s r.2} := by
  ext r
  obtain ⟨i, x⟩ := r
  constructor
  · intro h
    obtain ⟨t, ht, hx⟩ := h
    rcases Nat.lt_trichotomy i conns.length with hlt | heq | hgt
    · rw [List.getElem?_append_left hlt] at ht
      exact Or.inl ⟨t, ht, hx⟩
    · have hlast : (conns ++ [s])[i]? = some s := by rw [heq, List.getElem?_concat_length]
      rw [Option.some.inj (ht.symm.trans hlast)] at hx
      exact Or.inr ⟨heq, hx⟩
    · have hnone : (conns ++ [s])[i]? = none := by
        rw [List.getElem?_eq_none_iff, List.length_append, List.length_singleton]
        exact hgt
      rw [hnone] at ht
      exact absurd ht (by simp)
  · intro h
    rcases h with hold | hnew
    · obtain ⟨t, ht, hx⟩ := hold
      have hlt : i < conns.length := (List.getElem?_eq_some_iff.mp ht).1
      exact ⟨t, (List.getElem?_append_left hlt).trans ht, hx⟩
    · obtain ⟨heq, hx⟩ := hnew
      refine ⟨s, ?_, hx⟩
      show (conns ++ [s])[i]? = some s
      rw [show i = conns.length from heq, List.getElem?_concat_length]

/-- An accept after which the new connection owns something has left that behind. -/
theorem not_leavesNothing {conns : List S} {o : O} {x : Resource H}
    (hx : L.Owns (L.accept o) x) :
    ¬ L.LeavesNothing conns (conns ++ [L.accept o]) := by
  intro h
  have hnew : (conns.length, x) ∈ L.live (conns ++ [L.accept o]) := by
    rw [live_append]
    exact Or.inr ⟨rfl, hx⟩
  rw [h.live] at hnew
  obtain ⟨t, ht, -⟩ := hnew
  rw [List.getElem?_eq_none le_rfl] at ht
  exact absurd ht (by simp)

/-- Before any handle is created, a connection owns the accepted descriptor only. -/
theorem owns_iff_of_unborn {s : S} (h : ∀ y, (L.bevs s).ledger.life y = .unborn)
    (x : Resource H) : L.Owns s x ↔ x = .fd := by
  cases x with
  | fd =>
      refine ⟨fun _ => rfl, fun _ hreleased => ?_⟩
      exact absurd ((h L.loc).symm.trans hreleased) (by decide)
  | handle y =>
      refine ⟨fun hlive => ?_, fun hx => absurd hx (by simp)⟩
      exact absurd ((h y).symm.trans hlive) (by decide)

/-- With the descriptor closed, a connection owns its live handles. -/
theorem owns_iff_of_released {s : S} (hloc : (L.bevs s).Released L.loc) {z : H}
    (h : ∀ y, (L.bevs s).Live y ↔ y = z) (x : Resource H) : L.Owns s x ↔ x = .handle z := by
  cases x with
  | fd => exact ⟨fun hopen => absurd hloc hopen, fun hx => absurd hx (by simp)⟩
  | handle y =>
      rw [Resource.handle.injEq]
      exact h y

theorem live_singleton {s : S} {x : Resource H} (h : ∀ y, L.Owns s y ↔ y = x) :
    L.live [s] = {(0, x)} := by
  have happend := live_append (L := L) [] s
  have hnil : L.live [] = ∅ := by
    apply Set.eq_empty_of_forall_notMem
    intro r hr
    obtain ⟨t, ht, -⟩ := hr
    exact absurd ht (by simp)
  rw [List.nil_append, hnil, Set.empty_union] at happend
  rw [happend]
  ext r
  obtain ⟨i, y⟩ := r
  show i = 0 ∧ L.Owns s y ↔ (i, y) = (0, x)
  rw [h, Prod.mk.injEq]

/-- One accept that fails. -/
theorem not_each_cleansUp {o : O} (hfails : L.Fails o) {x : Resource H}
    (hx : L.Owns (L.accept o) x) : ¬ Each L.listenStep L.CleansUp [] [.accept o] := by
  intro h
  have hstep : L.listenStep [] (.accept o) = some ([] ++ [L.accept o]) := rfl
  obtain ⟨hclean, -⟩ := h _ hstep
  exact not_leavesNothing hx (hclean o rfl hfails _ hstep)

/-- Where every accept that fails leaves something behind, the runs that leave nothing behind are
    those in which none fails. -/
theorem each_cleansUp_iff (hleft : ∀ o, L.Fails o → ∃ x, L.Owns (L.accept o) x)
    (events : List (ListenEvent O D)) :
    Each L.listenStep L.CleansUp [] events ↔ Each L.listenStep L.Succeeds [] events := by
  apply each_congr (I := fun _ => True) (fun _ _ _ _ _ => trivial) _ trivial
  intro conns e conns' _ hstep
  constructor
  · intro h o he hfails
    have hnothing := h o he hfails conns' hstep
    rw [he] at hstep
    obtain ⟨x, hx⟩ := hleft o hfails
    rw [listenStep_accept hstep] at hnothing
    exact not_leavesNothing hx hnothing
  · intro h o he hfails
    exact absurd hfails (h o he)

end Listening

/-! ## The client -/

namespace Client

/-- The run of `local_listener_cb` jumps to `error`. -/
def Outcome.Fails (o : Outcome) : Prop :=
  o.nonblockingRc ≠ 0 ∨ o.setsockoptRc ≠ 0 ∨ o.connectRc = -1 ∨ o.remoteSetsockoptRc ≠ 0

/-- The client. -/
def listening (ss : SecureSocket) : Listening Outcome Pair Delivery Handle where
  accept := localListenerCb
  Fails := Outcome.Fails
  step := step ss
  bevs s := s
  loc := .loc
  ended _ := false

/-- A run that does not fail sets the whole connection up. -/
theorem localListenerCb_of_not_fails {o : Outcome} (h : ¬ o.Fails) :
    localListenerCb o = accepted := by
  obtain ⟨hfirst, hrest⟩ := not_or.mp h
  obtain ⟨hsecond, hrest⟩ := not_or.mp hrest
  obtain ⟨hconnect, hlinger⟩ := not_or.mp hrest
  have hearly : ¬ (o.nonblockingRc ≠ 0 ∨ o.setsockoptRc ≠ 0) := not_or.mpr ⟨hfirst, hsecond⟩
  unfold localListenerCb
  rw [if_neg hearly]
  dsimp only
  rw [if_neg hconnect, if_neg hlinger]
  rfl

/-- A failure of one of the first two calls leaves the descriptor open. -/
theorem owns_of_early {o : Outcome} (h : o.nonblockingRc ≠ 0 ∨ o.setsockoptRc ≠ 0)
    (ss : SecureSocket) (x : Resource Handle) :
    (listening ss).Owns (localListenerCb o) x ↔ x = .fd := by
  have hrun : localListenerCb o = closeBoth .indeterminate .indeterminate Bevs.empty := if_pos h
  rw [hrun]
  exact Listening.owns_iff_of_unborn (fun _ => rfl) x

/-- A failure of one of the last two releases all but the context. -/
theorem owns_of_late {o : Outcome} (h : ¬ (o.nonblockingRc ≠ 0 ∨ o.setsockoptRc ≠ 0))
    (hlate : o.connectRc = -1 ∨ o.remoteSetsockoptRc ≠ 0) (ss : SecureSocket)
    (x : Resource Handle) :
    (listening ss).Owns (localListenerCb o) x ↔ x = .handle .ctx := by
  have hlife : ∀ y, (localListenerCb o).ledger.life y =
      if y = .ctx then .live else .released := by
    intro y
    unfold localListenerCb
    rw [if_neg h]
    dsimp only
    by_cases hconnect : o.connectRc = -1
    · rw [if_pos hconnect]
      cases y <;> rfl
    · rw [if_neg hconnect, if_pos (hlate.resolve_left hconnect)]
      cases y <;> rfl
  have hloc : (localListenerCb o).Released .loc := (hlife .loc).trans rfl
  have hlive : ∀ y, (localListenerCb o).Live y ↔ y = .ctx := by
    intro y
    rw [Bevs.Live, hlife]
    split
    · rename_i hy
      exact ⟨fun _ => hy, fun _ => rfl⟩
    · rename_i hy
      exact ⟨fun hl => absurd hl (by decide), fun hctx => absurd hctx hy⟩
  exact Listening.owns_iff_of_released (L := listening ss) hloc hlive x

/-- Every failure leaves one resource behind. -/
theorem owns_of_fails {o : Outcome} (h : o.Fails) (ss : SecureSocket) :
    ∃ x, ∀ y, (listening ss).Owns (localListenerCb o) y ↔ y = x := by
  by_cases hearly : o.nonblockingRc ≠ 0 ∨ o.setsockoptRc ≠ 0
  · exact ⟨.fd, owns_of_early hearly ss⟩
  · obtain ⟨hfirst, hsecond⟩ := not_or.mp hearly
    have hlate : o.connectRc = -1 ∨ o.remoteSetsockoptRc ≠ 0 :=
      (h.resolve_left hfirst).resolve_left hsecond
    exact ⟨.handle .ctx, owns_of_late hearly hlate ss⟩

end Client

/-! ## The server -/

namespace Server

/-- The system calls of one `local_listener_cb` run that may fail. -/
structure ListenOutcome where
  nonblockingRc : Int
  setsockoptRc : Int

/-- The run of `local_listener_cb` jumps to `error`. -/
def ListenOutcome.Fails (o : ListenOutcome) : Prop := o.nonblockingRc ≠ 0 ∨ o.setsockoptRc ≠ 0

/-- The server. -/
def listening (host : Host) (globalPassword : Password) :
    Listening ListenOutcome Conn Delivery Handle where
  accept o := localListenerCb o.nonblockingRc o.setsockoptRc
  Fails := ListenOutcome.Fails
  step := step host globalPassword
  bevs c := c.toBevs
  loc := .loc
  ended c := c.crashed

/-- A run that does not fail sets the whole connection up. -/
theorem localListenerCb_of_not_fails {o : ListenOutcome} (h : ¬ o.Fails) :
    localListenerCb o.nonblockingRc o.setsockoptRc = accepted := if_neg h

/-- Every failure leaves the descriptor open. -/
theorem owns_of_fails {o : ListenOutcome} (h : o.Fails) (host : Host) (pass : Password)
    (x : Resource Handle) :
    (listening host pass).Owns (localListenerCb o.nonblockingRc o.setsockoptRc) x ↔ x = .fd := by
  have hrun : localListenerCb o.nonblockingRc o.setsockoptRc =
      ⟨(Bevs.empty.clearFree .indeterminate).free .indeterminate, 0, [], .null, false⟩ := if_pos h
  rw [hrun]
  exact Listening.owns_iff_of_unborn (fun _ => rfl) x

end Server

/-! ## Both programs -/

/-- **Failed accepts.** For every sequence of connections, with any outcomes of the calls that set
    them up and anything delivered to them in between: no accept that fails leaves anything
    behind, or touches what it has not created, exactly if no accept fails. So it is in the client
    and in the server. -/
theorem failed_accepts_iff (ss : SecureSocket) (host : Host) (pass : Password) :
    (∀ events, Each (Client.listening ss).listenStep (Client.listening ss).CleansUp [] events ↔
      Each (Client.listening ss).listenStep (Client.listening ss).Succeeds [] events) ∧
    ∀ events, Each (Server.listening host pass).listenStep
        (Server.listening host pass).CleansUp [] events ↔
      Each (Server.listening host pass).listenStep
        (Server.listening host pass).Succeeds [] events := by
  constructor
  · apply Listening.each_cleansUp_iff
    intro o hfails
    obtain ⟨x, hx⟩ := Client.owns_of_fails hfails ss
    exact ⟨x, (hx x).mpr rfl⟩
  · apply Listening.each_cleansUp_iff
    intro o hfails
    exact ⟨.fd, (Server.owns_of_fails hfails host pass .fd).mpr rfl⟩

/-- The client is refused by its server: the context stays. The server cannot set an option of the
    new descriptor: it stays open, and two variables are released that were never assigned. -/
theorem refused_connect_leaks_context :
    ((Client.listening ⟨some identityPassword⟩).live [Client.localListenerCb ⟨0, 0, -1, 0⟩] =
        {(0, .handle .ctx)} ∧
      ¬ Each (Client.listening ⟨some identityPassword⟩).listenStep
        (Client.listening ⟨some identityPassword⟩).CleansUp [] [.accept ⟨0, 0, -1, 0⟩]) ∧
    (Server.listening plainHost identityPassword).live [Server.localListenerCb 0 (-1)] =
        {(0, .fd)} ∧
      (Server.localListenerCb 0 (-1)).ledger.log = [⟨.setcb, .indeterminate, false⟩,
        ⟨.free, .indeterminate, false⟩, ⟨.free, .indeterminate, false⟩] ∧
      ¬ Each (Server.listening plainHost identityPassword).listenStep
        (Server.listening plainHost identityPassword).CleansUp [] [.accept ⟨0, -1⟩] := by
  have hclient : ∀ x, (Client.listening ⟨some identityPassword⟩).Owns
      (Client.localListenerCb ⟨0, 0, -1, 0⟩) x ↔ x = .handle .ctx :=
    Client.owns_of_late (by decide) (by decide) _
  have hserver : ∀ x, (Server.listening plainHost identityPassword).Owns
      (Server.localListenerCb 0 (-1)) x ↔ x = .fd :=
    Server.owns_of_fails (o := ⟨0, -1⟩) (Or.inr (by decide)) _ _
  refine ⟨⟨Listening.live_singleton hclient, ?_⟩, Listening.live_singleton hserver, rfl, ?_⟩
  · have hfails : (Client.Outcome.mk 0 0 (-1) 0).Fails := Or.inr (Or.inr (Or.inl rfl))
    exact Listening.not_each_cleansUp (L := Client.listening ⟨some identityPassword⟩) hfails
      ((hclient _).mpr rfl)
  · have hfails : (Server.ListenOutcome.mk 0 (-1)).Fails := Or.inr (by decide)
    exact Listening.not_each_cleansUp (L := Server.listening plainHost identityPassword) hfails
      ((hserver _).mpr rfl)

end Lightsocks
