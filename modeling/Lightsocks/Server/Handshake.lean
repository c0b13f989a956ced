import Lightsocks.Server.Invariant

/-
  The SOCKS5 handshake over an arbitrarily cut stream.

  A client that speaks SOCKS5 sends its greeting, waits for the method reply and sends its
  request after that. `handshakeStep` lets it send the two messages, encoded, in segments of any
  length, and lets `local_readcb` run between any two of them.

  `local_readcb` reads the greeting and then, in the same run, what should be the request, when
  the client cannot have sent it. The second read finds nothing, the greeting that is still in
  the buffer is parsed as the request, and no greeting passes for one: with one method the
  command byte is right, but then the greeting ends before the byte of the address type. So the
  first run rejects the connection (`greeting_rejected`), whatever the cuts.
-/

namespace Lightsocks.Server

open Lib

/-- The methods of a greeting; one of them is `00`. -/
structure Methods where
  codes : List UInt8
  nonempty : codes ≠ []
  length_le : codes.length ≤ 255
  noAuth : 0x00 ∈ codes

/-- `05 k m₁ … mₖ`. -/
def Methods.greeting (m : Methods) : List UInt8 :=
  0x05 :: UInt8.ofNat m.codes.length :: m.codes

/-- The usual greeting, `05 01 00`. -/
def Methods.noAuthOnly : Methods := ⟨[0x00], by decide, by decide, by decide⟩

/-- The IPv4 target of a request. -/
structure Target where
  a : UInt8
  b : UInt8
  c : UInt8
  d : UInt8
  p₁ : UInt8
  p₂ : UInt8

/-- `05 01 00 01 a b c d p₁ p₂`. -/
def Target.request (t : Target) : List UInt8 :=
  [0x05, 0x01, 0x00, 0x01, t.a, t.b, t.c, t.d, t.p₁, t.p₂]

/-- `127.0.0.1:80`. -/
def Target.loopback : Target := ⟨127, 0, 0, 1, 0, 80⟩

/-- A connection and what its client has still to send. -/
structure Handshake where
  conn : Conn
  greeting : List UInt8
  request : List UInt8

/-- Nothing has been sent yet. -/
def Handshake.start (pass : Password) (m : Methods) (t : Target) : Handshake :=
  ⟨accepted, m.greeting.map pass.lookup, t.request.map pass.lookup⟩

inductive HandshakeAction where
  /-- A segment of `n` bytes arrives. -/
  | segment (n : Nat)
  /-- libevent runs `local_readcb`. -/
  | localReadcb (o : Outcome)
  /-- Up to `n` bytes reach the client. -/
  | drain (n : Nat)
  deriving DecidableEq

/-- The client has received the method reply. -/
def Handshake.Replied (pass : Password) (p : Handshake) : Prop :=
  replyAuth.map pass.lookup <+: (p.conn.bev .loc).gone

instance (pass : Password) (p : Handshake) : Decidable (p.Replied pass) :=
  inferInstanceAs (Decidable (_ <+: _))

/-- One step of the handshake. A segment is cut off the greeting as long as there is some, and
    off the request once the method reply is there; `local_readcb` runs when bytes have
    arrived. -/
def handshakeStep (host : Host) (pass : Password) (p : Handshake) :
    HandshakeAction → Option Handshake
  | .segment n =>
      if p.greeting ≠ [] then
        if n ≤ p.greeting.length then
          (step host pass p.conn (.arrive .loc (p.greeting.take n))).map fun c =>
            { p with conn := c, greeting := p.greeting.drop n }
        else none
      else if p.Replied pass ∧ n ≤ p.request.length then
        (step host pass p.conn (.arrive .loc (p.request.take n))).map fun c =>
          { p with conn := c, request := p.request.drop n }
      else none
  | .localReadcb o =>
      if (p.conn.bev .loc).input ≠ [] then
        (step host pass p.conn (.localReadcb o)).map fun c => { p with conn := c }
      else none
  | .drain n => (step host pass p.conn (.drain .loc n)).map fun c => { p with conn := c }

/-- What a handshake is to lead to: one method reply, one dial, of the address that was asked
    for, and a connection that is still there. -/
structure Handshake.Served (host : Host) (pass : Password) (t : Target) (p : Handshake) : Prop
    where
  reply : (p.conn.bev .loc).written = replyAuth.map pass.lookup ∨
    (p.conn.bev .loc).written = (replyAuth ++ socks5Reply).map pass.lookup
  dialled : ∃ addr : SockaddrIn, p.conn.dialled = [addr] ∧
    addr.Names host.order t.a t.b t.c t.d t.p₁ t.p₂
  kept : ¬ p.conn.Released .loc

/-! ## The first run rejects the connection -/

theorem length_greeting_le (m : Methods) : m.greeting.length ≤ socksBuf := by
  have h := m.length_le
  simp only [Methods.greeting, List.length_cons]
  show m.codes.length + 1 + 1 ≤ 257
  omega

/-- What is read of the greeting is a prefix of it, and nothing is left for the second read. -/
theorem chunks_of_greeting {pass : Password} (hpass : pass.IsPermutation) {m : Methods}
    {input rest : List UInt8} (h : input ++ rest = m.greeting.map pass.lookup) :
    firstChunk pass input <+: m.greeting ∧ secondChunk pass input = [] := by
  have hlen : input.length ≤ socksBuf := by
    have hl := congrArg List.length h
    have hg := length_greeting_le m
    rw [List.length_append, List.length_map] at hl
    omega
  refine ⟨⟨rest.map (decodePass pass).lookup, ?_⟩, ?_⟩
  · rw [firstChunk, List.take_of_length_le hlen, ← List.map_append, h, map_decode_encode hpass]
  · rw [secondChunk, List.drop_eq_nil_of_le hlen]
    rfl

/-- A greeting, or the start of one, that is parsed as the request behind itself is rejected. -/
theorem greeting_not_request {m : Methods} {d₁ : List UInt8} (h : d₁ <+: m.greeting)
    (hcmd : requestByte d₁ [] 1 = 0x01) : requestByte d₁ [] 3 = 0x00 := by
  have hone : requestByte d₁ [] 1 = d₁[1]?.getD 0 := rfl
  have hthree : requestByte d₁ [] 3 = d₁[3]?.getD 0 := rfl
  rw [hone] at hcmd
  rw [hthree]
  have hat : ∀ (j : Nat) (b : UInt8), d₁[j]? = some b → m.greeting[j]? = some b := by
    intro j b hb
    obtain ⟨rest, hrest⟩ := h
    rw [← hrest]
    obtain ⟨hj, _⟩ := List.getElem?_eq_some_iff.mp hb
    rw [List.getElem?_append_left hj, hb]
  -- one method, so that the greeting has three bytes
  have hk : m.codes.length = 1 := by
    cases hb : d₁[1]? with
    | none =>
        rw [hb] at hcmd
        cases hcmd
    | some b =>
        rw [hb, Option.getD_some] at hcmd
        have hg := hat 1 b hb
        rw [hcmd] at hg
        have he : UInt8.ofNat m.codes.length = 0x01 := Option.some.inj hg
        have hn := congrArg UInt8.toNat he
        have hle := m.length_le
        rw [UInt8.toNat_ofNat_of_lt' (by show m.codes.length < 256; omega)] at hn
        exact hn
  cases hb : d₁[3]? with
  | none => rfl
  | some b =>
      have hg := hat 3 b hb
      obtain ⟨hlt, _⟩ := List.getElem?_eq_some_iff.mp hg
      simp only [Methods.greeting, List.length_cons, hk] at hlt
      omega

theorem greeting_rejected (host : Host) {pass : Password} (hpass : pass.IsPermutation)
    {m : Methods} {input rest : List UInt8} (o : Outcome)
    (h : input ++ rest = m.greeting.map pass.lookup) :
    localRun host pass o input = .reject := by
  obtain ⟨hpre, hsecond⟩ := chunks_of_greeting hpass h
  rw [localRun_eq_reject_iff, hsecond]
  refine ⟨?_, ?_⟩
  · intro hfaults
    obtain ⟨-, hcmd, hatyp, -⟩ := hfaults
    rw [greeting_not_request hpre hcmd] at hatyp
    cases hatyp
  · intro hacc
    obtain ⟨-, hcmd, hatyp⟩ := hacc
    rw [greeting_not_request hpre hcmd] at hatyp
    cases hatyp

/-! ## All runs -/

/-- No run of `local_readcb` yet: what has arrived and what is still to come is the greeting,
    and nothing was written. -/
structure Handshake.Waiting (pass : Password) (m : Methods) (p : Handshake) : Prop where
  sound : Sound p.conn
  live : p.conn.Live .loc
  sent : (p.conn.bev .loc).input ++ p.greeting = m.greeting.map pass.lookup
  gone : (p.conn.bev .loc).gone = []
  output : (p.conn.bev .loc).output = []
  dialled : p.conn.dialled = []

/-- The client's bufferevent has been released, and nothing was dialled. -/
structure Handshake.Rejected (p : Handshake) : Prop where
  released : p.conn.Released .loc
  dialled : p.conn.dialled = []

theorem waiting_start (pass : Password) (m : Methods) (t : Target) :
    (Handshake.start pass m t).Waiting pass m where
  sound := sound_accepted
  live := rfl
  sent := rfl
  gone := rfl
  output := rfl
  dialled := rfl

/-- What a step of a handshake does to the connection. -/
theorem handshakeStep_cases {host : Host} {pass : Password} {p p' : Handshake}
    {act : HandshakeAction} (h : handshakeStep host pass p act = some p') :
    (∃ n, act = .segment n ∧ p.greeting ≠ [] ∧
      step host pass p.conn (.arrive .loc (p.greeting.take n)) = some p'.conn ∧
      p'.greeting = p.greeting.drop n) ∨
    (∃ n, act = .segment n ∧ p.Replied pass ∧
      step host pass p.conn (.arrive .loc (p.request.take n)) = some p'.conn) ∨
    (∃ o, act = .localReadcb o ∧ step host pass p.conn (.localReadcb o) = some p'.conn) ∨
    ∃ n, act = .drain n ∧ step host pass p.conn (.drain .loc n) = some p'.conn ∧
      p'.greeting = p.greeting := by
  cases act with
  | segment n =>
      rw [handshakeStep] at h
      split at h
      · rename_i hg
        split at h
        · obtain ⟨c, hc, rfl⟩ := Option.map_eq_some_iff.mp h
          exact Or.inl ⟨n, rfl, hg, hc, rfl⟩
        · exact absurd h (by simp)
      · split at h
        · rename_i hr
          obtain ⟨c, hc, rfl⟩ := Option.map_eq_some_iff.mp h
          exact Or.inr (Or.inl ⟨n, rfl, hr.1, hc⟩)
        · exact absurd h (by simp)
  | localReadcb o =>
      rw [handshakeStep] at h
      split at h
      · obtain ⟨c, hc, rfl⟩ := Option.map_eq_some_iff.mp h
        exact Or.inr (Or.inr (Or.inl ⟨o, rfl, hc⟩))
      · exact absurd h (by simp)
  | drain n =>
      rw [handshakeStep] at h
      obtain ⟨c, hc, rfl⟩ := Option.map_eq_some_iff.mp h
      exact Or.inr (Or.inr (Or.inr ⟨n, rfl, hc, rfl⟩))

/-- Segments keep the client waiting; the first run of `local_readcb` rejects it. -/
theorem waiting_step {host : Host} {pass : Password} (hpass : pass.IsPermutation) {m : Methods}
    {p p' : Handshake} {act : HandshakeAction} (h : p.Waiting pass m)
    (hstep : handshakeStep host pass p act = some p') :
    (p'.Waiting pass m ∧ ∀ o, act ≠ .localReadcb o) ∨ p'.Rejected := by
  rcases handshakeStep_cases hstep with ⟨n, rfl, -, hc, hg⟩ | ⟨n, rfl, hr, -⟩ | ⟨o, rfl, hc⟩ |
    ⟨n, rfl, hc, hg⟩
  · obtain ⟨-, hdeliver⟩ := step_eq_some.mp hc
    have hsound := sound_step h.sound hc
    rw [deliver] at hdeliver
    refine Or.inl ⟨⟨hsound, ?_, ?_, ?_, ?_, ?_⟩, by simp⟩
    all_goals rw [← hdeliver]
    · exact h.live
    · rw [Bevs.arrive, Bevs.bev_modify_self, hg, List.append_assoc, List.take_append_drop]
      exact h.sent
    · rw [Bevs.arrive, Bevs.bev_modify_self]
      exact h.gone
    · rw [Bevs.arrive, Bevs.bev_modify_self]
      exact h.output
    · exact h.dialled
  · -- the reply is written by `local_readcb`
    rw [Handshake.Replied, h.gone] at hr
    exact absurd (List.prefix_nil.mp hr) (by simp [replyAuth])
  · obtain ⟨-, hdeliver⟩ := step_eq_some.mp hc
    rw [deliver] at hdeliver
    have e := localReadcb_effect host pass o h.live (h.sound.fresh _ le_rfl)
    rw [hdeliver] at e
    have hr := greeting_rejected host hpass o h.sent
    refine Or.inr ⟨?_, ?_⟩
    · rw [Bevs.Released, e.life, hr]
      simp [LocalRun.lives]
    · rw [e.dialled, hr]
      exact h.dialled
  · obtain ⟨-, hdeliver⟩ := step_eq_some.mp hc
    have hsound := sound_step h.sound hc
    rw [deliver] at hdeliver
    refine Or.inl ⟨⟨hsound, ?_, ?_, ?_, ?_, ?_⟩, by simp⟩
    all_goals rw [← hdeliver]
    · exact h.live
    · rw [Bevs.drain, Bevs.bev_modify_self, hg]
      exact h.sent
    · rw [Bevs.drain, Bevs.bev_modify_self, h.output, h.gone]
      simp
    · rw [Bevs.drain, Bevs.bev_modify_self, h.output]
      simp
    · exact h.dialled

/-- A rejected client's handshake goes no further. -/
theorem rejected_step {host : Host} {pass : Password} {p p' : Handshake} {act : HandshakeAction}
    (h : p.Rejected) : handshakeStep host pass p act ≠ some p' := by
  intro hstep
  have dead : ∀ d : Delivery, d.target = .loc → step host pass p.conn d ≠ some p'.conn := by
    intro d hd hs
    have hlive := (step_eq_some.mp hs).1.2.2.1
    rw [hd, Bevs.Live, h.released] at hlive
    cases hlive
  rcases handshakeStep_cases hstep with ⟨n, -, -, hc, -⟩ | ⟨n, -, -, hc⟩ | ⟨o, -, hc⟩ |
    ⟨n, -, hc, -⟩
  all_goals exact dead _ rfl hc

theorem waiting_run {host : Host} {pass : Password} (hpass : pass.IsPermutation) {m : Methods}
    {p p' : Handshake} {acts : List HandshakeAction} (h : p.Waiting pass m)
    (hrun : run (handshakeStep host pass) p acts = some p') :
    (p'.Waiting pass m ∧ ∀ o, .localReadcb o ∉ acts) ∨ p'.Rejected := by
  induction acts generalizing p with
  | nil =>
      rw [← Option.some.inj hrun]
      exact Or.inl ⟨h, by simp⟩
  | cons act acts ih =>
      obtain ⟨q, hq, hrest⟩ := run_cons_eq_some.mp hrun
      rcases waiting_step hpass h hq with ⟨hw, hact⟩ | hr
      · rcases ih hw hrest with ⟨hw', hacts⟩ | hr'
        · refine Or.inl ⟨hw', fun o ho => ?_⟩
          rcases List.mem_cons.mp ho with he | hm
          · exact hact o he.symm
          · exact hacts o hm
        · exact Or.inr hr'
      · cases acts with
        | nil =>
            rw [← Option.some.inj hrest]
            exact Or.inr hr
        | cons act' acts' =>
            obtain ⟨q', hq', _⟩ := run_cons_eq_some.mp hrest
            exact absurd hq' (rejected_step hr)

/-- A handshake of which nothing was dialled is not served. -/
theorem not_served_of_not_dialled {host : Host} {pass : Password} {t : Target} {p : Handshake}
    (h : p.conn.dialled = []) : ¬ p.Served host pass t := by
  intro hs
  obtain ⟨addr, haddr, -⟩ := hs.dialled
  rw [h] at haddr
  exact absurd haddr (by simp)

/-- **No handshake is served.** For every permutation key, greeting and target, and for every
    way the two messages are cut and `local_readcb` runs are placed: nothing is dialled, and the
    client's bufferevent is released by the first run. -/
theorem handshake_never_served (host : Host) {pass : Password} (hpass : pass.IsPermutation)
    (m : Methods) (t : Target) (acts : List HandshakeAction) {p : Handshake}
    (hrun : run (handshakeStep host pass) (Handshake.start pass m t) acts = some p) :
    ¬ p.Served host pass t ∧ p.conn.dialled = [] ∧
      ((∃ o, .localReadcb o ∈ acts) → p.conn.Released .loc) := by
  rcases waiting_run hpass (waiting_start pass m t) hrun with ⟨hw, hacts⟩ | hr
  · exact ⟨not_served_of_not_dialled hw.dialled, hw.dialled,
      fun ⟨o, ho⟩ => absurd ho (hacts o)⟩
  · exact ⟨not_served_of_not_dialled hr.dialled, hr.dialled, fun _ => hr.released⟩

/-- The usual greeting, in one segment, and one run of `local_readcb`. -/
def greetingAtOnce : List HandshakeAction := [.segment 3, .localReadcb ⟨0, 0⟩]

theorem greetingAtOnce_runs : ∃ p, run (handshakeStep plainHost identityPassword)
    (Handshake.start identityPassword Methods.noAuthOnly Target.loopback) greetingAtOnce =
      some p :=
  Option.isSome_iff_exists.mp (by decide +kernel)

theorem handshake_never_served_at_once : ∃ p, run (handshakeStep plainHost identityPassword)
    (Handshake.start identityPassword Methods.noAuthOnly Target.loopback) greetingAtOnce =
      some p ∧ ¬ p.Served plainHost identityPassword Target.loopback ∧ p.conn.Released .loc := by
  obtain ⟨p, hp⟩ := greetingAtOnce_runs
  have h := handshake_never_served plainHost isPermutation_identityPassword Methods.noAuthOnly
    Target.loopback greetingAtOnce hp
  exact ⟨p, hp, h.1, h.2.2 ⟨⟨0, 0⟩, by decide⟩⟩

/-- The server hangs up on the usual greeting: the handshake can take no further step, so it is
    not served however it goes on. -/
theorem greeting_at_once_rejected : ∃ p, run (handshakeStep plainHost identityPassword)
    (Handshake.start identityPassword Methods.noAuthOnly Target.loopback) greetingAtOnce =
      some p ∧ ¬ p.Served plainHost identityPassword Target.loopback ∧
      ∀ act, handshakeStep plainHost identityPassword p act = none := by
  obtain ⟨p, hp⟩ := greetingAtOnce_runs
  refine ⟨p, hp, ?_⟩
  rcases waiting_run isPermutation_identityPassword (waiting_start _ _ _) hp with ⟨_, hacts⟩ | hr
  · exact absurd (by decide) (hacts ⟨0, 0⟩)
  · refine ⟨not_served_of_not_dialled hr.dialled, fun act => ?_⟩
    cases hact : handshakeStep plainHost identityPassword p act with
    | none => rfl
    | some q => exact absurd hact (rejected_step hr)

end Lightsocks.Server
