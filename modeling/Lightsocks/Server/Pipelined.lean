import Lightsocks.Server.Requests

/-
  A request with payload behind it.

  The callbacks run on one thread, and nothing is added to an input buffer while one of them runs:
  the second read of `parse_socks5` finds something only behind a first one of 257 bytes. To
  speak of a second read behind a greeting of any length, `localReadcbArriving` is `local_readcb`
  with segments that are added after its reads; without segments it is `local_readcb`
  (`localReadcbArriving_nil`).

  What the second read takes beyond the request is lost: `decode_copy_pass` starts behind it, and
  the port is read at the end of what was taken. So no payload that the second read takes with
  the request is ever forwarded (`payload_never_forwarded`).
-/

namespace Lightsocks.Server

open Lib

/-- The bufferevents of a connection, and the segments that are still to be added. -/
structure Arriving where
  bevs : Bevs Handle
  segments : List (List UInt8)

/-- The calls that `parse_socks5` makes. After each read the next segment is added. -/
def arrivingCalls : BevIO Arriving where
  read size s :=
    let (n, data, t) := (Bevs.io .loc .loc).read size s.bevs
    (n, data, ⟨t.arrive .loc (s.segments.headD []), s.segments.tail⟩)
  write buf size s :=
    let (rc, t) := (Bevs.io .loc .loc).write buf size s.bevs
    (rc, { s with bevs := t })

/-- `local_readcb`, with these segments. -/
def localReadcbArriving (host : Host) (globalPassword : Password) (o : Outcome)
    (segments : List (List UInt8)) (c : Conn) : Conn :=
  let r := parseSocks5 arrivingCalls host globalPassword SockaddrIn.zero ⟨c.toBevs, segments⟩
  afterParse globalPassword o r.2.1 { c with toBevs := r.2.2.bevs } r.1

theorem arrive_nil (s : Bevs Handle) (h : Handle) : s.arrive h [] = s := by
  unfold Bevs.arrive Bevs.modify
  simp only [List.append_nil, Function.update_eq_self]

/-- Without segments it is the callback as it stands. -/
theorem localReadcbArriving_nil (host : Host) (pass : Password) (o : Outcome) (c : Conn) :
    localReadcbArriving host pass o [] c = localReadcb host pass o c := by
  have hread : ∀ size s, arrivingCalls.read size ⟨s, []⟩ =
      (((Bevs.io .loc .loc).read size s).1, ((Bevs.io .loc .loc).read size s).2.1,
        ⟨((Bevs.io .loc .loc).read size s).2.2, []⟩) := by
    intro size s
    unfold arrivingCalls
    dsimp only
    rw [List.headD_nil, arrive_nil, List.tail_nil]
  have hwrite : ∀ buf size s, arrivingCalls.write buf size ⟨s, []⟩ =
      (((Bevs.io .loc .loc).write buf size s).1,
        ⟨((Bevs.io .loc .loc).write buf size s).2, []⟩) := fun _ _ _ => rfl
  have hparse := parseSocks5_lift (fun s => Arriving.mk s []) hread hwrite host pass SockaddrIn.zero
    c.toBevs
  rcases hp : parseSocks5 (Bevs.io .loc .loc) host pass SockaddrIn.zero c.toBevs with
    ⟨rc, addr, s⟩
  rw [hp] at hparse
  rw [localReadcb_of_parse hp]
  unfold localReadcbArriving
  rw [hparse]

/-! ## What is read, and what is left -/

/-- What is there for the second read. -/
def secondInput (input : List UInt8) (segments : List (List UInt8)) : List UInt8 :=
  input.drop socksBuf ++ segments.headD []

/-- What is there behind the second read. -/
def leftover (input : List UInt8) (segments : List (List UInt8)) : List UInt8 :=
  (secondInput input segments).drop socksBuf ++ segments.tail.headD []

theorem read_arriving (size : Nat) (s : Arriving) :
    ∃ s', arrivingCalls.read size s = (((s.bevs.bev .loc).input.take size).length,
        (s.bevs.bev .loc).input.take size, s') ∧
      (s'.bevs.bev .loc).input = (s.bevs.bev .loc).input.drop size ++ s.segments.headD [] ∧
      s'.segments = s.segments.tail := by
  refine ⟨_, rfl, ?_, rfl⟩
  rw [Bevs.bev_arrive_self, Bevs.bev_modify_self]
  rfl

theorem write_arriving (buf : List UInt8) (size : Nat) (s : Arriving) :
    ∃ s', arrivingCalls.write buf size s = (0, s') ∧
      (s'.bevs.bev .loc).input = (s.bevs.bev .loc).input ∧ s'.segments = s.segments := by
  refine ⟨_, rfl, ?_, rfl⟩
  rw [Bevs.bev_modify_self]
  rfl

/-- The parse of a greeting and of what arrives behind it. -/
theorem parseSocks5_arriving (host : Host) (pass : Password) {s : Arriving}
    (hg : Greets (firstChunk pass (s.bevs.bev .loc).input)) :
    ∃ s', parseSocks5 arrivingCalls host pass SockaddrIn.zero s =
        ((parseResult host (firstChunk pass (s.bevs.bev .loc).input)
            (firstChunk pass (secondInput (s.bevs.bev .loc).input s.segments))
            SockaddrIn.zero).1,
          (parseResult host (firstChunk pass (s.bevs.bev .loc).input)
            (firstChunk pass (secondInput (s.bevs.bev .loc).input s.segments))
            SockaddrIn.zero).2, s') ∧
      (s'.bevs.bev .loc).input = leftover (s.bevs.bev .loc).input s.segments := by
  have hsize : socksBuf < 2 ^ 31 := by decide
  obtain ⟨s₁, hread₁, hin₁, hseg₁⟩ := read_arriving socksBuf s
  obtain ⟨s₂, hwrite, hin₂, hseg₂⟩ := write_arriving (encodeData replyAuth 2 pass) 2 s₁
  obtain ⟨s₃, hread₂, hin₃, -⟩ := read_arriving socksBuf s₂
  have hsecond : (s₂.bevs.bev .loc).input = secondInput (s.bevs.bev .loc).input s.segments :=
    hin₂.trans hin₁
  rw [hsecond] at hread₂ hin₃
  refine ⟨s₃, ?_, ?_⟩
  · exact parseSocks5_of_reads host pass hg (length_take_lt hsize _) (length_take_lt hsize _)
      hread₁ hwrite hread₂ SockaddrIn.zero
  · rw [hin₃, hseg₂, hseg₁]
    rfl

/-- A dial writes to the new bufferevent what is left of the input, if no call fails. -/
theorem dial_output (pass : Password) (o : Outcome) (addr : SockaddrIn) (c : Conn) :
    (dial pass o addr c).dialled = c.dialled ++ [addr] ∧
      ((dial pass o addr c).bev (.remote c.remotes)).output =
        if o.connectRc = -1 ∨ o.setsockoptRc ≠ 0 then []
        else (c.bev .loc).input.map (decodePass pass).lookup := by
  obtain ⟨c₁, hopen, hdial⟩ := dial_cases pass o addr c
  have hnew : c₁.bev (.remote c.remotes) = Bev.fresh := by
    rw [hopen.bev, Function.update_self]
  have hloc : c₁.bev .loc = c.bev .loc := by
    rw [hopen.bev, Function.update_of_ne (by simp)]
  rw [hdial]
  by_cases hfail : o.connectRc = -1 ∨ o.setsockoptRc ≠ 0
  · rw [if_pos hfail, if_pos hfail]
    refine ⟨hopen.dialled, ?_⟩
    show (c₁.bev (.remote c.remotes)).output = []
    rw [hnew]
    rfl
  · rw [if_neg hfail, if_neg hfail]
    obtain ⟨t, ht, htransmit⟩ := startTransmit_cases pass
      (by simp : Handle.remote c.remotes ≠ .loc) c₁
    have hout : (t.bev (.remote c.remotes)).output =
        (c.bev .loc).input.map (decodePass pass).lookup := by
      rw [ht.payload, hnew, hloc]
      rfl
    rw [htransmit]
    split
    · exact ⟨hopen.dialled, hout⟩
    · exact ⟨hopen.dialled, hout⟩

/-! ## Where the payload goes -/

/-- What a run of `local_readcb` is to do with the payload `w` behind the request `t`: it dials
    that target, and sends it the payload and then the rest of the input. -/
structure ForwardsPayload (host : Host) (pass : Password) (o : Outcome)
    (segments : List (List UInt8)) (c : Conn) (t : Target) (w : List UInt8) : Prop where
  dialled : ∃ addr : SockaddrIn,
    (localReadcbArriving host pass o segments c).dialled = c.dialled ++ [addr] ∧
      addr.Names host.order t.a t.b t.c t.d t.p₁ t.p₂
  sent : ((localReadcbArriving host pass o segments c).bev (.remote c.remotes)).output =
    w ++ (leftover (c.bev .loc).input segments).map (decodePass pass).lookup

/-- The last two elements of a list. -/
theorem pair_suffix_iff {l : List UInt8} {n : Nat} {x y : UInt8} (hlen : l.length = n + 2) :
    [x, y] <:+ l ↔ l[n]? = some x ∧ l[n + 1]? = some y := by
  constructor
  · intro hsuffix
    obtain ⟨front, rfl⟩ := hsuffix
    have hn : front.length = n := by
      rw [List.length_append] at hlen
      exact Nat.add_right_cancel hlen
    rw [List.getElem?_append_right (by omega), List.getElem?_append_right (by omega), hn,
      Nat.sub_self, Nat.add_sub_cancel_left]
    exact ⟨rfl, rfl⟩
  · intro hxy
    obtain ⟨hx, hy⟩ := hxy
    refine ⟨l.take n, ?_⟩
    have hdrop : l.drop n = [x, y] := by
      rw [List.drop_eq_getElem_cons (by omega), List.drop_eq_getElem_cons (by omega),
        List.drop_eq_nil_of_le (by omega)]
      rw [List.getElem?_eq_getElem (by omega)] at hx hy
      rw [Option.some.inj hx, Option.some.inj hy]
    rw [← hdrop, List.take_append_drop]

/-- The run on a request with payload: the port stands at the end of the read, and only what
    comes behind the read is sent. -/
theorem localReadcbArriving_request (host : Host) (pass : Password) (o : Outcome)
    {segments : List (List UInt8)} {c : Conn} {t : Target} {w : List UInt8}
    (hg : Greets (firstChunk pass (c.bev .loc).input))
    (hd : firstChunk pass (secondInput (c.bev .loc).input segments) = t.request ++ w) :
    ∃ (addr : SockaddrIn) (x y : UInt8),
      (localReadcbArriving host pass o segments c).dialled = c.dialled ++ [addr] ∧
      addr.Names host.order t.a t.b t.c t.d x y ∧ [x, y] <:+ t.request ++ w ∧
      ((localReadcbArriving host pass o segments c).bev (.remote c.remotes)).output =
        if o.connectRc = -1 ∨ o.setsockoptRc ≠ 0 then []
        else (leftover (c.bev .loc).input segments).map (decodePass pass).lookup := by
  obtain ⟨s, hparse, hin⟩ := parseSocks5_arriving (s := ⟨c.toBevs, segments⟩) host pass hg
  dsimp only at hparse hin
  rw [hd] at hparse
  have hacc : Accepts (firstChunk pass (c.bev .loc).input) (t.request ++ w) := ⟨hg, rfl, rfl⟩
  have hlen : (t.request ++ w).length = w.length + 8 + 2 := by
    rw [List.length_append, length_request]
    omega
  have hnames := names_of_accepts_end host hacc hlen SockaddrIn.zero
  have hrun : localReadcbArriving host pass o segments c =
      dial pass o (parseResult host (firstChunk pass (c.bev .loc).input) (t.request ++ w)
        SockaddrIn.zero).2 { c with toBevs := s.bevs } := by
    unfold localReadcbArriving
    rw [hparse, parseResult_of_accepts host hacc]
    exact afterParse_accepted pass o _ _
  obtain ⟨hdialled, hout⟩ := dial_output pass o (parseResult host
    (firstChunk pass (c.bev .loc).input) (t.request ++ w) SockaddrIn.zero).2
    { c with toBevs := s.bevs }
  refine ⟨_, _, _, ?_, hnames, ?_, ?_⟩
  · rw [hrun]
    exact hdialled
  · rw [pair_suffix_iff hlen, List.getElem?_eq_getElem (by omega),
      List.getElem?_eq_getElem (by omega)]
    exact ⟨rfl, rfl⟩
  · rw [hrun]
    refine hout.trans ?_
    rw [hin]

/-- What is sent is less than the payload and the rest of the input: the rest alone, or nothing
    if the new connection fails at once. -/
theorem output_ne_payload (host : Host) (pass : Password) (o : Outcome)
    {segments : List (List UInt8)} {c : Conn} {t : Target} {w : List UInt8}
    (hg : Greets (firstChunk pass (c.bev .loc).input))
    (hd : firstChunk pass (secondInput (c.bev .loc).input segments) = t.request ++ w)
    (hw : w ≠ []) :
    ((localReadcbArriving host pass o segments c).bev (.remote c.remotes)).output ≠
      w ++ (leftover (c.bev .loc).input segments).map (decodePass pass).lookup := by
  obtain ⟨addr, x, y, -, -, -, hout⟩ := localReadcbArriving_request host pass o hg hd
  have hpos : 0 < w.length := List.length_pos_iff.mpr hw
  intro hsent
  rw [hout] at hsent
  have hlen := congrArg List.length hsent
  rw [List.length_append] at hlen
  split at hlen
  · rw [List.length_nil] at hlen
    omega
  · omega

/-- **Payload behind the request.** For every accepted greeting, every target, every payload that
    the second read takes with the request, and whatever is queued behind it: `local_readcb` does
    not forward the payload. -/
theorem payload_never_forwarded (host : Host) (pass : Password) (o : Outcome)
    {segments : List (List UInt8)} {c : Conn} {t : Target} {w : List UInt8}
    (hg : Greets (firstChunk pass (c.bev .loc).input))
    (hd : firstChunk pass (secondInput (c.bev .loc).input segments) = t.request ++ w)
    (hw : w ≠ []) : ¬ ForwardsPayload host pass o segments c t w := by
  intro hwanted
  exact output_ne_payload host pass o hg hd hw hwanted.sent

/-- A request for `127.0.0.1:80` with the first byte of the payload behind it. -/
def pipelinedRequest : List UInt8 := Target.loopback.request ++ [0x47]

/-- It has arrived behind a greeting that fills the first read. -/
def pipelined : Conn :=
  { accepted with
    toBevs := accepted.toBevs.arrive .loc (Methods.full.greeting ++ pipelinedRequest) }

theorem input_pipelined :
    (pipelined.bev .loc).input = Methods.full.greeting ++ pipelinedRequest := rfl

theorem greets_pipelined : Greets (firstChunk identityPassword (pipelined.bev .loc).input) := by
  rw [input_pipelined, firstChunk_full]
  rfl

theorem secondInput_pipelined :
    secondInput (pipelined.bev .loc).input [] = pipelinedRequest := by
  have hdrop : (Methods.full.greeting ++ pipelinedRequest).drop socksBuf = pipelinedRequest :=
    List.drop_left' length_greeting_full
  rw [input_pipelined, secondInput, hdrop]
  rfl

theorem secondRead_pipelined :
    firstChunk identityPassword (secondInput (pipelined.bev .loc).input []) =
      Target.loopback.request ++ [0x47] := by
  rw [secondInput_pipelined, firstChunk_identity]
  rfl

theorem payload_never_forwarded_pipelined :
    ¬ ForwardsPayload plainHost identityPassword ⟨0, 0⟩ [] pipelined Target.loopback [0x47] :=
  payload_never_forwarded plainHost identityPassword ⟨0, 0⟩ greets_pipelined secondRead_pipelined
    (by decide)

/-- One byte behind the request: the port becomes `20551`, and nothing is sent. -/
theorem pipelined_byte_lost :
    (∃ addr : SockaddrIn,
      (localReadcb plainHost identityPassword ⟨0, 0⟩ pipelined).dialled = [addr] ∧
        addr.Names .little 127 0 0 1 80 0x47) ∧
      ((localReadcb plainHost identityPassword ⟨0, 0⟩ pipelined).bev (.remote 0)).output = [] ∧
      ¬ ForwardsPayload plainHost identityPassword ⟨0, 0⟩ [] pipelined Target.loopback [0x47] := by
  obtain ⟨addr, x, y, hdialled, hnames, hend, hout⟩ := localReadcbArriving_request plainHost
    identityPassword ⟨0, 0⟩ greets_pipelined secondRead_pipelined
  rw [localReadcbArriving_nil] at hdialled hout
  have hlast : [80, 0x47] <:+ Target.loopback.request ++ [0x47] :=
    ⟨[0x05, 0x01, 0x00, 0x01, 127, 0, 0, 1, 0], rfl⟩
  have hbytes : [x, y] = [80, 0x47] :=
    (List.suffix_of_suffix_length_le hend hlast le_rfl).eq_of_length rfl
  obtain ⟨rfl, hy⟩ := List.cons.inj hbytes
  obtain ⟨rfl, -⟩ := List.cons.inj hy
  have hnothing : leftover (pipelined.bev .loc).input [] = [] := by
    rw [leftover, secondInput_pipelined]
    rfl
  have hfirst : pipelined.remotes = 0 := rfl
  have hnew : pipelined.dialled = [] := rfl
  rw [hnothing, List.map_nil, ite_self, hfirst] at hout
  rw [hnew, List.nil_append] at hdialled
  refine ⟨⟨addr, hdialled, hnames⟩, hout, fun h => ?_⟩
  · exact output_ne_payload plainHost identityPassword ⟨0, 0⟩ greets_pipelined
      secondRead_pipelined (by decide) h.sent

end Lightsocks.Server
