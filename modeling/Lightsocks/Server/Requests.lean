import Lightsocks.Server.Bounds

/-
  Which requests `parse_socks5` accepts, and what it makes of them, for every pair of byte
  strings that its two reads may find.

  The checks are made on the buffer, and the count of the second read is not looked at: where it
  is short, bytes of the first read stand behind it (`accepts_only_requests_iff`).

  A request of exactly ten bytes is decoded to the address it names (`exact_request_decoded`). A
  request with a domain name never is (`domain_request_misread`): the resolver is given the
  length octet with the name, and no result of it leads to a success.
-/

namespace Lightsocks.Server

open Lib

/-! ## What is accepted -/

/-- A byte string starts with a request as soon as its length and its first four bytes are
    right. -/
theorem exists_request_iff (d : List UInt8) :
    (∃ t : Target, t.request <+: d) ↔ 10 ≤ d.length ∧
      d[0]? = some 0x05 ∧ d[1]? = some 0x01 ∧ d[2]? = some 0x00 ∧ d[3]? = some 0x01 := by
  constructor
  · intro hstart
    obtain ⟨t, rest, rfl⟩ := hstart
    refine ⟨?_, rfl, rfl, rfl, rfl⟩
    rw [List.length_append]
    exact Nat.le_add_right 10 _
  · intro hbytes
    obtain ⟨hlen, h0, h1, h2, h3⟩ := hbytes
    have hat : ∀ j, j < 10 → d[j]? = some (requestByte [] d j) :=
      fun j hj => getElem?_of_lt [] (by omega)
    refine ⟨⟨requestByte [] d 4, requestByte [] d 5, requestByte [] d 6, requestByte [] d 7,
      requestByte [] d 8, requestByte [] d 9⟩, ?_⟩
    rw [List.prefix_iff_getElem?]
    intro j hj
    match j, hj with
    | 0, _ => exact h0
    | 1, _ => exact h1
    | 2, _ => exact h2
    | 3, _ => exact h3
    | 4, _ => exact hat 4 (by decide)
    | 5, _ => exact hat 5 (by decide)
    | 6, _ => exact hat 6 (by decide)
    | 7, _ => exact hat 7 (by decide)
    | 8, _ => exact hat 8 (by decide)
    | 9, _ => exact hat 9 (by decide)

/-- The second read is long enough for its command and its address type: the bytes of the first
    read do not matter any more. -/
theorem parseResult_of_long (host : Host) {d₁ d₁' d₂ : List UInt8} (hg : Greets d₁)
    (hg' : Greets d₁') (hlen : 8 ≤ d₂.length ∨ 4 ≤ d₂.length ∧ d₂[3]? ≠ some 0x01)
    (remoteAddr : SockaddrIn) :
    parseResult host d₁' d₂ remoteAddr = parseResult host d₁ d₂ remoteAddr := by
  have hfour : 4 ≤ d₂.length := by omega
  have hn : 8 ≤ (d₂.length : Int) ∨
      4 ≤ (d₂.length : Int) ∧ host.bufAt (requestBuf d₁ d₂) 3 ≠ 0x01 := by
    rcases hlen with h8 | ⟨-, hatyp⟩
    · exact Or.inl (by omega)
    · exact Or.inr ⟨by omega, fun h => hatyp ((bufAt_three_iff host d₁ hfour 0x01).mp h)⟩
  have hat : ∀ i ∈ usedIndices host (requestBuf d₁ d₂) d₂.length,
      { host with outside := host.outside }.bufAt (requestBuf d₁' d₂) i =
        host.bufAt (requestBuf d₁ d₂) i := by
    intro i hi
    obtain ⟨h0, hlt⟩ := usedIndices_lt host _ hn i hi
    obtain ⟨j, rfl⟩ := Int.eq_ofNat_of_zero_le h0
    have hj : j < d₂.length := by omega
    exact (bufAt_requestBuf_of_lt host d₁' hj).trans (bufAt_requestBuf_of_lt host d₁ hj).symm
  have hbyte : requestByte d₁' d₂ 1 = requestByte d₁ d₂ 1 := by
    have h : d₂[1]? = some (requestByte d₁ d₂ 1) := getElem?_of_lt d₁ (by omega)
    have h' : d₂[1]? = some (requestByte d₁' d₂ 1) := getElem?_of_lt d₁' (by omega)
    rw [h] at h'
    exact (Option.some.inj h').symm
  have hrun := parseRequest_congr host (o := host.outside) hat remoteAddr
  unfold parseResult
  simp only [hg, hg', hbyte, true_and]
  rw [hrun]

/-- `parse_socks5` when its reads give the decoded bytes `d₁` and `d₂`. -/
def parseDecoded (host : Host) (globalPassword : Password) (rc : Int) (remoteAddr : SockaddrIn)
    (d₁ d₂ : List UInt8) : ParseReturn × SockaddrIn × Calls :=
  parseChunks host globalPassword rc remoteAddr (d₁.map globalPassword.lookup)
    (d₂.map globalPassword.lookup)

/-- A chunk that the buffer holds, encoded and read again. -/
theorem firstChunk_encode {pass : Password} (hpass : pass.IsPermutation) {d : List UInt8}
    (hlen : d.length ≤ socksBuf) : firstChunk pass (d.map pass.lookup) = d := by
  have hlen' : (d.map pass.lookup).length ≤ socksBuf := by
    rw [List.length_map]
    exact hlen
  rw [firstChunk, List.take_of_length_le hlen', map_decode_encode hpass]

theorem parseDecoded_eq (host : Host) {pass : Password} (hpass : pass.IsPermutation) (rc : Int)
    (remoteAddr : SockaddrIn) {d₁ d₂ : List UInt8} (h₁ : d₁.length ≤ socksBuf)
    (h₂ : d₂.length ≤ socksBuf) :
    (parseDecoded host pass rc remoteAddr d₁ d₂).1 = (parseResult host d₁ d₂ remoteAddr).1 ∧
      (parseDecoded host pass rc remoteAddr d₁ d₂).2.1 = (parseResult host d₁ d₂ remoteAddr).2 := by
  rw [parseDecoded, parseChunks_eq, firstChunk_encode hpass h₁, firstChunk_encode hpass h₂]
  exact ⟨rfl, rfl⟩

/-- What is to hold of two reads. If `parse_socks5` returns `0`, then the first is a whole
    greeting with the method `00`, and the second starts with a whole IPv4 request. And whatever
    it returns, once the greeting has passed: any other first read that passes as a greeting
    would have led to the same result. -/
structure AcceptsRequest (host : Host) (pass : Password) (rc : Int) (remoteAddr : SockaddrIn)
    (d₁ d₂ : List UInt8) : Prop where
  requested : (parseDecoded host pass rc remoteAddr d₁ d₂).1 = .ret 0 →
    (∃ m : Methods, d₁ = m.greeting) ∧ ∃ t : Target, t.request <+: d₂
  fresh : Greets d₁ → ∀ d₁' : List UInt8, d₁'.length ≤ socksBuf → Greets d₁' →
    (parseDecoded host pass rc remoteAddr d₁' d₂).1 =
        (parseDecoded host pass rc remoteAddr d₁ d₂).1 ∧
      (parseDecoded host pass rc remoteAddr d₁' d₂).2.1 =
        (parseDecoded host pass rc remoteAddr d₁ d₂).2.1

theorem requestByte_of_eq_some {d₁ d₂ : List UInt8} {j : Nat} {b : UInt8} (h : d₂[j]? = some b) :
    requestByte d₁ d₂ j = b := by
  rw [requestByte, h, Option.getD_some]

theorem requestByte_of_eq_none {d₁ d₂ : List UInt8} {j : Nat} (h : d₂[j]? = none) :
    requestByte d₁ d₂ j = d₁[j]?.getD 0 := by
  rw [requestByte, h, Option.getD_none]

/-- A second read that ends before its address type, or before its command, is accepted behind
    one greeting and rejected behind another. -/
theorem accepts_depends {d₂ : List UInt8} (hcmd : d₂[1]? = none ∨ d₂[1]? = some 0x01)
    (hatyp : d₂[3]? = none) : Accepts [0x05, 0x01, 0x00, 0x01] d₂ ∧ ¬ Accepts [0x05] d₂ := by
  refine ⟨⟨rfl, ?_, requestByte_of_eq_none hatyp⟩, fun h => ?_⟩
  · rcases hcmd with hnone | hsome
    · exact requestByte_of_eq_none hnone
    · exact requestByte_of_eq_some hsome
  · have h3 := h.2.2
    rw [requestByte_of_eq_none hatyp] at h3
    cases h3

section

variable (host : Host) {pass : Password} (hpass : pass.IsPermutation) (rc : Int)
  (remoteAddr : SockaddrIn) {d₁ d₂ : List UInt8} (h₂ : d₂.length ≤ socksBuf)

include hpass h₂

theorem parseDecoded_eq_zero_iff (h₁ : d₁.length ≤ socksBuf) :
    (parseDecoded host pass rc remoteAddr d₁ d₂).1 = .ret 0 ↔ Accepts d₁ d₂ := by
  rw [(parseDecoded_eq host hpass rc remoteAddr h₁ h₂).1]
  exact parseResult_eq_zero_iff ..

/-- Where the first read makes no difference to the parse, the result is fresh. -/
theorem fresh_of_parseResult (h₁ : d₁.length ≤ socksBuf)
    (h : ∀ d₁', Greets d₁' → parseResult host d₁' d₂ remoteAddr =
      parseResult host d₁ d₂ remoteAddr) (d₁' : List UInt8) (h₁' : d₁'.length ≤ socksBuf)
    (hg' : Greets d₁') :
    (parseDecoded host pass rc remoteAddr d₁' d₂).1 =
        (parseDecoded host pass rc remoteAddr d₁ d₂).1 ∧
      (parseDecoded host pass rc remoteAddr d₁' d₂).2.1 =
        (parseDecoded host pass rc remoteAddr d₁ d₂).2.1 := by
  obtain ⟨hrc, haddr⟩ := parseDecoded_eq host hpass rc remoteAddr h₁ h₂
  obtain ⟨hrc', haddr'⟩ := parseDecoded_eq host hpass rc remoteAddr h₁' h₂
  rw [hrc, haddr, hrc', haddr', h d₁' hg']
  exact ⟨rfl, rfl⟩

/-- Where the result is fresh, the second read has its command, and its address type if the
    command is right. -/
theorem some_of_fresh (h : AcceptsRequest host pass rc remoteAddr d₁ d₂) (hg : Greets d₁)
    (hcmd : d₂[1]? = none ∨ d₂[1]? = some 0x01) : d₂[3]? ≠ none := by
  intro hatyp
  obtain ⟨hacc, hrej⟩ := accepts_depends hcmd hatyp
  have hlong := h.fresh hg [0x05, 0x01, 0x00, 0x01] (by decide) rfl
  have hshort := h.fresh hg [0x05] (by decide) rfl
  have hzero := (parseDecoded_eq_zero_iff host hpass rc remoteAddr h₂ (by decide)).mpr hacc
  refine hrej ((parseDecoded_eq_zero_iff host hpass rc remoteAddr h₂ (by decide)).mp ?_)
  rw [hshort.1, ← hlong.1, hzero]

end

/-- **What is accepted.** For every permutation key and every two reads of at most 257 bytes:
    `parse_socks5` does as it should exactly if the first does not start with `05`, or the second
    has a command or an address type of its own that is rejected, or the first is a whole
    greeting and the second has ten bytes or more with the version and the reserved byte
    right. -/
theorem accepts_only_requests_iff (host : Host) {pass : Password} (hpass : pass.IsPermutation)
    (rc : Int) (remoteAddr : SockaddrIn) {d₁ d₂ : List UInt8} (h₁ : d₁.length ≤ 257)
    (h₂ : d₂.length ≤ 257) :
    AcceptsRequest host pass rc remoteAddr d₁ d₂ ↔
      ¬ Greets d₁ ∨ (2 ≤ d₂.length ∧ d₂[1]? ≠ some 0x01) ∨
      (4 ≤ d₂.length ∧ d₂[3]? ≠ some 0x01) ∨
      (∃ m : Methods, d₁ = m.greeting) ∧ 10 ≤ d₂.length ∧ d₂[0]? = some 0x05 ∧
        d₂[2]? = some 0x00 := by
  have hzero := parseDecoded_eq_zero_iff host hpass rc remoteAddr h₂ h₁
  constructor
  · intro h
    by_cases hg : Greets d₁
    swap
    · exact Or.inl hg
    by_cases hcmd : d₂[1]? = none ∨ d₂[1]? = some 0x01
    swap
    · obtain ⟨hsome, hne⟩ := not_or.mp hcmd
      rw [List.getElem?_eq_none_iff, not_le] at hsome
      exact Or.inr (Or.inl ⟨hsome, hne⟩)
    have hthree := some_of_fresh host hpass rc remoteAddr h₂ h hg hcmd
    rw [ne_eq, List.getElem?_eq_none_iff, not_le] at hthree
    by_cases hatyp : d₂[3]? = some 0x01
    swap
    · exact Or.inr (Or.inr (Or.inl ⟨hthree, hatyp⟩))
    have hone : d₂[1]? = some 0x01 := by
      refine hcmd.resolve_left fun hnone => ?_
      rw [List.getElem?_eq_none_iff] at hnone
      omega
    obtain ⟨hm, ht⟩ := h.requested (hzero.mpr
      ⟨hg, requestByte_of_eq_some hone, requestByte_of_eq_some hatyp⟩)
    obtain ⟨hlen, h0, -, h2, -⟩ := (exists_request_iff _).mp ht
    exact Or.inr (Or.inr (Or.inr ⟨hm, hlen, h0, h2⟩))
  · rintro (hng | ⟨hlen, hcmd⟩ | ⟨hlen, hatyp⟩ | ⟨hm, hlen, h0, h2⟩)
    · exact ⟨fun hret => absurd (hzero.mp hret).1 hng, fun hg => absurd hg hng⟩
    · -- the command is the second read's own
      have hbyte : ∀ d, requestByte d d₂ 1 ≠ 0x01 := fun d hb =>
        hcmd ((getElem?_of_lt d (by omega)).trans (congrArg some hb))
      refine ⟨fun hret => absurd (hzero.mp hret).2.1 (hbyte d₁), fun _ =>
        fresh_of_parseResult host hpass rc remoteAddr h₂ h₁ fun d₁' _ => ?_⟩
      rw [parseResult, parseResult, if_neg fun h => hbyte d₁' h.2, if_neg fun h => hbyte d₁ h.2]
    · -- so is the address type
      refine ⟨fun hret => ?_, fun hg => fresh_of_parseResult host hpass rc remoteAddr h₂ h₁
        fun d₁' hg' => parseResult_of_long host hg hg' (Or.inr ⟨hlen, hatyp⟩) remoteAddr⟩
      have hb : requestByte d₁ d₂ 3 = 0x01 := (hzero.mp hret).2.2
      exact absurd ((getElem?_of_lt d₁ (by omega)).trans (congrArg some hb)) hatyp
    · refine ⟨fun hret => ⟨hm, ?_⟩, fun hg => fresh_of_parseResult host hpass rc remoteAddr h₂ h₁
        fun d₁' hg' => parseResult_of_long host hg hg' (Or.inl (by omega)) remoteAddr⟩
      obtain ⟨-, hcmd, hatyp⟩ := hzero.mp hret
      have h1 : d₂[1]? = _ := getElem?_of_lt d₁ (by omega)
      have h3 : d₂[3]? = _ := getElem?_of_lt d₁ (by omega)
      rw [hcmd] at h1
      rw [hatyp] at h3
      exact (exists_request_iff _).mpr ⟨hlen, h0, h1, h2, h3⟩

/-- The usual greeting and an IPv4 request. -/
theorem accepts_only_requests_iff_loopback :
    AcceptsRequest plainHost identityPassword 0 SockaddrIn.zero [0x05, 0x01, 0x00]
      Target.loopback.request :=
  (accepts_only_requests_iff plainHost isPermutation_identityPassword 0 SockaddrIn.zero
    (by decide) (by decide)).mpr (Or.inr (Or.inr (Or.inr
      ⟨⟨Methods.noAuthOnly, rfl⟩, by decide, rfl, rfl⟩)))

/-- Four bytes that are not a greeting, and nothing after them, are accepted. -/
theorem four_bytes_accepted :
    (parseDecoded plainHost identityPassword 0 SockaddrIn.zero [0x05, 0x01, 0x00, 0x01] []).1 =
        .ret 0 ∧
      ¬ AcceptsRequest plainHost identityPassword 0 SockaddrIn.zero
        [0x05, 0x01, 0x00, 0x01] [] := by
  have hrun : (parseDecoded plainHost identityPassword 0 SockaddrIn.zero
      [0x05, 0x01, 0x00, 0x01] []).1 = .ret 0 :=
    (parseDecoded_eq_zero_iff plainHost isPermutation_identityPassword 0 SockaddrIn.zero
      (by decide) (by decide)).mpr (by decide)
  refine ⟨hrun, fun h => ?_⟩
  obtain ⟨-, t, ht⟩ := h.requested hrun
  have hlen : 10 ≤ 0 := List.IsPrefix.length_le ht
  exact absurd hlen (by decide)

/-! ## Exact requests -/

/-- The port is in the last two bytes of the second read. -/
theorem names_of_accepts_end (host : Host) {d₁ d₂ : List UInt8} (h : Accepts d₁ d₂) {n : Nat}
    (hlen : d₂.length = n + 2) (remoteAddr : SockaddrIn) :
    (parseResult host d₁ d₂ remoteAddr).2.Names host.order
      (requestByte d₁ d₂ 4) (requestByte d₁ d₂ 5) (requestByte d₁ d₂ 6) (requestByte d₁ d₂ 7)
      (d₂[n]?.getD 0) (d₂[n + 1]?.getD 0) := by
  have hnames := names_of_accepts host h remoteAddr
  have hx : (d₂.length : Int) - 2 = n := by omega
  have hy : (d₂.length : Int) - 1 = (n + 1 : Nat) := by omega
  rw [hx, hy, bufAt_requestBuf_of_lt host d₁ (by omega),
    bufAt_requestBuf_of_lt host d₁ (by omega)] at hnames
  exact hnames

theorem length_request (t : Target) : t.request.length = 10 := rfl

theorem accepts_request {d : List UInt8} (hg : Greets d) (t : Target) : Accepts d t.request :=
  ⟨hg, rfl, rfl⟩

/-- An address names one target only. -/
theorem target_eq_of_names {o : ByteOrder} {addr : SockaddrIn} {t t' : Target}
    (h : addr.Names o t.a t.b t.c t.d t.p₁ t.p₂)
    (h' : addr.Names o t'.a t'.b t'.c t'.d t'.p₁ t'.p₂) : t = t' := by
  obtain ⟨-, hport, haddr⟩ := h
  obtain ⟨-, hport', haddr'⟩ := h'
  rw [hport] at hport'
  rw [haddr] at haddr'
  obtain ⟨a, b, c, d, p₁, p₂⟩ := t
  obtain ⟨a', b', c', d', p₁', p₂'⟩ := t'
  simp only [List.cons.injEq, and_true] at hport' haddr'
  obtain ⟨rfl, rfl⟩ := hport'
  obtain ⟨rfl, rfl, rfl, rfl⟩ := haddr'
  rfl

/-- The result for an exact request. -/
theorem parseChunks_request (host : Host) {pass : Password} (hpass : pass.IsPermutation)
    (rc : Int) (remoteAddr : SockaddrIn) {d : List UInt8} (hlen : d.length ≤ socksBuf)
    (hg : Greets d) (t : Target) :
    ∃ addr, parseChunks host pass rc remoteAddr (d.map pass.lookup)
        (t.request.map pass.lookup) =
      (.ret 0, addr, ⟨2, [(replyAuth.map pass.lookup, 2)]⟩) ∧
      addr.Names host.order t.a t.b t.c t.d t.p₁ t.p₂ := by
  have hacc := accepts_request hg t
  have hreq : t.request.length ≤ socksBuf := by
    rw [length_request]
    decide
  refine ⟨(parseResult host d t.request remoteAddr).2, ?_, ?_⟩
  · rw [parseChunks_eq, firstChunk_encode hpass hlen, firstChunk_encode hpass hreq, if_pos hg,
      parseResult_of_accepts host hacc]
  · exact names_of_accepts_end host hacc (n := 8) (length_request t) remoteAddr

/-- **Exact IPv4 requests.** For every permutation key, on a host of either byte order: a first
    chunk that starts with `05` and a request of exactly ten bytes are accepted, `05 00` is the
    one write, and the address is the one that was asked for; no other request of ten bytes
    leads to the same address, whatever stands before it. -/
theorem exact_request_decoded (host : Host) {pass : Password} (hpass : pass.IsPermutation)
    (rc : Int) (remoteAddr : SockaddrIn) {d : List UInt8} (hlen : d.length ≤ 257)
    (hg : d.head? = some 0x05) (t : Target) :
    ∃ addr, parseChunks host pass rc remoteAddr (d.map pass.lookup)
        (t.request.map pass.lookup) =
      (.ret 0, addr, ⟨2, [(replyAuth.map pass.lookup, 2)]⟩) ∧
      addr.Names host.order t.a t.b t.c t.d t.p₁ t.p₂ ∧
      ∀ (d' : List UInt8) (t' : Target), d'.length ≤ 257 → d'.head? = some 0x05 →
        (parseChunks host pass rc remoteAddr (d'.map pass.lookup)
          (t'.request.map pass.lookup)).2.1 = addr → t' = t := by
  obtain ⟨addr, hrun, hnames⟩ := parseChunks_request host hpass rc remoteAddr hlen hg t
  refine ⟨addr, hrun, hnames, fun d' t' hlen' hg' heq => ?_⟩
  obtain ⟨addr', hrun', hnames'⟩ := parseChunks_request host hpass rc remoteAddr hlen' hg' t'
  rw [hrun'] at heq
  have haddr : addr' = addr := heq
  rw [haddr] at hnames'
  exact target_eq_of_names hnames' hnames

theorem exact_request_decoded_loopback :
    ∃ addr, parseChunks plainHost identityPassword 0 SockaddrIn.zero
        ([0x05, 0x01, 0x00].map identityPassword.lookup)
        (Target.loopback.request.map identityPassword.lookup) =
      (.ret 0, addr, ⟨2, [(replyAuth.map identityPassword.lookup, 2)]⟩) ∧
      addr.Names .little 127 0 0 1 0 80 := by
  obtain ⟨addr, hrun, hnames, -⟩ := exact_request_decoded plainHost
    isPermutation_identityPassword 0 SockaddrIn.zero (d := [0x05, 0x01, 0x00]) (by decide) rfl
    Target.loopback
  exact ⟨addr, hrun, hnames⟩

/-! ## Domain names -/

/-- A request for a name. -/
structure DomainTarget where
  name : List UInt8
  nonempty : 1 ≤ name.length
  length_le : name.length ≤ 250
  p₁ : UInt8
  p₂ : UInt8

/-- `05 01 00 03 L n₁ … n_L p₁ p₂`. -/
def DomainTarget.request (q : DomainTarget) : List UInt8 :=
  [0x05, 0x01, 0x00, 0x03, UInt8.ofNat q.name.length] ++ q.name ++ [q.p₁, q.p₂]

/-- The name that the resolver is given for two reads with these bytes. -/
def resolvedName (host : Host) (d₁ d₂ : List UInt8) : List UInt8 :=
  domainName host (requestBuf d₁ d₂) d₂.length

/-- What a request with a domain name is to lead to: the resolver is given the name, its address
    is the one filled in, and finding nothing is a rejection. -/
structure Resolves (host : Host) (pass : Password) (rc : Int) (remoteAddr : SockaddrIn)
    (e₁ e₂ : List UInt8) (q : DomainTarget) : Prop where
  name : resolvedName host (firstChunk pass e₁) (firstChunk pass e₂) = cString q.name
  found : ∀ h, host.gethostbyname (resolvedName host (firstChunk pass e₁) (firstChunk pass e₂)) =
      some h →
    (parseChunks host pass rc remoteAddr e₁ e₂).1 = .ret 0 ∧
      (parseChunks host pass rc remoteAddr e₁ e₂).2.1.sinAddr = h.hAddr ∧
      host.order.bytes16 (parseChunks host pass rc remoteAddr e₁ e₂).2.1.sinPort = [q.p₁, q.p₂]
  missing : host.gethostbyname (resolvedName host (firstChunk pass e₁) (firstChunk pass e₂)) =
      none → (parseChunks host pass rc remoteAddr e₁ e₂).1 = .ret (-1)

theorem length_domainRequest (q : DomainTarget) : q.request.length = q.name.length + 7 := by
  simp [DomainTarget.request]

/-- The array `domain` holds the length octet and the name. -/
theorem domain_of_request (host : Host) (d₁ : List UInt8) (q : DomainTarget) :
    (List.range (q.name.length + 1)).map
        (fun i : Nat => host.bufAt (requestBuf d₁ q.request) (i + 4)) =
      UInt8.ofNat q.name.length :: q.name := by
  apply List.ext_getElem?
  intro i
  by_cases hi : i < q.name.length + 1
  · have hlt : i + 4 < q.request.length := by
      rw [length_domainRequest]
      omega
    have hbyte := bufAt_requestBuf_of_lt host d₁ hlt
    have hcast : ((i + 4 : Nat) : Int) = (i : Int) + 4 := rfl
    rw [hcast] at hbyte
    have hat : q.request[i + 4]? = (UInt8.ofNat q.name.length :: q.name)[i]? := by
      have hreq : q.request = [0x05, 0x01, 0x00, 0x03] ++
          ((UInt8.ofNat q.name.length :: q.name) ++ [q.p₁, q.p₂]) := by
        simp [DomainTarget.request]
      rw [hreq, List.getElem?_append_right (by simp)]
      exact List.getElem?_append_left (by simpa using hi)
    rw [List.getElem?_map, List.getElem?_range hi, Option.map_some, hbyte, hat,
      List.getElem?_eq_getElem (by simpa using hi)]
    rfl
  · rw [List.getElem?_eq_none (by simpa using hi), List.getElem?_eq_none (by simpa using hi)]

/-- The resolver is given the length octet, the name, and what stands behind the array. -/
theorem resolvedName_of_request (host : Host) (d₁ : List UInt8) (q : DomainTarget) :
    resolvedName host d₁ q.request =
      UInt8.ofNat q.name.length :: cString (q.name ++ host.afterDomain) := by
  have hlen : ((q.request.length : Int) - 4 - 2).toNat = q.name.length + 1 := by
    rw [length_domainRequest]
    omega
  have hne : UInt8.ofNat q.name.length ≠ 0 := by
    intro h
    have h0 := congrArg UInt8.toNat h
    have h1 := q.nonempty
    have h2 := q.length_le
    rw [UInt8.toNat_ofNat_of_lt' (by show q.name.length < 256; omega)] at h0
    have h0' : q.name.length = 0 := h0
    omega
  unfold resolvedName
  rw [domainName_eq, hlen, domain_of_request, List.cons_append, cString,
    List.takeWhile_cons_of_pos (by simpa using hne)]
  rfl

/-- That is longer than the name, so that it is another one. -/
theorem resolvedName_ne (host : Host) (d₁ : List UInt8) (q : DomainTarget) :
    resolvedName host d₁ q.request ≠ cString q.name := by
  rw [resolvedName_of_request]
  intro h
  have hlen := congrArg List.length h
  have hle : (cString q.name).length ≤ (cString (q.name ++ host.afterDomain)).length := by
    unfold cString
    rw [List.takeWhile_append]
    split
    · rw [List.length_append]
      have hname := (List.takeWhile_prefix (l := q.name) fun x => decide (x ≠ 0)).length_le
      omega
    · exact le_rfl
  rw [List.length_cons] at hlen
  omega

/-- **Domain requests.** For every accepted greeting, every request with a domain name and every
    resolver: the name given to the resolver starts with the length octet, a result of the
    resolver is answered with `-1`, and without one the function dereferences its null result.
    So none of these requests is resolved. -/
theorem domain_request_misread (host : Host) (pass : Password) (rc : Int)
    (remoteAddr : SockaddrIn) {e₁ e₂ : List UInt8} (hg : Greets (firstChunk pass e₁))
    (q : DomainTarget) (hq : firstChunk pass e₂ = q.request) :
    resolvedName host (firstChunk pass e₁) (firstChunk pass e₂) =
        UInt8.ofNat q.name.length :: cString (q.name ++ host.afterDomain) ∧
      (∀ h, host.gethostbyname
          (resolvedName host (firstChunk pass e₁) (firstChunk pass e₂)) = some h →
        (parseChunks host pass rc remoteAddr e₁ e₂).1 = .ret (-1)) ∧
      (host.gethostbyname (resolvedName host (firstChunk pass e₁) (firstChunk pass e₂)) = none →
        (parseChunks host pass rc remoteAddr e₁ e₂).1 = .nullDeref) ∧
      ¬ Resolves host pass rc remoteAddr e₁ e₂ q := by
  have hcmd : requestByte (firstChunk pass e₁) (firstChunk pass e₂) 1 = 0x01 := by
    rw [hq]
    rfl
  have hatyp : requestByte (firstChunk pass e₁) (firstChunk pass e₂) 3 = 0x03 := by
    rw [hq]
    rfl
  have hnot : ¬ Accepts (firstChunk pass e₁) (firstChunk pass e₂) := by
    intro hacc
    obtain ⟨-, -, h3⟩ := hacc
    rw [hatyp] at h3
    exact absurd h3 (by decide)
  refine ⟨?_, fun h hfound => ?_, fun hnone => ?_, fun hres => ?_⟩
  · rw [hq]
    exact resolvedName_of_request host _ q
  · rw [parseChunks_eq]
    refine parseResult_of_rejects hnot ?_ remoteAddr
    intro hfaults
    obtain ⟨-, -, -, hnone⟩ := hfaults
    exact absurd (hnone.symm.trans hfound) (by simp)
  · rw [parseChunks_eq]
    exact parseResult_of_faults ⟨hg, hcmd, hatyp, hnone⟩ remoteAddr
  · have hname := hres.name
    rw [hq] at hname
    exact resolvedName_ne host _ q hname

/-- The name `a`, port 80. -/
def DomainTarget.single : DomainTarget := ⟨[0x61], by decide, by decide, 0, 80⟩

theorem firstChunk_single : firstChunk identityPassword DomainTarget.single.request =
    DomainTarget.single.request :=
  firstChunk_identity DomainTarget.single.request

theorem domain_request_misread_single :
    resolvedName plainHost (firstChunk identityPassword [0x05, 0x01, 0x00])
        (firstChunk identityPassword DomainTarget.single.request) = [0x01, 0x61] ∧
      (parseChunks plainHost identityPassword 0 SockaddrIn.zero [0x05, 0x01, 0x00]
        DomainTarget.single.request).1 = .nullDeref := by
  have hgreets : Greets (firstChunk identityPassword [0x05, 0x01, 0x00]) := by
    rw [firstChunk_identity]
    rfl
  obtain ⟨hname, -, hnone, -⟩ := domain_request_misread plainHost identityPassword 0
    SockaddrIn.zero hgreets DomainTarget.single firstChunk_single
  exact ⟨hname, hnone rfl⟩

theorem mem_replicate_noAuth : (0x00 : UInt8) ∈ List.replicate 255 0x00 :=
  List.mem_replicate.mpr ⟨by decide, rfl⟩

/-- As many methods as there can be, so that the greeting fills the first read. -/
def Methods.full : Methods where
  codes := List.replicate 255 0x00
  nonempty := List.ne_nil_of_mem mem_replicate_noAuth
  length_le := List.length_replicate.le
  noAuth := mem_replicate_noAuth

theorem length_greeting_full : Methods.full.greeting.length = socksBuf := by
  rw [Methods.greeting, Methods.full, List.length_cons, List.length_cons, List.length_replicate]

theorem firstChunk_full (rest : List UInt8) :
    firstChunk identityPassword (Methods.full.greeting ++ rest) = Methods.full.greeting := by
  rw [firstChunk_identity]
  exact List.take_left' length_greeting_full

/-- The resolver is asked for `01 61` in place of `61`. -/
theorem single_not_resolved : ¬ Resolves plainHost identityPassword 0 SockaddrIn.zero
    Methods.full.greeting DomainTarget.single.request DomainTarget.single := by
  intro h
  have hname := h.name
  rw [firstChunk_single] at hname
  exact resolvedName_ne plainHost _ DomainTarget.single hname

end Lightsocks.Server
