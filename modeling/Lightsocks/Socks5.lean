import Lightsocks.Address
import Lightsocks.Ctype
import Lightsocks.SecureSocket

/-
  `parse_socks5` of `server/server.c`.

  The function reads twice into one buffer: what it takes for the greeting, and at once, after
  writing the method reply, what it takes for the request. Both reads take what has arrived and
  do not wait. The second read leaves what it does not overwrite, so the request is parsed from
  `requestBuf`: the bytes of the second read, behind them those of the first, behind them zeros.

  The port is read at `n - 2` and `n - 1` for the count `n` of the second read; for a small `n`
  this is outside the buffer, and what stands there comes from `Host.outside`. Behind the two
  checks the function gets at its arrays through a `Memory`, which may keep an account.

  `parseSocks5_view` gives the result and the bytes read and written as a function of the bytes
  that were there, and `parseChunks_eq` as a function of what two given reads find.
  `parseResult_of_accepts`, `parseResult_of_faults` and `parseResult_of_rejects` say which ones
  are accepted, end the program or are rejected.
-/

namespace Lightsocks

/-! ## The function -/

/-- `SOCKS_BUF`. -/
abbrev socksBuf : Nat := 257

/-- What `parse_socks5` uses of a `hostent`: the bytes at `h_name`. The address itself, in
    network order, it does not look at. -/
structure Hostent where
  hName : Nat → UInt8
  hAddr : UInt32

/-- What the function takes from the machine it runs on: the byte order, the resolver, the
    bytes at indices outside `buf`, and the bytes behind the array `domain`. -/
structure Host where
  order : ByteOrder
  gethostbyname : List UInt8 → Option Hostent
  outside : Int → UInt8
  afterDomain : List UInt8

/-- A little-endian machine whose resolver knows no name, with zeros around the buffers. -/
def plainHost : Host := ⟨.little, fun _ => none, fun _ => 0, []⟩

/-- `buf[i]`. -/
def Host.bufAt (host : Host) (buf : List UInt8) (i : Int) : UInt8 :=
  if 0 ≤ i then (buf[i.toNat]?).getD (host.outside i) else host.outside i

/-- How `parse_socks5` ends: it returns, or dereferences the null result of a resolver that
    found nothing. -/
inductive ParseReturn where
  | ret (rc : Int)
  | nullDeref
  deriving DecidableEq

/-- How `parse_socks5` gets at its arrays behind the two checks: by the calls of a monad, so that
    an account of them can be kept. -/
structure Memory (m : Type → Type) where
  /-- `buf[i]`. -/
  bufAt : List UInt8 → Int → m UInt8
  /-- `char domain[len]`. -/
  declare : Int → m Unit

/-- No account is kept. -/
def Host.memory (host : Host) : Memory Id := ⟨host.bufAt, fun _ => ()⟩

section

variable {m : Type → Type} [Monad m] (mem : Memory m)

/-- The name that is given to the resolver: `name_len` bytes from `buf[4]` on, and what stands
    behind them up to a NUL. -/
def domainNameWith (host : Host) (buf : List UInt8) (nameLen : Int) : m (List UInt8) := do
  let domain ← (List.range nameLen.toNat).mapM fun i : Nat => mem.bufAt buf (i + 4)
  return cString (domain ++ host.afterDomain)

/-- The `switch` on the address type. -/
def addressWith (host : Host) (buf : List UInt8) (nameLen : Int) (remoteAddr : SockaddrIn) :
    UInt8 → m (ParseReturn × SockaddrIn)
  | 0x01 => do
      let b₃ ← mem.bufAt buf 4
      let b₂ ← mem.bufAt buf 5
      let b₁ ← mem.bufAt buf 6
      let b₀ ← mem.bufAt buf 7
      let ipv4 := b₃.toUInt32 <<< 24 ||| b₂.toUInt32 <<< 16 ||| b₁.toUInt32 <<< 8 ||| b₀.toUInt32
      return (.ret 0, { remoteAddr with sinAddr := htonl host.order ipv4 })
  | 0x03 => do
      match host.gethostbyname (← domainNameWith mem host buf nameLen) with
      | none => return (.nullDeref, remoteAddr)
      | some h => return (.ret (-1), { remoteAddr with
          sinAddr := host.order.load32 (h.hName 0) (h.hName 1) (h.hName 2) (h.hName 3) })
  | 0x04 => return (.ret (-1), remoteAddr)
  | _ => return (.ret (-1), remoteAddr)

/-- `parse_socks5` from `remote_addr->sin_family = AF_INET` on. -/
def parseRequestWith (host : Host) (buf : List UInt8) (n : Int) (remoteAddr : SockaddrIn) :
    m (ParseReturn × SockaddrIn) := do
  let p₁ ← mem.bufAt buf (n - 2)
  let p₀ ← mem.bufAt buf (n - 1)
  let remoteAddr := { remoteAddr with
    sinFamily := afInet
    sinPort := htons host.order (p₁.toUInt16 <<< 8 ||| p₀.toUInt16) }
  let nameLen := n - 4 - 2
  mem.declare nameLen
  addressWith mem host buf nameLen remoteAddr (← mem.bufAt buf 3)

/-- `reply_auth`: version 5, no authentication. -/
def replyAuth : List UInt8 := [0x05, 0x00]

/-- `byte buf[SOCKS_BUF] = {0}`. -/
def zeroBuf : List UInt8 := List.replicate socksBuf 0

variable {σ : Type}

/-- `parse_socks5` from the second `decode_read` on. -/
def readRequestWith (io : BevIO σ) (host : Host) (globalPassword : Password) (buf : List UInt8)
    (remoteAddr : SockaddrIn) (s : σ) : m (ParseReturn × SockaddrIn × σ) := do
  let (n, buf, s) := decodeRead io globalPassword buf socksBuf s
  if host.bufAt buf 1 ≠ 0x01 then return (.ret (-1), remoteAddr, s)
  else
    let (rc, remoteAddr) ← parseRequestWith mem host buf n remoteAddr
    return (rc, remoteAddr, s)

/-- `parse_socks5`. -/
def parseSocks5With (io : BevIO σ) (host : Host) (globalPassword : Password)
    (remoteAddr : SockaddrIn) (s : σ) : m (ParseReturn × SockaddrIn × σ) := do
  let (_, buf, s) := decodeRead io globalPassword zeroBuf socksBuf s
  if host.bufAt buf 0 ≠ 0x05 then return (.ret (-1), remoteAddr, s)
  else
    let (_, s) := io.write (encodeData replyAuth 2 globalPassword) 2 s
    readRequestWith mem io host globalPassword buf remoteAddr s

end

variable {σ : Type}

/-- The name, without an account. -/
def domainName (host : Host) (buf : List UInt8) (n : Int) : List UInt8 :=
  Id.run (domainNameWith host.memory host buf (n - 4 - 2))

/-- What is parsed from the buffer, without an account. -/
def parseRequest (host : Host) (buf : List UInt8) (n : Int) (remoteAddr : SockaddrIn) :
    ParseReturn × SockaddrIn :=
  Id.run (parseRequestWith host.memory host buf n remoteAddr)

/-- The second read and what follows it, without an account. -/
def readRequest (io : BevIO σ) (host : Host) (globalPassword : Password) (buf : List UInt8)
    (remoteAddr : SockaddrIn) (s : σ) : ParseReturn × SockaddrIn × σ :=
  Id.run (readRequestWith host.memory io host globalPassword buf remoteAddr s)

/-- `parse_socks5`, without an account. -/
def parseSocks5 (io : BevIO σ) (host : Host) (globalPassword : Password)
    (remoteAddr : SockaddrIn) (s : σ) : ParseReturn × SockaddrIn × σ :=
  Id.run (parseSocks5With host.memory io host globalPassword remoteAddr s)

theorem domainName_eq (host : Host) (buf : List UInt8) (n : Int) :
    domainName host buf n = cString ((List.range (n - 4 - 2).toNat).map
      (fun i : Nat => host.bufAt buf (i + 4)) ++ host.afterDomain) := by
  simp only [domainName, domainNameWith, Id.run_bind, List.idRun_mapM]
  rfl

theorem parseRequest_eq (host : Host) (buf : List UInt8) (n : Int) (remoteAddr : SockaddrIn) :
    parseRequest host buf n remoteAddr =
      let byteAt := host.bufAt buf
      let remoteAddr := { remoteAddr with
        sinFamily := afInet
        sinPort := htons host.order
          ((byteAt (n - 2)).toUInt16 <<< 8 ||| (byteAt (n - 1)).toUInt16) }
      match byteAt 3 with
      | 0x01 =>
          let ipv4 := (byteAt 4).toUInt32 <<< 24 ||| (byteAt 5).toUInt32 <<< 16 |||
            (byteAt 6).toUInt32 <<< 8 ||| (byteAt 7).toUInt32
          (.ret 0, { remoteAddr with sinAddr := htonl host.order ipv4 })
      | 0x03 =>
          match host.gethostbyname (domainName host buf n) with
          | none => (.nullDeref, remoteAddr)
          | some h => (.ret (-1), { remoteAddr with
              sinAddr := host.order.load32 (h.hName 0) (h.hName 1) (h.hName 2) (h.hName 3) })
      | 0x04 => (.ret (-1), remoteAddr)
      | _ => (.ret (-1), remoteAddr) := by
  show Id.run (addressWith host.memory host buf (n - 4 - 2) _ (host.bufAt buf 3)) = _
  unfold addressWith
  dsimp only
  split
  · rfl
  · show Id.run (match host.gethostbyname (domainName host buf n) with
      | none => _
      | some _ => _) = _
    split
    · rfl
    · rfl
  · rfl
  · rfl

theorem readRequest_eq (io : BevIO σ) (host : Host) (globalPassword : Password)
    (buf : List UInt8) (remoteAddr : SockaddrIn) (s : σ) :
    readRequest io host globalPassword buf remoteAddr s =
      let (n, buf, s) := decodeRead io globalPassword buf socksBuf s
      if host.bufAt buf 1 ≠ 0x01 then (.ret (-1), remoteAddr, s)
      else ((parseRequest host buf n remoteAddr).1, (parseRequest host buf n remoteAddr).2, s) := by
  unfold readRequest readRequestWith
  obtain ⟨n, buf, s⟩ := decodeRead io globalPassword buf socksBuf s
  by_cases hcmd : host.bufAt buf 1 ≠ 0x01
  · simp only [if_pos hcmd]
    rfl
  · simp only [if_neg hcmd]
    rfl

theorem parseSocks5_eq (io : BevIO σ) (host : Host) (globalPassword : Password)
    (remoteAddr : SockaddrIn) (s : σ) :
    parseSocks5 io host globalPassword remoteAddr s =
      let (_, buf, s) := decodeRead io globalPassword zeroBuf socksBuf s
      if host.bufAt buf 0 ≠ 0x05 then (.ret (-1), remoteAddr, s)
      else
        let (_, s) := io.write (encodeData replyAuth 2 globalPassword) 2 s
        readRequest io host globalPassword buf remoteAddr s := by
  unfold parseSocks5 parseSocks5With
  obtain ⟨n, buf, s⟩ := decodeRead io globalPassword zeroBuf socksBuf s
  by_cases hver : host.bufAt buf 0 ≠ 0x05
  · simp only [if_pos hver]
    rfl
  · simp only [if_neg hver]
    rfl

/-! ## What the two reads see -/

/-- The decoded bytes of the first read. -/
def firstChunk (pass : Password) (input : List UInt8) : List UInt8 :=
  (input.take socksBuf).map (decodePass pass).lookup

/-- The decoded bytes of the second read. -/
def secondChunk (pass : Password) (input : List UInt8) : List UInt8 :=
  ((input.drop socksBuf).take socksBuf).map (decodePass pass).lookup

/-- The buffer after the first read. -/
def greetingBuf (d₁ : List UInt8) : List UInt8 := stored zeroBuf d₁

/-- The buffer after the second read. -/
def requestBuf (d₁ d₂ : List UInt8) : List UInt8 := stored (greetingBuf d₁) d₂

/-- The byte at `j` in the buffer after the second read, for a `j` inside of it. -/
def requestByte (d₁ d₂ : List UInt8) (j : Nat) : UInt8 := d₂[j]?.getD (d₁[j]?.getD 0)

theorem getElem?_of_lt (d₁ : List UInt8) {d₂ : List UInt8} {j : Nat} (hj : j < d₂.length) :
    d₂[j]? = some (requestByte d₁ d₂ j) := by
  unfold requestByte
  rw [List.getElem?_eq_getElem hj]
  rfl

/-- The first read starts with the version byte, so the method reply is written. -/
def Greets (d₁ : List UInt8) : Prop := d₁.head? = some 0x05

/-- The three bytes that are checked, for an IPv4 request. -/
def Accepts (d₁ d₂ : List UInt8) : Prop :=
  Greets d₁ ∧ requestByte d₁ d₂ 1 = 0x01 ∧ requestByte d₁ d₂ 3 = 0x01

/-- A domain request for a name that the resolver does not know. -/
def Faults (host : Host) (d₁ d₂ : List UInt8) : Prop :=
  Greets d₁ ∧ requestByte d₁ d₂ 1 = 0x01 ∧ requestByte d₁ d₂ 3 = 0x03 ∧
    host.gethostbyname (domainName host (requestBuf d₁ d₂) d₂.length) = none

instance : DecidablePred Greets :=
  fun d₁ => inferInstanceAs (Decidable (d₁.head? = some 0x05))

instance (d₁ d₂ : List UInt8) : Decidable (Accepts d₁ d₂) :=
  inferInstanceAs (Decidable (_ ∧ _ ∧ _))

instance (host : Host) (d₁ d₂ : List UInt8) : Decidable (Faults host d₁ d₂) :=
  match h : host.gethostbyname (domainName host (requestBuf d₁ d₂) d₂.length) with
  | none => decidable_of_iff (Greets d₁ ∧ requestByte d₁ d₂ 1 = 0x01 ∧
      requestByte d₁ d₂ 3 = 0x03) (by simp [Faults, h])
  | some _ => isFalse (by simp [Faults, h])

/-- The result and the address for two reads with these decoded bytes. -/
def parseResult (host : Host) (d₁ d₂ : List UInt8) (remoteAddr : SockaddrIn) :
    ParseReturn × SockaddrIn :=
  if Greets d₁ ∧ requestByte d₁ d₂ 1 = 0x01 then
    parseRequest host (requestBuf d₁ d₂) d₂.length remoteAddr
  else (.ret (-1), remoteAddr)

/-- The queues after `parse_socks5`. -/
def parsed (pass : Password) (q : Queues) : Queues :=
  if Greets (firstChunk pass q.src) then
    ⟨q.src.drop (socksBuf + socksBuf), q.dst ++ replyAuth.map pass.lookup⟩
  else { q with src := q.src.drop socksBuf }

theorem dst_parsed (pass : Password) (q : Queues) :
    (parsed pass q).dst =
      q.dst ++ (if Greets (firstChunk pass q.src) then replyAuth else []).map pass.lookup := by
  unfold parsed
  split
  · rfl
  · simp

theorem src_parsed {pass : Password} {q : Queues} (h : Greets (firstChunk pass q.src)) :
    (parsed pass q).src = q.src.drop (socksBuf + socksBuf) := by
  rw [parsed, if_pos h]

theorem firstChunk_identity (input : List UInt8) :
    firstChunk identityPassword input = input.take socksBuf := by
  have hid : (decodePass identityPassword).lookup = id := funext decode_lookup_identity
  rw [firstChunk, hid, List.map_id]

theorem secondChunk_identity (input : List UInt8) :
    secondChunk identityPassword input = (input.drop socksBuf).take socksBuf :=
  firstChunk_identity (input.drop socksBuf)

theorem getElem?_stored (bytes data : List UInt8) (j : Nat) :
    (stored bytes data)[j]? = if j < data.length then data[j]? else bytes[j]? := by
  unfold stored
  split
  · rename_i h
    exact List.getElem?_append_left h
  · rename_i h
    rw [List.getElem?_append_right (Nat.le_of_not_lt h), List.getElem?_drop]
    congr 1
    omega

theorem bufAt_greetingBuf (host : Host) (d₁ : List UInt8) {j : Nat} (hj : j < socksBuf) :
    host.bufAt (greetingBuf d₁) j = d₁[j]?.getD 0 := by
  rw [Host.bufAt, if_pos (Int.natCast_nonneg j), Int.toNat_natCast, greetingBuf, getElem?_stored]
  split
  · rename_i h
    rw [List.getElem?_eq_getElem h]
    rfl
  · rename_i h
    rw [zeroBuf, List.getElem?_replicate_of_lt hj, List.getElem?_eq_none (Nat.le_of_not_lt h)]
    rfl

theorem bufAt_requestBuf (host : Host) (d₁ d₂ : List UInt8) {j : Nat} (hj : j < socksBuf) :
    host.bufAt (requestBuf d₁ d₂) j = requestByte d₁ d₂ j := by
  have h₁ := bufAt_greetingBuf host d₁ hj
  rw [Host.bufAt, if_pos (Int.natCast_nonneg j), Int.toNat_natCast] at h₁ ⊢
  rw [requestBuf, getElem?_stored, requestByte, ← h₁]
  split
  · rename_i h
    rw [List.getElem?_eq_getElem h]
    rfl
  · rename_i h
    rw [List.getElem?_eq_none (Nat.le_of_not_lt h), Option.getD_none, h₁]

/-- The IPv4 branch. -/
theorem parseResult_of_accepts (host : Host) {d₁ d₂ : List UInt8} (h : Accepts d₁ d₂)
    (remoteAddr : SockaddrIn) : (parseResult host d₁ d₂ remoteAddr).1 = .ret 0 := by
  obtain ⟨hgreet, hcmd, hatyp⟩ := h
  have h3 : host.bufAt (requestBuf d₁ d₂) 3 = 0x01 := by
    rw [← hatyp]
    exact bufAt_requestBuf host d₁ d₂ (by decide)
  rw [parseResult, if_pos ⟨hgreet, hcmd⟩, parseRequest_eq]
  simp only [h3]

/-- A resolver that finds nothing ends the program. -/
theorem parseResult_of_faults {host : Host} {d₁ d₂ : List UInt8} (h : Faults host d₁ d₂)
    (remoteAddr : SockaddrIn) : (parseResult host d₁ d₂ remoteAddr).1 = .nullDeref := by
  obtain ⟨hgreet, hcmd, hatyp, hnone⟩ := h
  have h3 : host.bufAt (requestBuf d₁ d₂) 3 = 0x03 := by
    rw [← hatyp]
    exact bufAt_requestBuf host d₁ d₂ (by decide)
  rw [parseResult, if_pos ⟨hgreet, hcmd⟩, parseRequest_eq]
  simp only [h3, hnone]

/-- Everything else is rejected; a domain name too, whether or not it was resolved. -/
theorem parseResult_of_rejects {host : Host} {d₁ d₂ : List UInt8} (ha : ¬ Accepts d₁ d₂)
    (hf : ¬ Faults host d₁ d₂) (remoteAddr : SockaddrIn) :
    (parseResult host d₁ d₂ remoteAddr).1 = .ret (-1) := by
  rw [parseResult]
  split
  · rename_i h
    obtain ⟨hgreet, hcmd⟩ := h
    have h3 : host.bufAt (requestBuf d₁ d₂) 3 = requestByte d₁ d₂ 3 :=
      bufAt_requestBuf host d₁ d₂ (by decide)
    rw [parseRequest_eq]
    simp only [h3]
    split
    · rename_i h1
      exact absurd ⟨hgreet, hcmd, h1⟩ ha
    · rename_i h1
      cases hres : host.gethostbyname (domainName host (requestBuf d₁ d₂) d₂.length) with
      | none => exact absurd ⟨hgreet, hcmd, h1, hres⟩ hf
      | some h => rfl
    · rfl
    · rfl
  · rfl

/-! ### The address of an accepted request -/

theorem lor_eq_add {a b k : Nat} (hb : b < 2 ^ k) : a * 2 ^ k ||| b = a * 2 ^ k + b := by
  rw [Nat.mul_comm, Nat.two_pow_add_eq_or_of_lt hb]

/-- The shifts of the port put the two bytes side by side. -/
theorem toNat_port (b₁ b₀ : UInt8) :
    (b₁.toUInt16 <<< 8 ||| b₀.toUInt16).toNat = b₁.toNat * 2 ^ 8 + b₀.toNat := by
  have h₁ := b₁.toNat_lt
  have h₀ := b₀.toNat_lt
  simp only [UInt16.toNat_or, UInt16.toNat_shiftLeft, UInt8.toNat_toUInt16, Nat.shiftLeft_eq,
    UInt16.reduceToNat, Nat.reduceMod]
  rw [Nat.mod_eq_of_lt (by omega), lor_eq_add (by omega)]

/-- The shifts of the address put the four bytes side by side, the first at the top. -/
theorem toNat_ipv4 (b₃ b₂ b₁ b₀ : UInt8) :
    (b₃.toUInt32 <<< 24 ||| b₂.toUInt32 <<< 16 ||| b₁.toUInt32 <<< 8 ||| b₀.toUInt32).toNat =
      b₃.toNat * 2 ^ 24 + b₂.toNat * 2 ^ 16 + b₁.toNat * 2 ^ 8 + b₀.toNat := by
  have h₃ := b₃.toNat_lt
  have h₂ := b₂.toNat_lt
  have h₁ := b₁.toNat_lt
  have h₀ := b₀.toNat_lt
  simp only [UInt32.toNat_or, UInt32.toNat_shiftLeft, UInt8.toNat_toUInt32, Nat.shiftLeft_eq,
    UInt32.reduceToNat, Nat.reduceMod]
  rw [Nat.mod_eq_of_lt (by omega), Nat.mod_eq_of_lt (by omega), Nat.mod_eq_of_lt (by omega)]
  have e₁ : b₃.toNat * 2 ^ 24 ||| b₂.toNat * 2 ^ 16 = (b₃.toNat * 2 ^ 8 + b₂.toNat) * 2 ^ 16 := by
    rw [lor_eq_add (by omega)]
    omega
  have e₂ : (b₃.toNat * 2 ^ 8 + b₂.toNat) * 2 ^ 16 ||| b₁.toNat * 2 ^ 8 =
      ((b₃.toNat * 2 ^ 8 + b₂.toNat) * 2 ^ 8 + b₁.toNat) * 2 ^ 8 := by
    rw [lor_eq_add (by omega)]
    omega
  rw [e₁, e₂, lor_eq_add (by omega)]
  omega

/-- An accepted request names the address in its bytes 4 to 7, and the port in the last two
    bytes of the second read. -/
theorem names_of_accepts (host : Host) {d₁ d₂ : List UInt8} (h : Accepts d₁ d₂)
    (remoteAddr : SockaddrIn) :
    (parseResult host d₁ d₂ remoteAddr).2.Names host.order
      (requestByte d₁ d₂ 4) (requestByte d₁ d₂ 5) (requestByte d₁ d₂ 6) (requestByte d₁ d₂ 7)
      (host.bufAt (requestBuf d₁ d₂) (d₂.length - 2))
      (host.bufAt (requestBuf d₁ d₂) (d₂.length - 1)) := by
  obtain ⟨hgreet, hcmd, hatyp⟩ := h
  have byteAt : ∀ j : Nat, j < socksBuf →
      host.bufAt (requestBuf d₁ d₂) j = requestByte d₁ d₂ j :=
    fun j hj => bufAt_requestBuf host d₁ d₂ hj
  have h3 : host.bufAt (requestBuf d₁ d₂) 3 = 0x01 := (byteAt 3 (by decide)).trans hatyp
  have h4 : host.bufAt (requestBuf d₁ d₂) 4 = _ := byteAt 4 (by decide)
  have h5 : host.bufAt (requestBuf d₁ d₂) 5 = _ := byteAt 5 (by decide)
  have h6 : host.bufAt (requestBuf d₁ d₂) 6 = _ := byteAt 6 (by decide)
  have h7 : host.bufAt (requestBuf d₁ d₂) 7 = _ := byteAt 7 (by decide)
  rw [parseResult, if_pos ⟨hgreet, hcmd⟩, parseRequest_eq]
  simp only [h3, h4, h5, h6, h7]
  refine ⟨rfl, ?_, ?_⟩
  · exact bytes16_htons_of_toNat host.order (toNat_port ..)
  · exact bytes32_htonl_of_toNat host.order (toNat_ipv4 ..)

/-- The result is `0` exactly for what passes the three checks. -/
theorem parseResult_eq_zero_iff (host : Host) (d₁ d₂ : List UInt8) (remoteAddr : SockaddrIn) :
    (parseResult host d₁ d₂ remoteAddr).1 = .ret 0 ↔ Accepts d₁ d₂ := by
  refine ⟨fun h => ?_, fun h => parseResult_of_accepts host h remoteAddr⟩
  by_contra ha
  by_cases hf : Faults host d₁ d₂
  · rw [parseResult_of_faults hf] at h
    exact absurd h (by decide)
  · rw [parseResult_of_rejects ha hf] at h
    exact absurd h (by decide)

theorem not_faults_of_accepts (host : Host) {d₁ d₂ : List UInt8} (h : Accepts d₁ d₂) :
    ¬ Faults host d₁ d₂ := by
  rintro ⟨_, _, h3, _⟩
  rw [h.2.2] at h3
  cases h3

theorem greets_iff (host : Host) (d₁ : List UInt8) :
    Greets d₁ ↔ host.bufAt (greetingBuf d₁) 0 = 0x05 := by
  have h0 : host.bufAt (greetingBuf d₁) 0 = d₁[0]?.getD 0 :=
    bufAt_greetingBuf host d₁ (by decide)
  rw [h0, Greets, List.head?_eq_getElem?]
  cases d₁[0]? with
  | none => simp
  | some b => simp

theorem parseResult_of_command {host : Host} {d₁ d₂ : List UInt8} (hg : Greets d₁)
    (remoteAddr : SockaddrIn) :
    parseResult host d₁ d₂ remoteAddr =
      if host.bufAt (requestBuf d₁ d₂) 1 ≠ 0x01 then (.ret (-1), remoteAddr)
      else parseRequest host (requestBuf d₁ d₂) d₂.length remoteAddr := by
  have h1 : host.bufAt (requestBuf d₁ d₂) 1 = requestByte d₁ d₂ 1 :=
    bufAt_requestBuf host d₁ d₂ (by decide)
  rw [parseResult, h1]
  by_cases hcmd : requestByte d₁ d₂ 1 = 0x01
  · rw [if_pos ⟨hg, hcmd⟩, if_neg (not_not.mpr hcmd)]
  · rw [if_neg (fun h => hcmd h.2), if_pos hcmd]

/-! ### Two reads that succeed -/

theorem readRequest_of_read {io : BevIO σ} (host : Host) (pass : Password) {d₁ e₂ : List UInt8}
    (hg : Greets d₁) (hlen : e₂.length < 2 ^ 31) {s s' : σ}
    (hread : io.read socksBuf s = (e₂.length, e₂, s')) (remoteAddr : SockaddrIn) :
    readRequest io host pass (greetingBuf d₁) remoteAddr s =
      ((parseResult host d₁ (e₂.map (decodePass pass).lookup) remoteAddr).1,
        (parseResult host d₁ (e₂.map (decodePass pass).lookup) remoteAddr).2, s') := by
  have hn : (e₂.length : Int) = (e₂.map (decodePass pass).lookup).length := by
    rw [List.length_map]
  have hbuf : stored (greetingBuf d₁) (e₂.map (decodePass pass).lookup) =
      requestBuf d₁ (e₂.map (decodePass pass).lookup) := rfl
  rw [readRequest_eq, decodeRead_of_read pass _ hlen hread, hn, hbuf, parseResult_of_command hg]
  by_cases hcmd : host.bufAt (requestBuf d₁ (e₂.map (decodePass pass).lookup)) 1 = 0x01
  · rw [if_neg (not_not.mpr hcmd)]
    exact if_neg (not_not.mpr hcmd)
  · rw [if_pos hcmd]
    exact if_pos hcmd

/-- The result for what two reads find, with whatever calls they and the write are. -/
theorem parseSocks5_of_reads {io : BevIO σ} (host : Host) (pass : Password)
    {e₁ e₂ : List UInt8} (hg : Greets (e₁.map (decodePass pass).lookup))
    (hlen₁ : e₁.length < 2 ^ 31) (hlen₂ : e₂.length < 2 ^ 31) {s s₁ s₂ s₃ : σ} {rc : Int}
    (hread₁ : io.read socksBuf s = (e₁.length, e₁, s₁))
    (hwrite : io.write (encodeData replyAuth 2 pass) 2 s₁ = (rc, s₂))
    (hread₂ : io.read socksBuf s₂ = (e₂.length, e₂, s₃)) (remoteAddr : SockaddrIn) :
    parseSocks5 io host pass remoteAddr s =
      ((parseResult host (e₁.map (decodePass pass).lookup) (e₂.map (decodePass pass).lookup)
          remoteAddr).1,
        (parseResult host (e₁.map (decodePass pass).lookup) (e₂.map (decodePass pass).lookup)
          remoteAddr).2, s₃) := by
  rw [parseSocks5_eq, decodeRead_of_read pass _ hlen₁ hread₁]
  refine (if_neg (not_not.mpr ((greets_iff host _).mp hg))).trans ?_
  rw [hwrite]
  exact readRequest_of_read host pass hg hlen₂ hread₂ remoteAddr

/-- A first read that does not start with the version byte is the only one. -/
theorem parseSocks5_of_not_greets {io : BevIO σ} (host : Host) (pass : Password)
    {e₁ : List UInt8} (hg : ¬ Greets (e₁.map (decodePass pass).lookup))
    (hlen : e₁.length < 2 ^ 31) {s s₁ : σ}
    (hread : io.read socksBuf s = (e₁.length, e₁, s₁)) (remoteAddr : SockaddrIn) :
    parseSocks5 io host pass remoteAddr s = (.ret (-1), remoteAddr, s₁) := by
  rw [parseSocks5_eq, decodeRead_of_read pass _ hlen hread]
  exact if_pos fun h => hg ((greets_iff host _).mpr h)

section

variable {τ : Type} {io : BevIO σ} {io' : BevIO τ} (lift : σ → τ)

theorem decodeRead_lift (hread : ∀ size s, io'.read size (lift s) =
      ((io.read size s).1, (io.read size s).2.1, lift (io.read size s).2.2))
    (pass : Password) (bytes : List UInt8) (size : Nat) (s : σ) :
    decodeRead io' pass bytes size (lift s) =
      ((decodeRead io pass bytes size s).1, (decodeRead io pass bytes size s).2.1,
        lift (decodeRead io pass bytes size s).2.2) := by
  have h := hread size s
  unfold decodeRead
  rcases hr : io.read size s with ⟨n, data, t⟩
  rw [hr] at h
  rw [h]

theorem readRequest_lift (hread : ∀ size s, io'.read size (lift s) =
      ((io.read size s).1, (io.read size s).2.1, lift (io.read size s).2.2))
    (host : Host) (pass : Password) (buf : List UInt8) (remoteAddr : SockaddrIn) (s : σ) :
    readRequest io' host pass buf remoteAddr (lift s) =
      ((readRequest io host pass buf remoteAddr s).1,
        (readRequest io host pass buf remoteAddr s).2.1,
        lift (readRequest io host pass buf remoteAddr s).2.2) := by
  rw [readRequest_eq, readRequest_eq, decodeRead_lift lift hread]
  obtain ⟨n, buf, s⟩ := decodeRead io pass buf socksBuf s
  dsimp only
  split
  · rfl
  · rfl

/-- Calls that do to a larger state what these calls do to a part of it parse the same. -/
theorem parseSocks5_lift (hread : ∀ size s, io'.read size (lift s) =
      ((io.read size s).1, (io.read size s).2.1, lift (io.read size s).2.2))
    (hwrite : ∀ buf size s, io'.write buf size (lift s) =
      ((io.write buf size s).1, lift (io.write buf size s).2))
    (host : Host) (pass : Password) (remoteAddr : SockaddrIn) (s : σ) :
    parseSocks5 io' host pass remoteAddr (lift s) =
      ((parseSocks5 io host pass remoteAddr s).1, (parseSocks5 io host pass remoteAddr s).2.1,
        lift (parseSocks5 io host pass remoteAddr s).2.2) := by
  rw [parseSocks5_eq, parseSocks5_eq, decodeRead_lift lift hread]
  obtain ⟨n, buf, s⟩ := decodeRead io pass zeroBuf socksBuf s
  have h := hwrite (encodeData replyAuth 2 pass) 2 s
  rcases hw : io.write (encodeData replyAuth 2 pass) 2 s with ⟨rc, t⟩
  rw [hw] at h
  simp only [h, hw, readRequest_lift lift hread]
  split
  · rfl
  · rfl

end

theorem parseResult_of_not_greets (host : Host) {d₁ : List UInt8} (hg : ¬ Greets d₁)
    (d₂ : List UInt8) (remoteAddr : SockaddrIn) :
    parseResult host d₁ d₂ remoteAddr = (.ret (-1), remoteAddr) := by
  rw [parseResult, if_neg fun h => hg h.1]

theorem take_encodeData_replyAuth (pass : Password) :
    (encodeData replyAuth 2 pass).take 2 = replyAuth.map pass.lookup := by
  rw [encodeData_eq]
  rfl

/-- The result, and the bytes read and written, wherever the calls act on queues. -/
theorem parseSocks5_view {io : BevIO σ} {view : σ → Queues} {keep : σ → σ → Prop}
    (hio : io.OnQueues view keep) (host : Host) (pass : Password) (remoteAddr : SockaddrIn)
    (s : σ) :
    ∃ s', parseSocks5 io host pass remoteAddr s =
        ((parseResult host (firstChunk pass (view s).src) (secondChunk pass (view s).src)
            remoteAddr).1,
          (parseResult host (firstChunk pass (view s).src) (secondChunk pass (view s).src)
            remoteAddr).2, s') ∧
      view s' = parsed pass (view s) ∧ keep s s' := by
  have hsize : socksBuf < 2 ^ 31 := by decide
  obtain ⟨s₁, hread₁, hview₁, hkeep₁⟩ := hio.read socksBuf s
  have hlen₁ := length_take_lt hsize (view s).src
  by_cases hg : Greets (firstChunk pass (view s).src)
  · obtain ⟨s₂, hwrite, hview₂, hkeep₂⟩ := hio.write (encodeData replyAuth 2 pass) 2 s₁
    obtain ⟨s₃, hread₂, hview₃, hkeep₃⟩ := hio.read socksBuf s₂
    have hsrc : (view s₂).src = (view s).src.drop socksBuf := by
      rw [hview₂, hview₁]
    refine ⟨s₃, ?_, ?_, hio.trans _ _ _ (hio.trans _ _ _ hkeep₁ hkeep₂) hkeep₃⟩
    · rw [hsrc] at hread₂
      exact parseSocks5_of_reads host pass hg hlen₁ (length_take_lt hsize _) hread₁ hwrite hread₂
        remoteAddr
    · rw [hview₃, hview₂, hview₁, take_encodeData_replyAuth, parsed, if_pos hg, List.drop_drop]
  · refine ⟨s₁, ?_, ?_, hkeep₁⟩
    · rw [parseResult_of_not_greets host hg]
      exact parseSocks5_of_not_greets host pass hg hlen₁ hread₁ remoteAddr
    · rw [hview₁, parsed, if_neg hg]

/-! ## Two given reads -/

/-- What the two reads of `parse_socks5` find. -/
def twoReads (e₁ e₂ : List UInt8) : Nat → Option (List UInt8)
  | 0 => some e₁
  | _ + 1 => some e₂

/-- `parse_socks5` when its reads find `e₁` and `e₂`, with the calls it makes. The result of its
    write, which it logs, is `rc`. -/
def parseChunks (host : Host) (globalPassword : Password) (rc : Int) (remoteAddr : SockaddrIn)
    (e₁ e₂ : List UInt8) : ParseReturn × SockaddrIn × Calls :=
  parseSocks5 (scriptCalls (twoReads e₁ e₂) fun _ => rc) host globalPassword remoteAddr Calls.none

theorem parseChunks_eq (host : Host) (pass : Password) (rc : Int) (remoteAddr : SockaddrIn)
    (e₁ e₂ : List UInt8) :
    parseChunks host pass rc remoteAddr e₁ e₂ =
      ((parseResult host (firstChunk pass e₁) (firstChunk pass e₂) remoteAddr).1,
        (parseResult host (firstChunk pass e₁) (firstChunk pass e₂) remoteAddr).2,
        if Greets (firstChunk pass e₁) then ⟨2, [(replyAuth.map pass.lookup, 2)]⟩
        else ⟨1, []⟩) := by
  have hsize : socksBuf < 2 ^ 31 := by decide
  unfold parseChunks
  by_cases hg : Greets (firstChunk pass e₁)
  · rw [if_pos hg, ← encodeData_full replyAuth]
    exact parseSocks5_of_reads host pass hg (length_take_lt hsize e₁) (length_take_lt hsize e₂)
      rfl rfl rfl remoteAddr
  · rw [if_neg hg, parseResult_of_not_greets host hg]
    exact parseSocks5_of_not_greets host pass hg (length_take_lt hsize e₁) rfl remoteAddr

end Lightsocks
