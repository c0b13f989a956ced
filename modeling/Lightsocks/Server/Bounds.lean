import Lightsocks.Server.Handshake

/-
  The arrays of `parse_socks5`: `buf`, and `domain` with a length taken from the second read.

  After the version and the command byte, the function looks at the bytes `usedIndices`, some of
  them counted from the end of the second read, whose count it does not look at. `parseNoting`
  is the function with an account of these uses, in the order in which they are made
  (`parseNoting_eq`). For a short second read they leave what it has read, or the buffer
  (`in_bounds_iff`).
-/

namespace Lightsocks.Server

open Lib

/-! ## The bytes that are looked at -/

/-- The indices into `buf` for an address type. -/
def addressIndices (nameLen : Int) : UInt8 → List Int
  | 0x01 => [4, 5, 6, 7]
  | 0x03 => (List.range nameLen.toNat).map fun i : Nat => (i : Int) + 4
  | _ => []

/-- The indices into `buf` behind the version and the command checks. -/
def usedIndices (host : Host) (buf : List UInt8) (n : Int) : List Int :=
  [n - 2, n - 1, 3] ++ addressIndices (n - 4 - 2) (host.bufAt buf 3)

/-- Nothing else of the buffer is looked at, in it or around it. -/
theorem parseRequest_congr (host : Host) {buf buf' : List UInt8} {n : Int} {o : Int → UInt8}
    (h : ∀ i ∈ usedIndices host buf n,
      { host with outside := o }.bufAt buf' i = host.bufAt buf i) (remoteAddr : SockaddrIn) :
    parseRequest { host with outside := o } buf' n remoteAddr =
      parseRequest host buf n remoteAddr := by
  have h₂ := h (n - 2) (by simp [usedIndices])
  have h₁ := h (n - 1) (by simp [usedIndices])
  have h₃ := h 3 (by simp [usedIndices])
  have haddr : ∀ i ∈ addressIndices (n - 4 - 2) (host.bufAt buf 3),
      { host with outside := o }.bufAt buf' i = host.bufAt buf i :=
    fun i hi => h i (List.mem_append_right _ hi)
  unfold addressIndices at haddr
  rw [parseRequest_eq, parseRequest_eq]
  dsimp only
  rw [h₂, h₁, h₃]
  split
  · rename_i hb
    rw [hb] at haddr
    rw [haddr 4 (by simp), haddr 5 (by simp), haddr 6 (by simp), haddr 7 (by simp)]
  · rename_i hb
    rw [hb] at haddr
    have hname : domainName { host with outside := o } buf' n = domainName host buf n := by
      rw [domainName_eq, domainName_eq]
      refine congrArg (fun l => cString (l ++ host.afterDomain)) (List.map_congr_left ?_)
      exact fun i hi => haddr _ (List.mem_map_of_mem hi)
    rw [hname]
  · rfl
  · rfl

/-! ## The account of the arrays -/

/-- One use of an array behind the two checks. -/
inductive ArrayUse where
  /-- `buf[i]`. -/
  | index (i : Int)
  /-- `char domain[len]`. -/
  | declared (len : Int)
  deriving DecidableEq

/-- The use is in order when the second read has left `n` bytes in `buf`. -/
def ArrayUse.InOrder (n : Nat) : ArrayUse → Prop
  | .index i => 0 ≤ i ∧ i < n
  | .declared len => 1 ≤ len

/-- Every use is put down. -/
def noting (host : Host) : Memory (StateM (List ArrayUse)) where
  bufAt buf i uses := (host.bufAt buf i, uses ++ [.index i])
  declare len uses := ((), uses ++ [.declared len])

/-- `parse_socks5` when its reads find `e₁` and `e₂`, as `parseChunks` has it, and the uses of
    its arrays behind the two checks. -/
def parseNoting (host : Host) (globalPassword : Password) (rc : Int) (remoteAddr : SockaddrIn)
    (e₁ e₂ : List UInt8) : (ParseReturn × SockaddrIn × Calls) × List ArrayUse :=
  parseSocks5With (noting host) (scriptCalls (twoReads e₁ e₂) fun _ => rc) host globalPassword
    remoteAddr Calls.none []

/-- What `parseRequest` uses, in this order. -/
def arrayUses (host : Host) (buf : List UInt8) (n : Int) : List ArrayUse :=
  [.index (n - 2), .index (n - 1), .declared (n - 4 - 2), .index 3] ++
    (addressIndices (n - 4 - 2) (host.bufAt buf 3)).map .index

theorem bind_noting {α β : Type} (x : StateM (List ArrayUse) α) (f : α → StateM (List ArrayUse) β)
    (uses : List ArrayUse) : (x >>= f) uses = f (x uses).1 (x uses).2 := rfl

theorem bufAt_noting (host : Host) (buf : List UInt8) (i : Int) (uses : List ArrayUse) :
    (noting host).bufAt buf i uses = (host.bufAt buf i, uses ++ [.index i]) := rfl

theorem mapM_noting (host : Host) (buf : List UInt8) (f : Nat → Int) (l : List Nat)
    (uses : List ArrayUse) :
    (l.mapM fun i => (noting host).bufAt buf (f i)) uses =
      (l.map fun i => host.bufAt buf (f i), uses ++ l.map fun i => .index (f i)) := by
  induction l generalizing uses with
  | nil =>
      rw [List.map_nil, List.map_nil, List.append_nil]
      rfl
  | cons i l ih =>
      have hnext : uses ++ .index (f i) :: (l.map fun i => .index (f i)) =
          (uses ++ [.index (f i)]) ++ l.map fun i => .index (f i) := List.append_cons ..
      rw [List.mapM_cons, bind_noting, bufAt_noting, bind_noting, ih, List.map_cons,
        List.map_cons, hnext]
      rfl

theorem domainNameWith_noting (host : Host) (buf : List UInt8) (nameLen : Int)
    (uses : List ArrayUse) :
    domainNameWith (noting host) host buf nameLen uses =
      (Id.run (domainNameWith host.memory host buf nameLen),
        uses ++ (addressIndices nameLen 0x03).map .index) := by
  have hplain : Id.run (domainNameWith host.memory host buf nameLen) =
      cString ((List.range nameLen.toNat).map (fun i : Nat => host.bufAt buf (i + 4)) ++
        host.afterDomain) := by
    simp only [domainNameWith, Id.run_bind, List.idRun_mapM]
    rfl
  rw [hplain, addressIndices, List.map_map]
  unfold domainNameWith
  rw [bind_noting, mapM_noting host buf fun i => (i : Int) + 4]
  rfl

/-- The account of the `switch`, and its result, which is the same as without. -/
theorem addressWith_noting (host : Host) (buf : List UInt8) (nameLen : Int)
    (remoteAddr : SockaddrIn) (atyp : UInt8) (uses : List ArrayUse) :
    addressWith (noting host) host buf nameLen remoteAddr atyp uses =
      (Id.run (addressWith host.memory host buf nameLen remoteAddr atyp),
        uses ++ (addressIndices nameLen atyp).map .index) := by
  by_cases h1 : atyp = 0x01
  · subst h1
    have happ : uses ++ [.index 4] ++ [.index 5] ++ [.index 6] ++ [.index 7] =
        uses ++ (addressIndices nameLen 0x01).map .index := by simp [addressIndices]
    rw [← happ]
    rfl
  by_cases h3 : atyp = 0x03
  · subst h3
    have hname := domainNameWith_noting host buf nameLen uses
    have hdomain : Id.run (domainNameWith host.memory host buf nameLen) =
        domainNameWith host.memory host buf nameLen := rfl
    rw [addressWith, addressWith, bind_noting, hname, hdomain, Id.run_bind, hdomain]
    cases host.gethostbyname (domainNameWith host.memory host buf nameLen) <;> rfl
  · have hnone : addressIndices nameLen atyp = [] := by simp [addressIndices]
    rw [hnone, List.map_nil, List.append_nil]
    by_cases h4 : atyp = 0x04
    · rw [h4]
      rfl
    · simp only [addressWith]
      rfl

/-- The account of the parse, and its result. -/
theorem parseRequestWith_noting (host : Host) (buf : List UInt8) (n : Int)
    (remoteAddr : SockaddrIn) (uses : List ArrayUse) :
    parseRequestWith (noting host) host buf n remoteAddr uses =
      (parseRequest host buf n remoteAddr, uses ++ arrayUses host buf n) := by
  have happ : uses ++ [.index (n - 2)] ++ [.index (n - 1)] ++ [.declared (n - 4 - 2)] ++
      [.index 3] = uses ++ [ArrayUse.index (n - 2), .index (n - 1), .declared (n - 4 - 2),
        .index 3] := by simp
  rw [arrayUses, ← List.append_assoc, ← happ]
  exact addressWith_noting host buf (n - 4 - 2) _ _ _

/-- The account of the second read and what follows it. -/
theorem readRequestWith_noting {σ : Type} {io : BevIO σ} (host : Host) (pass : Password)
    {d₁ e₂ : List UInt8} (hlen : e₂.length < 2 ^ 31) {s s' : σ}
    (hread : io.read socksBuf s = (e₂.length, e₂, s')) (remoteAddr : SockaddrIn)
    (uses : List ArrayUse) :
    readRequestWith (noting host) io host pass (greetingBuf d₁) remoteAddr s uses =
      (readRequest io host pass (greetingBuf d₁) remoteAddr s,
        uses ++ if requestByte d₁ (e₂.map (decodePass pass).lookup) 1 = 0x01 then
          arrayUses host (requestBuf d₁ (e₂.map (decodePass pass).lookup)) e₂.length else []) := by
  have hbuf : stored (greetingBuf d₁) (e₂.map (decodePass pass).lookup) =
      requestBuf d₁ (e₂.map (decodePass pass).lookup) := rfl
  have hcmd : host.bufAt (requestBuf d₁ (e₂.map (decodePass pass).lookup)) 1 =
      requestByte d₁ (e₂.map (decodePass pass).lookup) 1 := bufAt_requestBuf host _ _ (by decide)
  rw [readRequest_eq]
  unfold readRequestWith
  rw [decodeRead_of_read pass _ hlen hread, hbuf]
  dsimp only
  rw [hcmd]
  by_cases h1 : requestByte d₁ (e₂.map (decodePass pass).lookup) 1 = 0x01
  · rw [if_neg (not_not.mpr h1), if_neg (not_not.mpr h1), if_pos h1, bind_noting,
      parseRequestWith_noting]
    rfl
  · rw [if_pos h1, if_pos h1, if_neg h1, List.append_nil]
    rfl

/-- The account of `parse_socks5`, for what two reads find. -/
theorem parseSocks5With_noting {σ : Type} {io : BevIO σ} (host : Host) (pass : Password)
    {e₁ e₂ : List UInt8} (hlen₁ : e₁.length < 2 ^ 31) (hlen₂ : e₂.length < 2 ^ 31)
    {s s₁ s₂ s₃ : σ} {rc : Int} (hread₁ : io.read socksBuf s = (e₁.length, e₁, s₁))
    (hwrite : io.write (encodeData replyAuth 2 pass) 2 s₁ = (rc, s₂))
    (hread₂ : io.read socksBuf s₂ = (e₂.length, e₂, s₃)) (remoteAddr : SockaddrIn) :
    parseSocks5With (noting host) io host pass remoteAddr s [] =
      (parseSocks5 io host pass remoteAddr s,
        if Greets (e₁.map (decodePass pass).lookup) ∧ requestByte
          (e₁.map (decodePass pass).lookup) (e₂.map (decodePass pass).lookup) 1 = 0x01 then
          arrayUses host (requestBuf (e₁.map (decodePass pass).lookup)
            (e₂.map (decodePass pass).lookup)) e₂.length
        else []) := by
  have hver := greets_iff host (e₁.map (decodePass pass).lookup)
  by_cases hg : Greets (e₁.map (decodePass pass).lookup)
  · have h5 := not_not.mpr (hver.mp hg)
    have hplain : parseSocks5 io host pass remoteAddr s = readRequest io host pass
        (greetingBuf (e₁.map (decodePass pass).lookup)) remoteAddr s₂ := by
      rw [parseSocks5_eq, decodeRead_of_read pass _ hlen₁ hread₁]
      refine (if_neg h5).trans ?_
      rw [hwrite]
      rfl
    have hnoting : parseSocks5With (noting host) io host pass remoteAddr s =
        readRequestWith (noting host) io host pass
          (greetingBuf (e₁.map (decodePass pass).lookup)) remoteAddr s₂ := by
      unfold parseSocks5With
      rw [decodeRead_of_read pass _ hlen₁ hread₁]
      refine (if_neg h5).trans ?_
      rw [hwrite]
      rfl
    rw [hplain, hnoting, readRequestWith_noting host pass hlen₂ hread₂ remoteAddr []]
    simp only [hg, true_and, List.nil_append]
  · have h5 := fun h => hg (hver.mpr h)
    rw [if_neg fun h => hg h.1, parseSocks5_of_not_greets host pass hg hlen₁ hread₁]
    unfold parseSocks5With
    rw [decodeRead_of_read pass _ hlen₁ hread₁]
    exact congrArg (fun x : StateM (List ArrayUse) _ => x []) (if_pos h5)

/-- The account when the reads find `e₁` and `e₂`: what `parseRequest` uses, if the two checks
    are passed. The result is that of `parseChunks`. -/
theorem parseNoting_eq (host : Host) (pass : Password) (rc : Int) (remoteAddr : SockaddrIn)
    (e₁ e₂ : List UInt8) :
    parseNoting host pass rc remoteAddr e₁ e₂ =
      (parseChunks host pass rc remoteAddr e₁ e₂,
        if Greets (firstChunk pass e₁) ∧
          requestByte (firstChunk pass e₁) (firstChunk pass e₂) 1 = 0x01 then
          arrayUses host (requestBuf (firstChunk pass e₁) (firstChunk pass e₂))
            (firstChunk pass e₂).length
        else []) := by
  have hsize : socksBuf < 2 ^ 31 := by decide
  have hlen : (firstChunk pass e₂).length = (e₂.take socksBuf).length := List.length_map _
  have hread₁ : (scriptCalls (twoReads e₁ e₂) fun _ => rc).read socksBuf Calls.none =
      ((e₁.take socksBuf).length, e₁.take socksBuf, ⟨1, []⟩) := rfl
  have hwrite : (scriptCalls (twoReads e₁ e₂) fun _ => rc).write (encodeData replyAuth 2 pass) 2
      ⟨1, []⟩ = (rc, ⟨1, [(encodeData replyAuth 2 pass, 2)]⟩) := rfl
  have hread₂ : (scriptCalls (twoReads e₁ e₂) fun _ => rc).read socksBuf
      ⟨1, [(encodeData replyAuth 2 pass, 2)]⟩ = ((e₂.take socksBuf).length, e₂.take socksBuf,
        ⟨2, [(encodeData replyAuth 2 pass, 2)]⟩) := rfl
  have hnoting := parseSocks5With_noting host pass (length_take_lt hsize e₁)
    (length_take_lt hsize e₂) hread₁ hwrite hread₂ remoteAddr
  unfold parseNoting parseChunks
  rw [hnoting, hlen, firstChunk, firstChunk]

/-! ## Bounds -/

/-- Every use of an array behind the two checks is in order: its index lies in what the second
    read has left there, and the array for the name has at least one element. -/
def InBounds (host : Host) (pass : Password) (rc : Int) (remoteAddr : SockaddrIn)
    (e₁ e₂ : List UInt8) : Prop :=
  ∀ use ∈ (parseNoting host pass rc remoteAddr e₁ e₂).2, use.InOrder (firstChunk pass e₂).length

theorem arrayUses_inOrder_iff (host : Host) (buf : List UInt8) (n : Nat) :
    (∀ use ∈ arrayUses host buf n, use.InOrder n) ↔
      (∀ i ∈ usedIndices host buf n, 0 ≤ i ∧ i < n) ∧ 1 ≤ (n : Int) - 4 - 2 := by
  simp only [arrayUses, usedIndices, List.forall_mem_append, List.forall_mem_cons,
    List.forall_mem_map, List.not_mem_nil, false_implies, implies_true, and_true,
    ArrayUse.InOrder]
  tauto

theorem bufAt_requestBuf_of_lt (host : Host) (d₁ : List UInt8) {d₂ : List UInt8} {j : Nat}
    (hj : j < d₂.length) : host.bufAt (requestBuf d₁ d₂) j = d₂[j]?.getD 0 := by
  rw [Host.bufAt, if_pos (Int.natCast_nonneg j), Int.toNat_natCast, requestBuf, getElem?_stored,
    if_pos hj, List.getElem?_eq_getElem hj]
  rfl

/-- A read of eight bytes is long enough for every index, and one of four if it has no address
    of four bytes. -/
theorem usedIndices_lt (host : Host) (buf : List UInt8) {n : Int}
    (hn : 8 ≤ n ∨ 4 ≤ n ∧ host.bufAt buf 3 ≠ 0x01) :
    ∀ i ∈ usedIndices host buf n, 0 ≤ i ∧ i < n := by
  intro i hi
  unfold usedIndices addressIndices at hi
  rcases List.mem_append.mp hi with hfirst | hrest
  · simp only [List.mem_cons, List.not_mem_nil, or_false] at hfirst
    omega
  · split at hrest
    · rename_i hb
      have h8 : 8 ≤ n := hn.resolve_right fun h => h.2 hb
      simp only [List.mem_cons, List.not_mem_nil, or_false] at hrest
      omega
    · obtain ⟨k, hk, rfl⟩ := List.mem_map.mp hrest
      have hlt := List.mem_range.mp hk
      omega
    · exact absurd hrest (List.not_mem_nil)

/-- The byte at index 3, when the second read gets that far. -/
theorem bufAt_three_iff (host : Host) (d₁ : List UInt8) {d₂ : List UInt8} (hlen : 4 ≤ d₂.length)
    (b : UInt8) : host.bufAt (requestBuf d₁ d₂) 3 = b ↔ d₂[3]? = some b := by
  have hlt : 3 < d₂.length := by omega
  have hbyte : host.bufAt (requestBuf d₁ d₂) 3 = d₂[3]?.getD 0 :=
    bufAt_requestBuf_of_lt host d₁ hlt
  rw [hbyte, List.getElem?_eq_getElem hlt, Option.getD_some, Option.some.injEq]

theorem usedIndices_bounded_iff (host : Host) (d₁ d₂ : List UInt8) :
    (∀ i ∈ usedIndices host (requestBuf d₁ d₂) d₂.length, 0 ≤ i ∧ i < (d₂.length : Int)) ∧
        1 ≤ (d₂.length : Int) - 4 - 2 ↔
      8 ≤ d₂.length ∨ d₂.length = 7 ∧ d₂[3]? ≠ some 0x01 := by
  constructor
  · rintro ⟨hin, hname⟩
    by_cases hatyp : host.bufAt (requestBuf d₁ d₂) 3 = 0x01
    · have hseven := (hin 7 (by rw [usedIndices, hatyp]; simp [addressIndices])).2
      omega
    · rw [ne_eq, ← bufAt_three_iff host d₁ (by omega)]
      by_cases h8 : 8 ≤ d₂.length
      · exact Or.inl h8
      · exact Or.inr ⟨by omega, hatyp⟩
  · rintro (h8 | ⟨h7, hatyp⟩)
    · exact ⟨usedIndices_lt host _ (Or.inl (by omega)), by omega⟩
    · rw [ne_eq, ← bufAt_three_iff host d₁ (by omega)] at hatyp
      exact ⟨usedIndices_lt host _ (Or.inr ⟨by omega, hatyp⟩), by omega⟩

/-- **Bounds.** For every two reads: `parse_socks5` stays in bounds exactly if one of the two
    checks fails or the second read has eight bytes, or seven when its address type is not
    IPv4. -/
theorem in_bounds_iff (host : Host) (pass : Password) (rc : Int) (remoteAddr : SockaddrIn)
    (e₁ e₂ : List UInt8) :
    InBounds host pass rc remoteAddr e₁ e₂ ↔
      ¬ (Greets (firstChunk pass e₁) ∧
        requestByte (firstChunk pass e₁) (firstChunk pass e₂) 1 = 0x01) ∨
      8 ≤ (firstChunk pass e₂).length ∨
      (firstChunk pass e₂).length = 7 ∧ (firstChunk pass e₂)[3]? ≠ some 0x01 := by
  unfold InBounds
  rw [parseNoting_eq]
  by_cases hpass : Greets (firstChunk pass e₁) ∧
      requestByte (firstChunk pass e₁) (firstChunk pass e₂) 1 = 0x01
  · simp only [if_pos hpass]
    rw [arrayUses_inOrder_iff, usedIndices_bounded_iff]
    simp only [hpass, and_self, not_true, false_or]
  · simp only [if_neg hpass]
    exact iff_of_true (List.forall_mem_nil _) (Or.inl hpass)

/-- A greeting of four bytes that passes for a request, and an empty second read: the function
    reads `buf[-2]`. -/
theorem empty_read_out_of_bounds :
    .index (-2) ∈ (parseNoting plainHost identityPassword 0 SockaddrIn.zero
        [0x05, 0x01, 0x00, 0x01] []).2 ∧
      ¬ InBounds plainHost identityPassword 0 SockaddrIn.zero [0x05, 0x01, 0x00, 0x01] [] := by
  have hused : .index (-2) ∈ (parseNoting plainHost identityPassword 0 SockaddrIn.zero
      [0x05, 0x01, 0x00, 0x01] []).2 := by
    rw [parseNoting_eq, firstChunk_identity, firstChunk_identity]
    decide
  refine ⟨hused, fun h => ?_⟩
  have hin : 0 ≤ (-2 : Int) := (h _ hused).1
  omega

end Lightsocks.Server
