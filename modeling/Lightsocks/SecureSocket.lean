import Lightsocks.Password

/-
  `lib/securesocket.c`: encrypted reads and writes on a bufferevent, and the two copy loops.

  `BevIO σ` is what these functions use of libevent, over a state `σ`: `bufferevent_read` with
  its `size_t` result and the bytes it stored, and `bufferevent_write` with its `int` result.
  Nothing is assumed of it here: a read may report an error (`-1` as a `size_t`), a write may
  fail. `queueIO` is the instance where both succeed on byte queues, and `BevIO.OnQueues` says
  that some other instance does the same to a part of its state. `scriptCalls` is the instance
  whose results are given in advance.

  The loops keep their count in a `size_t` that passes through `int` on the way; `toInt` and
  `toSizeT` are these conversions. They run on fuel, one unit per read; on queues as many units
  as there are bytes, and one more, are enough (`copyLoop_view`).

  Wherever the calls act on byte queues, both loops return `-1` exactly for an empty source,
  and otherwise move all of it, substituted byte by byte, to the end of the destination
  (`decodeCopyPass_view`, `encodeCopyPass_view`).
-/

namespace Lightsocks

open Lib

/-- A 64-bit `size_t` assigned to a 32-bit `int`. -/
def toInt (n : Nat) : Int := Int.bmod n (2 ^ 32)

/-- An `int` assigned to a 64-bit `size_t`. -/
def toSizeT (n : Int) : Nat := (n % 2 ^ 64).toNat

theorem toInt_of_lt {n : Nat} (h : n < 2 ^ 31) : toInt n = n := by
  unfold toInt
  rw [Int.bmod_def]
  omega

theorem toSizeT_natCast {n : Nat} (h : n < 2 ^ 31) : toSizeT n = n := by
  unfold toSizeT
  omega

/-- What is used of libevent's buffer calls. -/
structure BevIO (σ : Type) where
  /-- `bufferevent_read(bev, buf, size)`: the result, the bytes stored, the state after. -/
  read : Nat → σ → Nat × List UInt8 × σ
  /-- `bufferevent_write(bev, buf, size)`: the result, the state after. -/
  write : List UInt8 → Nat → σ → Int × σ

variable {σ : Type}

/-- `BUFFER_SIZE`. -/
abbrev bufferSize : Nat := 1024

/-- The buffer after a read stored `data` at its front. -/
def stored (bytes data : List UInt8) : List UInt8 := data ++ bytes.drop data.length

/-- `decode_read`: the result, the buffer, the state after. -/
def decodeRead (io : BevIO σ) (password : Password) (bytes : List UInt8) (size : Nat) (s : σ) :
    Int × List UInt8 × σ :=
  let (n, data, s) := io.read size s
  let n := toInt n
  (n, decodeData (stored bytes data) n password, s)

/-- `encode_write`: the result, the state after. -/
def encodeWrite (io : BevIO σ) (password : Password) (bytes : List UInt8) (size : Nat) (s : σ) :
    Int × σ :=
  io.write (encodeData bytes (toInt size) password) size s

/-- The loop shared by `decode_copy_pass` and `encode_copy_pass`: read a buffer, stop when the
    count is zero (with `-1` if it is the first), else write that much. The result of the write
    is stored in the count, which the next read overwrites. `none` when the fuel runs out. -/
def copyLoop (read : σ → Nat × List UInt8 × σ) (write : List UInt8 → Nat → σ → Int × σ) :
    Nat → Bool → σ → Option (Int × σ)
  | 0, _, _ => none
  | fuel + 1, firstTime, s =>
      let (n, buf, s) := read s
      if n ≤ 0 then
        if firstTime then some (-1, s) else some (0, s)
      else
        let (_, s) := write buf n s
        copyLoop read write fuel false s

/-- `n = decode_read(pass, src, buf, BUFFER_SIZE)` into a fresh buffer. -/
def decodeChunk (io : BevIO σ) (pass : Password) (s : σ) : Nat × List UInt8 × σ :=
  let (n, buf, s) := decodeRead io pass (List.replicate bufferSize 0) bufferSize s
  (toSizeT n, buf, s)

/-- `n = bufferevent_read(src, buf, BUFFER_SIZE)` into a fresh buffer. -/
def plainChunk (io : BevIO σ) (s : σ) : Nat × List UInt8 × σ :=
  let (n, data, s) := io.read bufferSize s
  (n, stored (List.replicate bufferSize 0) data, s)

/-- `decode_copy_pass`. -/
def decodeCopyPass (io : BevIO σ) (pass : Password) (fuel : Nat) (s : σ) : Option (Int × σ) :=
  copyLoop (decodeChunk io pass) io.write fuel true s

/-- `encode_copy_pass`. -/
def encodeCopyPass (io : BevIO σ) (pass : Password) (fuel : Nat) (s : σ) : Option (Int × σ) :=
  copyLoop (plainChunk io) (encodeWrite io pass) fuel true s

/-- `SecureSocket`; `password` is `NULL` when the key was not accepted. -/
structure SecureSocket where
  password : Option Password

/-- `decode_copy`: `-1` for a null socket or a null password. -/
def decodeCopy (io : BevIO σ) (ss : Option SecureSocket) (fuel : Nat) (s : σ) :
    Option (Int × σ) :=
  match ss.bind SecureSocket.password with
  | none => some (-1, s)
  | some pass => decodeCopyPass io pass fuel s

/-- `encode_copy`. -/
def encodeCopy (io : BevIO σ) (ss : Option SecureSocket) (fuel : Nat) (s : σ) :
    Option (Int × σ) :=
  match ss.bind SecureSocket.password with
  | none => some (-1, s)
  | some pass => encodeCopyPass io pass fuel s

/-! ## Byte queues -/

/-- The input queue that is read from and the output queue that is written to. -/
structure Queues where
  src : List UInt8
  dst : List UInt8
  deriving DecidableEq

/-- Reads take what is there, up to `size` bytes, without waiting; writes append and
    return `0`. -/
def queueIO : BevIO Queues where
  read size q := ((q.src.take size).length, q.src.take size, { q with src := q.src.drop size })
  write buf size q := (0, { q with dst := q.dst ++ buf.take size })

/-- `io` acts on the part `view` of the state as `queueIO` does. `keep` is what its calls do to
    the rest. -/
structure BevIO.OnQueues (io : BevIO σ) (view : σ → Queues) (keep : σ → σ → Prop) : Prop where
  read : ∀ size s, ∃ s', io.read size s =
    (((view s).src.take size).length, (view s).src.take size, s') ∧
    view s' = { view s with src := (view s).src.drop size } ∧ keep s s'
  write : ∀ buf size s, ∃ s', io.write buf size s = (0, s') ∧
    view s' = { view s with dst := (view s).dst ++ buf.take size } ∧ keep s s'
  refl : ∀ s, keep s s
  trans : ∀ s t u, keep s t → keep t u → keep s u

theorem queueIO_onQueues : queueIO.OnQueues id fun _ _ => True where
  read _ _ := ⟨_, rfl, rfl, trivial⟩
  write _ _ _ := ⟨_, rfl, rfl, trivial⟩
  refl _ := trivial
  trans _ _ _ _ _ := trivial

/-! ## Given results -/

/-- The calls that have been made: the number of reads, and the buffer and the size of every
    write. -/
structure Calls where
  reads : Nat
  writes : List (List UInt8 × Nat)
  deriving DecidableEq

/-- No call yet. -/
def Calls.none : Calls := ⟨0, []⟩

/-- The result of a read that fails, `-1` as a `size_t`. -/
abbrev readError : Nat := 2 ^ 64 - 1

/-- The `k`-th read finds `found k` and takes what of it fits into the buffer; `none` is an
    error. The `k`-th write returns `rc k`. -/
def scriptCalls (found : Nat → Option (List UInt8)) (rc : Nat → Int) : BevIO Calls where
  read size c :=
    match found c.reads with
    | some data => ((data.take size).length, data.take size, { c with reads := c.reads + 1 })
    | none => (readError, [], { c with reads := c.reads + 1 })
  write buf size c := (rc c.writes.length, { c with writes := c.writes ++ [(buf, size)] })

theorem take_stored (bytes data : List UInt8) : (stored bytes data).take data.length = data := by
  unfold stored
  rw [List.take_left]

theorem length_take_lt {size : Nat} (hsize : size < 2 ^ 31) (src : List UInt8) :
    (src.take size).length < 2 ^ 31 :=
  lt_of_le_of_lt (List.length_take_le _ _) hsize

section

variable {io : BevIO σ} {view : σ → Queues} {keep : σ → σ → Prop}

/-- A read that succeeds leaves its bytes, decoded, at the front of the buffer. -/
theorem decodeRead_of_read (pass : Password) (bytes : List UInt8) {data : List UInt8}
    (hlen : data.length < 2 ^ 31) {size : Nat} {s s' : σ}
    (hread : io.read size s = (data.length, data, s')) :
    decodeRead io pass bytes size s =
      ((data.length : Int), stored bytes (data.map (decodePass pass).lookup), s') := by
  simp only [decodeRead, hread, toInt_of_lt hlen, decodeData_eq, stored, Int.toNat_natCast,
    List.take_left, List.drop_left, List.length_map]

theorem decodeRead_view (hio : io.OnQueues view keep) (pass : Password) (bytes : List UInt8)
    {size : Nat} (hsize : size < 2 ^ 31) (s : σ) :
    ∃ s', decodeRead io pass bytes size s =
        ((((view s).src.take size).length : Int),
          stored bytes (((view s).src.take size).map (decodePass pass).lookup), s') ∧
      view s' = { view s with src := (view s).src.drop size } ∧ keep s s' := by
  obtain ⟨s', hread, hview, hkeep⟩ := hio.read size s
  exact ⟨s', decodeRead_of_read pass bytes (length_take_lt hsize _) hread, hview, hkeep⟩

/-- Writing the front of a buffer writes the encoded data, whatever lies behind it. -/
theorem encodeWrite_view (hio : io.OnQueues view keep) (pass : Password)
    (bytes data : List UInt8) (h : data.length < 2 ^ 31) (s : σ) :
    ∃ s', encodeWrite io pass (stored bytes data) data.length s = (0, s') ∧
      view s' = { view s with dst := (view s).dst ++ data.map pass.lookup } ∧ keep s s' := by
  obtain ⟨s', hwrite, hview, hkeep⟩ :=
    hio.write (encodeData (stored bytes data) data.length pass) data.length s
  refine ⟨s', ?_, ?_, hkeep⟩
  · rw [encodeWrite, toInt_of_lt h, hwrite]
  · rw [hview, encodeData_eq, Int.toNat_natCast, take_stored,
      List.take_left' (List.length_map pass.lookup)]

/-! ## The loops on queues -/

/-- What a copy that applies `f` to every byte does to queues. -/
def copied (f : UInt8 → UInt8) (q : Queues) : Queues := ⟨[], q.dst ++ q.src.map f⟩

/-- A loop whose reads take chunks off the source queue and whose writes append them, `f`
    applied, moves everything. One unit of fuel for each byte and one more suffice. -/
theorem copyLoop_view (hio : io.OnQueues view keep) (f : UInt8 → UInt8)
    (read : σ → Nat × List UInt8 × σ) (write : List UInt8 → Nat → σ → Int × σ)
    (hstep : ∀ s, ∃ buf s', read s = (((view s).src.take bufferSize).length, buf, s') ∧
      view s' = { view s with src := (view s).src.drop bufferSize } ∧ keep s s' ∧
      ∀ t, ∃ rc t', write buf ((view s).src.take bufferSize).length t = (rc, t') ∧
        view t' = { view t with dst := (view t).dst ++ ((view s).src.take bufferSize).map f } ∧
        keep t t')
    (fuel : Nat) (first : Bool) (s : σ) (hfuel : (view s).src.length < fuel) :
    ∃ s', copyLoop read write fuel first s =
        some (if (view s).src = [] ∧ first = true then -1 else 0, s') ∧
      view s' = copied f (view s) ∧ keep s s' := by
  induction fuel generalizing first s with
  | zero => omega
  | succ fuel ih =>
      obtain ⟨buf, s', hread, hview, hkeep, hwrite⟩ := hstep s
      simp only [copyLoop, hread]
      by_cases hsrc : (view s).src = []
      · refine ⟨s', ?_, ?_, hkeep⟩
        · cases first <;> simp [hsrc]
        · simp [hview, copied, hsrc]
      · have hpos : 0 < (view s).src.length := List.length_pos_iff.mpr hsrc
        have hsize : 0 < bufferSize := by decide
        have hn : ¬ ((view s).src.take bufferSize).length ≤ 0 := by
          rw [List.length_take]
          omega
        obtain ⟨rc, t, hrun, hviewt, hkeept⟩ := hwrite s'
        have hrest : (view t).src.length < fuel := by
          rw [hviewt, hview, List.length_drop]
          omega
        obtain ⟨u, hloop, hviewu, hkeepu⟩ := ih false t hrest
        refine ⟨u, ?_, ?_, hio.trans _ _ _ (hio.trans _ _ _ hkeep hkeept) hkeepu⟩
        · rw [if_neg hn, hrun, hloop]
          simp [hsrc]
        · simp only [hviewu, hviewt, hview, copied, List.append_assoc, ← List.map_append,
            List.take_append_drop]

/-- One round of the decoding loop: a chunk off the source, and its bytes, decoded, at the
    front of the buffer. -/
theorem decodeChunk_view (hio : io.OnQueues view keep) (pass : Password) (s : σ) :
    ∃ buf s', decodeChunk io pass s = (((view s).src.take bufferSize).length, buf, s') ∧
      view s' = { view s with src := (view s).src.drop bufferSize } ∧ keep s s' ∧
      buf.take ((view s).src.take bufferSize).length =
        ((view s).src.take bufferSize).map (decodePass pass).lookup := by
  have hsize : bufferSize < 2 ^ 31 := by decide
  obtain ⟨s', hread, hview, hkeep⟩ :=
    decodeRead_view hio pass (List.replicate bufferSize 0) hsize s
  have htake := take_stored (List.replicate bufferSize 0)
    (((view s).src.take bufferSize).map (decodePass pass).lookup)
  rw [List.length_map] at htake
  refine ⟨_, s', ?_, hview, hkeep, htake⟩
  simp only [decodeChunk, hread]
  rw [toSizeT_natCast (length_take_lt hsize _)]

/-- `decode_copy_pass` moves the source, decoded; `-1` exactly for an empty source. -/
theorem decodeCopyPass_view (hio : io.OnQueues view keep) (pass : Password) (fuel : Nat) (s : σ)
    (hfuel : (view s).src.length < fuel) :
    ∃ s', decodeCopyPass io pass fuel s = some (if (view s).src = [] then -1 else 0, s') ∧
      view s' = copied (decodePass pass).lookup (view s) ∧ keep s s' := by
  have h := copyLoop_view hio (decodePass pass).lookup (decodeChunk io pass) io.write
    (fun s => by
      obtain ⟨buf, s', hread, hview, hkeep, hbuf⟩ := decodeChunk_view hio pass s
      refine ⟨buf, s', hread, hview, hkeep, fun t => ?_⟩
      rw [← hbuf]
      exact ⟨0, hio.write buf _ t⟩)
    fuel true s hfuel
  simpa only [decodeCopyPass, and_true] using h

/-- `encode_copy_pass` moves the source, encoded; `-1` exactly for an empty source. -/
theorem encodeCopyPass_view (hio : io.OnQueues view keep) (pass : Password) (fuel : Nat) (s : σ)
    (hfuel : (view s).src.length < fuel) :
    ∃ s', encodeCopyPass io pass fuel s = some (if (view s).src = [] then -1 else 0, s') ∧
      view s' = copied pass.lookup (view s) ∧ keep s s' := by
  have h := copyLoop_view hio pass.lookup (plainChunk io) (encodeWrite io pass)
    (fun s => by
      have hsize : bufferSize < 2 ^ 31 := by decide
      obtain ⟨s', hread, hview, hkeep⟩ := hio.read bufferSize s
      refine ⟨stored (List.replicate bufferSize 0) ((view s).src.take bufferSize), s', ?_, hview,
        hkeep, fun t => ?_⟩
      · rw [plainChunk, hread]
      · exact ⟨0, encodeWrite_view hio pass _ _ (length_take_lt hsize _) t⟩)
    fuel true s hfuel
  simpa only [encodeCopyPass, and_true] using h

end

/-- Copying two sources one after the other is copying them together. -/
theorem copied_append (f : UInt8 → UInt8) (s₁ s₂ dst : List UInt8) :
    copied f ⟨s₂, (copied f ⟨s₁, dst⟩).dst⟩ = copied f ⟨s₁ ++ s₂, dst⟩ := by
  simp [copied]

end Lightsocks
