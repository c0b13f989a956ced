import Lightsocks.SecureSocket
import Lightsocks.Lib.Loop
import Mathlib.Data.ENat.Basic

/-
  The copy loops of `lib/securesocket.c`, for everything that the calls in them can answer.

  `copyBody` is one round; `copyLoop` is `loop` over it, and `copyRounds` the state after some
  rounds that all went on. On byte queues both loops move everything (`copy_loops`).

  The count that the loops test is a `size_t`, so that `n <= 0` holds of zero only: an error of
  `bufferevent_read`, which passes through `int` and back without a change, is taken for a
  count, written out and followed by the next read (`read_errors_stop_iff`). The result of
  `bufferevent_write` is stored in the same variable and overwritten before it is looked at, so
  that a failed write leaves a hole in the stream and the result `0` (`write_errors_tell_iff`).
-/

namespace Lightsocks

open Lib

variable {σ : Type}

/-- One round of a copy loop, from the flag `first_time` and the state. -/
def copyBody (read : σ → Nat × List UInt8 × σ) (write : List UInt8 → Nat → σ → Int × σ) :
    Bool × σ → (Int × σ) ⊕ (Bool × σ)
  | (firstTime, s) =>
      let (n, buf, s) := read s
      if n ≤ 0 then
        if firstTime then .inl (-1, s) else .inl (0, s)
      else .inr (false, (write buf n s).2)

/-- The flag and the state after `n` rounds. -/
def copyRounds (read : σ → Nat × List UInt8 × σ) (write : List UInt8 → Nat → σ → Int × σ)
    (n : Nat) (s : σ) : Option (Bool × σ) :=
  rounds (copyBody read write) n (true, s)

/-- The state of `decode_copy_pass` after `n` rounds. -/
def decodeCopyRounds (io : BevIO σ) (pass : Password) (n : Nat) (s : σ) : Option (Bool × σ) :=
  copyRounds (decodeChunk io pass) io.write n s

/-- The state of `encode_copy_pass` after `n` rounds. -/
def encodeCopyRounds (io : BevIO σ) (pass : Password) (n : Nat) (s : σ) : Option (Bool × σ) :=
  copyRounds (plainChunk io) (encodeWrite io pass) n s

section

variable {read : σ → Nat × List UInt8 × σ} {write : List UInt8 → Nat → σ → Int × σ}

theorem copyLoop_eq_loop (fuel : Nat) (first : Bool) (s : σ) :
    copyLoop read write fuel first s = loop (copyBody read write) fuel (first, s) := by
  induction fuel generalizing first s with
  | zero => rfl
  | succ fuel ih =>
      unfold copyLoop loop copyBody
      dsimp only
      split
      · split <;> rfl
      · exact ih false _

/-- A round that reads nothing is the last one. -/
theorem copyBody_of_zero (write : List UInt8 → Nat → σ → Int × σ) (first : Bool) {s s' : σ}
    {buf : List UInt8} (h : read s = (0, buf, s')) :
    copyBody read write (first, s) = .inl (if first then -1 else 0, s') := by
  unfold copyBody
  dsimp only
  rw [h]
  cases first <;> rfl

/-- Any other round writes what it read. -/
theorem copyBody_of_pos (write : List UInt8 → Nat → σ → Int × σ) (first : Bool) {s s' : σ}
    {n : Nat} {buf : List UInt8} (h : read s = (n, buf, s')) (hn : n ≠ 0) :
    copyBody read write (first, s) = .inr (false, (write buf n s').2) := by
  unfold copyBody
  dsimp only
  rw [h]
  exact if_neg (by omega)

end

/-! ## On byte queues -/

theorem decodeCopyPass_queues (pass : Password) (s d : List UInt8) (k : Nat) :
    decodeCopyPass queueIO pass (s.length + 1 + k) ⟨s, d⟩ =
      some (if s = [] then -1 else 0, copied (decodePass pass).lookup ⟨s, d⟩) := by
  obtain ⟨q, hrun, hq, -⟩ := decodeCopyPass_view queueIO_onQueues pass (s.length + 1 + k)
    ⟨s, d⟩ (by show s.length < s.length + 1 + k; omega)
  rw [hrun]
  exact congrArg (fun q => some (_, q)) hq

theorem encodeCopyPass_queues (pass : Password) (s d : List UInt8) (k : Nat) :
    encodeCopyPass queueIO pass (s.length + 1 + k) ⟨s, d⟩ =
      some (if s = [] then -1 else 0, copied pass.lookup ⟨s, d⟩) := by
  obtain ⟨q, hrun, hq, -⟩ := encodeCopyPass_view queueIO_onQueues pass (s.length + 1 + k)
    ⟨s, d⟩ (by show s.length < s.length + 1 + k; omega)
  rw [hrun]
  exact congrArg (fun q => some (_, q)) hq

/-- **The copy loops.** For every table and all queues, with one unit of fuel for each byte, one
    more, and any number of others: both loops return `-1` and change nothing when the source is
    empty, and otherwise return `0` with all of the source, substituted, behind what was in the
    destination. Copying a second source after a first one is copying them together. -/
theorem copy_loops (pass : Password) (s d : List UInt8) (k : Nat) :
    decodeCopyPass queueIO pass (s.length + 1 + k) ⟨s, d⟩ =
      (if s = [] then some (-1, ⟨s, d⟩)
        else some (0, ⟨[], d ++ s.map (decodePass pass).lookup⟩)) ∧
    encodeCopyPass queueIO pass (s.length + 1 + k) ⟨s, d⟩ =
      (if s = [] then some (-1, ⟨s, d⟩) else some (0, ⟨[], d ++ s.map pass.lookup⟩)) ∧
    ∀ s' : List UInt8, s ≠ [] → s' ≠ [] →
      (decodeCopyPass queueIO pass (s.length + 1 + k) ⟨s, d⟩).bind (fun r =>
          decodeCopyPass queueIO pass (s'.length + 1 + k) { r.2 with src := s' }) =
        decodeCopyPass queueIO pass ((s ++ s').length + 1 + k) ⟨s ++ s', d⟩ ∧
      (encodeCopyPass queueIO pass (s.length + 1 + k) ⟨s, d⟩).bind (fun r =>
          encodeCopyPass queueIO pass (s'.length + 1 + k) { r.2 with src := s' }) =
        encodeCopyPass queueIO pass ((s ++ s').length + 1 + k) ⟨s ++ s', d⟩ := by
  refine ⟨?_, ?_, fun s' hs hs' => ⟨?_, ?_⟩⟩
  · rw [decodeCopyPass_queues]
    split <;> simp_all [copied]
  · rw [encodeCopyPass_queues]
    split <;> simp_all [copied]
  · have happend : s ++ s' ≠ [] := by simp [hs]
    rw [decodeCopyPass_queues pass s, decodeCopyPass_queues pass (s ++ s'), if_neg happend,
      Option.bind_some, ← copied_append]
    exact (decodeCopyPass_queues pass s' _ k).trans (by rw [if_neg hs'])
  · have happend : s ++ s' ≠ [] := by simp [hs]
    rw [encodeCopyPass_queues pass s, encodeCopyPass_queues pass (s ++ s'), if_neg happend,
      Option.bind_some, ← copied_append]
    exact (encodeCopyPass_queues pass s' _ k).trans (by rw [if_neg hs'])

theorem copy_loops_two_segments :
    (encodeCopyPass queueIO identityPassword 3 ⟨[0x47, 0x45], []⟩).bind (fun r =>
        encodeCopyPass queueIO identityPassword 2 { r.2 with src := [0x54] }) =
      encodeCopyPass queueIO identityPassword 4 ⟨[0x47, 0x45, 0x54], []⟩ :=
  ((copy_loops identityPassword [0x47, 0x45] [] 0).2.2 [0x54] (by simp) (by simp)).2

/-! ## When reads fail -/

/-- The count that a read of a buffer returns: an error, or the number of bytes found, as far as
    the buffer holds them. -/
def readCount : Option (List UInt8) → Nat
  | none => readError
  | some data => (data.take bufferSize).length

/-- The read delivers data. -/
def Delivers (found : Option (List UInt8)) : Prop := ∃ data, found = some data ∧ data ≠ []

/-- The sizes of the writes. -/
def Calls.sizes (c : Calls) : List Nat := c.writes.map Prod.snd

/-- What a copy loop is to do about the first `len` results of the reads `found`: as long as they
    deliver data, it goes on and every write has the count just read as its size; at the first
    one that does not, it returns, with `-1` if it is the first of all. -/
structure StopsOnErrors (copy : Nat → Calls → Option (Int × Calls))
    (after : Nat → Calls → Option (Bool × Calls)) (found : Nat → Option (List UInt8))
    (len : ℕ∞) : Prop where
  goesOn : ∀ n : Nat, n ≤ len → (∀ j < n, Delivers (found j)) →
    ∃ first c, after n Calls.none = some (first, c) ∧ c.reads = n ∧
      c.sizes = (List.range n).map fun j => readCount (found j)
  stops : ∀ n : Nat, n < len → (∀ j < n, Delivers (found j)) → ¬ Delivers (found n) →
    ∀ fuel, n < fuel → ∃ c, copy fuel Calls.none = some (if n = 0 then -1 else 0, c) ∧
      c.reads = n + 1 ∧ c.sizes = (List.range n).map fun j => readCount (found j)

/-- The reads and the writes of a loop follow the results that are given. -/
structure Scripted (found : Nat → Option (List UInt8)) (read : Calls → Nat × List UInt8 × Calls)
    (write : List UInt8 → Nat → Calls → Int × Calls) : Prop where
  read : ∀ c, ∃ buf, read c =
    (readCount (found c.reads), buf, { c with reads := c.reads + 1 })
  write : ∀ buf n c, ∃ buf', (write buf n c).2 = { c with writes := c.writes ++ [(buf', n)] }

theorem scripted_decode (found : Nat → Option (List UInt8)) (rc : Nat → Int) (pass : Password) :
    Scripted found (decodeChunk (scriptCalls found rc) pass) (scriptCalls found rc).write where
  read c := by
    have hsize : bufferSize < 2 ^ 31 := by decide
    cases hf : found c.reads with
    | none =>
        have hread : (scriptCalls found rc).read bufferSize c =
            (readError, [], { c with reads := c.reads + 1 }) := by
          unfold scriptCalls
          dsimp only
          rw [hf]
        unfold decodeChunk decodeRead
        rw [hread]
        exact ⟨_, rfl⟩
    | some data =>
        have hread : (scriptCalls found rc).read bufferSize c =
            ((data.take bufferSize).length, data.take bufferSize,
              { c with reads := c.reads + 1 }) := by
          unfold scriptCalls
          dsimp only
          rw [hf]
        unfold decodeChunk
        rw [decodeRead_of_read pass _ (length_take_lt hsize data) hread]
        dsimp only
        rw [toSizeT_natCast (length_take_lt hsize data)]
        exact ⟨_, rfl⟩
  write buf n c := ⟨buf, rfl⟩

theorem scripted_encode (found : Nat → Option (List UInt8)) (rc : Nat → Int) (pass : Password) :
    Scripted found (plainChunk (scriptCalls found rc))
      (encodeWrite (scriptCalls found rc) pass) where
  read c := by
    unfold plainChunk scriptCalls
    dsimp only
    cases found c.reads with
    | none => exact ⟨_, rfl⟩
    | some data => exact ⟨_, rfl⟩
  write buf n c := ⟨_, rfl⟩

theorem readCount_eq_zero_iff {found : Option (List UInt8)} :
    readCount found = 0 ↔ found = some [] := by
  cases found with
  | none => simp [readCount]
  | some data => simp [readCount, bufferSize]

theorem not_delivers_iff {found : Option (List UInt8)} :
    ¬ Delivers found ↔ found = none ∨ found = some [] := by
  cases found with
  | none => simp [Delivers]
  | some data => simp [Delivers]

theorem Delivers.ne_nil {found : Option (List UInt8)} (h : Delivers found) : found ≠ some [] :=
  fun hzero => not_delivers_iff.mpr (Or.inr hzero) h

theorem Delivers.readCount_ne_zero {found : Option (List UInt8)} (h : Delivers found) :
    readCount found ≠ 0 :=
  fun hzero => h.ne_nil (readCount_eq_zero_iff.mp hzero)

section

variable {found : Nat → Option (List UInt8)} {read : Calls → Nat × List UInt8 × Calls}
  {write : List UInt8 → Nat → Calls → Int × Calls}

/-- A count other than zero is written, whether it is one or an error. -/
theorem rounds_scripted (h : Scripted found read write) {n : Nat}
    (hpos : ∀ j < n, readCount (found j) ≠ 0) :
    ∃ c, copyRounds read write n Calls.none = some (decide (n = 0), c) ∧ c.reads = n ∧
      c.sizes = (List.range n).map fun j => readCount (found j) := by
  induction n with
  | zero => exact ⟨Calls.none, rfl, rfl, rfl⟩
  | succ n ih =>
      obtain ⟨c, hrounds, hreads, hsizes⟩ := ih fun j hj => hpos j (by omega)
      obtain ⟨buf, hread⟩ := h.read c
      have hn : readCount (found c.reads) ≠ 0 := by
        rw [hreads]
        exact hpos n (by omega)
      obtain ⟨buf', hwrite⟩ := h.write buf (readCount (found c.reads))
        { c with reads := c.reads + 1 }
      have hround := copyBody_of_pos write (decide (n = 0)) hread hn
      rw [hwrite] at hround
      refine ⟨_, rounds_succ hrounds hround, ?_, ?_⟩
      · show c.reads + 1 = n + 1
        rw [hreads]
      · rw [List.range_succ, List.map_append, ← hsizes, hreads]
        simp [Calls.sizes]

/-- At the first count of zero the loop returns. -/
theorem copyLoop_scripted (h : Scripted found read write) {n fuel : Nat}
    (hpos : ∀ j < n, readCount (found j) ≠ 0) (hzero : readCount (found n) = 0)
    (hfuel : n < fuel) :
    ∃ c, copyLoop read write fuel true Calls.none = some (if n = 0 then -1 else 0, c) ∧
      c.reads = n + 1 ∧ c.sizes = (List.range n).map fun j => readCount (found j) := by
  obtain ⟨c, hrounds, hreads, hsizes⟩ := rounds_scripted h hpos
  obtain ⟨buf, hread⟩ := h.read c
  rw [hreads, hzero] at hread
  have hround := copyBody_of_zero write (decide (n = 0)) hread
  refine ⟨{ c with reads := n + 1 }, ?_, rfl, hsizes⟩
  rw [copyLoop_eq_loop, loop_of_rounds hrounds hround hfuel]
  simp

/-- An error is taken for a count, so that the loop goes on behind it. -/
theorem copyLoop_of_error (h : Scripted found read write) {k : Nat}
    (hdata : ∀ j < k, Delivers (found j)) (herror : found k = none) :
    copyLoop read write (k + 1) true Calls.none = none := by
  have hpos : ∀ j < k + 1, readCount (found j) ≠ 0 := by
    intro j hj
    rcases Nat.lt_succ_iff_lt_or_eq.mp hj with hlt | rfl
    · exact (hdata j hlt).readCount_ne_zero
    · rw [herror]
      decide
  obtain ⟨c, hrounds, -⟩ := rounds_scripted h hpos
  rw [copyLoop_eq_loop]
  exact loop_eq_none_iff.mpr ⟨_, hrounds⟩

/-- The loop does what is asked about the first `len` results exactly if every error among them
    comes after a count of zero, which has ended the loop already. -/
theorem stopsOnErrors_iff (h : Scripted found read write) (len : ℕ∞) :
    StopsOnErrors (fun fuel c => copyLoop read write fuel true c)
        (fun n c => copyRounds read write n c) found len ↔
      ∀ k : Nat, k < len → found k = none → ∃ j < k, found j = some [] := by
  constructor
  · intro hstops k
    -- an error with no zero before it: the first such error does not end the loop
    induction k using Nat.strong_induction_on with
    | _ k ih =>
        intro hk herror
        by_contra hno
        have hdata : ∀ j < k, Delivers (found j) := by
          intro j hj
          by_contra hd
          rcases not_delivers_iff.mp hd with hnone | hzero
          · have hlen : (j : ℕ∞) < len := lt_trans (by exact_mod_cast hj) hk
            obtain ⟨i, hi, hzero⟩ := ih j hj hlen hnone
            exact hno ⟨i, by omega, hzero⟩
          · exact hno ⟨j, hj, hzero⟩
        obtain ⟨c, hrun, -⟩ := hstops.stops k hk hdata
          (not_delivers_iff.mpr (Or.inl herror)) (k + 1) (Nat.lt_succ_self k)
        have hnone := copyLoop_of_error h hdata herror
        exact absurd (hrun.symm.trans hnone) (by simp)
  · intro herrors
    constructor
    case goesOn =>
      intro n _ hdata
      obtain ⟨c, hc⟩ := rounds_scripted h fun j hj => (hdata j hj).readCount_ne_zero
      exact ⟨_, c, hc⟩
    case stops =>
      intro n hn hdata hstop fuel hfuel
      have hzero : found n = some [] := by
        rcases not_delivers_iff.mp hstop with hnone | hzero
        · obtain ⟨j, hj, hzero⟩ := herrors n hn hnone
          exact absurd hzero (hdata j hj).ne_nil
        · exact hzero
      exact copyLoop_scripted h (fun j hj => (hdata j hj).readCount_ne_zero)
        (readCount_eq_zero_iff.mpr hzero) hfuel

end

/-- **Read errors.** For every table, whatever the reads find and the writes return, and for the
    results of a sequence of any length: `decode_copy_pass` stops at the first zero or error
    exactly if every error comes after a zero, and the same holds of `encode_copy_pass`. -/
theorem read_errors_stop_iff (pass : Password) (found : Nat → Option (List UInt8))
    (rc : Nat → Int) (len : ℕ∞) :
    (StopsOnErrors (decodeCopyPass (scriptCalls found rc) pass)
        (decodeCopyRounds (scriptCalls found rc) pass) found len ↔
      ∀ k : Nat, k < len → found k = none → ∃ j < k, found j = some []) ∧
    (StopsOnErrors (encodeCopyPass (scriptCalls found rc) pass)
        (encodeCopyRounds (scriptCalls found rc) pass) found len ↔
      ∀ k : Nat, k < len → found k = none → ∃ j < k, found j = some []) :=
  ⟨stopsOnErrors_iff (scripted_decode found rc pass) len,
    stopsOnErrors_iff (scripted_encode found rc pass) len⟩

/-- An error, and nothing more. -/
def errorFirst : Nat → Option (List UInt8)
  | 0 => none
  | _ + 1 => some []

theorem copyLoop_errorFirst {read : Calls → Nat × List UInt8 × Calls}
    {write : List UInt8 → Nat → Calls → Int × Calls} (h : Scripted errorFirst read write) :
    ∃ c, copyLoop read write 2 true Calls.none = some (0, c) ∧ c.sizes = [readError] := by
  have hpos : ∀ j < 1, readCount (errorFirst j) ≠ 0 := by
    intro j hj
    rw [Nat.lt_one_iff.mp hj]
    decide
  obtain ⟨c, hrun, -, hsizes⟩ := copyLoop_scripted h hpos rfl (by decide : 1 < 2)
  exact ⟨c, hrun, hsizes⟩

theorem not_stopsOnErrors_errorFirst {read : Calls → Nat × List UInt8 × Calls}
    {write : List UInt8 → Nat → Calls → Int × Calls} (h : Scripted errorFirst read write) :
    ¬ StopsOnErrors (fun fuel c => copyLoop read write fuel true c)
      (fun n c => copyRounds read write n c) errorFirst ⊤ := by
  rw [stopsOnErrors_iff h]
  intro herrors
  obtain ⟨j, hj, -⟩ := herrors 0 (by simp) rfl
  omega

/-- The first read fails and the second finds nothing: both loops write `2 ^ 64 - 1` bytes
    between the two and report success. -/
theorem read_error_written_out :
    ((∃ c, decodeCopyPass (scriptCalls errorFirst fun _ => 0) identityPassword 2 Calls.none =
        some (0, c) ∧ c.sizes = [readError]) ∧
      ¬ StopsOnErrors (decodeCopyPass (scriptCalls errorFirst fun _ => 0) identityPassword)
        (decodeCopyRounds (scriptCalls errorFirst fun _ => 0) identityPassword) errorFirst ⊤) ∧
    (∃ c, encodeCopyPass (scriptCalls errorFirst fun _ => 0) identityPassword 2 Calls.none =
        some (0, c) ∧ c.sizes = [readError]) ∧
      ¬ StopsOnErrors (encodeCopyPass (scriptCalls errorFirst fun _ => 0) identityPassword)
        (encodeCopyRounds (scriptCalls errorFirst fun _ => 0) identityPassword) errorFirst ⊤ := by
  have hdecode := scripted_decode errorFirst (fun _ => 0) identityPassword
  have hencode := scripted_encode errorFirst (fun _ => 0) identityPassword
  exact ⟨⟨copyLoop_errorFirst hdecode, not_stopsOnErrors_errorFirst hdecode⟩,
    copyLoop_errorFirst hencode, not_stopsOnErrors_errorFirst hencode⟩

/-! ## When writes fail -/

/-- Byte queues, and how many writes have been tried. -/
structure Flaky where
  queues : Queues
  writes : Nat

/-- Reads as on byte queues. The `k`-th write appends nothing and returns `-1` if `fails k`
    says so. -/
def flakyCalls (fails : Nat → Bool) : BevIO Flaky where
  read size q := ((q.queues.src.take size).length, q.queues.src.take size,
    { q with queues := { q.queues with src := q.queues.src.drop size } })
  write buf size q :=
    if fails q.writes then (-1, { q with writes := q.writes + 1 })
    else (0, ⟨{ q.queues with dst := q.queues.dst ++ buf.take size }, q.writes + 1⟩)

/-- The number of buffers that a source fills. -/
def chunkCount (s : List UInt8) : Nat := (s.length + (bufferSize - 1)) / bufferSize

/-- The `j`-th buffer of a source. -/
def chunk (s : List UInt8) (j : Nat) : List UInt8 := (s.drop (bufferSize * j)).take bufferSize

/-- What reaches the destination: the first `n` buffers, `f` applied, but for those whose write
    failed. -/
def delivered (fails : Nat → Bool) (f : UInt8 → UInt8) (s : List UInt8) (n : Nat) : List UInt8 :=
  (List.range n).flatMap fun j => if fails j then [] else (chunk s j).map f

/-- What a copy from `s` to `d` is to report: it returns, with `0` only if all that it took off
    the source is at the end of the destination, `f` applied, and with `-1` if a write failed. -/
def TellsErrors (copy : Nat → Flaky → Option (Int × Flaky)) (fails : Nat → Bool)
    (f : UInt8 → UInt8) (s d : List UInt8) : Prop :=
  ∃ rc q, copy (s.length + 1) ⟨⟨s, d⟩, 0⟩ = some (rc, q) ∧
    (rc = 0 → ∃ taken, s = taken ++ q.queues.src ∧ q.queues.dst = d ++ taken.map f) ∧
    ((∃ j < q.writes, fails j = true) → rc = -1)

/-- One round of a loop whose reads take a buffer off the source and whose writes append it, `f`
    applied, or fail. -/
def Falters (fails : Nat → Bool) (f : UInt8 → UInt8) (read : Flaky → Nat × List UInt8 × Flaky)
    (write : List UInt8 → Nat → Flaky → Int × Flaky) : Prop :=
  ∀ q, ∃ buf,
    read q = ((q.queues.src.take bufferSize).length, buf,
      { q with queues := { q.queues with src := q.queues.src.drop bufferSize } }) ∧
    ∀ t, (write buf (q.queues.src.take bufferSize).length t).2 = ⟨{ t.queues with
      dst := t.queues.dst ++
        if fails t.writes then [] else (q.queues.src.take bufferSize).map f }, t.writes + 1⟩

theorem write_flaky (fails : Nat → Bool) (buf : List UInt8) (size : Nat) (t : Flaky) :
    ((flakyCalls fails).write buf size t).2 = ⟨{ t.queues with
      dst := t.queues.dst ++ if fails t.writes then [] else buf.take size }, t.writes + 1⟩ := by
  unfold flakyCalls
  dsimp only
  split
  · rw [List.append_nil]
  · rfl

theorem falters_decode (fails : Nat → Bool) (pass : Password) :
    Falters fails (decodePass pass).lookup (decodeChunk (flakyCalls fails) pass)
      (flakyCalls fails).write := by
  intro q
  have hsize : bufferSize < 2 ^ 31 := by decide
  have hlen := length_take_lt hsize q.queues.src
  have htake := take_stored (List.replicate bufferSize 0)
    ((q.queues.src.take bufferSize).map (decodePass pass).lookup)
  rw [List.length_map] at htake
  refine ⟨stored (List.replicate bufferSize 0)
    ((q.queues.src.take bufferSize).map (decodePass pass).lookup), ?_, fun t => ?_⟩
  · unfold decodeChunk
    rw [decodeRead_of_read pass (List.replicate bufferSize 0) hlen rfl]
    dsimp only
    rw [toSizeT_natCast hlen]
  · rw [write_flaky, htake]

theorem falters_encode (fails : Nat → Bool) (pass : Password) :
    Falters fails pass.lookup (plainChunk (flakyCalls fails))
      (encodeWrite (flakyCalls fails) pass) := by
  intro q
  have hsize : bufferSize < 2 ^ 31 := by decide
  refine ⟨stored (List.replicate bufferSize 0) (q.queues.src.take bufferSize), rfl, fun t => ?_⟩
  unfold encodeWrite
  rw [write_flaky, toInt_of_lt (length_take_lt hsize q.queues.src), encodeData_eq,
    Int.toNat_natCast, take_stored, List.take_left' (List.length_map pass.lookup)]

theorem delivered_succ (fails : Nat → Bool) (f : UInt8 → UInt8) (s : List UInt8) (n : Nat) :
    delivered fails f s (n + 1) =
      delivered fails f s n ++ if fails n then [] else (chunk s n).map f := by
  unfold delivered
  rw [List.range_succ, List.flatMap_append, List.flatMap_singleton]

/-- When no write failed, the buffers make up the source again. -/
theorem delivered_of_forall {fails : Nat → Bool} (f : UInt8 → UInt8) (s : List UInt8) {n : Nat}
    (h : ∀ j < n, fails j = false) :
    delivered fails f s n = (s.take (bufferSize * n)).map f := by
  induction n with
  | zero => simp [delivered]
  | succ n ih =>
      rw [delivered_succ, ih fun j hj => h j (by omega), if_neg (by simp [h n (by omega)]),
        ← List.map_append, Nat.mul_succ, List.take_add, chunk]

theorem lt_length_of_lt_chunkCount {s : List UInt8} {j : Nat} (h : j < chunkCount s) :
    bufferSize * j < s.length := by
  unfold chunkCount at h
  have h' := (Nat.le_div_iff_mul_le (by decide)).mp (Nat.succ_le_of_lt h)
  show 1024 * j < s.length
  have h'' : (j + 1) * 1024 ≤ s.length + 1023 := h'
  omega

theorem length_le_chunkCount (s : List UInt8) : s.length ≤ bufferSize * chunkCount s := by
  unfold chunkCount
  show s.length ≤ 1024 * ((s.length + 1023) / 1024)
  omega

section

variable {fails : Nat → Bool} {f : UInt8 → UInt8} {read : Flaky → Nat × List UInt8 × Flaky}
  {write : List UInt8 → Nat → Flaky → Int × Flaky}

/-- As long as there is a source, a round takes the next buffer off it and counts its write,
    whether or not that failed. -/
theorem rounds_falters (h : Falters fails f read write) (s d : List UInt8) {n : Nat}
    (hsrc : ∀ j < n, bufferSize * j < s.length) :
    copyRounds read write n ⟨⟨s, d⟩, 0⟩ = some (decide (n = 0),
      ⟨⟨s.drop (bufferSize * n), d ++ delivered fails f s n⟩, n⟩) := by
  induction n with
  | zero => simp [copyRounds, rounds, delivered]
  | succ n ih =>
      have hrounds := ih fun j hj => hsrc j (by omega)
      obtain ⟨buf, hread, hwrite⟩ :=
        h ⟨⟨s.drop (bufferSize * n), d ++ delivered fails f s n⟩, n⟩
      have hlt : 1024 * n < s.length := hsrc n (by omega)
      have hn : ((s.drop (bufferSize * n)).take bufferSize).length ≠ 0 := by
        rw [List.length_take, List.length_drop]
        show min 1024 (s.length - 1024 * n) ≠ 0
        omega
      have hround := copyBody_of_pos write (decide (n = 0)) hread hn
      rw [hwrite] at hround
      refine (rounds_succ hrounds hround).trans ?_
      rw [delivered_succ, ← List.append_assoc, Nat.mul_succ, ← List.drop_drop]
      simp [chunk]

/-- The result does not tell which writes failed. -/
theorem copyLoop_falters (h : Falters fails f read write) (s d : List UInt8) :
    copyLoop read write (s.length + 1) true ⟨⟨s, d⟩, 0⟩ = some (if s = [] then -1 else 0,
      ⟨⟨[], d ++ delivered fails f s (chunkCount s)⟩, chunkCount s⟩) := by
  have hrounds := rounds_falters h s d fun _ hj => lt_length_of_lt_chunkCount hj
  have hend : s.drop (bufferSize * chunkCount s) = [] :=
    List.drop_eq_nil_of_le (length_le_chunkCount s)
  rw [hend] at hrounds
  obtain ⟨buf, hread, -⟩ := h ⟨⟨[], d ++ delivered fails f s (chunkCount s)⟩, chunkCount s⟩
  have hround := copyBody_of_zero write (decide (chunkCount s = 0)) hread
  have hfuel : chunkCount s < s.length + 1 := by
    unfold chunkCount
    show (s.length + 1023) / 1024 < s.length + 1
    omega
  have hempty : chunkCount s = 0 ↔ s = [] := by
    rw [← List.length_eq_zero_iff]
    unfold chunkCount
    show (s.length + 1023) / 1024 = 0 ↔ s.length = 0
    omega
  rw [copyLoop_eq_loop, loop_of_rounds hrounds hround hfuel]
  simp only [decide_eq_true_eq, hempty, List.drop_nil]

theorem tellsErrors_iff (h : Falters fails f read write) (s d : List UInt8) :
    TellsErrors (fun fuel q => copyLoop read write fuel true q) fails f s d ↔
      ∀ j < chunkCount s, fails j = false := by
  have hrun := copyLoop_falters h s d
  constructor
  · intro htells j hj
    obtain ⟨rc, q, hcopy, -, hfailed⟩ := htells
    obtain ⟨rfl, rfl⟩ := Prod.mk.inj (Option.some.inj (hrun.symm.trans hcopy))
    have hne : s ≠ [] := by
      intro hs
      rw [hs] at hj
      exact absurd hj (Nat.not_lt_zero j)
    rw [if_neg hne] at hfailed
    by_contra hfails
    exact absurd (hfailed ⟨j, hj, by simpa using hfails⟩) (by decide)
  · intro hnone
    refine ⟨_, _, hrun, fun _ => ⟨s, (List.append_nil s).symm, ?_⟩, ?_⟩
    · show d ++ delivered fails f s (chunkCount s) = d ++ s.map f
      rw [delivered_of_forall f s hnone, List.take_of_length_le (length_le_chunkCount s)]
    · intro hfailed
      obtain ⟨j, hj, hfails⟩ := hfailed
      rw [hnone j hj] at hfails
      exact absurd hfails (by decide)

end

/-- **Write failures.** For every table, every source and destination and every pattern of
    failing writes: `decode_copy_pass` reports what it is to report exactly if no write of a
    buffer of the source fails, and the same holds of `encode_copy_pass`. -/
theorem write_errors_tell_iff (pass : Password) (fails : Nat → Bool) (s d : List UInt8) :
    (TellsErrors (decodeCopyPass (flakyCalls fails) pass) fails (decodePass pass).lookup s d ↔
      ∀ j < chunkCount s, fails j = false) ∧
    (TellsErrors (encodeCopyPass (flakyCalls fails) pass) fails pass.lookup s d ↔
      ∀ j < chunkCount s, fails j = false) :=
  ⟨tellsErrors_iff (falters_decode fails pass) s d,
    tellsErrors_iff (falters_encode fails pass) s d⟩

/-- The only write fails: the byte is gone, and both loops report success. -/
theorem lost_byte_reported_as_success :
    (decodeCopyPass (flakyCalls fun _ => true) identityPassword 2 ⟨⟨[0x47], []⟩, 0⟩ =
        some (0, ⟨⟨[], []⟩, 1⟩) ∧
      ¬ TellsErrors (decodeCopyPass (flakyCalls fun _ => true) identityPassword) (fun _ => true)
        (decodePass identityPassword).lookup [0x47] []) ∧
    encodeCopyPass (flakyCalls fun _ => true) identityPassword 2 ⟨⟨[0x47], []⟩, 0⟩ =
        some (0, ⟨⟨[], []⟩, 1⟩) ∧
      ¬ TellsErrors (encodeCopyPass (flakyCalls fun _ => true) identityPassword) (fun _ => true)
        identityPassword.lookup [0x47] [] := by
  have hdecode := falters_decode (fun _ => true) identityPassword
  have hencode := falters_encode (fun _ => true) identityPassword
  have hno : ¬ ∀ j < chunkCount [0x47], (fun _ : Nat => true) j = false := by decide
  refine ⟨⟨copyLoop_falters hdecode [0x47] [], ?_⟩, copyLoop_falters hencode [0x47] [], ?_⟩
  · exact fun h => hno ((tellsErrors_iff hdecode _ _).mp h)
  · exact fun h => hno ((tellsErrors_iff hencode _ _).mp h)

end Lightsocks
