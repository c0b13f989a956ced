import Lightsocks.SecureSocket
import Lightsocks.Lib.Ledger
import Lightsocks.Lib.Run

/-
  Bufferevents as the two programs use them.

  A `Bev` is a pair of byte queues: `input` holds what has arrived and was not read, `output`
  what was written and has not left, and `gone` what has left. `Bevs H` is a collection of them
  under handles of type `H`, with the ledger of the handles' lives and of every call made on
  them. A connection of either program is such a collection with some more fields.

  `bufferevent_read` takes what is there without waiting and `bufferevent_write` appends; both
  are entered in the ledger call by call (`Bevs.io`). A call through a pointer that is not a
  live handle is entered as bad. What the C program does after such a call is not defined; the
  model goes on as if it had worked, so a property of the ledger says that it is not made.
-/

namespace Lightsocks

open Lib

/-- `BEV_EVENT_EOF`. -/
abbrev bevEventEof : UInt16 := 0x10

/-- `BEV_EVENT_ERROR`. -/
abbrev bevEventError : UInt16 := 0x20

/-- The calls that the ledger tells apart. `context` is an access to the connection's own
    structure (`Client`, `LsServer`), whose `free` counts as a `free` like any other. -/
inductive Op where
  | setcb
  | enable
  | connect
  | getfd
  | read
  | write
  | free
  | context
  deriving DecidableEq

/-- The calls that a released bufferevent must not see: all but the harmless query. -/
def Op.guarded : Op → Bool
  | .getfd => false
  | _ => true

/-- A bufferevent. -/
@[ext]
structure Bev where
  input : List UInt8
  output : List UInt8
  gone : List UInt8
  /-- An EOF or an error was reported on it. -/
  hungUp : Bool
  deriving DecidableEq

/-- A bufferevent as `bufferevent_socket_new` returns it. -/
def Bev.fresh : Bev := ⟨[], [], [], false⟩

/-- Everything ever written to the bufferevent. -/
def Bev.written (b : Bev) : List UInt8 := b.gone ++ b.output

/-- Bufferevents and the ledger of their handles. -/
structure Bevs (H : Type) where
  ledger : Ledger Op H
  bev : H → Bev

namespace Bevs

variable {H : Type}

/-- The handle has been created and not yet released. -/
def Live (s : Bevs H) (h : H) : Prop := s.ledger.life h = .live

/-- The handle has been released. -/
def Released (s : Bevs H) (h : H) : Prop := s.ledger.life h = .released

instance (s : Bevs H) : DecidablePred s.Live :=
  fun h => inferInstanceAs (Decidable (s.ledger.life h = .live))

instance (s : Bevs H) : DecidablePred s.Released :=
  fun h => inferInstanceAs (Decidable (s.ledger.life h = .released))

/-- No handle yet. -/
def empty : Bevs H := ⟨Ledger.empty, fun _ => Bev.fresh⟩

/-- A call of kind `k` through `p` that changes no queue and releases nothing. -/
def call (s : Bevs H) (k : Op) (p : Ptr H) : Bevs H := { s with ledger := s.ledger.use k p }

@[simp] theorem ledger_call (s : Bevs H) (k : Op) (p : Ptr H) :
    (s.call k p).ledger = s.ledger.use k p := rfl

@[simp] theorem bev_call (s : Bevs H) (k : Op) (p : Ptr H) : (s.call k p).bev = s.bev := rfl

variable [DecidableEq H]

/-- `calloc`, or `bufferevent_socket_new`. -/
def create (s : Bevs H) (h : H) : Bevs H :=
  ⟨s.ledger.create h, Function.update s.bev h Bev.fresh⟩

/-- `free`, or `bufferevent_free`. -/
def free (s : Bevs H) (p : Ptr H) : Bevs H := { s with ledger := s.ledger.release .free p }

/-- `bufferevent_clear_free`. -/
def clearFree (s : Bevs H) (p : Ptr H) : Bevs H := (s.call .setcb p).free p

/-- What `local_eventcb` does in either program: release the bufferevent and the one the context
    points to, then the context. The descriptor is asked for after that. -/
def endAll (a x : H) (p : Ptr H) (events : UInt16) (s : Bevs H) : Bevs H :=
  let s := (((s.clearFree (.handle a)).call .context (.handle x)).clearFree p).free (.handle x)
  if events &&& bevEventEof ≠ 0 then s.call .getfd (.handle a) else s

/-- Change one bufferevent. -/
def modify (s : Bevs H) (h : H) (g : Bev → Bev) : Bevs H :=
  { s with bev := Function.update s.bev h (g (s.bev h)) }

/-- `bufferevent_read` from `src` and `bufferevent_write` to `dst`. -/
def io (dst src : H) : BevIO (Bevs H) where
  read size s :=
    let data := (s.bev src).input.take size
    (data.length, data,
      (s.call .read (.handle src)).modify src fun b => { b with input := b.input.drop size })
  write buf size s :=
    (0, (s.call .write (.handle dst)).modify dst
      fun b => { b with output := b.output ++ buf.take size })

/-- A copy between bufferevents, with the fuel it needs (`runCopy_decode`, `runCopy_encode`). -/
def runCopy (copy : BevIO (Bevs H) → Nat → Bevs H → Option (Int × Bevs H)) (dst src : H)
    (s : Bevs H) : Int × Bevs H :=
  (copy (io dst src) ((s.bev src).input.length + 1) s).getD (-1, s)

/-! ## What libevent and the peers do -/

/-- Data arrives. -/
def arrive (s : Bevs H) (h : H) (data : List UInt8) : Bevs H :=
  s.modify h fun b => { b with input := b.input ++ data }

/-- Up to `n` bytes of the output leave. -/
def drain (s : Bevs H) (h : H) (n : Nat) : Bevs H :=
  s.modify h fun b => { b with output := b.output.drop n, gone := b.gone ++ b.output.take n }

/-- The event names an EOF or an error. -/
def closing (events : UInt16) : Bool := events &&& (bevEventEof ||| bevEventError) ≠ 0

/-- libevent notices an event on `h`. -/
def notice (s : Bevs H) (h : H) (events : UInt16) : Bevs H :=
  s.modify h fun b => { b with hungUp := b.hungUp || closing events }

/-! ## Small lemmas -/

@[simp] theorem ledger_create (s : Bevs H) (h : H) :
    (s.create h).ledger = s.ledger.create h := rfl

@[simp] theorem bev_create_self (s : Bevs H) (h : H) : (s.create h).bev h = Bev.fresh :=
  Function.update_self ..

@[simp] theorem bev_create_of_ne (s : Bevs H) {h h' : H} (hne : h' ≠ h) :
    (s.create h).bev h' = s.bev h' := Function.update_of_ne hne ..

@[simp] theorem ledger_free (s : Bevs H) (p : Ptr H) :
    (s.free p).ledger = s.ledger.release .free p := rfl

@[simp] theorem bev_free (s : Bevs H) (p : Ptr H) : (s.free p).bev = s.bev := rfl

theorem ledger_clearFree (s : Bevs H) (p : Ptr H) :
    (s.clearFree p).ledger = (s.ledger.use .setcb p).release .free p := rfl

@[simp] theorem bev_clearFree (s : Bevs H) (p : Ptr H) : (s.clearFree p).bev = s.bev := rfl

@[simp] theorem ledger_modify (s : Bevs H) (h : H) (g : Bev → Bev) :
    (s.modify h g).ledger = s.ledger := rfl

@[simp] theorem bev_modify_self (s : Bevs H) (h : H) (g : Bev → Bev) :
    (s.modify h g).bev h = g (s.bev h) := Function.update_self ..

@[simp] theorem bev_modify_of_ne (s : Bevs H) {h h' : H} (hne : h' ≠ h) (g : Bev → Bev) :
    (s.modify h g).bev h' = s.bev h' := Function.update_of_ne hne ..

/-- Changing one bufferevent changes no field that the change keeps. -/
theorem field_modify {α : Type} (field : Bev → α) (s : Bevs H) {h : H} {g : Bev → Bev}
    (hg : field (g (s.bev h)) = field (s.bev h)) (h' : H) :
    field ((s.modify h g).bev h') = field (s.bev h') := by
  by_cases he : h' = h
  · rw [he, bev_modify_self, hg]
  · rw [bev_modify_of_ne s he]

@[simp] theorem bev_arrive_self (s : Bevs H) (h : H) (data : List UInt8) :
    (s.arrive h data).bev h = { s.bev h with input := (s.bev h).input ++ data } :=
  bev_modify_self ..

@[simp] theorem bev_arrive_of_ne (s : Bevs H) {h h' : H} (hne : h' ≠ h) (data : List UInt8) :
    (s.arrive h data).bev h' = s.bev h' := bev_modify_of_ne s hne _

@[simp] theorem hungUp_arrive (s : Bevs H) (h : H) (data : List UInt8) (h' : H) :
    ((s.arrive h data).bev h').hungUp = (s.bev h').hungUp :=
  field_modify Bev.hungUp s (g := fun b => { b with input := b.input ++ data }) rfl h'

@[simp] theorem output_arrive (s : Bevs H) (h : H) (data : List UInt8) (h' : H) :
    ((s.arrive h data).bev h').output = (s.bev h').output :=
  field_modify Bev.output s (g := fun b => { b with input := b.input ++ data }) rfl h'

@[simp] theorem gone_arrive (s : Bevs H) (h : H) (data : List UInt8) (h' : H) :
    ((s.arrive h data).bev h').gone = (s.bev h').gone :=
  field_modify Bev.gone s (g := fun b => { b with input := b.input ++ data }) rfl h'

theorem written_arrive (s : Bevs H) (h : H) (data : List UInt8) (h' : H) :
    ((s.arrive h data).bev h').written = (s.bev h').written :=
  field_modify Bev.written s (g := fun b => { b with input := b.input ++ data }) rfl h'

@[simp] theorem bev_drain_self (s : Bevs H) (h : H) (n : Nat) :
    (s.drain h n).bev h = { s.bev h with
      output := (s.bev h).output.drop n, gone := (s.bev h).gone ++ (s.bev h).output.take n } :=
  bev_modify_self ..

@[simp] theorem bev_drain_of_ne (s : Bevs H) {h h' : H} (hne : h' ≠ h) (n : Nat) :
    (s.drain h n).bev h' = s.bev h' := bev_modify_of_ne s hne _

@[simp] theorem hungUp_drain (s : Bevs H) (h : H) (n : Nat) (h' : H) :
    ((s.drain h n).bev h').hungUp = (s.bev h').hungUp :=
  field_modify Bev.hungUp s (g := fun b => { b with
    output := b.output.drop n, gone := b.gone ++ b.output.take n }) rfl h'

@[simp] theorem input_drain (s : Bevs H) (h : H) (n : Nat) (h' : H) :
    ((s.drain h n).bev h').input = (s.bev h').input :=
  field_modify Bev.input s (g := fun b => { b with
    output := b.output.drop n, gone := b.gone ++ b.output.take n }) rfl h'

/-- What leaves was written before. -/
theorem written_drain (s : Bevs H) (h : H) (n : Nat) :
    ((s.drain h n).bev h).written = (s.bev h).written := by
  rw [bev_drain_self]
  show ((s.bev h).gone ++ (s.bev h).output.take n) ++ (s.bev h).output.drop n = _
  rw [List.append_assoc, List.take_append_drop]
  rfl

/-- An event leaves the queues alone. -/
theorem field_notice {α : Type} (field : Bev → α) (s : Bevs H) (x : H) (events : UInt16) (h : H)
    (hfield : ∀ b v, field { b with hungUp := v } = field b) :
    field ((s.notice x events).bev h) = field (s.bev h) :=
  field_modify field s (g := fun b => { b with hungUp := b.hungUp || closing events })
    (hfield _ _) h

@[simp] theorem input_notice (s : Bevs H) (x : H) (events : UInt16) (h : H) :
    ((s.notice x events).bev h).input = (s.bev h).input :=
  field_notice Bev.input s x events h fun _ _ => rfl

@[simp] theorem output_notice (s : Bevs H) (x : H) (events : UInt16) (h : H) :
    ((s.notice x events).bev h).output = (s.bev h).output :=
  field_notice Bev.output s x events h fun _ _ => rfl

@[simp] theorem gone_notice (s : Bevs H) (x : H) (events : UInt16) (h : H) :
    ((s.notice x events).bev h).gone = (s.bev h).gone :=
  field_notice Bev.gone s x events h fun _ _ => rfl

theorem written_notice (s : Bevs H) (x : H) (events : UInt16) (h : H) :
    ((s.notice x events).bev h).written = (s.bev h).written :=
  field_notice Bev.written s x events h fun _ _ => rfl

/-! ## Releasing bufferevents -/

@[simp] theorem clean_clearFree (s : Bevs H) (p : Ptr H) :
    (s.clearFree p).ledger.Clean Op.guarded ↔
      s.ledger.Clean Op.guarded ∧ s.ledger.valid p = true := by
  rw [ledger_clearFree, Ledger.clean_release, Ledger.clean_use,
    Ledger.valid_congr (Ledger.life_use ..)]
  simp only [Op.guarded, forall_const, and_assoc, and_self]

theorem life_clearFree (s : Bevs H) {h : H} (hl : s.Live h) :
    (s.clearFree (.handle h)).ledger.life = Function.update s.ledger.life h .released :=
  Ledger.life_release_handle _ _ hl

theorem life_clearFree_of_invalid (s : Bevs H) {p : Ptr H} (hp : s.ledger.valid p = false) :
    (s.clearFree p).ledger.life = s.ledger.life :=
  Ledger.life_release_of_invalid (s.ledger.use .setcb p) .free hp

theorem life_clearFree_congr {s t : Bevs H} (h : t.ledger.life = s.ledger.life) (p : Ptr H) :
    (t.clearFree p).ledger.life = (s.clearFree p).ledger.life := by
  have huse : (t.ledger.use .setcb p).life = (s.ledger.use .setcb p).life := h
  rw [ledger_clearFree, ledger_clearFree]
  exact Ledger.life_release_congr huse .free p

theorem prefix_log_clearFree (s : Bevs H) (p : Ptr H) :
    s.ledger.log <+: (s.clearFree p).ledger.log := by
  rw [ledger_clearFree, Ledger.log_release, Ledger.log_use, List.append_assoc]
  exact List.prefix_append _ _

theorem counted_clearFree {s : Bevs H} (hc : s.ledger.Counted .free) {h : H} (hl : s.Live h) :
    (s.clearFree (.handle h)).ledger.Counted .free :=
  (hc.use (by decide) _).release hl

theorem counted_clearFree_of_forall_ne {s : Bevs H} (hc : s.ledger.Counted .free) {p : Ptr H}
    (hp : ∀ h, p ≠ .handle h) : (s.clearFree p).ledger.Counted .free :=
  (hc.use (by decide) _).release_of_forall_ne hp

theorem aged_clearFree (s : Bevs H) (p : Ptr H) :
    Ledger.Aged s.ledger.life (s.clearFree p).ledger.life :=
  Ledger.aged_release (s.ledger.use .setcb p) .free p

theorem not_live_clearFree (s : Bevs H) (h : H) : ¬ (s.clearFree (.handle h)).Live h :=
  Ledger.not_live_release (s.ledger.use .setcb (.handle h)) .free h

theorem aged_clearFree_clearFree (s : Bevs H) (p q : Ptr H) :
    Ledger.Aged s.ledger.life ((s.clearFree p).clearFree q).ledger.life :=
  (aged_clearFree s p).trans (aged_clearFree _ q)

theorem not_live_clearFree_clearFree (s : Bevs H) (h : H) (p : Ptr H) :
    ¬ ((s.clearFree (.handle h)).clearFree p).Live h :=
  fun hl => not_live_clearFree s h ((aged_clearFree _ p).live hl)

/-- `t` is `s` after the release of the two live bufferevents `a` and `b`. -/
structure Closed (a b : H) (s t : Bevs H) : Prop where
  life : t.ledger.life =
    Function.update (Function.update s.ledger.life a .released) b .released
  log : s.ledger.log <+: t.ledger.log
  clean : s.ledger.Clean Op.guarded → t.ledger.Clean Op.guarded
  counted : s.ledger.Counted .free → t.ledger.Counted .free
  bev : t.bev = s.bev

theorem closed_clearFree {s : Bevs H} {a b : H} (ha : s.Live a) (hb : s.Live b) (hab : b ≠ a) :
    Closed a b s ((s.clearFree (.handle a)).clearFree (.handle b)) := by
  have hb' : (s.clearFree (.handle a)).Live b := by
    rw [Live, life_clearFree s ha, Function.update_of_ne hab]
    exact hb
  refine ⟨?_, ?_, ?_, ?_, rfl⟩
  · rw [life_clearFree _ hb', life_clearFree s ha]
  · exact (prefix_log_clearFree _ _).trans (prefix_log_clearFree _ _)
  · intro hc
    rw [clean_clearFree, clean_clearFree, Ledger.valid_handle, Ledger.valid_handle]
    exact ⟨⟨hc, ha⟩, hb'⟩
  · exact fun hc => counted_clearFree (counted_clearFree hc ha) hb'

theorem life_endAll (a x : H) (p : Ptr H) (events : UInt16) (s : Bevs H) :
    (s.endAll a x p events).ledger.life =
      ((((s.clearFree (.handle a)).call .context (.handle x)).clearFree p).free
        (.handle x)).ledger.life := by
  unfold endAll
  split <;> rfl

/-- The lives behind it depend on the lives before. -/
theorem life_endAll_congr {s t : Bevs H} (h : t.ledger.life = s.ledger.life) (a x : H)
    (p : Ptr H) (events : UInt16) :
    (t.endAll a x p events).ledger.life = (s.endAll a x p events).ledger.life := by
  have hcall : ((t.clearFree (.handle a)).call .context (.handle x)).ledger.life =
      ((s.clearFree (.handle a)).call .context (.handle x)).ledger.life :=
    life_clearFree_congr h _
  rw [life_endAll, life_endAll, ledger_free, ledger_free]
  exact Ledger.life_release_congr (life_clearFree_congr hcall p) .free (.handle x)

theorem aged_endAll (a x : H) (p : Ptr H) (events : UInt16) (s : Bevs H) :
    Ledger.Aged (s.clearFree (.handle a)).ledger.life (s.endAll a x p events).ledger.life := by
  rw [life_endAll]
  exact (aged_clearFree ((s.clearFree (.handle a)).call .context (.handle x)) p).trans
    (Ledger.aged_release _ _ _)

theorem not_live_endAll (a x : H) (p : Ptr H) (events : UInt16) (s : Bevs H) :
    ¬ (s.endAll a x p events).Live a :=
  fun hl => not_live_clearFree s a ((aged_endAll a x p events s).live hl)

theorem bev_endAll (a x : H) (p : Ptr H) (events : UInt16) (s : Bevs H) :
    (s.endAll a x p events).bev = s.bev := by
  unfold endAll
  split <;> rfl

/-- The context does not point to a live bufferevent. -/
theorem not_clean_endAll {a x : H} {p : Ptr H} (events : UInt16) {s : Bevs H}
    (hp : ((s.clearFree (.handle a)).ledger).valid p = false) :
    ¬ (s.endAll a x p events).ledger.Clean Op.guarded := by
  have hfree : ¬ ((((s.clearFree (.handle a)).call .context (.handle x)).clearFree p).free
      (.handle x)).ledger.Clean Op.guarded := by
    intro h
    rw [ledger_free, Ledger.clean_release, clean_clearFree] at h
    have hv := h.1.2
    rw [ledger_call, Ledger.valid_congr (Ledger.life_use ..), hp] at hv
    cases hv
  unfold endAll
  split
  · intro h
    rw [ledger_call, Ledger.clean_use] at h
    exact hfree h.1
  · exact hfree

/-- The three handles are live, so that each is released once. -/
structure Ended (a r x : H) (s t : Bevs H) : Prop where
  life : t.ledger.life = Function.update (Function.update (Function.update s.ledger.life
    a .released) r .released) x .released
  clean : s.ledger.Clean Op.guarded → t.ledger.Clean Op.guarded
  counted : s.ledger.Counted .free → t.ledger.Counted .free

theorem ended_endAll {a r x : H} (events : UInt16) {s : Bevs H} (ha : s.Live a) (hr : s.Live r)
    (hx : s.Live x) (hra : r ≠ a) (hxa : x ≠ a) (hxr : x ≠ r) :
    Ended a r x s (s.endAll a x (.handle r) events) := by
  have h₁ : ∀ h, h ≠ a → s.Live h →
      ((s.clearFree (.handle a)).call .context (.handle x)).Live h := by
    intro h hne hl
    show (s.clearFree (.handle a)).ledger.life h = .live
    rw [life_clearFree s ha, Function.update_of_ne hne]
    exact hl
  have hr₁ := h₁ r hra hr
  have hx₂ : (((s.clearFree (.handle a)).call .context (.handle x)).clearFree
      (.handle r)).Live x := by
    rw [Live, life_clearFree _ hr₁, Function.update_of_ne hxr]
    exact h₁ x hxa hx
  refine ⟨?_, ?_, ?_⟩
  · rw [life_endAll, ledger_free, Ledger.life_release_handle _ _ hx₂, life_clearFree _ hr₁,
      ledger_call, Ledger.life_use, life_clearFree s ha]
  · intro hc
    have hfree : ((((s.clearFree (.handle a)).call .context (.handle x)).clearFree
        (.handle r)).free (.handle x)).ledger.Clean Op.guarded := by
      rw [ledger_free, Ledger.clean_release, clean_clearFree, ledger_call, Ledger.clean_use,
        clean_clearFree]
      refine ⟨⟨⟨⟨hc, ?_⟩, fun _ => ?_⟩, ?_⟩, fun _ => ?_⟩
      · exact (Ledger.valid_handle _ _).mpr ha
      · exact (Ledger.valid_handle _ _).mpr (h₁ x hxa hx)
      · exact (Ledger.valid_handle _ _).mpr hr₁
      · exact (Ledger.valid_handle _ _).mpr hx₂
    unfold endAll
    split
    · rw [ledger_call, Ledger.clean_use]
      exact ⟨hfree, fun h => absurd h (by decide)⟩
    · exact hfree
  · intro hc
    have hfree : ((((s.clearFree (.handle a)).call .context (.handle x)).clearFree
        (.handle r)).free (.handle x)).ledger.Counted .free :=
      (counted_clearFree ((counted_clearFree hc ha).use (by decide) _) hr₁).release hx₂
    unfold endAll
    split
    · exact hfree.use (by decide) _
    · exact hfree

/-! ## Copies between bufferevents -/

/-- The queues that a copy from `src` to `dst` works on. -/
def queues (dst src : H) (s : Bevs H) : Queues := ⟨(s.bev src).input, (s.bev dst).output⟩

/-- A read of `src` or a write of `dst`. -/
def Copies (dst src : H) (k : Op) (p : Ptr H) : Prop :=
  k = .read ∧ p = .handle src ∨ k = .write ∧ p = .handle dst

/-- `t` is `s` but for the input of `src`, the output of `dst`, and reads and writes of them. -/
structure Frame (dst src : H) (s t : Bevs H) : Prop where
  ledger : s.ledger.Touched (Copies dst src) t.ledger
  input : ∀ h, h ≠ src → (t.bev h).input = (s.bev h).input
  output : ∀ h, h ≠ dst → (t.bev h).output = (s.bev h).output
  gone : ∀ h, (t.bev h).gone = (s.bev h).gone
  hungUp : ∀ h, (t.bev h).hungUp = (s.bev h).hungUp

omit [DecidableEq H] in
theorem Frame.refl (dst src : H) (s : Bevs H) : Frame dst src s s :=
  ⟨.refl _, fun _ _ => rfl, fun _ _ => rfl, fun _ => rfl, fun _ => rfl⟩

omit [DecidableEq H] in
theorem Frame.trans {dst src : H} {s t u : Bevs H} (h : Frame dst src s t)
    (h' : Frame dst src t u) : Frame dst src s u where
  ledger := h.ledger.trans h'.ledger
  input x hx := (h'.input x hx).trans (h.input x hx)
  output x hx := (h'.output x hx).trans (h.output x hx)
  gone x := (h'.gone x).trans (h.gone x)
  hungUp x := (h'.hungUp x).trans (h.hungUp x)

omit [DecidableEq H] in
/-- A copy leaves the other bufferevents alone. -/
theorem Frame.bev_of_ne {dst src : H} {s t : Bevs H} (hf : Frame dst src s t) {h : H}
    (hdst : h ≠ dst) (hsrc : h ≠ src) : t.bev h = s.bev h :=
  Bev.ext (hf.input h hsrc) (hf.output h hdst) (hf.gone h) (hf.hungUp h)

/-- A call through one of these handles that releases nothing. -/
def Through (hs : List H) (k : Op) (p : Ptr H) : Prop := k ≠ .free ∧ ∃ h ∈ hs, p = .handle h

omit [DecidableEq H] in
theorem Copies.through {dst src : H} {hs : List H} (hdst : dst ∈ hs) (hsrc : src ∈ hs) {k : Op}
    {p : Ptr H} (h : Copies dst src k p) : Through hs k p := by
  rcases h with ⟨rfl, rfl⟩ | ⟨rfl, rfl⟩
  · exact ⟨by decide, src, hsrc, rfl⟩
  · exact ⟨by decide, dst, hdst, rfl⟩

omit [DecidableEq H] in
theorem Frame.through {dst src : H} {s t : Bevs H} (h : Frame dst src s t) {hs : List H}
    (hdst : dst ∈ hs) (hsrc : src ∈ hs) : s.ledger.Touched (Through hs) t.ledger :=
  h.ledger.mono fun _ _ => Copies.through hdst hsrc

omit [DecidableEq H] in
/-- Calls through live handles keep the ledger clean. -/
theorem clean_of_through {s t : Bevs H} {hs : List H}
    (h : s.ledger.Touched (Through hs) t.ledger) (hl : ∀ x ∈ hs, s.Live x)
    (hc : s.ledger.Clean Op.guarded) : t.ledger.Clean Op.guarded := by
  refine h.clean hc ?_
  rintro k p ⟨_, x, hx, rfl⟩
  exact (Ledger.valid_handle _ _).mpr (hl x hx)

theorem counted_of_through {s t : Bevs H} {hs : List H}
    (h : s.ledger.Touched (Through hs) t.ledger) (hc : s.ledger.Counted .free) :
    t.ledger.Counted .free :=
  h.counted hc fun _ hA => hA.1 rfl

theorem io_onQueues (dst src : H) : (io dst src).OnQueues (queues dst src) (Frame dst src) where
  read size s := by
    refine ⟨_, rfl, ?_, ?_, ?_, ?_, ?_, ?_⟩
    · unfold queues
      rw [bev_modify_self, field_modify Bev.output _ rfl]
      rfl
    · exact Ledger.touched_use _ (Or.inl ⟨rfl, rfl⟩)
    · exact fun h hne => by rw [bev_modify_of_ne _ hne]; rfl
    · exact fun h _ => field_modify Bev.output _ rfl h
    · exact field_modify Bev.gone _ rfl
    · exact field_modify Bev.hungUp _ rfl
  write buf size s := by
    refine ⟨_, rfl, ?_, ?_, ?_, ?_, ?_, ?_⟩
    · unfold queues
      rw [bev_modify_self, field_modify Bev.input _ rfl]
      rfl
    · exact Ledger.touched_use _ (Or.inr ⟨rfl, rfl⟩)
    · exact fun h _ => field_modify Bev.input _ rfl h
    · exact fun h hne => by rw [bev_modify_of_ne _ hne]; rfl
    · exact field_modify Bev.gone _ rfl
    · exact field_modify Bev.hungUp _ rfl
  refl := Frame.refl dst src
  trans _ _ _ := Frame.trans

/-- `decode_copy_pass` between bufferevents. -/
theorem runCopy_decode (pass : Password) (dst src : H) (s : Bevs H) :
    ∃ t, runCopy (fun io => decodeCopyPass io pass) dst src s =
        (if (s.bev src).input = [] then -1 else 0, t) ∧
      t.queues dst src = copied (decodePass pass).lookup (s.queues dst src) ∧
      Frame dst src s t := by
  obtain ⟨t, hrun, hview, hframe⟩ := decodeCopyPass_view (io_onQueues dst src) pass
    ((s.bev src).input.length + 1) s (Nat.lt_succ_self _)
  exact ⟨t, by rw [runCopy, hrun]; rfl, hview, hframe⟩

/-- `encode_copy_pass` between bufferevents. -/
theorem runCopy_encode (pass : Password) (dst src : H) (s : Bevs H) :
    ∃ t, runCopy (fun io => encodeCopyPass io pass) dst src s =
        (if (s.bev src).input = [] then -1 else 0, t) ∧
      t.queues dst src = copied pass.lookup (s.queues dst src) ∧
      Frame dst src s t := by
  obtain ⟨t, hrun, hview, hframe⟩ := encodeCopyPass_view (io_onQueues dst src) pass
    ((s.bev src).input.length + 1) s (Nat.lt_succ_self _)
  exact ⟨t, by rw [runCopy, hrun]; rfl, hview, hframe⟩

end Bevs

end Lightsocks
