import Lightsocks.Client.Startup
import Lightsocks.Lib.Ledger

/-
  How the two programs end: what `main` has created, and what it does with it behind the label
  `error` and behind `event_base_dispatch`.

  The client has one label for failures before, between and behind the calls that create
  something. The first test jumps past the assignments of four variables and of `ss`; the last
  one jumps from where `schema` and `data` have been freed already. `client_exit_clean_iff` says
  for which command lines, configurations and outcomes of the calls none of this is met.

  The server falls through into its label. There the base is freed before the listener and the
  event that are registered with it, so that no run of it ends well (`server_exit_not_clean`).

  A null dereference ends the program. What the machine makes of any other bad access is not
  said: it stands in the ledger, which goes on as the text of `main` does.

  `evconnlistener_free` and `event_free` take an event out of its base. `event_base_free` returns
  at once for `NULL`. What the callbacks hold is not `main`'s.
-/

namespace Lightsocks

open Lib

/-- What `main` creates. -/
inductive Owned where
  | secureSocket
  | password
  | schema
  | data
  | base
  | listener
  | signalEvent
  | keyText
  deriving DecidableEq

/-- All of it. -/
def Owned.all : List Owned :=
  [.secureSocket, .password, .schema, .data, .base, .listener, .signalEvent, .keyText]

theorem Owned.mem_all (x : Owned) : x ∈ Owned.all := by
  cases x <;> decide

/-- What is done through a pointer. -/
inductive Use where
  | access
  | free
  deriving DecidableEq

/-- What becomes of the signal event. -/
structure Signals where
  /-- `evsignal_new` returns one. -/
  evsignalNew : Bool
  /-- `event_add` returns 0. -/
  eventAdd : Bool

/-- The signal event is installed. -/
def Signals.Installed (o : Signals) : Prop := o.evsignalNew = true ∧ o.eventAdd = true

/-- The pointer that a call returns which may fail. -/
def Owned.orNull (x : Owned) (ok : Bool) : Ptr Owned := if ok then .handle x else .null

/-- A call that creates `x`, or fails. -/
def tryCreate (x : Owned) (ok : Bool) (l : Ledger Use Owned) : Ledger Use Owned :=
  if ok then l.create x else l

/-- `if (p) free(p)`. -/
def freeIf (p : Ptr Owned) (l : Ledger Use Owned) : Ledger Use Owned :=
  if p = .null then l else l.release .free p

/-- A run of `main`: it goes on with a ledger, or a null dereference has ended it with one. -/
abbrev Course := Except (Ledger Use Owned) (Ledger Use Owned)

/-- What has been done, to the end. -/
def Course.ledger : Course → Ledger Use Owned
  | .ok l => l
  | .error l => l

/-- The run ends by a null dereference. -/
def Course.EndsByNull : Course → Prop
  | .ok _ => False
  | .error _ => True

instance : DecidablePred Course.EndsByNull
  | .ok _ => isFalse id
  | .error _ => isTrue trivial

/-- An access through `p`. -/
def deref (p : Ptr Owned) (l : Ledger Use Owned) : Course :=
  if p = .null then .error (l.use .access p) else .ok (l.use .access p)

/-- `evconnlistener_free` or `event_free`, of what is registered with `base`. -/
def freeEvent (base p : Ptr Owned) (l : Ledger Use Owned) : Course := do
  let l ← deref p l
  let l ← deref base l
  return l.release .free p

/-- `if (p)`, and one of these. -/
def freeEventIf (base p : Ptr Owned) (l : Ledger Use Owned) : Course :=
  if p = .null then .ok l else freeEvent base p l

/-- Every access was good. -/
def AllGood (l : Ledger Use Owned) : Prop := l.Clean fun _ => true

instance (l : Ledger Use Owned) : Decidable (AllGood l) :=
  inferInstanceAs (Decidable (∀ a ∈ l.log, true = true → a.ok = true))

/-- `x` is freed more than once. -/
def FreedTwice (l : Ledger Use Owned) (x : Owned) : Prop := 1 < l.releases .free x

instance (l : Ledger Use Owned) (x : Owned) : Decidable (FreedTwice l x) :=
  inferInstanceAs (Decidable (_ < _))

/-! ## The client -/

namespace Client

/-- The pointers of `main`, `ss` and `base` included, with `ss->password`. -/
structure Vars where
  ss : Ptr Owned
  password : Ptr Owned
  schema : Ptr Owned
  data : Ptr Owned
  base : Ptr Owned
  listener : Ptr Owned
  signalEvent : Ptr Owned

/-- The globals are `NULL`; the others are not set. -/
def Vars.start : Vars :=
  ⟨.null, .null, .indeterminate, .indeterminate, .null, .indeterminate, .indeterminate⟩

/-- `securesocket_free`. -/
def securesocketFree (v : Vars) (l : Ledger Use Owned) : Course := do
  let l ← deref v.ss l
  return (freeIf v.password l).release .free v.ss

/-- What both ends of `main` have in common. -/
def release (v : Vars) (l : Ledger Use Owned) : Course := do
  let l ← securesocketFree v l
  let l ← freeEventIf v.base v.listener l
  let l ← freeEventIf v.base v.signalEvent l
  return freeIf v.base l

/-- From the label `error` on. -/
def errorExit (v : Vars) (l : Ledger Use Owned) : Course :=
  release v (freeIf v.data (freeIf v.schema l))

/-- `main` from the test of `listener` on. `password_string` reads through `password`. -/
def serve (o : Signals) (v : Vars) (l : Ledger Use Owned) : Course := do
  let l ← deref v.password l
  let l := ((l.create .keyText).release .free v.schema).release .free v.data
  let l := tryCreate .signalEvent o.evsignalNew l
  let v := { v with signalEvent := Owned.orNull .signalEvent o.evsignalNew }
  if o.evsignalNew = false ∨ o.eventAdd = false then errorExit v l
  else
    let l ← deref v.base l
    release v l

/-- `main` from `event_base_new` on. `evconnlistener_set_error_cb` comes before the test of
    `listener`. -/
def listen (eventBaseNew evconnlistenerNewBind : Bool) (o : Signals) (v : Vars)
    (l : Ledger Use Owned) : Course := do
  let l := tryCreate .base eventBaseNew l
  let v := { v with base := Owned.orNull .base eventBaseNew }
  if eventBaseNew = false then errorExit v l
  else
    let l := tryCreate .listener evconnlistenerNewBind l
    let v := { v with listener := Owned.orNull .listener evconnlistenerNewBind }
    let l ← deref v.listener l
    if evconnlistenerNewBind = false then errorExit v l else serve o v l

/-- `main` from `gen_password_by_string` on. -/
def generate (m : Machine) (o : Signals) (text : List UInt8) (v : Vars)
    (l : Ledger Use Owned) : Course :=
  let accepted := match genPasswordByString Alloc.granted m.decsize text text.length with
    | .password _ => true
    | .null | .nullDeref => false
  listen m.eventBaseNew m.evconnlistenerNewBind o
    { v with password := Owned.orNull .password accepted } (tryCreate .password accepted l)

/-- `main`, as far as `configFile` allows it to get. `strlen` reads through `password_str`. -/
def mainExit (m : Machine) (o : Signals) (argv : List String) : Course := do
  let l := Ledger.empty
  if ¬ (argv.length = 1 ∨ argv.length = 2) then errorExit Vars.start l
  else
    let l := (l.create .secureSocket).create .schema
    let v := { Vars.start with
      ss := .handle .secureSocket
      signalEvent := .null
      listener := .null
      schema := .handle .schema }
    match m.jsonParseFile (configFile argv) with
    | none => errorExit { v with data := .null } l
    | some data =>
        let l := l.create .data
        let v := { v with data := .handle .data }
        let l ← deref v.schema l
        let l ← deref v.data l
        if jsonValidate (.object schemaMembers) data = false then errorExit v l
        else
          let l ← deref v.data l
          match jsonObjectGetString (jsonObject data) "password" with
          | none => deref .null l
          | some text => generate m o text v l

/-! ### From the key on -/

/-- The pointers when the configuration is accepted. -/
def configured : Vars :=
  { Vars.start with
    ss := .handle .secureSocket
    signalEvent := .null
    listener := .null
    schema := .handle .schema
    data := .handle .data }

/-- The ledger then. -/
def configuredLedger : Ledger Use Owned :=
  let l := ((Ledger.empty.create .secureSocket).create .schema).create .data
  ((l.use .access (.handle .schema)).use .access (.handle .data)).use .access (.handle .data)

/-- `main` behind `gen_password_by_string`, which has returned a password or not. -/
def keyed (eventBaseNew evconnlistenerNewBind key : Bool) (o : Signals) : Course :=
  listen eventBaseNew evconnlistenerNewBind o
    { configured with password := Owned.orNull .password key }
    (tryCreate .password key configuredLedger)

theorem keyed_allGood_iff (base bound key : Bool) (o : Signals) :
    AllGood (keyed base bound key o).ledger ↔
      (base = true → bound = true ∧ key = true ∧ o.Installed) := by
  have hall : ∀ base bound key new added : Bool,
      AllGood (keyed base bound key ⟨new, added⟩).ledger ↔
        (base = true → bound = true ∧ key = true ∧ new = true ∧ added = true) := by
    decide +kernel
  exact hall base bound key o.evsignalNew o.eventAdd

theorem keyed_endsByNull_iff (base bound key : Bool) (o : Signals) :
    (keyed base bound key o).EndsByNull ↔ base = true ∧ (bound = false ∨ key = false) := by
  have hall : ∀ base bound key new added : Bool,
      (keyed base bound key ⟨new, added⟩).EndsByNull ↔
        base = true ∧ (bound = false ∨ key = false) := by
    decide +kernel
  exact hall base bound key o.evsignalNew o.eventAdd

theorem keyed_freedTwice_iff (base bound key : Bool) (o : Signals) (x : Owned) :
    FreedTwice (keyed base bound key o).ledger x ↔
      (x = .schema ∨ x = .data) ∧ base = true ∧ bound = true ∧ key = true ∧ ¬ o.Installed := by
  have hall : ∀ base bound key new added : Bool, ∀ x ∈ Owned.all,
      FreedTwice (keyed base bound key ⟨new, added⟩).ledger x ↔
        (x = .schema ∨ x = .data) ∧ base = true ∧ bound = true ∧ key = true ∧
          ¬ (new = true ∧ added = true) := by
    decide +kernel
  exact hall base bound key o.evsignalNew o.eventAdd x x.mem_all

theorem keyed_live_iff (base bound key : Bool) (o : Signals)
    (h : AllGood (keyed base bound key o).ledger) (x : Owned) :
    (keyed base bound key o).ledger.life x = .live ↔ x = .keyText ∧ base = true := by
  have hall : ∀ base bound key new added : Bool,
      AllGood (keyed base bound key ⟨new, added⟩).ledger → ∀ x ∈ Owned.all,
        ((keyed base bound key ⟨new, added⟩).ledger.life x = .live ↔
          x = .keyText ∧ base = true) := by
    decide +kernel
  exact hall base bound key o.evsignalNew o.eventAdd h x x.mem_all

/-! ### From the start -/

/-- The pointers when the file is not read, or not accepted. -/
def unread : Vars := { configured with data := .null }

/-- The runs that never get to `gen_password_by_string`. -/
def refused : List Course :=
  [errorExit unread ((Ledger.empty.create .secureSocket).create .schema),
    errorExit configured (((((Ledger.empty.create .secureSocket).create .schema).create
      .data).use .access (.handle .schema)).use .access (.handle .data))]

theorem generate_eq (m : Machine) (o : Signals) (text : List UInt8) (v : Vars)
    (l : Ledger Use Owned) {key : Bool}
    (hkey : key = true ↔ (keyChars text text.length).length = 342) :
    generate m o text v l = listen m.eventBaseNew m.evconnlistenerNewBind o
      { v with password := Owned.orNull .password key } (tryCreate .password key l) := by
  obtain ⟨password, hgen, hsome⟩ := exists_password m.decsize text
  rw [generate, hgen]
  cases password with
  | none =>
      have hfalse : key = false := by
        rw [← Bool.not_eq_true, hkey, ← hsome]
        simp
      rw [hfalse]
  | some pass => rw [hkey.mpr (hsome.mp (by simp))]

/-- The file holds a configuration of the right types. -/
def Configured (m : Machine) (argv : List String) (data : JSONValue) : Prop :=
  m.jsonParseFile (configFile argv) = some data ∧
    jsonValidate (.object schemaMembers) data = true

/-- The key text of the configuration is accepted. -/
def KeyAccepted (data : JSONValue) : Prop :=
  ∃ text, jsonObjectGetString (jsonObject data) "password" = some text ∧
    (keyChars text text.length).length = 342

theorem mainExit_of_not_configured {m : Machine} {argv : List String} (o : Signals)
    (hargs : argv.length = 1 ∨ argv.length = 2) (h : ∀ data, ¬ Configured m argv data) :
    mainExit m o argv ∈ refused := by
  rw [mainExit, if_neg (not_not.mpr hargs)]
  cases hdata : m.jsonParseFile (configFile argv) with
  | none => exact List.mem_cons_self
  | some data =>
      have hvalid : jsonValidate (.object schemaMembers) data = false := by
        rw [← Bool.not_eq_true]
        exact fun hv => h data ⟨hdata, hv⟩
      simp only [hvalid, if_true]
      exact List.mem_cons_of_mem _ List.mem_cons_self

theorem mainExit_of_configured {m : Machine} {argv : List String} {data : JSONValue}
    (o : Signals) (hargs : argv.length = 1 ∨ argv.length = 2) (h : Configured m argv data) :
    ∃ key, (key = true ↔ KeyAccepted data) ∧
      mainExit m o argv = keyed m.eventBaseNew m.evconnlistenerNewBind key o := by
  obtain ⟨hdata, hvalid⟩ := h
  obtain ⟨-, -, -, text, htext⟩ := fields_of_jsonValidate hvalid
  have htext' : jsonObjectGetString (jsonObject data) "password" = some text := by
    rw [jsonObjectGetString, htext, jsonValueGetString]
  have hkey : decide ((keyChars text text.length).length = 342) = true ↔
      (keyChars text text.length).length = 342 := decide_eq_true_iff
  refine ⟨decide ((keyChars text text.length).length = 342), ?_, ?_⟩
  · rw [hkey, KeyAccepted, htext']
    simp
  · rw [mainExit, if_neg (not_not.mpr hargs), hdata]
    simp only [hvalid, htext', reduceCtorEq, if_false]
    exact generate_eq m o text _ _ hkey

/-- **How the client ends.** All that `main` does to what it has created is good exactly if it
    has the right number of arguments and, when it tries to bind a listener, this succeeds, the
    key text is accepted and the signal event installed. It ends by a null dereference with a
    wrong number of arguments, and when the listener is not bound or the key text not accepted.
    What it frees twice are `schema` and `data`, when it has the listener and the key and does
    not install the signal event. Where all is good, the text of the key is all that is left, of
    a run that has had a listener. -/
theorem client_exit_clean_iff (m : Machine) (o : Signals) (argv : List String) :
    (AllGood (mainExit m o argv).ledger ↔ (argv.length = 1 ∨ argv.length = 2) ∧
      ∀ data, Binds m argv data →
        m.evconnlistenerNewBind = true ∧ KeyAccepted data ∧ o.Installed) ∧
    ((mainExit m o argv).EndsByNull ↔ ¬ (argv.length = 1 ∨ argv.length = 2) ∨
      ∃ data, Binds m argv data ∧ (m.evconnlistenerNewBind = false ∨ ¬ KeyAccepted data)) ∧
    (∀ x, FreedTwice (mainExit m o argv).ledger x ↔ (x = .schema ∨ x = .data) ∧
      (∃ data, Reaches m argv data ∧ KeyAccepted data) ∧ ¬ o.Installed) ∧
    (AllGood (mainExit m o argv).ledger → ∀ x,
      (mainExit m o argv).ledger.life x = .live ↔ x = .keyText ∧ ∃ data, Reaches m argv data) := by
  by_cases hargs : argv.length = 1 ∨ argv.length = 2
  swap
  · have hexit : mainExit m o argv = errorExit Vars.start Ledger.empty := if_pos hargs
    have hbad : ¬ AllGood (errorExit Vars.start Ledger.empty).ledger := by decide
    have hfreed : ∀ x ∈ Owned.all, ¬ FreedTwice (errorExit Vars.start Ledger.empty).ledger x := by
      decide
    rw [hexit]
    refine ⟨iff_of_false hbad fun h => hargs h.1, iff_of_true trivial (Or.inl hargs),
      fun x => iff_of_false (hfreed x x.mem_all) ?_, fun h => absurd h hbad⟩
    rintro ⟨-, ⟨data, h, -⟩, -⟩
    exact hargs h.args
  by_cases hconf : ∃ data, Configured m argv data
  · obtain ⟨data, hdata⟩ := hconf
    obtain ⟨key, hkey, hexit⟩ := mainExit_of_configured o hargs hdata
    have hbinds : ∀ data', Binds m argv data' ↔ data' = data ∧ m.eventBaseNew = true := by
      intro data'
      constructor
      · exact fun h => ⟨Option.some.inj (h.parsed.symm.trans hdata.1), h.base⟩
      · rintro ⟨rfl, hbase⟩
        exact ⟨hargs, hdata.1, hdata.2, hbase⟩
    have hreaches : ∀ data', Reaches m argv data' ↔
        data' = data ∧ m.eventBaseNew = true ∧ m.evconnlistenerNewBind = true := by
      intro data'
      constructor
      · exact fun h => ⟨((hbinds data').mp h.toBinds).1, h.base, h.bound⟩
      · exact fun h => ⟨(hbinds data').mpr ⟨h.1, h.2.1⟩, h.2.2⟩
    have hnot : key = false ↔ ¬ KeyAccepted data := by rw [← hkey, Bool.not_eq_true]
    rw [hexit, keyed_endsByNull_iff]
    refine ⟨?_, ?_, fun x => ?_, fun hgood x => ?_⟩
    · rw [keyed_allGood_iff, hkey]
      simp [hargs, hbinds]
    · simp [hargs, hbinds, hnot, and_assoc]
    · rw [keyed_freedTwice_iff, hkey]
      simp [hreaches, and_assoc]
    · have hbound := (keyed_allGood_iff _ _ _ o).mp hgood
      rw [keyed_live_iff _ _ _ o hgood]
      simp only [hreaches, exists_eq_left]
      exact and_congr_right fun _ => ⟨fun h => ⟨h, (hbound h).1⟩, And.left⟩
  · have hmem := mainExit_of_not_configured o hargs (not_exists.mp hconf)
    have hnone : ∀ data, ¬ Binds m argv data := fun data h =>
      hconf ⟨data, h.parsed, h.validated⟩
    have hends : ∀ c ∈ refused, AllGood c.ledger ∧ ¬ c.EndsByNull := by decide
    have hfreed : ∀ c ∈ refused, ∀ x ∈ Owned.all,
        ¬ FreedTwice c.ledger x ∧ c.ledger.life x ≠ .live := by decide
    have hx := fun x : Owned => hfreed _ hmem x x.mem_all
    refine ⟨iff_of_true (hends _ hmem).1 ⟨hargs, fun data h => absurd h (hnone data)⟩,
      iff_of_false (hends _ hmem).2 ?_, fun x => iff_of_false (hx x).1 ?_,
      fun _ x => iff_of_false (hx x).2 ?_⟩
    · rintro (h | ⟨data, h, -⟩)
      · exact h hargs
      · exact hnone data h
    · rintro ⟨-, ⟨data, h, -⟩, -⟩
      exact hnone data h.toBinds
    · rintro ⟨-, data, h⟩
      exact hnone data h.toBinds

end Client

/-! ## The server -/

namespace Server

/-- `main` of `server/server.c`. It falls through into its label; there `free` is for
    `global_password`, and the other calls take whatever the variables hold. `signal_event` is
    not set before the test of `listener`. -/
def mainExit (eventBaseNew evconnlistenerNewBind : Bool) (o : Signals) : Course := do
  let l := tryCreate .base eventBaseNew (Ledger.empty.create .password)
  let base := Owned.orNull .base eventBaseNew
  let l := tryCreate .listener evconnlistenerNewBind l
  let listener := Owned.orNull .listener evconnlistenerNewBind
  let error := fun signalEvent l => do
    let l ← freeEvent base listener (freeIf base (l.release .free (.handle .password)))
    freeEvent base signalEvent l
  if evconnlistenerNewBind = false then error .indeterminate l
  else
    let l ← deref listener l
    let l ← deref (.handle .password) l
    let l := tryCreate .signalEvent o.evsignalNew (l.create .keyText)
    let signalEvent := Owned.orNull .signalEvent o.evsignalNew
    let l ← deref signalEvent l
    let l ← deref base l
    error signalEvent l

/-- **How the server ends.** No run of `main` ends well: the base is freed before what is
    registered with it, also when all calls have succeeded. -/
theorem server_exit_not_clean (eventBaseNew evconnlistenerNewBind : Bool) (o : Signals) :
    ¬ AllGood (mainExit eventBaseNew evconnlistenerNewBind o).ledger := by
  have hall : ∀ base bound new added : Bool,
      ¬ AllGood (mainExit base bound ⟨new, added⟩).ledger := by
    decide +kernel
  exact hall eventBaseNew evconnlistenerNewBind o.evsignalNew o.eventAdd

end Server

end Lightsocks
