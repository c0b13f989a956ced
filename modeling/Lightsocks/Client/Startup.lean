import Lightsocks.Address
import Lightsocks.Key
import Lightsocks.Parson

/-
  `main` of `client/client.c`, up to the call that binds the listener.

  The configuration passes four conversions on its way into the two addresses and the password:
  double to `int`, `int` to 16 bits, `inet_addr` and the key parser. `json_validate` looks at
  the types of the fields only and no conversion is checked, so every configuration of the right
  types is started with (`main_of_reaches`). `usable_start_iff` says for which of them that is
  what was asked for.

  The double-to-`int` conversion is defined where the truncated value is an `int`; elsewhere
  `Machine.intOutside` stands for what the machine makes of it. Allocations succeed.
-/

namespace Lightsocks.Client

/-- What `main` takes from outside. -/
structure Machine where
  order : ByteOrder
  jsonParseFile : String → Option JSONValue
  /-- A double whose integral part is not an `int`, converted to `int`. -/
  intOutside : ℚ → Int
  /-- What stands in the uninitialised `decsize` of `gen_password_by_string`. -/
  decsize : Nat
  /-- `event_base_new` returns a base. -/
  eventBaseNew : Bool
  /-- `evconnlistener_new_bind` returns a listener. -/
  evconnlistenerNewBind : Bool

/-- The conversion from double to `int`. -/
def Machine.toInt (m : Machine) (n : ℚ) : Int :=
  let t := n.num.tdiv n.den
  if -2 ^ 31 ≤ t ∧ t < 2 ^ 31 then t else m.intOutside n

/-- How `main` gets to the listener. -/
inductive Startup where
  /-- The jump to `error`. -/
  | errorExit
  /-- The program ends by a null dereference. -/
  | nullDeref
  /-- The listener is bound to `localAddr`, `remoteAddr` is to be dialled for each connection,
      and `ss->password` is this. -/
  | listening (localAddr remoteAddr : SockaddrIn) (password : Option Password)

/-- The schema that `main` gives to `json_validate`. -/
def schemaMembers : List (String × JSONValue) :=
  [("local_port", .number 0), ("server_addr", .string []), ("server_port", .number 0),
    ("password", .string [])]

/-- The file that `main` reads. -/
def configFile (argv : List String) : String :=
  if argv.length = 1 then ".lightsocks-config.json" else argv.getD 1 ""

/-- `main` from `sockaddr_in local` on. `evconnlistener_set_error_cb` comes before the test of
    `listener`, and writes through it. -/
def listenOn (m : Machine) (localPort serverPort : Int) (serverAddr : List UInt8)
    (password : Option Password) : Startup :=
  let localAddr := ⟨afInet, htons m.order (UInt16.ofInt localPort), htonl m.order inaddrAny⟩
  let remoteAddr :=
    ⟨afInet, htons m.order (UInt16.ofInt serverPort), inetAddr m.order serverAddr⟩
  if m.eventBaseNew = false then .errorExit
  else if m.evconnlistenerNewBind = false then .nullDeref
  else .listening localAddr remoteAddr password

/-- `main` after `json_validate`. -/
def configure (m : Machine) (data : JSONValue) : Startup :=
  let localPort := m.toInt (jsonObjectGetNumber (jsonObject data) "local_port")
  let serverAddr := jsonObjectGetString (jsonObject data) "server_addr"
  let serverPort := m.toInt (jsonObjectGetNumber (jsonObject data) "server_port")
  let passwordStr := jsonObjectGetString (jsonObject data) "password"
  match serverAddr, passwordStr with
  | some serverAddr, some passwordStr =>
      match genPasswordByString Alloc.granted m.decsize passwordStr passwordStr.length with
      | .password pass => listenOn m localPort serverPort serverAddr (some pass)
      | .null => listenOn m localPort serverPort serverAddr none
      | .nullDeref => .nullDeref
  | _, _ => .nullDeref

/-- `main`, up to the listener. -/
def main (m : Machine) (argv : List String) : Startup :=
  if ¬ (argv.length = 1 ∨ argv.length = 2) then .errorExit
  else match m.jsonParseFile (configFile argv) with
    | none => .errorExit
    | some data =>
        if jsonValidate (.object schemaMembers) data = false then .errorExit
        else configure m data

/-! ## What is started with -/

/-- The schema checks the types of the four fields. -/
theorem fields_of_jsonValidate {data : JSONValue}
    (h : jsonValidate (.object schemaMembers) data = true) :
    (∃ n, jsonObjectGetValue (jsonObject data) "local_port" = some (.number n)) ∧
      (∃ s, jsonObjectGetValue (jsonObject data) "server_addr" = some (.string s)) ∧
      (∃ n, jsonObjectGetValue (jsonObject data) "server_port" = some (.number n)) ∧
      ∃ s, jsonObjectGetValue (jsonObject data) "password" = some (.string s) := by
  obtain ⟨members, rfl, -, hmembers⟩ := (jsonValidate_object_iff (by simp [schemaMembers])).mp h
  have field := jsonValidateMembers_iff.mp hmembers
  have number : ∀ key, (key, .number 0) ∈ schemaMembers →
      ∃ n, jsonObjectGetValue members key = some (.number n) := by
    intro key hkey
    obtain ⟨value, hvalue, hnumber⟩ := field _ hkey
    obtain ⟨n, rfl⟩ := jsonValidate_number_iff.mp hnumber
    exact ⟨n, hvalue⟩
  have string : ∀ key, (key, .string []) ∈ schemaMembers →
      ∃ s, jsonObjectGetValue members key = some (.string s) := by
    intro key hkey
    obtain ⟨value, hvalue, hstring⟩ := field _ hkey
    obtain ⟨s, rfl⟩ := jsonValidate_string_iff.mp hstring
    exact ⟨s, hvalue⟩
  exact ⟨number _ (by simp [schemaMembers]), string _ (by simp [schemaMembers]),
    number _ (by simp [schemaMembers]), string _ (by simp [schemaMembers])⟩

/-- The password that a key text gives, if any. -/
theorem exists_password (decsize : Nat) (text : List UInt8) :
    ∃ password : Option Password,
      (genPasswordByString Alloc.granted decsize text text.length =
        match password with
        | some pass => .password pass
        | none => .null) ∧
      (password ≠ none ↔ (keyChars text text.length).length = 342) := by
  by_cases hlen : (keyChars text text.length).length = 342
  · obtain ⟨pass, hx⟩ := exists_table _ ((keyChars_length_iff _).mpr hlen)
    exact ⟨some pass, (genPasswordByString_eq_password_iff decsize text _ pass).mpr ⟨hlen, hx⟩,
      by simp [hlen]⟩
  · exact ⟨none, genPasswordByString_eq_null decsize text _ hlen, by simp [hlen]⟩

/-- Nothing is checked behind the schema. -/
theorem configure_eq (m : Machine) {data : JSONValue}
    (h : jsonValidate (.object schemaMembers) data = true) :
    ∃ serverAddr passwordStr password,
      jsonObjectGetString (jsonObject data) "server_addr" = some serverAddr ∧
      jsonObjectGetString (jsonObject data) "password" = some passwordStr ∧
      (password ≠ none ↔ (keyChars passwordStr passwordStr.length).length = 342) ∧
      configure m data =
        listenOn m (m.toInt (jsonObjectGetNumber (jsonObject data) "local_port"))
          (m.toInt (jsonObjectGetNumber (jsonObject data) "server_port")) serverAddr password := by
  obtain ⟨-, ⟨serverAddr, hserver⟩, -, passwordStr, hpassword⟩ := fields_of_jsonValidate h
  have hserver' : jsonObjectGetString (jsonObject data) "server_addr" = some serverAddr := by
    rw [jsonObjectGetString, hserver, jsonValueGetString]
  have hpassword' : jsonObjectGetString (jsonObject data) "password" = some passwordStr := by
    rw [jsonObjectGetString, hpassword, jsonValueGetString]
  obtain ⟨password, hgen, hnone⟩ := exists_password m.decsize passwordStr
  refine ⟨serverAddr, passwordStr, password, hserver', hpassword', hnone, ?_⟩
  simp only [configure, hserver', hpassword', hgen]
  cases password <;> rfl

/-- `main` calls `evconnlistener_new_bind` with this configuration. -/
structure Binds (m : Machine) (argv : List String) (data : JSONValue) : Prop where
  args : argv.length = 1 ∨ argv.length = 2
  parsed : m.jsonParseFile (configFile argv) = some data
  validated : jsonValidate (.object schemaMembers) data = true
  base : m.eventBaseNew = true

/-- `main` gets to the listener with this configuration. -/
structure Reaches (m : Machine) (argv : List String) (data : JSONValue) : Prop
    extends Binds m argv data where
  bound : m.evconnlistenerNewBind = true

theorem main_of_reaches {m : Machine} {argv : List String} {data : JSONValue}
    (h : Reaches m argv data) : ∃ serverAddr passwordStr password,
      jsonObjectGetString (jsonObject data) "server_addr" = some serverAddr ∧
      jsonObjectGetString (jsonObject data) "password" = some passwordStr ∧
      (password ≠ none ↔ (keyChars passwordStr passwordStr.length).length = 342) ∧
      main m argv = .listening
        ⟨afInet, htons m.order (UInt16.ofInt
          (m.toInt (jsonObjectGetNumber (jsonObject data) "local_port"))),
          htonl m.order inaddrAny⟩
        ⟨afInet, htons m.order (UInt16.ofInt
          (m.toInt (jsonObjectGetNumber (jsonObject data) "server_port"))),
          inetAddr m.order serverAddr⟩ password := by
  obtain ⟨serverAddr, passwordStr, password, hserver, hpassword, hnone, hconf⟩ :=
    configure_eq m h.validated
  refine ⟨serverAddr, passwordStr, password, hserver, hpassword, hnone, ?_⟩
  rw [main, if_neg (not_not.mpr h.args), h.parsed]
  simp only [h.validated, hconf, listenOn, h.base, h.bound, if_false, reduceCtorEq]

/-- A failing bind is met by `evconnlistener_set_error_cb` before it is tested. -/
theorem main_of_bind_failed {m : Machine} {argv : List String} {data : JSONValue}
    (h : Binds m argv data) (hbound : m.evconnlistenerNewBind = false) :
    main m argv = .nullDeref := by
  obtain ⟨_, _, _, -, -, -, hconf⟩ := configure_eq m h.validated
  rw [main, if_neg (not_not.mpr h.args), h.parsed]
  simp only [h.validated, hconf, listenOn, h.base, hbound, if_false, if_true, reduceCtorEq]

/-- What fails before the bind ends at `error`. -/
theorem main_of_not_binds {m : Machine} {argv : List String}
    (h : ∀ data, ¬ Binds m argv data) : main m argv = .errorExit := by
  unfold main
  by_cases hargs : argv.length = 1 ∨ argv.length = 2
  · rw [if_neg (not_not.mpr hargs)]
    cases hdata : m.jsonParseFile (configFile argv) with
    | none => rfl
    | some data =>
        by_cases hvalid : jsonValidate (.object schemaMembers) data = false
        · simp only [hvalid, if_true]
        · rw [Bool.not_eq_false] at hvalid
          obtain ⟨_, _, _, -, -, -, hconf⟩ := configure_eq m hvalid
          simp only [hvalid, hconf, listenOn, reduceCtorEq, if_false]
          rw [if_pos]
          by_contra hbase
          rw [Bool.not_eq_false] at hbase
          exact h data ⟨hargs, hdata, hvalid, hbase⟩
  · rw [if_pos hargs]

/-! ## Usable configurations -/

/-- The address `a.b.c.d` with this port, in network order. -/
def Carries (o : ByteOrder) (addr : SockaddrIn) (a b c d : UInt8) (port : UInt16) : Prop :=
  addr.Names o a b c d (UInt8.ofNat (port.toNat / 2 ^ 8)) (UInt8.ofNat port.toNat)

/-- Either `main` jumps to `error` before the listener is bound, or it listens on and dials
    exactly what the configuration says, and has a password. -/
def UsableStart (m : Machine) (argv : List String) : Prop :=
  main m argv = .errorExit ∨
    ∃ data, m.jsonParseFile (configFile argv) = some data ∧
      ∃ localAddr remoteAddr pass, main m argv = .listening localAddr remoteAddr (some pass) ∧
        (∃ port : UInt16, jsonObjectGetNumber (jsonObject data) "local_port" = port.toNat ∧
          Carries m.order localAddr 0 0 0 0 port) ∧
        ∃ (port : UInt16) (a b c d : UInt8),
          jsonObjectGetNumber (jsonObject data) "server_port" = port.toNat ∧
          jsonObjectGetString (jsonObject data) "server_addr" = some (dotted a b c d) ∧
          Carries m.order remoteAddr a b c d port

/-- What a usable configuration is: two 16-bit ports, an address `a.b.c.d`, and a key text that
    starts with exactly 342 base64 characters. -/
structure UsableConfig (data : JSONValue) : Prop where
  localPort : ∃ port : UInt16, jsonObjectGetNumber (jsonObject data) "local_port" = port.toNat
  serverPort : ∃ port : UInt16, jsonObjectGetNumber (jsonObject data) "server_port" = port.toNat
  serverAddr : ∃ a b c d, jsonObjectGetString (jsonObject data) "server_addr" =
    some (dotted a b c d)
  password : ∃ text, jsonObjectGetString (jsonObject data) "password" = some text ∧
    (keyChars text text.length).length = 342

/-- A port survives the two conversions. -/
theorem ofInt_toInt (m : Machine) (port : UInt16) :
    UInt16.ofInt (m.toInt (port.toNat : ℚ)) = port := by
  have hlt := port.toNat_lt
  have hint : m.toInt (port.toNat : ℚ) = port.toNat := by
    rw [Machine.toInt, Rat.num_natCast, Rat.den_natCast, Nat.cast_one, Int.tdiv_one,
      if_pos (by omega)]
  rw [hint, UInt16.ofInt, ← UInt16.toNat_inj, UInt16.toNat_ofNat']
  omega

theorem carries_of_port (m : Machine) {n : ℚ} {port : UInt16} (h : n = port.toNat)
    {addr : UInt32} {a b c d : UInt8} (haddr : m.order.bytes32 addr = [a, b, c, d]) :
    Carries m.order ⟨afInet, htons m.order (UInt16.ofInt (m.toInt n)), addr⟩ a b c d port := by
  rw [h, ofInt_toInt]
  exact ⟨rfl, bytes16_htons m.order port, haddr⟩

theorem usableConfig_of_usableStart {m : Machine} {argv : List String} {data : JSONValue}
    (hr : Reaches m argv data) (h : UsableStart m argv) : UsableConfig data := by
  obtain ⟨serverAddr, passwordStr, password, -, hpassword, hnone, hmain⟩ := main_of_reaches hr
  rcases h with herror | ⟨data', hparsed, _, _, pass, hlisten, ⟨p, hp, -⟩, q, a, b, c, d, hq,
    haddr, -⟩
  · rw [hmain] at herror
    cases herror
  · -- the parsed file is this one
    have hdata : data' = data := Option.some.inj (hparsed.symm.trans hr.parsed)
    rw [hdata] at hp hq haddr
    rw [hmain] at hlisten
    have hpass : password = some pass := (Startup.listening.inj hlisten).2.2
    exact ⟨⟨p, hp⟩, ⟨q, hq⟩, ⟨a, b, c, d, haddr⟩, passwordStr, hpassword,
      hnone.mp (by rw [hpass]; simp)⟩

theorem usableStart_of_usableConfig {m : Machine} {argv : List String} {data : JSONValue}
    (hr : Reaches m argv data) (h : UsableConfig data) : UsableStart m argv := by
  obtain ⟨serverAddr, passwordStr, password, hserver, hpassword, hnone, hmain⟩ :=
    main_of_reaches hr
  obtain ⟨⟨p, hp⟩, ⟨q, hq⟩, ⟨a, b, c, d, haddr⟩, text, htext, hlen⟩ := h
  have htext' : text = passwordStr := Option.some.inj (htext.symm.trans hpassword)
  have haddr' : serverAddr = dotted a b c d := Option.some.inj (hserver.symm.trans haddr)
  rw [htext'] at hlen
  obtain ⟨pass, hpass⟩ := Option.ne_none_iff_exists'.mp (hnone.mpr hlen)
  rw [hpass, haddr'] at hmain
  refine Or.inr ⟨data, hr.parsed, _, _, pass, hmain, ⟨p, hp, carries_of_port m hp ?_⟩,
    q, a, b, c, d, hq, haddr, carries_of_port m hq ?_⟩
  · cases m.order <;> rfl
  · exact bytes32_inetAddr_dotted m.order a b c d

/-- A usable start does not fail to bind. -/
theorem bound_of_usableStart {m : Machine} {argv : List String} {data : JSONValue}
    (hb : Binds m argv data) (h : UsableStart m argv) : m.evconnlistenerNewBind = true := by
  rw [← Bool.not_eq_false]
  intro hbound
  have hmain := main_of_bind_failed hb hbound
  rcases h with herror | ⟨_, -, _, _, _, hlisten, -⟩
  · rw [hmain] at herror
    cases herror
  · rw [hmain] at hlisten
    cases hlisten

/-- **Start-up.** The client starts as asked exactly if the configuration it calls
    `evconnlistener_new_bind` with, if any, is usable, and the call succeeds. -/
theorem usable_start_iff (m : Machine) (argv : List String) :
    UsableStart m argv ↔
      ∀ data, Binds m argv data → m.evconnlistenerNewBind = true ∧ UsableConfig data := by
  constructor
  · intro h data hb
    have hbound := bound_of_usableStart hb h
    exact ⟨hbound, usableConfig_of_usableStart ⟨hb, hbound⟩ h⟩
  · intro h
    by_cases hbinds : ∃ data, Binds m argv data
    · obtain ⟨data, hb⟩ := hbinds
      obtain ⟨hbound, husable⟩ := h data hb
      exact usableStart_of_usableConfig ⟨hb, hbound⟩ husable
    · exact Or.inl (main_of_not_binds (not_exists.mp hbinds))

/-! ## Two configurations that are started with -/

/-- The application side at port 1080, the server at `127.0.0.1`. -/
def configOf (serverPort : ℚ) (password : List UInt8) : JSONValue :=
  .object [("local_port", .number 1080), ("server_addr", .string (dotted 127 0 0 1)),
    ("server_port", .number serverPort), ("password", .string password)]

/-- A machine on which the file holds that configuration, and all calls succeed. -/
def machineOf (data : JSONValue) : Machine :=
  ⟨.little, fun _ => some data, fun _ => 0, 0, true, true⟩

theorem reaches_configOf (serverPort : ℚ) (password : List UInt8) :
    Reaches (machineOf (configOf serverPort password)) ["lightsocks-local"]
      (configOf serverPort password) := by
  refine ⟨⟨Or.inl rfl, rfl, ?_, rfl⟩, rfl⟩
  simp [configOf, schemaMembers, jsonValidate, jsonValidateMembers, jsonObjectGetValue,
    JSONValue.type]

/-- The client starts with the port 65616, which it cannot dial, and with an empty key text,
    which gives it no password. -/
theorem wide_port_and_empty_key_not_usable :
    ¬ UsableStart (machineOf (configOf 65616 (passwordString identityPassword)))
        ["lightsocks-local"] ∧
      ¬ UsableStart (machineOf (configOf 42619 [])) ["lightsocks-local"] := by
  constructor
  · intro h
    obtain ⟨port, hport⟩ := (usableConfig_of_usableStart (reaches_configOf _ _) h).serverPort
    have hnumber : jsonObjectGetNumber (jsonObject (configOf 65616
        (passwordString identityPassword))) "server_port" = 65616 := by
      simp [configOf, jsonObject, jsonObjectGetNumber, jsonObjectGetValue, jsonValueGetNumber]
    rw [hnumber] at hport
    have hnat : 65616 = port.toNat := by exact_mod_cast hport
    have hlt := port.toNat_lt
    omega
  · intro h
    obtain ⟨text, htext, hlen⟩ := (usableConfig_of_usableStart (reaches_configOf _ _) h).password
    have hempty : jsonObjectGetString (jsonObject (configOf 42619 [])) "password" = some [] := by
      simp [configOf, jsonObject, jsonObjectGetString, jsonObjectGetValue, jsonValueGetString]
    rw [← Option.some.inj (hempty.symm.trans htext)] at hlen
    cases hlen

end Lightsocks.Client
