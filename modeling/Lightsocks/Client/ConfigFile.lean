import Lightsocks.Client.Startup
import Lightsocks.Parson.Serializer
import Lightsocks.Server.Startup

/-
  The configuration file of `client/client.c`, from its bytes to the listener.

  However the file is laid out, and whatever else is in it, `main` listens on the port, dials the
  address and holds the table that the file names (`config_text_started`). Behind it stand the
  reader of `lib/parson.c`, the conversions of `main` and the key text of `lib/password.c`.
-/

namespace Lightsocks.Client

open Lib

/-- The string that `main` parses as the schema. -/
def schemaText : List UInt8 :=
  literal "\x7b\"local_port\":0,\"server_addr\":\"\",\"server_port\":0,\"password\":\"\"\x7d"

/-- A member whose name needs no escapes. -/
def plainMember (before key blank value : List UInt8) (j : JsonSyntax) (after : List UInt8) :
    MemberText :=
  ⟨before, key, key, [], ⟨blank, value, after, j⟩⟩

/-- The members of the schema. -/
def schemaLines : List MemberText :=
  [plainMember [] (literal "local_port") [] (showNat 0) (.number (natNumeral 0)) [],
    plainMember [] (literal "server_addr") [] (literal "\"\"") (.string []) [],
    plainMember [] (literal "server_port") [] (showNat 0) (.number (natNumeral 0)) [],
    plainMember [] (literal "password") [] (literal "\"\"") (.string []) []]

theorem jsonText_natural (n : Nat) :
    JsonText Numeral.Json (.number (natNumeral n)) (showNat n) := by
  rw [← render_natNumeral]
  exact .number (json_natNumeral n)

theorem jsonText_schemaText :
    JsonText Numeral.Json (.object (schemaLines.map fun m => m.toItem.item)) schemaText := by
  have hnone : Spaces [] := List.forall_mem_nil _
  have hempty : JsonText Numeral.Json (.string []) (literal "\"\"") := .string .nil
  have htext := @JsonText.object Numeral.Json schemaLines (List.cons_ne_nil _ _)
    (by
      simp only [schemaLines, plainMember, List.forall_mem_cons]
      exact ⟨⟨hnone, hnone, hnone, hnone⟩, ⟨hnone, hnone, hnone, hnone⟩,
        ⟨hnone, hnone, hnone, hnone⟩, ⟨hnone, hnone, hnone, hnone⟩, List.forall_mem_nil _⟩)
    (by
      simp only [schemaLines, plainMember, List.forall_mem_cons]
      exact ⟨stringText_of_all (by decide), stringText_of_all (by decide),
        stringText_of_all (by decide), stringText_of_all (by decide), List.forall_mem_nil _⟩)
    (by
      simp only [schemaLines, plainMember, List.forall_mem_cons]
      exact ⟨jsonText_natural 0, hempty, jsonText_natural 0, hempty, List.forall_mem_nil _⟩)
  have hlayout : ascii '{' :: commaSeparated (schemaLines.map MemberText.toItem) ++
      [ascii '}'] = schemaText := by decide
  rwa [hlayout] at htext

/-- `main` validates against this schema. -/
theorem jsonParseString_schemaText {libc : Libc} (hzero : libc.number (literal "0") = some 0) :
    jsonParseString libc schemaText = some (.object schemaMembers) := by
  have hread := jsonParseString_of_text libc (w := []) (r := []) jsonText_schemaText
    (List.forall_mem_nil _) (delimits_spaces_end (List.forall_mem_nil _))
  have hrender : (natNumeral 0).render = literal "0" := by decide
  have hvalue : (JsonSyntax.object (schemaLines.map fun m => m.toItem.item)).value libc =
      .object schemaMembers := by
    have h₁ : memberName (cString (literal "local_port")) = "local_port" := by decide
    have h₂ : memberName (cString (literal "server_addr")) = "server_addr" := by decide
    have h₃ : memberName (cString (literal "server_port")) = "server_port" := by decide
    have h₄ : memberName (cString (literal "password")) = "password" := by decide
    simp only [schemaLines, plainMember, MemberText.toItem, List.map_cons, List.map_nil,
      JsonSyntax.value, memberValues, h₁, h₂, h₃, h₄, hrender, hzero, Option.getD_some,
      schemaMembers]
    rfl
  have hnumber : (JsonSyntax.number (natNumeral 0)).Taken libc :=
    .number (not_zeroExponent_natNumeral 0) (by rw [hrender, hzero]; rfl)
  have htaken : (JsonSyntax.object (schemaLines.map fun m => m.toItem.item)).Taken libc := by
    refine .object (by decide) ?_
    simp only [schemaLines, plainMember, MemberText.toItem, List.map_cons, List.map_nil,
      List.forall_mem_cons]
    exact ⟨hnumber, .string [], hnumber, .string [], List.forall_mem_nil _⟩
  have hwithin : Within (maxNesting + 1) (.object schemaMembers) := by
    intro member hm
    simp only [schemaMembers, List.mem_cons, List.not_mem_nil, or_false] at hm
    rcases hm with rfl | rfl | rfl | rfl <;> exact trivial
  rw [List.nil_append, List.append_nil] at hread
  rw [hread, read_eq_some_iff, hvalue]
  exact ⟨rfl, hwithin, htaken⟩

/-- The key text of a table is read as this table, whatever its length is said to be. -/
theorem genPasswordByString_passwordString (decsize : Nat) (pass : Password) :
    genPasswordByString Alloc.granted decsize (passwordString pass)
      (passwordString pass).length = .password pass := by
  have hchars : keyChars (passwordString pass) (passwordString pass).length =
      b64Text pass.x.toList := by
    rw [keyChars, List.take_length, passwordString_eq]
    exact takeWhile_b64Text pass.x.toList 256
  have hlen : (b64Text pass.x.toList).length = 342 := by
    rw [length_b64Text, length_toList]
    rfl
  rw [genPasswordByString_eq_password_iff, hchars]
  exact ⟨hlen, (b64Bytes_b64Text _).symm⟩

/-- The members that the client looks up. -/
structure Names (members : List (String × JSONValue)) (localPort serverPort : UInt16)
    (a b c d : UInt8) (pass : Password) : Prop where
  localPort : jsonObjectGetValue members "local_port" = some (.number localPort.toNat)
  serverAddr : jsonObjectGetValue members "server_addr" = some (.string (dotted a b c d))
  serverPort : jsonObjectGetValue members "server_port" = some (.number serverPort.toNat)
  password : jsonObjectGetValue members "password" = some (.string (passwordString pass))

theorem mem_of_jsonObjectGetValue {members : List (String × JSONValue)} {name : String}
    {value : JSONValue} (h : jsonObjectGetValue members name = some value) :
    name ∈ members.map Prod.fst := by
  by_contra hne
  rw [jsonObjectGetValue_eq_none.mpr hne] at h
  cases h

section

variable {members : List (String × JSONValue)} {p q : UInt16} {a b c d : UInt8}
  {pass : Password}

/-- Four members are there, of the types that the schema asks for. -/
theorem Names.validated (h : Names members p q a b c d pass) :
    jsonValidate (.object schemaMembers) (.object members) = true := by
  have hlen : schemaMembers.length ≤ members.length := by
    have hsub : schemaMembers.map Prod.fst ⊆ members.map Prod.fst := by
      intro name hname
      simp only [schemaMembers, List.map_cons, List.map_nil, List.mem_cons, List.not_mem_nil,
        or_false] at hname
      rcases hname with rfl | rfl | rfl | rfl
      · exact mem_of_jsonObjectGetValue h.localPort
      · exact mem_of_jsonObjectGetValue h.serverAddr
      · exact mem_of_jsonObjectGetValue h.serverPort
      · exact mem_of_jsonObjectGetValue h.password
    have hle := List.Nodup.length_le_of_subset (show (schemaMembers.map Prod.fst).Nodup by decide)
      hsub
    rwa [List.length_map, List.length_map] at hle
  refine (jsonValidate_object_iff (by simp [schemaMembers])).mpr ⟨members, rfl, hlen, ?_⟩
  rw [jsonValidateMembers_iff]
  simp only [schemaMembers, List.forall_mem_cons, List.not_mem_nil, false_implies, implies_true,
    and_true]
  exact ⟨⟨_, h.localPort, jsonValidate_number_iff.mpr ⟨_, rfl⟩⟩,
    ⟨_, h.serverAddr, jsonValidate_string_iff.mpr ⟨_, rfl⟩⟩,
    ⟨_, h.serverPort, jsonValidate_number_iff.mpr ⟨_, rfl⟩⟩,
    ⟨_, h.password, jsonValidate_string_iff.mpr ⟨_, rfl⟩⟩⟩

/-- `main` behind the reader. -/
theorem Names.main_eq (h : Names members p q a b c d pass) {m : Machine} {argv : List String}
    (hargv : argv.length = 1 ∨ argv.length = 2)
    (hparsed : m.jsonParseFile (configFile argv) = some (.object members))
    (hbase : m.eventBaseNew = true) (hbound : m.evconnlistenerNewBind = true) :
    ∃ localAddr remoteAddr, main m argv = .listening localAddr remoteAddr (some pass) ∧
      Carries m.order localAddr 0 0 0 0 p ∧ Carries m.order remoteAddr a b c d q := by
  have hreach : Reaches m argv (.object members) :=
    ⟨⟨hargv, hparsed, h.validated, hbase⟩, hbound⟩
  have hlocal : jsonObjectGetNumber members "local_port" = p.toNat := by
    rw [jsonObjectGetNumber, h.localPort, jsonValueGetNumber]
  have hserver : jsonObjectGetNumber members "server_port" = q.toNat := by
    rw [jsonObjectGetNumber, h.serverPort, jsonValueGetNumber]
  have hconf : main m argv = listenOn m (m.toInt (jsonObjectGetNumber members "local_port"))
      (m.toInt (jsonObjectGetNumber members "server_port")) (dotted a b c d) (some pass) := by
    rw [main, if_neg (not_not.mpr hargv), hparsed]
    simp only [h.validated, Bool.true_eq_false, if_false, configure, jsonObject,
      jsonObjectGetString, h.serverAddr, h.password, jsonValueGetString,
      genPasswordByString_passwordString]
  rw [hconf, listenOn, if_neg (by simp [hbase]), if_neg (by simp [hbound])]
  refine ⟨_, _, rfl, carries_of_port m hlocal ?_, carries_of_port m hserver ?_⟩
  · cases m.order <;> rfl
  · exact bytes32_inetAddr_dotted m.order a b c d

end

/-- **Configuration.** A file in any layout of JSON that `parson.c` takes and whose members name
    two ports, an address and the key text of a table, in any order and among any others, is what
    the client starts with: it listens on this port, dials this address and holds this table. -/
theorem config_text_started (file : String → Option (List UInt8)) (libc : Libc) {m : Machine}
    (hfile : m.jsonParseFile = fun name => jsonParseFile libc (file name))
    (hbase : m.eventBaseNew = true) (hbound : m.evconnlistenerNewBind = true)
    {argv : List String} (hargv : argv.length = 1 ∨ argv.length = 2)
    {j : JsonSyntax} {t w r : List UInt8} (ht : JsonText Numeral.Json j t) (hw : Spaces w)
    (hr : Delimits r) (hcontents : file (configFile argv) = some (w ++ (t ++ r)))
    (htaken : j.Taken libc) {members : List (String × JSONValue)}
    (hvalue : j.value libc = .object members) (hwithin : Within (maxNesting + 1) (.object members))
    {p q : UInt16} {a b c d : UInt8} {pass : Password} (h : Names members p q a b c d pass) :
    ∃ localAddr remoteAddr, main m argv = .listening localAddr remoteAddr (some pass) ∧
      Carries m.order localAddr 0 0 0 0 p ∧ Carries m.order remoteAddr a b c d q := by
  refine h.main_eq hargv ?_ hbase hbound
  have hread := jsonParseFile_of_text libc ht hw hr
  rw [read_eq_some_iff.mpr ⟨hvalue.symm, hvalue ▸ hwithin, htaken⟩] at hread
  rw [hfile, ← hread, ← hcontents]

/-! ## The file that comes with the programs -/

/-- `config.json`, with this key text. -/
def configText (key : List UInt8) : List UInt8 :=
  literal "\x7b\n  \"local_port\": 2333,\n" ++ literal "  \"server_addr\": \"1.2.3.4\",\n" ++
    literal "  \"server_port\": 8080,\n" ++ literal "  \"password\": \"" ++ key ++
      literal "\"\n\x7d"

/-- Its key text. -/
def shippedKey : List UInt8 :=
  literal "ooccDJX8EwaTL5I1JY9B4k1cc52XTxoQWSRSKZmBuBf" ++
    literal "LoG76qip8tnXpfQVesPlbO4hMx82LbOEr84yYdKtnML" ++
    literal "wRMRvkZp4yWgPo4K08hNUtYnb+09KAz6/Jo843oaUAf" ++
    literal "pphxgG3te/epycPOjPsw2D1g1UJf44IVLmGpq7acpsu" ++
    literal "BxVoRcL4iWOfCj6sqYpH3MHY0LPx64K9tFhAHxhLwIV" ++
    literal "7Rv8/kOfFV04S8HekkWq+NFAU48TfyvL0XxYO5hlKeg" ++
    literal "TI1ybdzFZpRO731rEC1EKUb7sjbT2oIB44sihwItFdQ" ++
    literal "/vZ7WtJcVPqHf2/SLp4IQ3lLJbbOXlRjQucNmRl9g=="

/-- It is the key text of the table that the server has built in. -/
theorem shippedKey_eq : shippedKey = passwordString Server.globalPassword := by
  rw [passwordString, Server.toList_globalPassword]
  decide +kernel

/-- The members of `config.json`. -/
def configMembers (key : List UInt8) : List (String × JSONValue) :=
  [("local_port", .number 2333), ("server_addr", .string (dotted 1 2 3 4)),
    ("server_port", .number 8080), ("password", .string key)]

/-- The four lines of `config.json`. -/
def configLines (key : List UInt8) : List MemberText :=
  [plainMember (literal "\n  ") (literal "local_port") (literal " ") (showNat 2333)
      (.number (natNumeral 2333)) [],
    plainMember (literal "\n  ") (literal "server_addr") (literal " ")
      (ascii '"' :: dotted 1 2 3 4 ++ [ascii '"']) (.string (dotted 1 2 3 4)) [],
    plainMember (literal "\n  ") (literal "server_port") (literal " ") (showNat 8080)
      (.number (natNumeral 8080)) [],
    plainMember (literal "\n  ") (literal "password") (literal " ")
      (ascii '"' :: key ++ [ascii '"']) (.string key) (literal "\n")]

/-- Its syntax. -/
def configSyntax (key : List UInt8) : JsonSyntax :=
  .object ((configLines key).map fun m => m.toItem.item)

theorem jsonText_plain {t : List UInt8} (ht : t.all isPlain = true) :
    JsonText Numeral.Json (.string t) (ascii '"' :: t ++ [ascii '"']) :=
  .string (stringText_of_all ht)

theorem jsonText_configText {key : List UInt8} (hkey : key.all isPlain = true) :
    JsonText Numeral.Json (configSyntax key) (configText key) := by
  have hline : Spaces (literal "\n  ") := spaces_of_all (by decide)
  have hblank : Spaces (literal " ") := spaces_of_all (by decide)
  have hlast : Spaces (literal "\n") := spaces_of_all (by decide)
  have hnone : Spaces [] := List.forall_mem_nil _
  have htext := @JsonText.object Numeral.Json (configLines key) (List.cons_ne_nil _ _)
    (by
      simp only [configLines, plainMember, List.forall_mem_cons]
      exact ⟨⟨hline, hnone, hblank, hnone⟩, ⟨hline, hnone, hblank, hnone⟩,
        ⟨hline, hnone, hblank, hnone⟩, ⟨hline, hnone, hblank, hlast⟩, List.forall_mem_nil _⟩)
    (by
      simp only [configLines, plainMember, List.forall_mem_cons]
      exact ⟨stringText_of_all (by decide), stringText_of_all (by decide),
        stringText_of_all (by decide), stringText_of_all (by decide), List.forall_mem_nil _⟩)
    (by
      simp only [configLines, plainMember, List.forall_mem_cons]
      exact ⟨jsonText_natural 2333, jsonText_plain (by decide), jsonText_natural 8080,
        jsonText_plain hkey, List.forall_mem_nil _⟩)
  have hlayout : ascii '{' :: commaSeparated ((configLines key).map MemberText.toItem) ++
      [ascii '}'] = configText key := by
    have hdotted : dotted 1 2 3 4 = literal "1.2.3.4" := by decide
    have h₁ : showNat 2333 = literal "2333" := by decide
    have h₂ : showNat 8080 = literal "8080" := by decide
    simp [configLines, plainMember, MemberText.toItem, commaSeparated, ItemText.render, hdotted,
      h₁, h₂, configText, literal]
  rwa [hlayout] at htext

theorem value_configSyntax {key : List UInt8} (hkey : (0 : UInt8) ∉ key) :
    (configSyntax key).value naturalLibc = .object (configMembers key) := by
  have h₁ : memberName (cString (literal "local_port")) = "local_port" := by decide
  have h₂ : memberName (cString (literal "server_addr")) = "server_addr" := by decide
  have h₃ : memberName (cString (literal "server_port")) = "server_port" := by decide
  have h₄ : memberName (cString (literal "password")) = "password" := by decide
  have hlocal : naturalLibc.number (natNumeral 2333).render = some 2333 := by
    exact_mod_cast naturalLibc_number (n := 2333) (by decide)
  have hserver : naturalLibc.number (natNumeral 8080).render = some 8080 := by
    exact_mod_cast naturalLibc_number (n := 8080) (by decide)
  have hdotted : cString (dotted 1 2 3 4) = dotted 1 2 3 4 := by decide
  simp only [configSyntax, configLines, plainMember, MemberText.toItem, List.map_cons,
    List.map_nil, JsonSyntax.value, memberValues, h₁, h₂, h₃, h₄, hlocal, hserver,
    Option.getD_some, hdotted, cString_of_not_mem hkey, configMembers]

theorem taken_configSyntax (key : List UInt8) : (configSyntax key).Taken naturalLibc := by
  have hnumber : ∀ n < 2 ^ 53, (JsonSyntax.number (natNumeral n)).Taken naturalLibc := fun n hn =>
    .number (not_zeroExponent_natNumeral n) (by rw [naturalLibc_number hn]; rfl)
  refine .object ?_ ?_
  · show [cString (literal "local_port"), cString (literal "server_addr"),
      cString (literal "server_port"), cString (literal "password")].Nodup
    decide
  · simp only [configLines, plainMember, MemberText.toItem, List.map_cons, List.map_nil,
      List.forall_mem_cons]
    exact ⟨hnumber 2333 (by decide), .string _, hnumber 8080 (by decide), .string _,
      List.forall_mem_nil _⟩

theorem isPlain_passwordString (pass : Password) : (passwordString pass).all isPlain = true := by
  have hall : ∀ c : UInt8, isBase64 c = true → isPlain c = true :=
    forall_uint8 (by decide +kernel)
  rw [passwordString_eq, List.all_append, Bool.and_eq_true]
  exact ⟨List.all_eq_true.mpr fun c hc => hall c (isBase64_b64Text _ c hc), by decide⟩

/-- The only file there is. -/
def shippedFile (_ : String) : Option (List UInt8) := some (configText shippedKey)

/-- A machine on which every file is `config.json`, and all calls succeed. -/
def shippedMachine : Machine :=
  ⟨.little, fun name => jsonParseFile naturalLibc (shippedFile name), fun _ => 0, 0, true, true⟩

/-- With the file that comes with the programs, the client holds the table of the server. -/
theorem config_text_started_shipped :
    ∃ localAddr remoteAddr, main shippedMachine ["client", "config.json"] =
        .listening localAddr remoteAddr (some Server.globalPassword) ∧
      Carries .little localAddr 0 0 0 0 2333 ∧ Carries .little remoteAddr 1 2 3 4 8080 := by
  have hplain : shippedKey.all isPlain = true := by
    rw [shippedKey_eq]
    exact isPlain_passwordString _
  have hfile : shippedMachine.jsonParseFile =
      fun name => jsonParseFile naturalLibc (shippedFile name) := by
    simp only [shippedMachine]
  have hcontents : shippedFile (configFile ["client", "config.json"]) =
      some ([] ++ (configText shippedKey ++ [])) := by
    rw [shippedFile, List.nil_append, List.append_nil]
  have hwithin : Within (maxNesting + 1) (.object (configMembers shippedKey)) := by
    intro member hm
    simp only [configMembers, List.mem_cons, List.not_mem_nil, or_false] at hm
    rcases hm with rfl | rfl | rfl | rfl <;> exact trivial
  have hnames : Names (configMembers shippedKey) 2333 8080 1 2 3 4 Server.globalPassword := by
    rw [shippedKey_eq]
    refine ⟨?_, ?_, ?_, ?_⟩ <;> simp [configMembers, jsonObjectGetValue]
  have hvalue := value_configSyntax (stringText_of_all hplain).zero_not_mem
  exact config_text_started shippedFile naturalLibc hfile rfl rfl (Or.inr rfl)
    (jsonText_configText hplain) (List.forall_mem_nil _)
    (delimits_spaces_end (List.forall_mem_nil _)) hcontents (taken_configSyntax _) hvalue hwithin
    hnames

end Lightsocks.Client
