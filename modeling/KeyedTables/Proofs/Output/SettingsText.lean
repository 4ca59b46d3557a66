import KeyedTables.Proofs.Time.Spans
import KeyedTables.Proofs.Text.Json
import KeyedTables.Output.SettingsText

/-!
This module contains the round trip of configurations through their text. Settings that are left out
because they are absent come back as absent, whoever writes and reads JSON and durations, as long as
they keep to the formats.
-/

namespace KeyedTables

namespace TextFormats

/--
The writers and readers keep to the formats. Objects need not be nested deeper than those of
configurations.
-/
structure Documented (f : TextFormats) : Prop where
  /-- A value is written as one of its texts, if it has any. -/
  writes_json : ∀ j, (∃ cs, Json.TextOf 2 j cs) → Json.TextOf 2 j (f.writeJson j).toList
  /-- Each text of a value is read as that value. -/
  reads_json : ∀ j text, Json.TextOf 2 j text.toList → f.readJson? text = some j
  writes_durations : ∀ d, Duration.WrittenInParts d (f.writeDuration d)
  reads_durations : Duration.AddsUpSpans f.readDuration?

theorem documented_standard : standard.Documented := by
  constructor
  case writes_json =>
    rintro j ⟨cs, hcs⟩
    change Json.TextOf 2 j (String.ofList j.write).toList
    rw [String.toList_ofList]
    exact Json.textOf_write hcs
  case reads_json => exact fun j text htext => Json.parse?_eq htext
  case writes_durations => exact Duration.writtenInParts_text
  case reads_durations => exact Duration.addsUpSpans_parse?

variable {f : TextFormats}

theorem Documented.readJson?_writeJson (h : f.Documented) {j : Json}
    (hj : ∃ cs, Json.TextOf 2 j cs) : f.readJson? (f.writeJson j) = some j :=
  h.reads_json j _ (h.writes_json j hj)

theorem Documented.readDuration?_writeDuration (h : f.Documented) (d : Duration) :
    f.readDuration? (f.writeDuration d) = some d :=
  h.reads_durations.read?_eq (h.writes_durations d)

end TextFormats

namespace Json

theorem exists_textOf_string (depth : Nat) (s : String) :
    ∃ cs, TextOf depth (.string (some s)) cs := by
  obtain ⟨cs, hcs⟩ := exists_scalarText_string s
  exact ⟨cs, hcs.textOf depth⟩

theorem exists_textOf_bool (depth : Nat) (b : Bool) : ∃ cs, TextOf depth (.bool b) cs := by
  obtain ⟨cs, hcs⟩ := exists_scalarText_bool b
  exact ⟨cs, hcs.textOf depth⟩

theorem exists_textOf_ofOptionalText (depth : Nat) (text : Option String) :
    ∃ cs, TextOf depth (ofOptionalText text) cs := by
  cases text with
  | none => exact ⟨_, ScalarText.null.textOf depth⟩
  | some s => exact exists_textOf_string depth s

theorem optional_ofOptionalText (text : Option String) :
    optional string? (ofOptionalText text) = some text := by
  cases text with
  | none => rfl
  | some s => rfl

end Json

namespace SettingGroup

theorem namedMembers_map (members : List (String × Json)) :
    namedMembers (members.map fun m => (some m.1, m.2)) = some members := by
  induction members with
  | nil => rfl
  | cons m members ih =>
    rw [List.map_cons, namedMembers, ih]
    rfl

theorem ofJson?_ofMembers (size : Nat) (members : List (String × Json)) :
    ofJson? size (.ofMembers members) = some (.named members) := by
  change (namedMembers (members.map fun m => (some m.1, m.2))).map named = _
  rw [namedMembers_map]
  rfl

end SettingGroup

namespace KerberosLogin

theorem exists_textOf_toJson (k : KerberosLogin) : ∃ cs, Json.TextOf 1 k.toJson cs := by
  unfold toJson
  apply Json.exists_textOf_ofMembers
  simp only [List.forall_mem_cons]
  exact ⟨Json.exists_textOf_ofOptionalText 0 _, Json.exists_textOf_ofOptionalText 0 _,
    Json.exists_textOf_bool 0 _, List.forall_mem_nil _⟩

theorem ofJson?_toJson (k : KerberosLogin) : ofJson? k.toJson = some k := by
  unfold ofJson? toJson
  rw [SettingGroup.ofJson?_ofMembers]
  simp [SettingGroup.get, SettingGroup.find?, Setting.principal, Setting.keytab,
    Setting.useTicketCache, Json.optional_ofOptionalText, Json.bool?]

theorem optional_toJson (k : KerberosLogin) : Json.optional ofJson? k.toJson = some (some k) := by
  change (ofJson? k.toJson).map some = some (some k)
  rw [k.ofJson?_toJson]
  rfl

end KerberosLogin

namespace OutputSettings

variable {f : TextFormats}

theorem optional_duration (hf : f.Documented) (d : Duration) :
    Json.optional (duration? f) (.string (some (f.writeDuration d))) = some (some d) := by
  change (f.readDuration? (f.writeDuration d)).map some = some (some d)
  rw [hf.readDuration?_writeDuration d]
  rfl

theorem exists_textOf_toJson (f : TextFormats) (c : OutputSettings) :
    ∃ cs, Json.TextOf 2 (c.toJson f) cs := by
  unfold toJson
  apply Json.exists_textOf_ofMembers
  intro m hm
  simp only [List.mem_append, List.mem_cons, List.not_mem_nil, or_false] at hm
  obtain ((rfl | rfl | rfl | rfl | rfl) | hm) | hm := hm
  . exact Json.exists_textOf_string 1 _
  . exact Json.exists_textOf_string 1 _
  . exact Json.exists_textOf_bool 1 _
  . exact Json.exists_textOf_bool 1 _
  . exact Json.exists_textOf_bool 1 _
  . cases hk : c.kerberos? with
    | none => simp [hk] at hm
    | some k =>
      simp only [hk, List.mem_singleton] at hm
      rw [hm]
      exact k.exists_textOf_toJson
  . cases hd : c.applyTimeout? with
    | none => simp [hd] at hm
    | some d =>
      simp only [hd, List.mem_singleton] at hm
      rw [hm]
      exact Json.exists_textOf_string 1 _

theorem ofJson?_toJson (hf : f.Documented) (c : OutputSettings) :
    ofJson? (c.toJson f) f = some c := by
  unfold ofJson? toJson
  rw [SettingGroup.ofJson?_ofMembers]
  obtain ⟨connection, tableName, insertIgnore, ignoreMissingColumns, secure, kerberos?,
    applyTimeout?⟩ := c
  cases kerberos? <;> cases applyTimeout? <;>
    simp [SettingGroup.require, SettingGroup.get, SettingGroup.find?, Setting.connection,
      Setting.tableName, Setting.insertIgnore, Setting.ignoreMissingColumns, Setting.secure,
      Setting.kerberos, Setting.applyTimeout, Json.string?, Json.bool?,
      KerberosLogin.optional_toJson, optional_duration hf]

/--
A configuration is read back from its text.
-/
theorem ofText?_toText (hf : f.Documented) (c : OutputSettings) :
    ofText? (c.toText f) f = some c := by
  unfold ofText? toText
  rw [hf.readJson?_writeJson (c.exists_textOf_toJson f)]
  exact ofJson?_toJson hf c

/--
A configuration with quotes, backslashes, control characters and others in its texts, and with a
timeout of a year, a month, two days and some more.
-/
def oddlyNamed : OutputSettings where
  connection := "m\"1\":7051\t\x01"
  tableName := "caf\u00e9 \\ 🗄\n"
  secure := true
  kerberos? := some ⟨some "etl@\x7f\u2028", none, true⟩
  applyTimeout? := some ⟨(31557600 + 2630016 + 2 * 86400 + 90) * 10 ^ 9 + 5, by decide⟩

theorem ofText?_toText_oddlyNamed :
    TextFormats.standard.Documented
      ∧ oddlyNamed.toText = "\x7b\"connection\":\"m\\\"1\\\":7051\\t\\u0001\","
        ++ "\"table.name\":\"caf\u00e9 \\\\ 🗄\\n\","
        ++ "\"insert.ignore\":false,\"ignore.missing.columns\":false,\"secure\":true,"
        ++ "\"kerberos\":\x7b\"principal\":\"etl@\x7f\u2028\",\"keytab\":null,"
        ++ "\"use.ticket.cache\":true\x7d,"
        ++ "\"apply.timeout\":\"1year 1month 2days 1m 30s 5ns\"\x7d"
      ∧ ofText? oddlyNamed.toText = some oddlyNamed :=
  ⟨TextFormats.documented_standard, by decide +kernel,
    ofText?_toText TextFormats.documented_standard oddlyNamed⟩

end OutputSettings

end KeyedTables
