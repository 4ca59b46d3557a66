import KeyedTables.Output.Settings
import KeyedTables.Text.Json

/-!
This module contains the text of a configuration: which JSON value it is written as, and how it is
read from one. A group of settings is read from an object, where settings that nobody knows are passed
over, or from an array of the values in the order in which they are written. How JSON and durations
themselves are written and read is given.
-/

namespace KeyedTables

/--
How JSON values and durations are written and read.
-/
structure TextFormats where
  writeJson : Json → String
  readJson? : String → Option Json
  writeDuration : Duration → String
  readDuration? : String → Option Duration

namespace TextFormats

def standard : TextFormats where
  writeJson := Json.toText
  readJson? := Json.parse?
  writeDuration := Duration.text
  readDuration? := Duration.parse?

end TextFormats

namespace Json

/--
The text of a string, if the value is one that spells a text.
-/
def string? : Json → Option String
  | .string text => text
  | _ => none

def bool? : Json → Option Bool
  | .bool b => some b
  | _ => none

/--
A value that may be missing: null stands for none.
-/
def optional (read : Json → Option α) : Json → Option (Option α)
  | .null => some none
  | j => (read j).map some

def ofOptionalText : Option String → Json
  | some s => .string (some s)
  | none => .null

end Json

inductive SettingGroup where
  | named (members : List (String × Json))
  | positional (elements : List Json)

namespace SettingGroup

/--
The members of an object whose names all spell a text.
-/
def namedMembers : List (Option String × Json) → Option (List (String × Json))
  | [] => some []
  | (none, _) :: _ => none
  | (some name, value) :: rest => (namedMembers rest).map ((name, value) :: ·)

/--
The group of settings of an object, or of an array of at most `size` values.
-/
def ofJson? (size : Nat) : Json → Option SettingGroup
  | .object members => (namedMembers members).map .named
  | .array elements => if elements.length ≤ size then some (.positional elements) else none
  | _ => none

/--
The value of a setting, if it is there. It is an error to set it twice.
-/
def find? (g : SettingGroup) (name : String) (position : Nat) : Option (Option Json) :=
  match g with
  | .named members =>
    match members.filter (·.1 == name) with
    | [] => some none
    | [(_, value)] => some (some value)
    | _ :: _ :: _ => none
  | .positional elements => some elements[position]?

def require (g : SettingGroup) (name : String) (position : Nat) (read : Json → Option α) :
    Option α := do
  let value ← g.find? name position
  let value ← value
  read value

def get (g : SettingGroup) (name : String) (position : Nat) (read : Json → Option α)
    (default : α) : Option α := do
  match ← g.find? name position with
  | some value => read value
  | none => some default

end SettingGroup

namespace KerberosLogin

/--
The settings in the order in which they are written.
-/
def toJson (k : KerberosLogin) : Json :=
  .ofMembers
    [(Setting.principal, .ofOptionalText k.principal?),
      (Setting.keytab, .ofOptionalText k.keytab?),
      (Setting.useTicketCache, .bool k.useTicketCache)]

def ofJson? (j : Json) : Option KerberosLogin := do
  let g ← SettingGroup.ofJson? 3 j
  let principal? ← g.get Setting.principal 0 (Json.optional Json.string?) none
  let keytab? ← g.get Setting.keytab 1 (Json.optional Json.string?) none
  let useTicketCache ← g.get Setting.useTicketCache 2 Json.bool? false
  some ⟨principal?, keytab?, useTicketCache⟩

end KerberosLogin

namespace OutputSettings

/--
The settings in the order in which they are written. Those that are absent by default are left out.
-/
def toJson (c : OutputSettings) (f : TextFormats := .standard) : Json :=
  let kerberos :=
    match c.kerberos? with
    | some k => [(Setting.kerberos, k.toJson)]
    | none => []
  let applyTimeout :=
    match c.applyTimeout? with
    | some d => [(Setting.applyTimeout, Json.string (some (f.writeDuration d)))]
    | none => []
  .ofMembers
    ([(Setting.connection, .string (some c.connection)),
        (Setting.tableName, .string (some c.tableName)),
        (Setting.insertIgnore, .bool c.insertIgnore),
        (Setting.ignoreMissingColumns, .bool c.ignoreMissingColumns),
        (Setting.secure, .bool c.secure)]
      ++ kerberos ++ applyTimeout)

def toText (c : OutputSettings) (f : TextFormats := .standard) : String :=
  f.writeJson (c.toJson f)

def duration? (f : TextFormats) (j : Json) : Option Duration := do
  f.readDuration? (← j.string?)

def ofJson? (j : Json) (f : TextFormats := .standard) : Option OutputSettings := do
  let g ← SettingGroup.ofJson? 7 j
  let connection ← g.require Setting.connection 0 Json.string?
  let tableName ← g.require Setting.tableName 1 Json.string?
  let insertIgnore ← g.get Setting.insertIgnore 2 Json.bool? false
  let ignoreMissingColumns ← g.get Setting.ignoreMissingColumns 3 Json.bool? false
  let secure ← g.get Setting.secure 4 Json.bool? false
  let kerberos? ← g.get Setting.kerberos 5 (Json.optional KerberosLogin.ofJson?) none
  let applyTimeout? ← g.get Setting.applyTimeout 6 (Json.optional (duration? f)) none
  some ⟨connection, tableName, insertIgnore, ignoreMissingColumns, secure, kerberos?,
    applyTimeout?⟩

def ofText? (s : String) (f : TextFormats := .standard) : Option OutputSettings := do
  ofJson? (← f.readJson? s) f

end OutputSettings

end KeyedTables
