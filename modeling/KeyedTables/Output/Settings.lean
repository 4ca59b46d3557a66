import KeyedTables.Time.Duration

/-!
This module contains the configuration of an output and what makes it unusable.
-/

namespace KeyedTables

/--
How to log in to a secured store: with the ambient ticket cache, or as a principal with a keytab.
-/
structure KerberosLogin where
  principal? : Option String := none
  keytab? : Option String := none
  useTicketCache : Bool := false
  deriving DecidableEq

structure OutputSettings where
  connection : String
  tableName : String
  /-- Inserts of rows that are already there count as done. -/
  insertIgnore : Bool := false
  /-- Fields that belong to no column are dropped. -/
  ignoreMissingColumns : Bool := false
  secure : Bool := false
  kerberos? : Option KerberosLogin := none
  /-- How long a batch may take until nothing is outstanding. -/
  applyTimeout? : Option Duration := none
  deriving DecidableEq

inductive SettingsProblem where
  | blankConnection
  | blankTable
  | zeroTimeout
  | keytabMissing
  | principalMissing
  | loginMissing
  | kerberosMissing
  deriving DecidableEq

/-!
# The names of the settings in configuration files
-/

namespace Setting

def connection : String := "connection"

def tableName : String := "table.name"

/--
Whether inserts of rows that are already there count as done.
-/
def insertIgnore : String := "insert.ignore"

/--
Whether fields that belong to no column are dropped.
-/
def ignoreMissingColumns : String := "ignore.missing.columns"

def secure : String := "secure"

def kerberos : String := "kerberos"

def applyTimeout : String := "apply.timeout"

def principal : String := "principal"

def keytab : String := "keytab"

def useTicketCache : String := "use.ticket.cache"

end Setting

namespace SettingsProblem

def message : SettingsProblem → String
  | .blankConnection => "'" ++ Setting.connection ++ "' must not be empty"
  | .blankTable => "'" ++ Setting.tableName ++ "' must not be empty"
  | .zeroTimeout => "'" ++ Setting.applyTimeout ++ "' must be greater than zero"
  | .keytabMissing =>
    "'" ++ Setting.kerberos ++ "." ++ Setting.keytab ++ "' must be set with a principal"
  | .principalMissing =>
    "'" ++ Setting.kerberos ++ "." ++ Setting.principal ++ "' must be set with a keytab"
  | .loginMissing =>
    "'" ++ Setting.kerberos ++ "' needs a principal and keytab, or '"
      ++ Setting.useTicketCache ++ "'"
  | .kerberosMissing =>
    "'" ++ Setting.secure ++ "' requires a '" ++ Setting.kerberos ++ "' section"

end SettingsProblem

/--
What is missing for a login. The ticket cache needs nothing else.
-/
def KerberosLogin.problem? (k : KerberosLogin) : Option SettingsProblem :=
  if k.useTicketCache then none
  else
    match k.principal?, k.keytab? with
    | some _, some _ => none
    | some _, none => some .keytabMissing
    | none, some _ => some .principalMissing
    | none, none => some .loginMissing

namespace OutputSettings

/--
What is wrong with the login. One that is given must be complete even if the store is not secured.
-/
def loginProblem? (c : OutputSettings) : Option SettingsProblem :=
  match c.kerberos? with
  | some k => k.problem?
  | none => if c.secure then some .kerberosMissing else none

def problem? (c : OutputSettings) : Option SettingsProblem :=
  if Text.allBlank c.connection then some .blankConnection
  else if Text.allBlank c.tableName then some .blankTable
  else
    match c.applyTimeout? with
    | some timeout => if timeout.nanoseconds = 0 then some .zeroTimeout else c.loginProblem?
    | none => c.loginProblem?

end OutputSettings

end KeyedTables
