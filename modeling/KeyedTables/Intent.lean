/-!
This module contains the intent of a planned row: the kind of change that it asks for.
-/

namespace KeyedTables

/--
The change that a planner wants made with a row.
-/
inductive Intent where
  | none
  | insert
  | update
  | delete
  | upsert
  | overwrite
  deriving DecidableEq

namespace Intent

/--
All intents, in the order in which planners list them.
-/
def all : List Intent :=
  [.none, .insert, .update, .delete, .upsert, .overwrite]

def name : Intent → String
  | .none => "NONE"
  | .insert => "INSERT"
  | .update => "UPDATE"
  | .delete => "DELETE"
  | .upsert => "UPSERT"
  | .overwrite => "OVERWRITE"

/--
Two texts agree up to the case of their ASCII letters.
-/
def sameLetters (s t : String) : Bool :=
  decide (s.toList.map Char.toLower = t.toList.map Char.toLower)

def ofName? (s : String) : Option Intent :=
  all.find? fun intent => sameLetters intent.name s

end Intent

end KeyedTables
