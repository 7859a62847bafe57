import Bella.Record

/-!
# Log lines

Debug records are written one to a line, behind a time stamp, the channel and the level. The level of
a log is set by name; the names are looked up in capitals, and an unknown name means the level of
information. Setting a level up is itself noted, at the level of debugging.

## Main definitions

* `Bella.Log.threshold`: the level of a given name.
* `Bella.Log.line`: a record as a line of a log.
* `Bella.Log.setUp`: what setting a level up writes.
-/

namespace Bella.Log

/-- The capital of a letter. Outside ASCII only the long s and the dotless i have capitals in ASCII,
and no other capital occurs in the name of a level. -/
def capital (c : Char) : Char :=
  if c = 'ſ' then 'S' else if c = 'ı' then 'I' else c.toUpper

/-- A text in capitals. -/
def capitals (s : String) : String := String.ofList (s.toList.map capital)

/-- The named levels. -/
def levels : List (String × Nat) :=
  [("NOTSET", 0), ("DEBUG", 10), ("INFO", 20), ("WARN", 30), ("WARNING", 30), ("ERROR", 40),
    ("CRITICAL", 50), ("FATAL", 50)]

/-- The level of debug records. -/
def debugLevel : Nat := 10

/-- The level of information, which unknown names mean. -/
def informationLevel : Nat := 20

/-- The level of a given name. -/
def threshold (name : String) : Nat := (levels.lookup (capitals name)).getD informationLevel

/-- A debug message as a line of a log. -/
def debugLine (stamp channel message : String) : String :=
  stamp ++ " - " ++ channel ++ " - DEBUG - " ++ message ++ "\n"

/-- A record as a line of a log. -/
def line (stamp : String) (r : Record) : String := debugLine stamp r.channel r.message

/-- What setting a level up writes: a line if the level lets debug records through. -/
def setUp (stamp name : String) : String :=
  if threshold name ≤ debugLevel then
    debugLine stamp "bella.logging_config" ("Logging initialized at " ++ capitals name ++ " level")
  else ""

end Bella.Log
