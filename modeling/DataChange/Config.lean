/-!
# Settings

What a compilation may accept beyond the standard, and where names without a namespace are sought.
-/

namespace DataChange

/-- Dialects whose extensions are accepted. -/
structure Dialect where
  /-- REPLACE INTO, INSERT IGNORE, VALUE, ON DUPLICATE KEY UPDATE and VALUES in a SET clause. -/
  mysql : Bool := false
  /-- Qualified names in the column list of INSERT, and CALL without brackets. -/
  oracle : Bool := false
  deriving DecidableEq, Repr

/-- The settings of a compilation. -/
structure Config where
  /-- The namespace of names without one. -/
  defaultSchema : String := "public"
  dialect : Dialect := {}
  /-- Refuse a CALL of anything but a stored routine. -/
  strictCalls : Bool := false
  deriving DecidableEq, Repr

/-- The settings with the extensions of MySQL. -/
def Config.mysql : Config :=
  { dialect := { mysql := true } }

/-- The settings with the extensions of Oracle. -/
def Config.oracle : Config :=
  { dialect := { oracle := true } }

end DataChange
