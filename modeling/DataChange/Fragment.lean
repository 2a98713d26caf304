/-!
# Pieces of a statement

A fragment is a text with the place where it stands in a statement, counted from line 1 and
column 1, or a text that no statement holds.
-/

namespace DataChange

/-- Where a piece of text comes from. -/
inductive Fragment where
  /-- Nothing is known. -/
  | absent
  /-- A text of the statement, at a line and a column. -/
  | written (text : String) (line column : Nat)
  /-- A text that the statement leaves unsaid. -/
  | synthetic (text : String)
  deriving DecidableEq, Repr, Inhabited

namespace Fragment

def text : Fragment → String
  | absent => ""
  | written text _ _ => text
  | synthetic text => text

/-- The line, the first one for a text outside the statement. -/
def line : Fragment → Nat
  | written _ line _ => line
  | _ => 1

/-- The column, zero for a text outside the statement. -/
def column : Fragment → Nat
  | written _ _ column => column
  | _ => 0

/-- The same place with another text. -/
def withText (fragment : Fragment) (text : String) : Fragment :=
  match fragment with
  | written _ line column => written text line column
  | _ => synthetic text

/-- A name that stands for itself at the very start of a statement. -/
def ofName (name : String) : Fragment :=
  written name 1 0

@[simp] theorem text_withText (f : Fragment) (s : String) : (f.withText s).text = s := by
  cases f <;> rfl

end Fragment

end DataChange
