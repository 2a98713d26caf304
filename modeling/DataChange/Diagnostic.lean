import DataChange.Fragment

/-!
# Diagnostics

A diagnostic describes a failure to the user: a stable code, a message, the fragment at fault and
advice. `render` lays it out in lines, with the line of the statement and marks under the
fragment when the statement is at hand.
-/

namespace DataChange

/-! ## Lines -/

namespace Text

/-- The finished line whose characters were gathered last first, without a carriage return at
its end. -/
def finishedLine : List Char → List Char
  | '\r' :: rest => rest.reverse
  | line => line.reverse

/-- The lines of the characters, the first of which starts with `line` reversed. -/
def linesFrom (line : List Char) : List Char → List (List Char)
  | [] => if line.isEmpty then [] else [line.reverse]
  | c :: cs => if c = '\n' then finishedLine line :: linesFrom [] cs else linesFrom (c :: line) cs

/-- The lines of a text. It is cut at every line feed, with a carriage return right before it, and
nothing follows a line feed at the very end. -/
def lines (s : String) : List String :=
  (linesFrom [] s.toList).map String.ofList

end Text

/-! ## Descriptions of failures -/

/-- The description of a failure. -/
structure Diagnostic where
  code : String
  statement : Option String
  message : String
  fragment : Fragment
  label : Option String
  help : Option String
  notes : List String
  cause : Option Diagnostic
  deriving Repr, Inhabited

namespace Diagnostic

/-- The same description with the statement at hand. -/
def withStatement (d : Diagnostic) (statement : String) : Diagnostic :=
  { d with statement := some statement }

/-- The same character `n` times. -/
def repeated (c : Char) (n : Nat) : String :=
  String.ofList (List.replicate n c)

/-- The marks under a fragment, one a character and at least one, and the label after them. -/
def underline (text : String) (column : Nat) (label : Option String) : String :=
  let marks := repeated ' ' column ++ repeated '^' (max text.length 1)
  match label with
  | some label => "   | " ++ marks ++ " " ++ label
  | none => "   | " ++ marks

/-- The lines on where the fragment stands; only a text of the statement has a place. -/
def locationLines (d : Diagnostic) : List String :=
  match d.fragment with
  | .written text line column =>
    let place := "  --> line " ++ toString line ++ ", column " ++ toString column
    match d.statement with
    | some statement =>
      match (Text.lines statement)[line - 1]? with
      | some source => [place, "   | " ++ source, underline text column d.label]
      | none => [place]
    | none =>
      match d.label with
      | some label => [place, "  near \x60" ++ text ++ "\x60: " ++ label]
      | none => [place]
  | _ => []

/-- The lines of a diagnostic without those of its cause. -/
def ownLines (d : Diagnostic) : List String :=
  ["Error " ++ d.code ++ ": " ++ d.message] ++ d.locationLines ++
    (d.help.map ("help: " ++ ·)).toList ++ d.notes.map ("note: " ++ ·)

mutual

/-- The lines of a diagnostic, those of its cause further in. -/
def linesAt (depth : Nat) : Diagnostic → List String
  | ⟨code, statement, message, fragment, label, help, notes, cause⟩ =>
    let own := ownLines ⟨code, statement, message, fragment, label, help, notes, none⟩
    own.map (repeated ' ' (2 * depth) ++ ·) ++ causeLinesAt depth cause

def causeLinesAt (depth : Nat) : Option Diagnostic → List String
  | none => []
  | some cause => (repeated ' ' (2 * depth) ++ "caused by:") :: linesAt (depth + 1) cause

end

/-- The text of a diagnostic, every line ended. -/
def render (d : Diagnostic) : String :=
  String.join ((linesAt 0 d).map (· ++ "\n"))

end Diagnostic

end DataChange
