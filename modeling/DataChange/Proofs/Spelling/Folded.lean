import DataChange.Proofs.Statement.Held
import Mathlib

/-!
# The common spelling

`foldCase` gives a statement, and all that it consists of, in the common spelling: names, aliases,
qualifiers and the texts of fragments get small letters. Literals are left as they are, and so is
whatever comes from the catalog as a whole.
-/

namespace DataChange

/-! ## Texts -/

namespace Text

theorem foldCase_append (a b : String) : foldCase (a ++ b) = foldCase a ++ foldCase b :=
  String.toList_inj.1 (by simp [foldCase])

@[simp]
theorem foldCase_foldCase (s : String) : foldCase (foldCase s) = foldCase s :=
  String.toList_inj.1 (by simp [foldCase])

/-- Texts that differ in case only agree in capitals too. -/
theorem upperCase_congr {a b : String} (h : foldCase a = foldCase b) :
    upperCase a = upperCase b := by
  have hupper : ∀ s : String, upperCase (foldCase s) = upperCase s :=
    fun s => String.toList_inj.1 (by simp [upperCase, foldCase])
  rw [← hupper a, h, hupper b]

end Text

/-! ## Tokens and names -/

def Fragment.foldCase : Fragment → Fragment
  | absent => absent
  | written text line column => written (Text.foldCase text) line column
  | synthetic text => synthetic (Text.foldCase text)

@[simp]
theorem Fragment.foldCase_foldCase (f : Fragment) : f.foldCase.foldCase = f.foldCase := by
  cases f <;> simp [foldCase]

/-- Whether tokens of a kind are words, which may be spelled in capitals or not. -/
def TokenKind.isWord : TokenKind → Bool
  | keyword _ | identifier | quotedIdentifier => true
  | _ => false

theorem TokenKind.isSpelledBy_of_isWord {kind : TokenKind} (h : kind.isWord = true)
    (text : String) : kind.isSpelledBy text = true := by
  cases kind <;> first | rfl | cases h

/-- A word in the common spelling; other tokens stay as they are. -/
def Token.foldCase (t : Token) : Token :=
  if h : t.kind.isWord = true then
    ⟨t.kind, t.fragment.foldCase, TokenKind.isSpelledBy_of_isWord h _⟩
  else t

@[simp]
theorem Token.foldCase_foldCase (t : Token) : t.foldCase.foldCase = t.foldCase := by
  by_cases h : t.kind.isWord = true <;> simp [foldCase, h]

def Attribute.foldCase (a : Attribute) : Attribute :=
  { a with name := Text.foldCase a.name }

def ColumnRef.foldCase (ref : ColumnRef) : ColumnRef :=
  { ref with qualifier := ref.qualifier.map Text.foldCase, name := Text.foldCase ref.name }

def QualifiedName.foldCase (n : QualifiedName) : QualifiedName :=
  ⟨n.schema.map Text.foldCase, Text.foldCase n.name⟩

/-! ## Expressions, plans and ranges -/

mutual

def Expr.foldCase : Expr → Expr
  | ⟨kind, fragment, type⟩ => ⟨ExprKind.foldCase kind, fragment.foldCase, type⟩

def ExprKind.foldCase : ExprKind → ExprKind
  | .constant value => .constant value
  | .parameter marker => .parameter marker
  | .column ref => .column ref.foldCase
  | .defaultMarker => .defaultMarker
  | .row items => .row (Expr.foldCaseOfList items)
  | .values rows => .values (Expr.foldCaseOfList rows)
  | .pending shape body => .pending shape (body.map Token.foldCase)
  | .query shape plan => .query shape (Plan.foldCase plan)
  | .diagnostics item => .diagnostics item
  | .unary op operand => .unary op (Expr.foldCase operand)
  | .binary op left right => .binary op (Expr.foldCase left) (Expr.foldCase right)
  | .isNull operand negated => .isNull (Expr.foldCase operand) negated
  | .call name builtin arguments =>
    .call (Text.foldCase name) builtin (Expr.foldCaseOfList arguments)

def Expr.foldCaseOfList : List Expr → List Expr
  | [] => []
  | e :: es => Expr.foldCase e :: Expr.foldCaseOfList es

def Expr.foldCaseOfOption : Option Expr → Option Expr
  | none => none
  | some e => some (Expr.foldCase e)

def Plan.foldCase : Plan → Plan
  | .select columns projection ranges condition =>
    .select (columns.map Attribute.foldCase) (Expr.foldCaseOfList projection)
      (Range.foldCaseOfList ranges) (Expr.foldCaseOfOption condition)
  | .values columns rows => .values (columns.map Attribute.foldCase) (Expr.foldCase rows)

def Range.foldCase : Range → Range
  | ⟨id, name, source, columns, used, join, fragment⟩ =>
    ⟨id, Text.foldCase name, RangeSource.foldCase source, columns.map Attribute.foldCase, used,
      Expr.foldCaseOfOption join, fragment.foldCase⟩

def Range.foldCaseOfList : List Range → List Range
  | [] => []
  | r :: rs => Range.foldCase r :: Range.foldCaseOfList rs

def RangeSource.foldCase : RangeSource → RangeSource
  | .relation r => .relation r
  | .derived plan => .derived (Plan.foldCase plan)
  | .routineVariables => .routineVariables

end

@[simp]
theorem Expr.foldCaseOfList_eq (es : List Expr) : foldCaseOfList es = es.map foldCase := by
  induction es with
  | nil => rfl
  | cons e es ih => simp [foldCaseOfList, ih]

@[simp]
theorem Expr.foldCaseOfOption_eq (e : Option Expr) : foldCaseOfOption e = e.map foldCase := by
  cases e <;> rfl

@[simp]
theorem Range.foldCaseOfList_eq (rs : List Range) : foldCaseOfList rs = rs.map foldCase := by
  induction rs with
  | nil => rfl
  | cons r rs ih => simp [foldCaseOfList, ih]

/-! ## Statements -/

def InsertSource.foldCase : InsertSource → InsertSource
  | values rows => values rows.foldCase
  | query plan => query plan.foldCase

def Assignments.foldCase (a : Assignments) : Assignments :=
  { a with values := a.values.map Expr.foldCase }

def SortKey.foldCase (k : SortKey) : SortKey :=
  { k with key := k.key.foldCase }

def Slice.foldCase (s : Slice) : Slice :=
  ⟨s.orderBy.map SortKey.foldCase, s.limit.foldCase, s.offset.map Expr.foldCase⟩

def MergeUpdate.foldCase (u : MergeUpdate) : MergeUpdate :=
  ⟨u.guard.foldCase, u.assignments.foldCase⟩

def MergeInsert.foldCase (i : MergeInsert) : MergeInsert :=
  { i with guard := i.guard.foldCase, row := i.row.foldCase }

def CallTarget.foldCase : CallTarget → CallTarget
  | routine r arguments => routine r (arguments.map Expr.foldCase)
  | expression e => expression e.foldCase

def CallStatement.foldCase (s : CallStatement) : CallStatement :=
  { s with target := s.target.foldCase }

def InsertStatement.foldCase (s : InsertStatement) : InsertStatement :=
  { s with
    source := s.source.foldCase
    onDuplicate := s.onDuplicate.map Assignments.foldCase }

def UpdateStatement.foldCase (s : UpdateStatement) : UpdateStatement :=
  { s with
    ranges := s.ranges.map Range.foldCase
    condition := s.condition.map Expr.foldCase
    assignments := s.assignments.foldCase
    slice := s.slice.map Slice.foldCase }

def DeleteStatement.foldCase (s : DeleteStatement) : DeleteStatement :=
  { s with
    ranges := s.ranges.map Range.foldCase
    condition := s.condition.map Expr.foldCase
    slice := s.slice.map Slice.foldCase }

def MergeStatement.foldCase (s : MergeStatement) : MergeStatement :=
  { s with
    ranges := s.ranges.map Range.foldCase
    condition := s.condition.foldCase
    update := s.update.map MergeUpdate.foldCase
    delete := s.delete.map Expr.foldCase
    insert := s.insert.map MergeInsert.foldCase }

/-- A statement in the common spelling. -/
def Statement.foldCase : Statement → Statement
  | insert s => insert s.foldCase
  | update s => update s.foldCase
  | delete s => delete s.foldCase
  | merge s => merge s.foldCase
  | truncate s => truncate s
  | call s => call s.foldCase

/-- The spelling does not decide what is written. -/
@[simp]
theorem Statement.writeTables_foldCase (s : Statement) : s.foldCase.writeTables = s.writeTables := by
  cases s <;> rfl

end DataChange
