import DataChange.Scope
import Mathlib.Data.List.Forall2

/-!
# Looking a reference up

A range answers a reference if it has the qualifier for a name, where there is one, and a column of
that name. The innermost group with such a range decides, and `Scope.candidates` are its ranges that
answer: without one the reference stays free, with one it is bound to the first column of the name
there, with more it is ambiguous (`Scope.lookup_found`).
-/

namespace DataChange

/-- Whether a reference can mean a column of a range. -/
def Range.answers (r : Range) (ref : ColumnRef) : Bool :=
  ref.qualifier.all r.isNamed && r.columns.any fun c => Text.sameName c.name ref.name

/-- An ordinal is that of the first column of a range with a name. -/
structure Range.FirstNamed (r : Range) (name : String) (ordinal : Nat) : Prop where
  column : ∃ c, r.columns[ordinal]? = some c ∧ Text.sameName c.name name = true
  first : ∀ i < ordinal, ∀ c, r.columns[i]? = some c → Text.sameName c.name name = false

theorem Range.firstNamed_of_columnIndex? {r : Range} {name : String} {i : Fin r.columns.length}
    (h : r.columnIndex? name = some i) : r.FirstNamed name i := by
  obtain ⟨hname, hfirst⟩ := List.findFinIdx?_eq_some_iff.1 h
  refine ⟨⟨r.columns[i], List.getElem?_eq_getElem i.isLt, hname⟩, fun j hj c hc => ?_⟩
  obtain ⟨hlt, rfl⟩ := List.getElem?_eq_some_iff.1 hc
  simpa using hfirst ⟨j, hlt⟩ hj

/-- A binding leads to the first column of a range that has the name of a reference. -/
structure Range.Gives (r : Range) (ref : ColumnRef) (b : Binding) : Prop where
  range : b.range = r.id
  column : r.FirstNamed ref.name b.column
  type : r.columns[b.column]?.map (·.type) = some b.type
  isVariable : b.isVariable = r.isVariables

/-- The ranges of a group that answer a reference. -/
def RangeGroup.answering (group : RangeGroup) (ref : ColumnRef) : List Range :=
  group.filter fun r => r.answers ref

namespace Scope

/-- The ranges that answer a reference in the first of some groups that has any. -/
def candidatesIn (groups : List RangeGroup) (ref : ColumnRef) : List Range :=
  ((groups.map (·.answering ref)).find? (!·.isEmpty)).getD []

/-- The ranges that answer a reference in the innermost group that has any. -/
def candidates (scope : Scope) (ref : ColumnRef) : List Range :=
  candidatesIn scope.groups ref

variable {qualifier : Option String} {name : String} {r : Range} {b : Binding} {ref : ColumnRef}

theorem isSome_matchRange (qualifier : Option String) (name : String) (r : Range) :
    (matchRange qualifier name r).isSome =
      (qualifier.all r.isNamed && r.columns.any fun c => Text.sameName c.name name) := by
  rw [← List.isSome_findFinIdx?]
  unfold matchRange Range.columnIndex?
  split
  · next h =>
    rw [h, Bool.true_and]
    split
    · next hfound => simp [hfound]
    · next hfound => simp [hfound]
  · next h => simp [h]

theorem gives_of_matchRange (h : matchRange ref.qualifier ref.name r = some b) : r.Gives ref b := by
  unfold matchRange at h
  split at h
  · split at h
    · next column hfound =>
      obtain rfl := Option.some.inj h
      refine ⟨rfl, Range.firstNamed_of_columnIndex? hfound, ?_, rfl⟩
      show (r.columns[column.val]?).map (·.type) = some r.columns[column].type
      rw [List.getElem?_eq_getElem column.isLt]
      rfl
    · cases h
  · cases h

theorem range_matchRange (h : matchRange qualifier name r = some b) : b.range = r.id := by
  have hgives : r.Gives ⟨qualifier, name, none⟩ b := gives_of_matchRange h
  exact hgives.range

/-- The matches of a group are those of its ranges that answer. -/
theorem filterMap_matchRange (group : RangeGroup) (ref : ColumnRef) :
    List.Forall₂ (fun r b => r.Gives ref b) (group.answering ref)
      (group.filterMap (matchRange ref.qualifier ref.name)) := by
  induction group with
  | nil => exact .nil
  | cons r group ih =>
    have hanswers : (matchRange ref.qualifier ref.name r).isSome = r.answers ref :=
      isSome_matchRange ..
    cases hmatch : matchRange ref.qualifier ref.name r with
    | none =>
      rw [hmatch, Option.isSome_none] at hanswers
      rw [RangeGroup.answering, List.filter_cons, ← hanswers, List.filterMap_cons_none hmatch]
      exact ih
    | some b =>
      rw [hmatch, Option.isSome_some] at hanswers
      rw [RangeGroup.answering, List.filter_cons, ← hanswers, List.filterMap_cons_some hmatch]
      exact .cons (gives_of_matchRange hmatch) ih

/-- What looking a reference up comes to, by the ranges that answer it. -/
inductive Found (ref : ColumnRef) (fragment : Fragment) :
    List Range → Except Error (Option Binding) → Prop
  | nowhere : Found ref fragment [] (.ok none)
  | once {r : Range} {b : Binding} (h : r.Gives ref b) : Found ref fragment [r] (.ok (some b))
  | again (r r' : Range) (rs : List Range) :
      Found ref fragment (r :: r' :: rs) (.error ⟨.ambiguousReference ref.name, fragment⟩)

theorem lookupIn_found (group : RangeGroup) (ref : ColumnRef) (fragment : Fragment) :
    Found ref fragment (group.answering ref) (lookupIn group ref fragment) := by
  unfold lookupIn
  have h := filterMap_matchRange group ref
  generalize group.filterMap (matchRange ref.qualifier ref.name) = bindings at h
  generalize group.answering ref = answering at h
  cases h with
  | nil => exact .nowhere
  | cons hgives hrest =>
    cases hrest with
    | nil => exact .once hgives
    | cons _ _ => exact .again ..

/-- Groups are searched until one has a range that answers. -/
theorem lookupFirst_found (groups : List RangeGroup) (ref : ColumnRef) (fragment : Fragment) :
    Found ref fragment (candidatesIn groups ref) (lookupFirst ref fragment groups) := by
  induction groups with
  | nil => exact .nowhere
  | cons group groups ih =>
    have hfound := lookupIn_found group ref fragment
    unfold lookupFirst
    rw [candidatesIn, List.map_cons, List.find?_cons]
    generalize group.answering ref = answering at hfound
    generalize lookupIn group ref fragment = result at hfound
    cases hfound with
    | nowhere => exact ih
    | once hgives => exact .once hgives
    | again r r' rs => exact .again r r' rs

/-- The innermost group that has the column decides: a single range that answers gives it. -/
theorem lookup_found (scope : Scope) (ref : ColumnRef) (fragment : Fragment) :
    Found ref fragment (scope.candidates ref) (scope.lookup ref fragment) :=
  lookupFirst_found scope.groups ref fragment

end Scope

end DataChange
