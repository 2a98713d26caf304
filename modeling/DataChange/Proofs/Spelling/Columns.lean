import DataChange.Expr.Columns
import DataChange.Proofs.Spelling.Respelled

/-!
# Changing respelled columns

A change that takes spellings of one reference to spellings of one reference does so with
expressions too.
-/

namespace DataChange

/-- Two spellings of a reference, with the type of its node. -/
def ColumnRef.SameTyped (P : Likeness) (r r' : ColumnRef × Option SqlType) : Prop :=
  P.foldRef r.1 = P.foldRef r'.1 ∧ r'.2 = r.2

/-- Two changes that take spellings of one reference to spellings of one reference. -/
def ColumnChange.Agree (P : Likeness) (change change' : ColumnChange) : Prop :=
  ∀ (ref ref' : ColumnRef) (type : Option SqlType), P.foldRef ref = P.foldRef ref' →
    Option.Rel (ColumnRef.SameTyped P) (change ref type) (change' ref' type)

section

variable {P : Likeness} {change change' : ColumnChange}

mutual

theorem Expr.mapColumns_respelled (hchange : change.Agree P change') {e e' : Expr}
    (h : e.Respelled P e') :
    Option.Rel (Expr.Respelled P) (e.mapColumns change) (e'.mapColumns change') := by
  cases h with
  | intro hkind hf =>
    cases hkind with
    | constant | defaultMarker | diagnostics => exact .some (.intro (by constructor) hf)
    | parameter h => exact .some (.intro (.parameter h) hf)
    | pending shape h => exact .some (.intro (.pending shape h) hf)
    | column href =>
      rw [Expr.mapColumns, Expr.mapColumns]
      refine (hchange _ _ _ href).map ?_
      rintro ⟨ref, type⟩ ⟨ref', _⟩ ⟨href, rfl⟩
      exact .intro (.column href) hf
    | row h =>
      rw [Expr.mapColumns, Expr.mapColumns]
      exact (Expr.mapColumnsOfList_respelled hchange h).map fun _ _ h => .intro (.row h) hf
    | values h =>
      rw [Expr.mapColumns, Expr.mapColumns]
      exact (Expr.mapColumnsOfList_respelled hchange h).map fun _ _ h => .intro (.values h) hf
    | query shape h =>
      rw [Expr.mapColumns, Expr.mapColumns]
      exact (Plan.mapColumns_respelled hchange h).map fun _ _ h => .intro (.query shape h) hf
    | unary op h =>
      rw [Expr.mapColumns, Expr.mapColumns]
      exact (Expr.mapColumns_respelled hchange h).map fun _ _ h => .intro (.unary op h) hf
    | binary op hl hr =>
      rw [Expr.mapColumns, Expr.mapColumns]
      refine (Expr.mapColumns_respelled hchange hl).elim .none fun _ _ hl => ?_
      refine (Expr.mapColumns_respelled hchange hr).elim .none fun _ _ hr => ?_
      exact .some (.intro (.binary op hl hr) hf)
    | isNull h negated =>
      rw [Expr.mapColumns, Expr.mapColumns]
      exact (Expr.mapColumns_respelled hchange h).map fun _ _ h => .intro (.isNull h negated) hf
    | call hname builtin h =>
      rw [Expr.mapColumns, Expr.mapColumns]
      exact (Expr.mapColumnsOfList_respelled hchange h).map fun _ _ h =>
        .intro (.call hname builtin h) hf
termination_by sizeOf e

theorem Expr.mapColumnsOfList_respelled (hchange : change.Agree P change') {es es' : List Expr}
    (h : List.Forall₂ (Expr.Respelled P) es es') :
    Option.Rel (List.Forall₂ (Expr.Respelled P)) (Expr.mapColumnsOfList change es)
      (Expr.mapColumnsOfList change' es') := by
  cases h with
  | nil => exact .some .nil
  | cons h hs =>
    rw [Expr.mapColumnsOfList, Expr.mapColumnsOfList]
    refine (Expr.mapColumns_respelled hchange h).elim .none fun _ _ h => ?_
    refine (Expr.mapColumnsOfList_respelled hchange hs).elim .none fun _ _ hs => ?_
    exact .some (.cons h hs)
termination_by sizeOf es

theorem Expr.mapColumnsOfOption_respelled (hchange : change.Agree P change') {e e' : Option Expr}
    (h : Option.Rel (Expr.Respelled P) e e') :
    Option.Rel (Option.Rel (Expr.Respelled P)) (Expr.mapColumnsOfOption change e)
      (Expr.mapColumnsOfOption change' e') := by
  cases h with
  | none => exact .some .none
  | some h =>
    rw [Expr.mapColumnsOfOption, Expr.mapColumnsOfOption]
    exact (Expr.mapColumns_respelled hchange h).map fun _ _ h => .some h
termination_by sizeOf e

theorem Plan.mapColumns_respelled (hchange : change.Agree P change') {p p' : Plan}
    (h : p.Respelled P p') :
    Option.Rel (Plan.Respelled P) (p.mapColumns change) (p'.mapColumns change') := by
  cases h with
  | select hcolumns hprojection hranges hcondition =>
    rw [Plan.mapColumns, Plan.mapColumns]
    refine (Expr.mapColumnsOfList_respelled hchange hprojection).elim .none fun _ _ hprojection => ?_
    refine (Range.mapColumnsOfList_respelled hchange hranges).elim .none fun _ _ hranges => ?_
    refine (Expr.mapColumnsOfOption_respelled hchange hcondition).elim .none fun _ _ hcondition => ?_
    exact .some (.select hcolumns hprojection hranges hcondition)
  | values hcolumns hrows =>
    rw [Plan.mapColumns, Plan.mapColumns]
    exact (Expr.mapColumns_respelled hchange hrows).map fun _ _ h => .values hcolumns h
termination_by sizeOf p

theorem Range.mapColumns_respelled (hchange : change.Agree P change') {r r' : Range}
    (h : r.Respelled P r') :
    Option.Rel (Range.Respelled P) (r.mapColumns change) (r'.mapColumns change') := by
  cases h with
  | intro hid hname hsource hcolumns hjoin hf =>
    rw [Range.mapColumns, Range.mapColumns]
    exact (Expr.mapColumnsOfOption_respelled hchange hjoin).map fun _ _ h =>
      .intro hid hname hsource hcolumns h hf
termination_by sizeOf r

theorem Range.mapColumnsOfList_respelled (hchange : change.Agree P change') {rs rs' : List Range}
    (h : List.Forall₂ (Range.Respelled P) rs rs') :
    Option.Rel (List.Forall₂ (Range.Respelled P)) (Range.mapColumnsOfList change rs)
      (Range.mapColumnsOfList change' rs') := by
  cases h with
  | nil => exact .some .nil
  | cons h hs =>
    rw [Range.mapColumnsOfList, Range.mapColumnsOfList]
    refine (Range.mapColumns_respelled hchange h).elim .none fun _ _ h => ?_
    refine (Range.mapColumnsOfList_respelled hchange hs).elim .none fun _ _ hs => ?_
    exact .some (.cons h hs)
termination_by sizeOf rs

end

end

/-! ## The two changes -/

variable {P : Likeness}

theorem ColumnRef.redirect_agree [P.Numbered] (source : Nat) {target target' : Range}
    (h : target.Respelled P target') (columnMap : List Nat) :
    (ColumnRef.redirect source target columnMap).Agree P
      (ColumnRef.redirect source target' columnMap) := by
  intro ref ref' type href
  have hkept : Option.Rel (SameTyped P) (some (ref, type)) (some (ref', type)) := .some ⟨href, rfl⟩
  have hbinding := Likeness.binding_eq href
  unfold redirect
  rw [hbinding]
  split
  · exact hkept
  · split
    · split
      · exact hkept
      · next ordinal _ =>
        refine ((forall₂_columns h.columns).getElem? ordinal).elim .none fun a b hab => .some ⟨?_, ?_⟩
        · have hqualifier := congrArg ColumnRef.qualifier href
          obtain ⟨hname, htype⟩ := Attribute.mk.inj hab
          simp only [Likeness.foldRef] at hqualifier ⊢
          rw [h.id, hname, htype]
          cases hq : ref.qualifier <;> cases hq' : ref'.qualifier <;>
            simp_all [h.name]
        · exact congrArg some (Attribute.mk.inj hab).2.symm
    · exact hkept

theorem ColumnRef.qualifyFree_agree (qualifier : String) :
    (ColumnRef.qualifyFree qualifier).Agree P (ColumnRef.qualifyFree qualifier) := by
  intro ref ref' type href
  have hbinding : ref'.binding.isNone = ref.binding.isNone := by
    simpa [Likeness.foldRef] using congrArg (fun r => r.binding.isNone) href.symm
  have hqualifier : ref'.qualifier.isNone = ref.qualifier.isNone := by
    simpa [Likeness.foldRef] using congrArg (fun r => r.qualifier.isNone) href.symm
  unfold qualifyFree
  rw [hbinding, hqualifier]
  split
  · refine .some ⟨?_, rfl⟩
    simp only [Likeness.foldRef, mk.injEq] at href ⊢
    exact ⟨trivial, href.2.1, href.2.2⟩
  · exact .some ⟨href, rfl⟩

theorem Expr.redirect_respelled [P.Numbered] (source : Nat) {target target' : Range}
    (h : target.Respelled P target') (columnMap : List Nat) {e e' : Expr} (he : e.Respelled P e') :
    Option.Rel (Expr.Respelled P) (e.redirect source target columnMap)
      (e'.redirect source target' columnMap) :=
  mapColumns_respelled (ColumnRef.redirect_agree source h columnMap) he

theorem Expr.qualifyFree_respelled (qualifier : String) {e e' : Expr} (h : e.Respelled P e') :
    (e.qualifyFree qualifier).Respelled P (e'.qualifyFree qualifier) := by
  unfold qualifyFree
  exact (mapColumns_respelled (ColumnRef.qualifyFree_agree qualifier) h).elim h fun _ _ h => h

end DataChange
