import DataChange.Expr.Binding
import DataChange.Proofs.Spelling.Tokens
import DataChange.Proofs.Spelling.Typed

/-!
# Binding respelled references

What a reference looks at in the ranges is their faces (`Scope.matchRange_eq_find?`), and a
reference in the common spelling finds the same column there. So spellings of an expression are
bound to the same columns, if the subqueries in them are compiled alike.
-/

namespace DataChange

variable {P : Likeness}

/-! ## Scopes -/

/-- The column of a face that a qualifier and a name in the common spelling refer to. -/
def RangeFace.find? (qualifier : Option String) (name : String) (face : RangeFace) :
    Option Binding :=
  if qualifier.all (face.name == ·) then
    (face.columns.findIdx? fun a => a.name == name).bind fun i =>
      face.columns[i]?.map fun a => ⟨face.id, i, a.type, face.isVariables⟩
  else none

theorem Range.columnIndex?_val (P : Likeness) (r : Range) (name : String) :
    (r.columnIndex? name).map (·.val) =
      (P.face r).columns.findIdx? fun a => a.name == Text.foldCase name := by
  unfold columnIndex? Likeness.face
  rw [← List.findIdx?_eq_map_findFinIdx?_val, List.findIdx?_map]
  rfl

/-- Spellings of a name are those of a column at the same ordinal. -/
theorem Range.Respelled.columnIndex? {r r' : Range} (h : r.Respelled P r') {name name' : String}
    (hname : Text.foldCase name = Text.foldCase name') :
    Option.Rel (fun i j => j.val = i.val ∧
      P.foldAttribute (r.columns.get i) = P.foldAttribute (r'.columns.get j))
      (r.columnIndex? name) (r'.columnIndex? name') := by
  have hval := r.columnIndex?_val P name
  rw [hname, h.face, ← r'.columnIndex?_val P name'] at hval
  generalize r.columnIndex? name = i at hval ⊢
  generalize r'.columnIndex? name' = j at hval ⊢
  rcases i with _ | ⟨i, hi⟩ <;> rcases j with _ | ⟨j, hj⟩ <;>
    simp only [Option.map_none, Option.map_some, reduceCtorEq, Option.some.injEq] at hval
  · exact .none
  · subst hval
    exact .some ⟨rfl, h.column hi hj⟩

theorem Scope.matchRange_eq_find? (P : Likeness) (qualifier : Option String) (name : String)
    (r : Range) :
    (matchRange qualifier name r).map P.foldBinding =
      (P.face r).find? (qualifier.map Text.foldCase) (Text.foldCase name) := by
  have hnamed : (qualifier.map Text.foldCase).all ((P.face r).name == ·) =
      qualifier.all r.isNamed := by
    cases qualifier <;> rfl
  unfold matchRange RangeFace.find?
  rw [hnamed, ← Range.columnIndex?_val]
  split
  · cases r.columnIndex? name with
    | none => rfl
    | some column => simp [Likeness.face, Likeness.foldBinding, Attribute.foldCase]
  · rfl

/-- Two spellings of the ranges that an expression can refer to. -/
structure Scope.Respelled (P : Likeness) (scope scope' : Scope) : Prop where
  ranges : List.Forall₂ (Range.Respelled P) scope.ranges scope'.ranges
  outer : P.faces scope.outer = P.faces scope'.outer

theorem RangeGroup.clash?_respelled {earlier earlier' rs rs' : List Range}
    (hearlier : List.Forall₂ (Range.Respelled P) earlier earlier')
    (h : List.Forall₂ (Range.Respelled P) rs rs') :
    Option.Rel (Range.Respelled P) (clash? earlier rs) (clash? earlier' rs') := by
  induction h generalizing earlier earlier' with
  | nil => exact .none
  | @cons r r' _ _ hr _ ih =>
    have hany : earlier'.any (·.isNamed r'.name) = earlier.any (·.isNamed r.name) := by
      clear ih
      induction hearlier with
      | nil => rfl
      | cons he _ ih => rw [List.any_cons, List.any_cons, ih, he.isNamed (P.foldCase_eq hr.name)]
    simp only [clash?, hany]
    split
    · exact .some hr
    · exact ih (List.rel_append hearlier (.cons hr .nil))

theorem RangeGroup.ofRanges_concur {rs rs' : List Range}
    (h : List.Forall₂ (Range.Respelled P) rs rs') :
    Concur P (List.Forall₂ (Range.Respelled P)) (ofRanges rs) (ofRanges rs') := by
  unfold ofRanges
  exact (clash?_respelled .nil h).elim (.ok h) fun _ _ hr => .error hr.fragment

namespace Scope

variable {scope scope' : Scope} {ref ref' : ColumnRef} {f f' : Fragment}

/-- Columns at the same ordinal of ranges that count as the same, or none in either. -/
abbrev BoundTo (P : Likeness) (b b' : Option Binding) : Prop :=
  Option.Rel (fun b b' => P.foldBinding b = P.foldBinding b') b b'

theorem lookupIn_concur {group group' : List Range}
    (hgroup : group.map P.face = group'.map P.face) (href : ref.foldCase = ref'.foldCase)
    (hf : f.Respelled P f') :
    Concur P (BoundTo P) (lookupIn group ref f) (lookupIn group' ref' f') := by
  have hfound : ∀ (group : List Range) (ref : ColumnRef),
      (group.filterMap (matchRange ref.qualifier ref.name)).map P.foldBinding =
        (group.map P.face).filterMap
          (RangeFace.find? ref.foldCase.qualifier ref.foldCase.name) := by
    intro group ref
    rw [List.map_filterMap, List.filterMap_map]
    exact List.filterMap_congr fun r _ => matchRange_eq_find? P _ _ r
  have hmatches := hfound group ref
  rw [hgroup, href, ← hfound group' ref'] at hmatches
  unfold lookupIn
  generalize group.filterMap (matchRange ref.qualifier ref.name) = found at hmatches ⊢
  generalize group'.filterMap (matchRange ref'.qualifier ref'.name) = found' at hmatches ⊢
  rw [← List.forall₂_eq_eq_eq, List.forall₂_map_left_iff, List.forall₂_map_right_iff] at hmatches
  cases hmatches with
  | nil => exact .ok .none
  | cons hbinding hmore =>
    cases hmore with
    | nil => exact .ok (.some hbinding)
    | cons => exact .error hf

theorem lookupFirst_concur {groups groups' : List RangeGroup}
    (hgroups : P.faces groups = P.faces groups') (href : ref.foldCase = ref'.foldCase)
    (hf : f.Respelled P f') :
    Concur P (BoundTo P) (lookupFirst ref f groups) (lookupFirst ref' f' groups') := by
  induction groups generalizing groups' with
  | nil =>
    obtain rfl : groups' = [] := by simpa [Likeness.faces] using hgroups.symm
    exact .ok .none
  | cons group groups ih =>
    cases groups' with
    | nil => cases hgroups
    | cons group' groups' =>
      obtain ⟨hgroup, hgroups⟩ := List.cons.inj hgroups
      unfold lookupFirst
      refine (lookupIn_concur hgroup href hf).elim (fun found found' hfound => ?_)
        fun _ _ he => .error he
      exact hfound.elim (ih hgroups) fun _ _ hbinding => .ok (.some hbinding)

theorem Respelled.groups (h : scope.Respelled P scope') :
    P.faces scope.groups = P.faces scope'.groups := by
  have houter : P.faces scope.outer.reverse = P.faces scope'.outer.reverse := by
    simpa [Likeness.faces, List.map_reverse] using h.outer
  exact congrArg₂ List.cons (faces_eq h.ranges) houter

theorem lookup_concur (h : scope.Respelled P scope') (href : ref.foldCase = ref'.foldCase)
    (hf : f.Respelled P f') : Concur P (BoundTo P) (scope.lookup ref f) (scope'.lookup ref' f') :=
  lookupFirst_concur h.groups href hf

theorem within_concur (h : scope.Respelled P scope') :
    Concur P (fun o o' => P.faces o = P.faces o') scope.within scope'.within := by
  unfold within
  rw [h.ranges.isEmpty_eq]
  split
  · exact .ok h.outer
  · refine (RangeGroup.ofRanges_concur h.ranges).map fun group group' hgroup => ?_
    have houter := h.outer
    simp only [Likeness.faces, List.map_append, List.map_cons, List.map_nil] at houter ⊢
    rw [houter, faces_eq hgroup]

theorem Respelled.outerOnly {outer outer' : List RangeGroup} (h : P.faces outer = P.faces outer') :
    (outerOnly outer).Respelled P (outerOnly outer') :=
  ⟨.nil, h⟩

end Scope

/-! ## Expressions -/

/-- Subqueries that are compiled alike from spellings of the same tokens. -/
def QueriesTrack (P : Likeness) (compile : QueryCompiler) : Prop :=
  ∀ {body body' : List Token} {outer outer' : List RangeGroup},
    List.Forall₂ (Token.Respelled P) body body' → P.faces outer = P.faces outer' →
      Tracks (.states P) (Plan.Respelled P) (compile body outer) (compile body' outer')

/-- Two results of binding, with references at spellings of the same fragments left free. -/
def BoundAlike {α β : Type} (P : Likeness) (R : α → β → Prop) (r : α × List FreeColumn)
    (r' : β × List FreeColumn) : Prop :=
  R r.1 r'.1 ∧ List.Forall₂ (fun a b => a.fragment.Respelled P b.fragment) r.2 r'.2

namespace Expr

variable {compile : QueryCompiler} {scope scope' : Scope} {f f' : Fragment}

theorem findBuiltin_concur {name name' : String} (hname : Text.foldCase name = Text.foldCase name')
    (builtin : Option Builtin) (hf : f.Respelled P f') :
    Concur P (· = ·) (findBuiltin name builtin f) (findBuiltin name' builtin f') := by
  have hfound : Builtin.ofName? name' = Builtin.ofName? name := by
    rw [Builtin.ofName?, Builtin.ofName?, Text.upperCase_congr hname]
  unfold findBuiltin
  rw [hfound]
  split
  · exact .ok rfl
  · split
    · exact .ok rfl
    · exact .error hf

theorem compilePending_tracks (hcompile : QueriesTrack P compile) (hscope : scope.Respelled P scope')
    (shape : QueryShape) {body body' : List Token} (hbody : List.Forall₂ (Token.Respelled P) body body')
    (hf : f.Respelled P f') :
    Tracks (.states P) (Plan.Respelled P) (compilePending compile scope shape body f)
      (compilePending compile scope' shape body' f') :=
  (Tracks.except (Scope.within_concur hscope)).bind fun _ _ houter =>
    (hcompile hbody houter).bind fun _ _ hplan =>
      .ite (by rw [hplan.length]) (.pure hplan) (.reject hf)

theorem bindColumn_concur (hscope : scope.Respelled P scope') {ref ref' : ColumnRef}
    (href : P.foldRef ref = P.foldRef ref') (hf : f.Respelled P f') :
    Concur P (BoundAlike P fun a b => P.foldRef a = P.foldRef b)
      (bindColumn scope ref f) (bindColumn scope' ref' f') := by
  have hrel := Likeness.binding_rel href
  unfold bindColumn
  generalize hb : ref.binding = b at hrel
  generalize hb' : ref'.binding = b' at hrel
  cases hrel with
  | some => exact .ok ⟨href, .nil⟩
  | none =>
    refine (Scope.lookup_concur hscope (Likeness.foldCase_ref href (hb'.trans hb.symm)) hf).elim
      (fun found found' hfound => ?_) fun _ _ he => .error he
    refine hfound.elim (.ok ⟨href, .cons hf .nil⟩) fun binding binding' hbinding => .ok ⟨?_, .nil⟩
    simp only [Likeness.foldRef, ColumnRef.mk.injEq, Option.map_some] at href ⊢
    exact ⟨href.1, href.2.1, congrArg some hbinding⟩

mutual

theorem bindIn_tracks (hcompile : QueriesTrack P compile) (hscope : scope.Respelled P scope')
    {e e' : Expr} (h : e.Respelled P e') :
    Tracks (.states P) (BoundAlike P (Expr.Respelled P)) (bindIn compile scope e)
      (bindIn compile scope' e') := by
  cases h with
  | intro hkind hf =>
    cases hkind with
    | constant | defaultMarker | diagnostics =>
      rw [bindIn, bindIn]
      exact .pure ⟨.intro (by constructor) hf, .nil⟩
    | parameter h =>
      rw [bindIn, bindIn]
      exact .pure ⟨.intro (.parameter h) hf, .nil⟩
    | query shape h =>
      rw [bindIn, bindIn]
      exact .pure ⟨.intro (.query shape h) hf, .nil⟩
    | column href =>
      rw [bindIn, bindIn]
      exact (Tracks.except (bindColumn_concur hscope href hf)).bind fun (_, _) (_, _) hbound =>
        .pure ⟨.intro (.column hbound.1) hf, hbound.2⟩
    | pending shape h =>
      rw [bindIn, bindIn]
      exact (compilePending_tracks hcompile hscope shape h hf).bind fun _ _ hplan =>
        .pure ⟨.intro (.query shape hplan) hf, .nil⟩
    | row h =>
      rw [bindIn, bindIn]
      exact (bindListIn_tracks hcompile hscope h).bind fun (_, _) (_, _) hbound =>
        .pure ⟨.intro (.row hbound.1) hf, hbound.2⟩
    | values h =>
      rw [bindIn, bindIn]
      exact (bindListIn_tracks hcompile hscope h).bind fun (_, _) (_, _) hbound =>
        .pure ⟨.intro (.values hbound.1) hf, hbound.2⟩
    | unary op h =>
      rw [bindIn, bindIn]
      exact (bindIn_tracks hcompile hscope h).bind fun (_, _) (_, _) hbound =>
        .pure ⟨.intro (.unary op hbound.1) hf, hbound.2⟩
    | binary op hl hr =>
      rw [bindIn, bindIn]
      exact (bindIn_tracks hcompile hscope hl).bind fun (_, _) (_, _) hleft =>
        (bindIn_tracks hcompile hscope hr).bind fun (_, _) (_, _) hright =>
          .pure ⟨.intro (.binary op hleft.1 hright.1) hf, List.rel_append hleft.2 hright.2⟩
    | isNull h negated =>
      rw [bindIn, bindIn]
      exact (bindIn_tracks hcompile hscope h).bind fun (_, _) (_, _) hbound =>
        .pure ⟨.intro (.isNull hbound.1 negated) hf, hbound.2⟩
    | call hname builtin h =>
      rw [bindIn, bindIn]
      exact (Tracks.except (findBuiltin_concur (P.foldCase_eq hname) builtin hf)).bindSame fun found =>
        (bindListIn_tracks hcompile hscope h).bind fun (_, _) (_, _) hbound =>
          .pure ⟨.intro (.call hname (some found) hbound.1) hf, hbound.2⟩
termination_by sizeOf e

theorem bindListIn_tracks (hcompile : QueriesTrack P compile) (hscope : scope.Respelled P scope')
    {es es' : List Expr} (h : List.Forall₂ (Expr.Respelled P) es es') :
    Tracks (.states P) (BoundAlike P (List.Forall₂ (Expr.Respelled P))) (bindListIn compile scope es)
      (bindListIn compile scope' es') := by
  cases h with
  | nil => exact .pure ⟨.nil, .nil⟩
  | cons h hs =>
    rw [bindListIn, bindListIn]
    exact (bindIn_tracks hcompile hscope h).bind fun (_, _) (_, _) hhead =>
      (bindListIn_tracks hcompile hscope hs).bind fun (_, _) (_, _) htail =>
        .pure ⟨.cons hhead.1 htail.1, List.rel_append hhead.2 htail.2⟩
termination_by sizeOf es

end

variable {e e' : Expr}

theorem checkBound_concur {free free' : List FreeColumn}
    (h : List.Forall₂ (fun a b => a.fragment.Respelled P b.fragment) free free') :
    Concur P (fun _ _ => True) (checkBound free) (checkBound free') := by
  cases h with
  | nil => exact .ok trivial
  | cons hf _ => exact .error hf

theorem bindWith_tracks (hcompile : QueriesTrack P compile) (hscope : scope.Respelled P scope')
    (h : e.Respelled P e') :
    Tracks (.states P) (Expr.Respelled P) (bindWith compile scope e) (bindWith compile scope' e') :=
  (bindIn_tracks hcompile hscope h).bind fun (_, _) (_, _) hbound =>
    (Tracks.except (checkBound_concur hbound.2)).bind fun _ _ _ => .pure hbound.1

theorem resolveWith_tracks (hcompile : QueriesTrack P compile) (hscope : scope.Respelled P scope')
    (h : e.Respelled P e') :
    Tracks (.states P) (Expr.Respelled P) (resolveWith compile scope e)
      (resolveWith compile scope' e') :=
  (bindWith_tracks hcompile hscope h).bind fun _ _ hbound => .except (infer_concur hbound)

theorem resolveConditionWith_tracks (hcompile : QueriesTrack P compile)
    (hscope : scope.Respelled P scope') (h : e.Respelled P e') :
    Tracks (.states P) (Expr.Respelled P) (resolveConditionWith compile scope e)
      (resolveConditionWith compile scope' e') :=
  (bindWith_tracks hcompile hscope h).bind fun _ _ hbound => .except (inferCondition_concur hbound)

end Expr

end DataChange
