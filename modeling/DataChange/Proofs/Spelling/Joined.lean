import DataChange.JoinCondition
import DataChange.Proofs.Spelling.Views
import DataChange.Statement.Update

/-!
# Respelled ranges of a statement

Which columns of a range are read, and on which range a conjunct is placed, follows from the
bindings of the nodes, whatever the spelling.
-/

namespace DataChange

variable {P : Likeness}

/-! ## Nodes -/

section

mutual

theorem Expr.Respelled.nodes {e e' : Expr} (h : e.Respelled P e') :
    List.Forall₂ (Expr.Respelled P) e.nodes e'.nodes := by
  cases h with
  | intro hkind hf =>
    rw [Expr.nodes, Expr.nodes]
    exact List.rel_append (ExprKind.Respelled.nodes hkind) (.cons (.intro hkind hf) .nil)
termination_by sizeOf e

theorem ExprKind.Respelled.nodes {k k' : ExprKind} (h : k.Respelled P k') :
    List.Forall₂ (Expr.Respelled P) k.nodes k'.nodes := by
  cases h with
  | constant | parameter | column | defaultMarker | pending | diagnostics => exact .nil
  | row h | values h | call _ _ h => exact Expr.Respelled.nodesOfList h
  | query _ h => exact Plan.Respelled.nodes h
  | unary _ h | isNull h _ => exact Expr.Respelled.nodes h
  | binary _ hl hr =>
    rw [ExprKind.nodes, ExprKind.nodes]
    exact List.rel_append (Expr.Respelled.nodes hl) (Expr.Respelled.nodes hr)
termination_by sizeOf k

theorem Expr.Respelled.nodesOfList {es es' : List Expr}
    (h : List.Forall₂ (Expr.Respelled P) es es') :
    List.Forall₂ (Expr.Respelled P) (Expr.nodesOfList es) (Expr.nodesOfList es') := by
  cases h with
  | nil => exact .nil
  | cons h hs =>
    rw [Expr.nodesOfList, Expr.nodesOfList]
    exact List.rel_append (Expr.Respelled.nodes h) (Expr.Respelled.nodesOfList hs)
termination_by sizeOf es

theorem Expr.Respelled.nodesOfOption {e e' : Option Expr}
    (h : Option.Rel (Expr.Respelled P) e e') :
    List.Forall₂ (Expr.Respelled P) (Expr.nodesOfOption e) (Expr.nodesOfOption e') := by
  cases h with
  | none => exact .nil
  | some h => exact Expr.Respelled.nodes h
termination_by sizeOf e

theorem Plan.Respelled.nodes {p p' : Plan} (h : p.Respelled P p') :
    List.Forall₂ (Expr.Respelled P) p.nodes p'.nodes := by
  cases h with
  | select _ hprojection hranges hcondition =>
    rw [Plan.nodes, Plan.nodes]
    exact List.rel_append (List.rel_append (Expr.Respelled.nodesOfList hprojection)
      (Range.Respelled.nodesOfList hranges)) (Expr.Respelled.nodesOfOption hcondition)
  | values _ hrows => exact Expr.Respelled.nodes hrows
termination_by sizeOf p

theorem Range.Respelled.nodes {r r' : Range} (h : r.Respelled P r') :
    List.Forall₂ (Expr.Respelled P) r.nodes r'.nodes := by
  cases h with
  | intro _ _ _ _ hjoin => exact Expr.Respelled.nodesOfOption hjoin
termination_by sizeOf r

theorem Range.Respelled.nodesOfList {rs rs' : List Range}
    (h : List.Forall₂ (Range.Respelled P) rs rs') :
    List.Forall₂ (Expr.Respelled P) (Range.nodesOfList rs) (Range.nodesOfList rs') := by
  cases h with
  | nil => exact .nil
  | cons h hs =>
    rw [Range.nodesOfList, Range.nodesOfList]
    exact List.rel_append (Range.Respelled.nodes h) (Range.Respelled.nodesOfList hs)
termination_by sizeOf rs

end

end

namespace Expr.Respelled

variable {e e' : Expr}

theorem binding? [P.Numbered] (h : e.Respelled P e') : e'.binding? = e.binding? := by
  obtain ⟨hkind, -⟩ := h
  cases hkind with
  | column href => exact Likeness.binding_eq href
  | _ => rfl

/-- What is asked of the bindings of all nodes has the same answer. -/
theorem anyBinding [P.Numbered] (h : e.Respelled P e') (p : Binding → Bool) :
    (e'.nodes.any fun n => n.binding?.any p) = e.nodes.any fun n => n.binding?.any p := by
  have hnodes := h.nodes
  generalize e.nodes = ns at hnodes
  generalize e'.nodes = ns' at hnodes
  induction hnodes with
  | nil => rfl
  | cons h _ ih => rw [List.any_cons, List.any_cons, ih, h.binding?]

theorem refersTo [P.Numbered] (h : e.Respelled P e') (range : Nat) : e'.refersTo range = e.refersTo range :=
  h.anyBinding _

theorem conjuncts {e e' : Expr} (h : e.Respelled P e') :
    List.Forall₂ (Expr.Respelled P) e.conjuncts e'.conjuncts := by
  have hkept := h
  cases h with
  | intro hkind hf =>
    cases hkind with
    | binary op hl hr =>
      cases op with
      | and => exact List.rel_append hl.conjuncts hr.conjuncts
      | _ => exact .cons hkept .nil
    | _ => exact .cons hkept .nil
termination_by sizeOf e

end Expr.Respelled

theorem Expr.conjoin_respelled {conditions conditions' : List Expr}
    (h : List.Forall₂ (Expr.Respelled P) conditions conditions') :
    Option.Rel (Expr.Respelled P) (conjoin conditions) (conjoin conditions') :=
  List.rel_foldl (P := Option.Rel (Expr.Respelled P)) (R := Expr.Respelled P)
    (fun _ _ hwhole _ _ he => and?_respelled hwhole (.some he)) .none h

/-! ## Ranges -/

namespace Range.Respelled

variable {r r' : Range}

theorem join (h : r.Respelled P r') : Option.Rel (Expr.Respelled P) r.join r'.join := by
  cases h with
  | intro _ _ _ _ hjoin => exact hjoin

theorem withJoin (h : r.Respelled P r') {join join' : Option Expr}
    (hjoin : Option.Rel (Expr.Respelled P) join join') :
    Range.Respelled P { r with join := join } { r' with join := join' } := by
  cases h with
  | intro hid hname hsource hcolumns _ hf => exact .intro hid hname hsource hcolumns hjoin hf

theorem markUsed [P.Numbered] (h : r.Respelled P r') {e e' : Expr} (he : e.Respelled P e') :
    (r.markUsed e).Respelled P (r'.markUsed e') := by
  have hread : r'.isReadBy e' = r.isReadBy e := by
    funext column
    unfold Range.isReadBy
    rw [h.id]
    exact he.anyBinding _
  unfold Range.markUsed
  rw [hread]
  cases h with
  | intro hid hname hsource hcolumns hjoin hf => exact .intro hid hname hsource hcolumns hjoin hf

end Range.Respelled

namespace JoinCondition

variable {ranges ranges' : List Range}

theorem conjuncts_respelled (h : List.Forall₂ (Range.Respelled P) ranges ranges') :
    List.Forall₂ (Expr.Respelled P) (conjuncts ranges) (conjuncts ranges') := by
  refine List.rel_flatMap h fun r r' hr => ?_
  exact hr.join.elim .nil fun _ _ he => he.conjuncts

theorem lastReferenced?_eq [P.Numbered] (h : List.Forall₂ (Range.Respelled P) ranges ranges') {e e' : Expr}
    (he : e.Respelled P e') : lastReferenced? e' ranges' = lastReferenced? e ranges := by
  induction h with
  | nil => rfl
  | cons hr _ ih => simp only [lastReferenced?, ih, hr.id, he.refersTo]

theorem distribute_respelled [P.Numbered] (h : List.Forall₂ (Range.Respelled P) ranges ranges') :
    List.Forall₂ (Range.Respelled P) (distribute ranges) (distribute ranges') := by
  refine h.mapIdx fun i r r' hr => hr.withJoin (Expr.conjoin_respelled ?_)
  refine List.rel_filter (fun e e' he => ?_) (conjuncts_respelled h)
  have hplace : place ranges' e' = place ranges e := by
    rw [place, place, lastReferenced?_eq h he]
  simp only [hplace]

end JoinCondition

theorem ViewTarget.rangeFor_respelled [P.Numbered] {target target' : ViewTarget} (h : target.Respelled P target')
    {values values' : List Expr} (hvalues : List.Forall₂ (Expr.Respelled P) values values')
    {condition condition' : Option Expr}
    (hcondition : Option.Rel (Expr.Respelled P) condition condition') :
    (target.rangeFor values condition).Respelled P (target'.rangeFor values' condition') := by
  have hmarked : (values.foldl Range.markUsed target.range).Respelled P
      (values'.foldl Range.markUsed target'.range) :=
    List.rel_foldl (P := Range.Respelled P) (R := Expr.Respelled P)
      (fun _ _ hr _ _ he => hr.markUsed he) h.range hvalues
  cases hcondition with
  | none => exact hmarked
  | some he =>
    have hread := hmarked.markUsed he
    exact hread.withJoin (Expr.and?_respelled hread.join (.some he))

end DataChange
