import DataChange.Proofs.Expr.Bound
import DataChange.Proofs.Expr.Grammar
import DataChange.Proofs.Statement.Assigned
import DataChange.Proofs.Copy.Exprs

/-!
# The references of an expression

The column references of an expression in the order in which they are written. Binding gives each
of them a binding (`bindIn_references`), and nothing that happens to a bound expression afterwards
changes them.
-/

namespace DataChange

namespace Expr

/-- The reference that a node is. -/
def column? (e : Expr) : Option ColumnRef :=
  match e.kind with
  | .column ref => some ref
  | _ => none

/-- The column references of an expression, from left to right. -/
def references (e : Expr) : List ColumnRef :=
  e.nodes.filterMap column?

variable {e e' : Expr}

theorem references_eq (e : Expr) :
    e.references = e.children.flatMap references ++ e.planNodes.filterMap column? ++
      e.column?.toList := by
  unfold references
  rw [nodes_eq, List.filterMap_append, List.filterMap_append, List.filterMap_flatMap]
  congr

theorem flatMap_references {cs cs' : List Expr}
    (h : List.Forall₂ (fun c c' => c'.references = c.references) cs cs') :
    cs'.flatMap references = cs.flatMap references := by
  induction h with
  | nil => rfl
  | cons hc _ ih => simp [hc, ih]

@[simp] theorem column?_withChildren (e : Expr) (cs : List Expr) :
    (e.withChildren cs).column? = e.column? := by
  obtain ⟨kind, fragment, type⟩ := e
  cases kind <;> rcases cs with _ | ⟨c, _ | ⟨d, _ | ⟨x, xs⟩⟩⟩ <;> rfl

/-- The references of two nodes that differ at most in their operands and their types. -/
theorem references_congr (hkind : e'.kind = e.kind.withChildren e'.children)
    (h : List.Forall₂ (fun c c' => c'.references = c.references) e.children e'.children) :
    e'.references = e.references := by
  have hplan : e'.planNodes = e.planNodes := by
    rw [← planNodes_withChildren e e'.children]
    simp only [planNodes, withChildren, hkind]
  have hcolumn : e'.column? = e.column? := by
    rw [← column?_withChildren e e'.children]
    simp only [column?, withChildren, hkind]
  rw [references_eq, references_eq, flatMap_references h, hplan, hcolumn]

theorem references_of_kind (h : e'.kind = e.kind) : e'.references = e.references := by
  obtain ⟨kind, fragment, type⟩ := e
  obtain ⟨kind', fragment', type'⟩ := e'
  obtain rfl : kind' = kind := h
  rw [references_eq, references_eq]
  rfl

theorem Settles.references (h : Settles e e') : e'.references = e.references := by
  rcases h with rfl | ⟨-, t, rfl⟩
  · rfl
  · exact references_of_kind rfl

theorem infer_references (h : infer e = .ok e') : e'.references = e.references := by
  induction e using induct generalizing e' with
  | h e ih =>
    have hinferred := infer_ok h
    refine references_congr hinferred.kind (forall₂_imp_mem hinferred.children ?_)
    rintro c hc c' - ⟨d, hd, hsettles, -⟩
    exact hsettles.references.trans (ih c hc hd)

theorem Assigned.references (h : Assigned e e') : e'.references = e.references := by
  obtain ⟨-, rfl | ⟨t, w, rfl⟩⟩ := h
  · rfl
  · obtain ⟨kind, fragment, type⟩ := e
    cases kind <;> rfl

theorem AssignedValue.references (h : AssignedValue e e') : e'.references = e.references := by
  cases h with
  | cell _ h => exact h.references
  | query _ => rfl
  | row h => exact references_congr rfl (h.imp fun _ _ h => h.references)

/-! ## Expressions without subqueries -/

/-- Whether a node is no subquery. -/
def isFlat (e : Expr) : Bool :=
  match e.kind with
  | .pending .. | .query .. => false
  | _ => true

/-- An expression without subqueries. -/
abbrev Flat (e : Expr) : Prop :=
  Each (fun n => n.isFlat = true) e

theorem Flat.planNodes (h : Flat e) : e.planNodes = [] := by
  have hnode := h.node
  obtain ⟨kind, fragment, type⟩ := e
  cases kind <;> first | rfl | cases hnode

theorem Flat.references (h : Flat e) :
    e.references = e.children.flatMap Expr.references ++ e.column?.toList := by
  rw [references_eq, h.planNodes]
  simp

/-- A reference bound within a scope. -/
def BoundIn (scope : Scope) (ref ref' : ColumnRef) : Prop :=
  ∃ fragment, bindColumn scope ref fragment = .ok (ref', [])

section

variable {compile : QueryCompiler} {scope : Scope} {s t : CompilerState} {es es' : List Expr}

theorem bindListIn_references
    (ih : ∀ e ∈ es, ∀ s e' t, bindIn compile scope e s = .ok (e', []) t →
      List.Forall₂ (BoundIn scope) e.references e'.references)
    (h : bindListIn compile scope es s = .ok (es', []) t) :
    List.Forall₂ (BoundIn scope) (es.flatMap references) (es'.flatMap references) := by
  induction es generalizing s es' with
  | nil =>
    obtain ⟨h, -⟩ := pure_ok.1 h
    cases h
    exact .nil
  | cons e es ihs =>
    obtain ⟨e', f, u, fs, g, he, hes, rfl, hfree⟩ := bindListIn_cons.1 h
    obtain ⟨rfl, rfl⟩ := List.append_eq_nil_iff.1 hfree.symm
    simp only [List.flatMap_cons]
    exact List.rel_append (ih e (by simp) _ _ _ he) (ihs (fun c hc => ih c (by simp [hc])) hes)

/-- Binding binds the references of an expression one by one. -/
theorem bindIn_references (hflat : Flat e) (h : bindIn compile scope e s = .ok (e', []) t) :
    List.Forall₂ (BoundIn scope) e.references e'.references := by
  induction e using induct generalizing e' s t with
  | h e ih =>
    have hcs : ∀ {es' s t}, bindListIn compile scope e.children s = .ok (es', []) t →
        List.Forall₂ (BoundIn scope) (e.children.flatMap references) (es'.flatMap references) :=
      fun hl => bindListIn_references (fun c hc _ _ _ hb => ih c hc (hflat.children c hc) hb) hl
    cases bindIn_ok h with
    | column hb =>
      simp only [references_eq, column?]
      exact .cons ⟨_, hb⟩ .nil
    | pending _ => cases hflat.node
    | call hf ha =>
      simp only [references_eq, children, planNodes, column?, List.filterMap_nil, List.append_nil,
        Option.toList_none]
      exact hcs ha
    | node _ cs hk hlen hl =>
      have hcolumn : e.column? = none := by
        obtain ⟨kind, fragment, type⟩ := e
        cases kind <;> first | rfl | cases hk
      rw [hflat.references, references_eq (e.withChildren cs), planNodes_withChildren,
        hflat.planNodes, children_withChildren hlen, column?_withChildren, hcolumn]
      simpa using hcs hl

end

end Expr

namespace Expr.Copied

variable {exact : Bool} {e e' : Expr}

theorem children (h : e.Copied exact e') :
    List.Forall₂ (Expr.Copied exact) e.children e'.children := by
  obtain ⟨hkind, -⟩ := h
  cases hkind with
  | row h | values h | call _ _ h => exact h
  | unary _ h => exact .cons h .nil
  | isNull h => exact .cons h .nil
  | binary _ hl hr => exact .cons hl (.cons hr .nil)
  | _ => exact .nil

theorem column? (h : e.Copied exact e') : e'.column? = e.column? := by
  obtain ⟨hkind, -⟩ := h
  cases hkind <;> rfl

theorem flat (h : e.Copied false e') : Flat e ∧ Flat e' := by
  induction e using induct generalizing e' with
  | h e ih =>
    have hnode : e.isFlat = true ∧ e'.isFlat = true := by
      obtain ⟨hkind, -⟩ := h
      cases hkind with
      | pending hexact | query hexact => cases hexact
      | _ => exact ⟨rfl, rfl⟩
    have hchildren := forall₂_imp_mem h.children fun c hc c' _ hcc' => ih c hc hcc'
    constructor
    · exact .intro hnode.1 ((List.forall₂_and_left _ _).1 hchildren).1
    · refine .intro hnode.2 fun c' hc' => ?_
      obtain ⟨c, -, hc⟩ := forall₂_exists_left hchildren hc'
      exact hc.2

/-- A copy has the same references. -/
theorem references (h : e.Copied false e') : e'.references = e.references := by
  induction e using induct generalizing e' with
  | h e ih =>
    obtain ⟨hflat, hflat'⟩ := h.flat
    rw [hflat.references, hflat'.references, h.column?]
    rw [flatMap_references (forall₂_imp_mem h.children fun c hc c' _ hcc' => ih c hc hcc')]

/-- An exact copy is the expression itself. -/
theorem eq (h : e.Copied true e') : e' = e := by
  induction e using induct generalizing e' with
  | h e ih =>
    have hchildren : e.children = e'.children :=
      List.forall₂_eq_eq_eq ▸ forall₂_imp_mem h.children fun c hc c' _ hcc' => (ih c hc hcc').symm
    obtain ⟨hkind, hplace⟩ := h
    obtain rfl := hplace rfl
    cases hkind with
    | @parameter m m' hcolumn hwriteable hindex =>
      obtain ⟨index, asColumn, writeable⟩ := m
      obtain ⟨index', asColumn', writeable'⟩ := m'
      obtain rfl : asColumn' = asColumn := hcolumn
      obtain rfl : writeable' = writeable := hwriteable
      obtain rfl : index' = index := hindex rfl
      rfl
    | row | values | call =>
      obtain rfl := hchildren
      rfl
    | unary | isNull | binary =>
      simp only [Expr.children, List.cons.injEq, and_true] at hchildren
      simp [hchildren]
    | _ => rfl

/-- An expression is an exact copy of itself. -/
theorem refl (e : Expr) : e.Copied true e := by
  induction e using induct with
  | h e ih =>
    obtain ⟨kind, fragment, type⟩ := e
    refine .intro ?_ fun _ => rfl
    cases kind with
    | constant value => exact .constant value
    | parameter m => exact .parameter rfl rfl fun _ => rfl
    | column ref => exact .column ref
    | defaultMarker => exact .defaultMarker
    | row items => exact .row (List.forall₂_same.2 ih)
    | values rows => exact .values (List.forall₂_same.2 ih)
    | pending shape body => exact .pending rfl shape body
    | query shape plan => exact .query rfl shape plan
    | diagnostics item => exact .diagnostics item
    | unary op operand => exact .unary op (ih operand (by simp [Expr.children]))
    | binary op left right =>
      exact .binary op (ih left (by simp [Expr.children])) (ih right (by simp [Expr.children]))
    | isNull operand negated => exact .isNull (ih operand (by simp [Expr.children])) negated
    | call name builtin arguments => exact .call name builtin (List.forall₂_same.2 ih)

end Expr.Copied

end DataChange
