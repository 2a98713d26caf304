import DataChange.Proofs.Expr.Shape

/-!
# What inference does to a node

`infer` keeps the tree and gives its nodes types. `infer_ok` says this of one node: its operands
are the inferred operands, of which an untyped one may have been given a type, the operands of an
operation are single values and no parameters without a type, and the node itself has the type that
its kind calls for. Shapes stay as they are (`infer_alike`).
-/

namespace DataChange

namespace Expr

/-- Whether the node computes a value from its operands. -/
def isOperation (e : Expr) : Bool :=
  match e.kind with
  | .unary .. | .binary .. | .isNull .. | .call .. => true
  | _ => false

@[simp] theorem isOperation_withChildren (e : Expr) (cs : List Expr) :
    (e.withChildren cs).isOperation = e.isOperation := by
  obtain ⟨kind, fragment, type⟩ := e
  cases kind <;> rcases cs with _ | ⟨c, _ | ⟨d, _ | ⟨x, xs⟩⟩⟩ <;> rfl

variable {e e' : Expr} {es es' : List Expr} {fragment : Fragment}

/-- The second is the first, or the first was untyped and is given a type. -/
def Settles (e e' : Expr) : Prop :=
  e' = e ∨ (e.type? = none ∧ ∃ t, e' = e.withType t)

theorem Settles.refl (e : Expr) : Settles e e :=
  .inl rfl

/-- A type given to a node that has none, or that has just this one. -/
theorem Settles.withType {t : SqlType} (h : e.type? = none ∨ e.type? = some t) :
    Settles e (e.withType t) := by
  rcases h with h | h
  · exact .inr ⟨h, t, rfl⟩
  · obtain ⟨kind, fragment, type⟩ := e
    subst h
    exact .refl _

theorem isUntypedParameter_of_type (h : e.type?.isSome = true) : e.isUntypedParameter = false := by
  obtain ⟨t, ht⟩ := Option.isSome_iff_exists.1 h
  simp [isUntypedParameter, ht]

theorem not_nodeIsResolved (h : e.isUntypedParameter = true) : e.nodeIsResolved = false := by
  obtain ⟨kind, fragment, type⟩ := e
  cases kind <;> first | cases h | skip
  simpa [isUntypedParameter, isParameter, nodeIsResolved] using h

theorem isUntypedParameter_asColumn (e : Expr) (t : SqlType) (w : Bool) :
    (e.asColumn t w).isUntypedParameter = false := by
  obtain ⟨kind, fragment, type⟩ := e
  cases kind <;> rfl

theorem type_asColumn (h : e.isUntypedParameter = true) (t : SqlType) (w : Bool) :
    (e.asColumn t w).type? = some t := by
  obtain ⟨kind, fragment, type⟩ := e
  cases kind <;> first | rfl | cases h

theorem isUntypedParameter_settle (t : SqlType) (e : Expr) :
    (e.settle t).isUntypedParameter = false := by
  unfold Expr.settle
  split
  · exact isUntypedParameter_of_type rfl
  · rename_i h
    simpa using h

theorem Settles.settle (t : SqlType) (e : Expr) : Settles e (e.settle t) := by
  unfold Expr.settle
  split
  · rename_i h
    refine .withType (.inl ?_)
    simp only [isUntypedParameter, Bool.and_eq_true, Option.isNone_iff_eq_none] at h
    exact h.2
  · exact .refl e

/-- The type that a node has after inference. -/
def NodeTyped (e e' : Expr) : Prop :=
  match e.kind with
  | .parameter _ => e'.type? = e.type?
  | .column ref => ∃ b, ref.binding = some b ∧ e'.type? = some b.type
  | .pending .. => False
  | .row _ | .values _ | .defaultMarker | .query (.row _) _ => e'.type? = none
  | .query .scalar plan => e'.type? = plan.columns.head?.map (·.type)
  | _ => e'.type?.isSome = true

/-- An inferred operand; a single value may be settled by the operation above it. -/
def InferredOperand (c c' : Expr) : Prop :=
  ∃ d, infer c = .ok d ∧ Settles d c' ∧ (c' = d ∨ c.shape = .scalar)

/-- What inference does to one node. -/
structure Inferred (e e' : Expr) : Prop where
  kind : e'.kind = e.kind.withChildren e'.children
  fragment : e'.fragment = e.fragment
  children : List.Forall₂ InferredOperand e.children e'.children
  node : NodeTyped e e'
  operands : e.isOperation = true →
    (∀ c ∈ e.children, c.shape = .scalar) ∧ ∀ c ∈ e'.children, c.isUntypedParameter = false

/-! ## Operators -/

theorem asScalar_ok {typed : Except Error Expr} (h : asScalar e typed = .ok e') :
    checkScalar e = .ok () ∧ typed = .ok e' := by
  unfold asScalar at h
  split at h
  · rename_i hs
    exact ⟨hs, h⟩
  · cases h

theorem typeUnary_ok {op : UnaryOp} {t : SqlType} (h : typeUnary op e fragment = .ok (e', t)) :
    Settles e e' ∧ e'.type?.isSome = true := by
  unfold typeUnary at h
  split at h
  · rename_i ht
    cases h
    exact ⟨.withType (.inl ht), rfl⟩
  · rename_i ht
    split at h
    · cases h
      exact ⟨.refl e, by rw [ht]; rfl⟩
    · cases h
  · cases h
  · rename_i ht
    split at h
    · cases h
      exact ⟨.refl e, by rw [ht]; rfl⟩
    · cases h

theorem operandTypes_ok {op : BinaryOp} {left right : Option SqlType} {l r : SqlType}
    (h : operandTypes op left right fragment = .ok (l, r)) :
    (left = none ∨ left = some l) ∧ (right = none ∨ right = some r) := by
  unfold operandTypes at h
  split at h
  · cases h
    exact ⟨.inr rfl, .inr rfl⟩
  · cases h
    exact ⟨.inl rfl, .inr rfl⟩
  · cases h
    exact ⟨.inr rfl, .inl rfl⟩
  · split at h
    · exact ⟨.inl rfl, .inl rfl⟩
    · cases h

theorem typeBinary_ok {op : BinaryOp} {left right : Expr}
    (h : typeBinary op left right fragment = .ok e) :
    ∃ l r t, e = ⟨.binary op (left.withType l) (right.withType r), fragment, some t⟩ ∧
      Settles left (left.withType l) ∧ Settles right (right.withType r) := by
  unfold typeBinary at h
  split at h
  · cases h
  · rename_i l r hlr
    obtain ⟨hl, hr⟩ := operandTypes_ok hlr
    split at h
    · cases h
    · cases h
      exact ⟨l, r, _, rfl, .withType hl, .withType hr⟩

theorem typeCharacter_ok (h : typeCharacter e = .ok e') :
    Settles e e' ∧ e'.type?.isSome = true := by
  unfold typeCharacter at h
  split at h
  · rename_i ht
    cases h
    exact ⟨.withType (.inl ht), rfl⟩
  · rename_i ht
    split at h
    · cases h
      exact ⟨.refl e, by rw [ht]; rfl⟩
    · cases h

theorem typeSingle_ok {builtin : Builtin} {t : SqlType} (h : typeSingle builtin e = .ok (e', t)) :
    Settles e e' ∧ e'.type?.isSome = true := by
  -- LENGTH, UPPER and LOWER type their argument alike and differ in the result alone
  have hcharacter : ∀ result : SqlType,
      (typeCharacter e).map (fun a => (a, result)) = .ok (e', t) →
        Settles e e' ∧ e'.type?.isSome = true := by
    intro result h
    cases hc : typeCharacter e with
    | error err =>
      rw [hc] at h
      cases h
    | ok a =>
      rw [hc] at h
      cases h
      exact typeCharacter_ok hc
  unfold typeSingle at h
  split at h
  · split at h
    · cases h
    · rename_i ht
      split at h
      · cases h
        exact ⟨.refl e, by rw [ht]; rfl⟩
      · cases h
  · exact hcharacter _ h
  · exact hcharacter _ h

/-! ## Operands -/

/-- An operand that is a single value is inferred. -/
theorem scalar_inferred (h : asScalar e (infer e) = .ok e') : infer e = .ok e' :=
  (asScalar_ok h).2

theorem scalar_shape (h : asScalar e (infer e) = .ok e') : e.shape = .scalar :=
  checkScalar_ok.1 (asScalar_ok h).1

/-- An operand that is a single value, settled by the operation above it. -/
theorem settledOperand {d : Expr} (h : asScalar e (infer e) = .ok d) (hs : Settles d e') :
    InferredOperand e e' :=
  ⟨d, scalar_inferred h, hs, .inr (scalar_shape h)⟩

theorem inferList_ok (h : inferList es = .ok es') :
    List.Forall₂ (fun c c' => infer c = .ok c') es es' := by
  induction es generalizing es' with
  | nil =>
    cases h
    exact .nil
  | cons e es ih =>
    unfold inferList at h
    split at h
    · cases h
    · rename_i d hd
      split at h
      · rename_i ds hds
        cases h
        exact .cons hd (ih hds)
      · cases h

theorem inferCommon_ok {common joined : Option SqlType}
    (h : inferCommon common es = .ok (es', joined)) :
    List.Forall₂ (fun c c' => asScalar c (infer c) = .ok c') es es' := by
  induction es generalizing es' common with
  | nil =>
    cases h
    exact .nil
  | cons e es ih =>
    unfold inferCommon at h
    split at h
    · cases h
    · rename_i d hd
      split at h
      · cases h
      · split at h
        · rename_i ds hds
          cases h
          exact .cons hd (ih hds)
        · cases h

theorem inferredOperands (h : List.Forall₂ (fun c c' => infer c = .ok c') es es') :
    List.Forall₂ InferredOperand es es' :=
  h.imp fun _ c' hc => ⟨c', hc, .refl c', .inl rfl⟩

theorem shape_of_forall₂ (h : List.Forall₂ (fun c c' => asScalar c (infer c) = .ok c') es es') :
    ∀ c ∈ es, c.shape = .scalar := by
  induction h with
  | nil => simp
  | cons hc _ ih => simpa using ⟨scalar_shape hc, ih⟩

/-! ## Nodes -/

theorem inferCoalesce_ok {name : String} {type : Option SqlType}
    (h : infer ⟨.call name (some .coalesce) es, fragment, type⟩ = .ok e') :
    Inferred ⟨.call name (some .coalesce) es, fragment, type⟩ e' := by
  unfold infer at h
  split at h
  · cases h
  · split at h
    · cases h
    · cases h
    · rename_i ds t hds
      cases h
      have hscalars := inferCommon_ok hds
      refine ⟨rfl, rfl, ?_, rfl, fun _ => ⟨shape_of_forall₂ hscalars, fun c hc => ?_⟩⟩
      · show List.Forall₂ InferredOperand es (ds.map (settle t))
        exact List.forall₂_map_right_iff.2
          (hscalars.imp fun c d hc => settledOperand hc (.settle t d))
      · obtain ⟨d, -, rfl⟩ := List.mem_map.1 hc
        exact isUntypedParameter_settle t d

/-- A function of one argument. -/
theorem infer_call_single {builtin : Builtin} (hb : builtin ≠ .coalesce) (name : String) (e : Expr)
    (fragment : Fragment) (type : Option SqlType) :
    infer ⟨.call name (some builtin) [e], fragment, type⟩ =
      match asScalar e (infer e) with
      | .error err => .error err
      | .ok e =>
        match typeSingle builtin e with
        | .ok (e, t) => .ok ⟨.call name (some builtin) [e], fragment, some t⟩
        | .error err => .error err := by
  rw [infer]
  all_goals first | rfl | exact hb

theorem infer_call_degree {builtin : Builtin} (hb : builtin ≠ .coalesce) (name : String)
    (hlength : es.length ≠ 1) (fragment : Fragment) (type : Option SqlType) :
    infer ⟨.call name (some builtin) es, fragment, type⟩ = .error (.degree 1 es.length fragment) := by
  rw [infer]
  · exact hb
  · rintro e rfl
    exact hlength rfl

theorem inferCall_ok {name : String} {type : Option SqlType} {builtin : Builtin}
    (hb : builtin ≠ .coalesce)
    (h : infer ⟨.call name (some builtin) es, fragment, type⟩ = .ok e') :
    Inferred ⟨.call name (some builtin) es, fragment, type⟩ e' := by
  by_cases hlength : es.length = 1
  · obtain ⟨e, rfl⟩ := List.length_eq_one_iff.1 hlength
    rw [infer_call_single hb] at h
    split at h
    · cases h
    · rename_i d hd
      split at h
      · rename_i d' t ht
        cases h
        obtain ⟨hs, htyped⟩ := typeSingle_ok ht
        refine ⟨rfl, rfl, .cons (settledOperand hd hs) .nil, rfl, fun _ => ⟨?_, ?_⟩⟩
        · simpa [children] using scalar_shape hd
        · simpa [children] using isUntypedParameter_of_type htyped
      · cases h
  · rw [infer_call_degree hb name hlength] at h
    cases h

theorem infer_ok (h : infer e = .ok e') : Inferred e e' := by
  obtain ⟨kind, fragment, type⟩ := e
  cases kind with
  | constant value =>
    cases h
    exact ⟨rfl, rfl, .nil, rfl, by simp [children]⟩
  | parameter marker =>
    cases h
    exact ⟨rfl, rfl, .nil, rfl, by simp [children]⟩
  | column ref =>
    unfold infer at h
    split at h
    · rename_i b hb
      cases h
      exact ⟨rfl, rfl, .nil, ⟨b, hb, rfl⟩, by simp [children]⟩
    · cases h
  | defaultMarker =>
    cases h
    exact ⟨rfl, rfl, .nil, rfl, by simp [children]⟩
  | row items | values items =>
    unfold infer at h
    split at h
    · rename_i items' hi
      cases h
      exact ⟨rfl, rfl, inferredOperands (inferList_ok hi), rfl, by simp [isOperation]⟩
    · cases h
  | pending shape body => cases h
  | query shape plan =>
    cases shape <;>
    · cases h
      exact ⟨rfl, rfl, .nil, rfl, by simp [children]⟩
  | diagnostics item =>
    cases item <;>
    · cases h
      exact ⟨rfl, rfl, .nil, rfl, by simp [children]⟩
  | unary op operand =>
    unfold infer at h
    split at h
    · cases h
    · rename_i d hd
      split at h
      · rename_i d' t ht
        cases h
        obtain ⟨hs, htyped⟩ := typeUnary_ok ht
        refine ⟨rfl, rfl, .cons (settledOperand hd hs) .nil, rfl, fun _ => ⟨?_, ?_⟩⟩
        · simpa [children] using scalar_shape hd
        · simpa [children] using isUntypedParameter_of_type htyped
      · cases h
  | binary op left right =>
    unfold infer at h
    split at h
    · cases h
    · rename_i l hl
      split at h
      · cases h
      · rename_i r hr
        obtain ⟨l', r', t, rfl, hsl, hsr⟩ := typeBinary_ok h
        refine ⟨rfl, rfl, .cons (settledOperand hl hsl) (.cons (settledOperand hr hsr) .nil), rfl,
          fun _ => ⟨?_, ?_⟩⟩
        · simp [children, scalar_shape hl, scalar_shape hr]
        · have hl := @isUntypedParameter_of_type (l.withType l') rfl
          have hr := @isUntypedParameter_of_type (r.withType r') rfl
          simp [children, hl, hr]
  | isNull operand negated =>
    unfold infer at h
    split at h
    · cases h
    · rename_i d hd
      split at h
      · rename_i t ht
        cases h
        refine ⟨rfl, rfl, .cons (settledOperand hd (.refl d)) .nil, rfl, fun _ => ⟨?_, ?_⟩⟩
        · simpa [children] using scalar_shape hd
        · have hd : d.isUntypedParameter = false := isUntypedParameter_of_type (by rw [ht]; rfl)
          simpa [children] using hd
      · cases h
  | call name builtin arguments =>
    cases builtin with
    | none => cases h
    | some builtin =>
      by_cases hb : builtin = .coalesce
      · subst hb
        exact inferCoalesce_ok h
      · exact inferCall_ok hb h

/-! ## Shapes -/

theorem Settles.alike (h : Settles e e') : Alike e e' := by
  rcases h with rfl | ⟨-, t, rfl⟩
  · exact .refl e'
  · exact .withType e t

/-- A node with the kind of another, but for its operands. -/
theorem Alike.of_kind (hk : e'.kind = e.kind.withChildren e'.children)
    (h : List.Forall₂ Alike e.children e'.children) : Alike e e' := by
  have hs : e'.shape = (e.withChildren e'.children).shape := by
    unfold Expr.shape Expr.withChildren
    rw [← hk]
  exact .intro (hs.trans (shape_withChildren h.length_eq.symm)) h

/-- Inference keeps the shape of an expression. -/
theorem infer_alike (h : infer e = .ok e') : Alike e e' := by
  induction e using induct generalizing e' with
  | h e ih =>
    have hi := infer_ok h
    refine .of_kind hi.kind ?_
    refine ((List.forall₂_and_left _ _).2 ⟨fun c hc => hc, hi.children⟩).imp ?_
    rintro c c' ⟨hc, d, hd, hs, -⟩
    exact (ih c hc hd).trans hs.alike

end Expr

end DataChange
