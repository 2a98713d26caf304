import DataChange.Proofs.Expr.Typed
import DataChange.Proofs.Spelling.Steps

/-!
# Types of respelled expressions

Types are inferred from the types of operands and from bindings, whatever the spelling.
-/

namespace DataChange

variable {P : Likeness}

/-- Two spellings of an expression with the same further data. -/
def Expr.RespelledWith {α : Type} (P : Likeness) (r r' : Expr × α) : Prop :=
  r.1.Respelled P r'.1 ∧ r'.2 = r.2

/-- Two spellings of some expressions with the same further data. -/
def Expr.RespelledListWith {α : Type} (P : Likeness) (r r' : List Expr × α) : Prop :=
  List.Forall₂ (Expr.Respelled P) r.1 r'.1 ∧ r'.2 = r.2

namespace Expr

variable {e e' : Expr} {f f' : Fragment}

theorem checkScalar_concur (h : e.Respelled P e') :
    Concur P (fun _ _ => True) (checkScalar e) (checkScalar e') := by
  have hf := h.fragment
  obtain ⟨hkind, -⟩ := h
  cases hkind with
  | defaultMarker | row _ | values _ => exact .error hf
  | pending shape _ | query shape _ =>
    cases shape with
    | scalar => exact .ok trivial
    | row => exact .error hf
  | _ => exact .ok trivial

theorem asScalar_concur {R : Expr → Expr → Prop} {typed typed' : Except Error Expr}
    (h : e.Respelled P e') (htyped : Concur P R typed typed') :
    Concur P R (asScalar e typed) (asScalar e' typed') := by
  unfold asScalar
  exact (checkScalar_concur h).elim (fun _ _ _ => htyped) fun _ _ he => .error he

theorem typeUnary_concur (op : UnaryOp) (h : e.Respelled P e') (hf : f.Respelled P f') :
    Concur P (RespelledWith P) (typeUnary op e f) (typeUnary op e' f') := by
  unfold typeUnary
  rw [h.type]
  split
  · exact .ok ⟨h.withType _, rfl⟩
  · split
    · exact .ok ⟨h, rfl⟩
    · exact .error hf
  · exact .error hf
  · split
    · exact .ok ⟨h, rfl⟩
    · exact .error hf

theorem operandTypes_concur (op : BinaryOp) (left right : Option SqlType) (hf : f.Respelled P f') :
    Concur P (· = ·) (operandTypes op left right f) (operandTypes op left right f') := by
  unfold operandTypes
  split
  · exact .ok rfl
  · exact .ok rfl
  · exact .ok rfl
  · split
    · exact .ok rfl
    · exact .error hf

theorem resultType_concur (op : BinaryOp) (l r : SqlType) (hf : f.Respelled P f') :
    Concur P (· = ·) (resultType op l r f) (resultType op l r f') := by
  unfold resultType
  repeat' split
  all_goals first | exact .ok rfl | exact .error hf

theorem typeBinary_concur (op : BinaryOp) {left left' right right' : Expr}
    (hl : left.Respelled P left') (hr : right.Respelled P right') (hf : f.Respelled P f') :
    Concur P (Expr.Respelled P) (typeBinary op left right f) (typeBinary op left' right' f') := by
  unfold typeBinary
  rw [hl.type, hr.type]
  refine (operandTypes_concur op _ _ hf).elim ?_ fun _ _ he => .error he
  rintro ⟨l, r⟩ _ rfl
  dsimp only
  refine (resultType_concur op l r hf).elim ?_ fun _ _ he => .error he
  rintro t _ rfl
  exact .ok (.intro (.binary op (hl.withType l) (hr.withType r)) hf)

theorem joinType_concur (common : Option SqlType) (h : e.Respelled P e') :
    Concur P (· = ·) (joinType common e) (joinType common e') := by
  unfold joinType
  rw [h.type]
  split
  · exact .ok rfl
  · exact .ok rfl
  · split
    · exact .ok rfl
    · exact .error h.fragment

theorem settle_respelled (type : SqlType) (h : e.Respelled P e') :
    (settle type e).Respelled P (settle type e') := by
  unfold settle
  rw [h.isUntypedParameter]
  split
  · exact h.withType type
  · exact h

theorem typeCharacter_concur (h : e.Respelled P e') :
    Concur P (Expr.Respelled P) (typeCharacter e) (typeCharacter e') := by
  unfold typeCharacter
  rw [h.type]
  split
  · exact .ok (h.withType _)
  · split
    · exact .ok h
    · exact .error h.fragment

theorem typeSingle_concur (builtin : Builtin) (h : e.Respelled P e') :
    Concur P (RespelledWith P) (typeSingle builtin e) (typeSingle builtin e') := by
  unfold typeSingle
  split
  · rw [h.type]
    split
    · exact .error h.fragment
    · split
      · exact .ok ⟨h, rfl⟩
      · exact .error h.fragment
  · exact (typeCharacter_concur h).map fun _ _ ha => ⟨ha, rfl⟩
  · exact (typeCharacter_concur h).map fun _ _ ha => ⟨ha, rfl⟩

/-- The type of a subquery is that of its first column. -/
theorem headType_eq {plan plan' : Plan} (h : plan.Respelled P plan') :
    plan'.columns.head?.map (·.type) = plan.columns.head?.map (·.type) := by
  rw [← List.head?_map, ← List.head?_map, types_eq h.columns]

mutual

theorem infer_concur {e e' : Expr} (h : e.Respelled P e') :
    Concur P (Expr.Respelled P) (infer e) (infer e') := by
  cases h with
  | @intro _ _ fragment fragment' _ hkind hf =>
    cases hkind with
    | constant value => exact .ok (.intro (.constant value) hf)
    | parameter h => exact .ok (.intro (.parameter h) hf)
    | defaultMarker => exact .ok (.intro .defaultMarker hf)
    | @column ref ref' href =>
      rw [infer, infer]
      refine (Likeness.binding_rel href).elim (.error hf) fun binding binding' hbinding => ?_
      dsimp only
      rw [Likeness.type_eq hbinding]
      exact .ok (.intro (.column href) hf)
    | row h =>
      rw [infer, infer]
      exact (inferList_concur h).elim (fun _ _ hs => .ok (.intro (.row hs) hf))
        fun _ _ he => .error he
    | values h =>
      rw [infer, infer]
      exact (inferList_concur h).elim (fun _ _ hs => .ok (.intro (.values hs) hf))
        fun _ _ he => .error he
    | pending => exact .error hf
    | query shape h =>
      cases shape with
      | scalar =>
        rw [infer, infer, headType_eq h]
        exact .ok (.intro (.query .scalar h) hf)
      | row degree => exact .ok (.intro (.query (.row degree) h) hf)
    | diagnostics item => cases item <;> exact .ok (.intro (.diagnostics _) hf)
    | unary op h =>
      rw [infer, infer]
      refine (asScalar_concur h (infer_concur h)).elim (fun _ _ ho => ?_) fun _ _ he => .error he
      dsimp only
      refine (typeUnary_concur op ho hf).elim ?_ fun _ _ he => .error he
      rintro ⟨operand, t⟩ ⟨operand', _⟩ ⟨ho, rfl⟩
      exact .ok (.intro (.unary op ho) hf)
    | binary op hl hr =>
      rw [infer, infer]
      refine (asScalar_concur hl (infer_concur hl)).elim (fun _ _ hl => ?_) fun _ _ he => .error he
      refine (asScalar_concur hr (infer_concur hr)).elim (fun _ _ hr => ?_) fun _ _ he => .error he
      exact typeBinary_concur op hl hr hf
    | isNull h negated =>
      rw [infer, infer]
      refine (asScalar_concur h (infer_concur h)).elim (fun _ _ ho => ?_) fun _ _ he => .error he
      dsimp only
      rw [ho.type]
      split
      · exact .ok (.intro (.isNull ho negated) hf)
      · exact .error ho.fragment
    | @call name name' hname builtin arguments arguments' h =>
      -- A function of one argument, and one that gets more or fewer.
      have hsingle : ∀ {builtin : Builtin} {type : Option SqlType}, builtin ≠ .coalesce →
          Concur P (Expr.Respelled P) (infer ⟨.call name (some builtin) arguments, fragment, type⟩)
            (infer ⟨.call name' (some builtin) arguments', fragment', type⟩) := by
        intro builtin type hb
        by_cases hlength : arguments.length = 1
        · obtain ⟨argument, rfl⟩ := List.length_eq_one_iff.1 hlength
          obtain ⟨argument', arguments', ha, hrest, rfl⟩ := List.forall₂_cons_left_iff.1 h
          cases hrest
          rw [infer_call_single hb, infer_call_single hb]
          refine (asScalar_concur ha (infer_concur ha)).elim (fun _ _ ha => ?_)
            fun _ _ he => .error he
          dsimp only
          refine (typeSingle_concur builtin ha).elim ?_ fun _ _ he => .error he
          rintro ⟨argument, t⟩ ⟨argument', _⟩ ⟨ha, rfl⟩
          exact .ok (.intro (.call hname _ (.cons ha .nil)) hf)
        · rw [infer_call_degree hb name hlength, infer_call_degree hb name' (h.length_eq ▸ hlength),
            h.length_eq]
          exact .error hf
      cases builtin with
      | none => exact .error hf
      | some builtin =>
        cases builtin with
        | coalesce =>
          rw [infer, infer, h.isEmpty_eq]
          split
          · exact .error hf
          · refine (inferCommon_concur none h).elim ?_ fun _ _ he => .error he
            rintro ⟨as, _⟩ ⟨as', common⟩ ⟨has, rfl⟩
            cases common with
            | none => exact .error hf
            | some t =>
              refine .ok (.intro (.call hname _ ?_) hf)
              exact List.rel_map (fun _ _ ha => settle_respelled t ha) has
        | _ => exact hsingle (by decide)
termination_by sizeOf e

theorem inferList_concur {es es' : List Expr} (h : List.Forall₂ (Expr.Respelled P) es es') :
    Concur P (List.Forall₂ (Expr.Respelled P)) (inferList es) (inferList es') := by
  cases h with
  | nil => exact .ok .nil
  | cons h hs =>
    rw [inferList, inferList]
    refine (infer_concur h).elim (fun _ _ h => ?_) fun _ _ he => .error he
    exact (inferList_concur hs).elim (fun _ _ hs => .ok (.cons h hs)) fun _ _ he => .error he
termination_by sizeOf es

theorem inferCommon_concur (common : Option SqlType) {es es' : List Expr}
    (h : List.Forall₂ (Expr.Respelled P) es es') :
    Concur P (RespelledListWith P) (inferCommon common es) (inferCommon common es') := by
  cases h with
  | nil => exact .ok ⟨.nil, rfl⟩
  | cons h hs =>
    rw [inferCommon, inferCommon]
    refine (asScalar_concur h (infer_concur h)).elim (fun _ _ h => ?_) fun _ _ he => .error he
    dsimp only
    refine (joinType_concur common h).elim ?_ fun _ _ he => .error he
    rintro joined _ rfl
    dsimp only
    refine (inferCommon_concur joined hs).elim ?_ fun _ _ he => .error he
    rintro ⟨es, t⟩ ⟨es', _⟩ ⟨hs, rfl⟩
    exact .ok ⟨.cons h hs, rfl⟩
termination_by sizeOf es

end

theorem inferScalar_concur (h : e.Respelled P e') :
    Concur P (Expr.Respelled P) (inferScalar e) (inferScalar e') :=
  asScalar_concur h (infer_concur h)

theorem inferCondition_concur (h : e.Respelled P e') :
    Concur P (Expr.Respelled P) (inferCondition e) (inferCondition e') := by
  unfold inferCondition
  refine (inferScalar_concur h).elim (fun _ _ h => ?_) fun _ _ he => .error he
  dsimp only
  rw [h.type]
  split
  · exact .ok (h.withType _)
  · exact .ok h
  · exact .error h.fragment

theorem checkAssignable_concur (target : SqlType) (h : e.Respelled P e') (column column' : String) :
    Concur P (fun _ _ => True) (checkAssignable target e column)
      (checkAssignable target e' column') := by
  unfold checkAssignable
  rw [h.type]
  split
  · split
    · exact .ok trivial
    · exact .error h.fragment
  · exact .ok trivial

end Expr

end DataChange
