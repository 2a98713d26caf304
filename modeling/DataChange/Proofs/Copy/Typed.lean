import DataChange.Proofs.Copy.Exprs
import DataChange.Proofs.Expr.Typed

/-!
# The types of copied expressions

Types do not depend on where an expression stands: a copy of an expression that can be typed is
typed alike (`Expr.infer_copied`).
-/

namespace DataChange

namespace Expr

variable {exact : Bool}

/-! ## Types -/

theorem Copied.withType {e e' : Expr} (h : e.Copied exact e') (t : SqlType) :
    (e.withType t).Copied exact (e'.withType t) := by
  obtain ⟨hkind, hplace⟩ := h
  exact .intro hkind hplace

theorem Copied.isUntypedParameter {e e' : Expr} (h : e.Copied exact e') :
    e'.isUntypedParameter = e.isUntypedParameter := by
  obtain ⟨hkind, -⟩ := h
  cases hkind <;> rfl

theorem Copied.settle {e e' : Expr} (h : e.Copied exact e') (t : SqlType) :
    (e.settle t).Copied exact (e'.settle t) := by
  unfold Expr.settle
  rw [h.isUntypedParameter]
  split
  · exact h.withType t
  · exact h

theorem asScalar_copied {e e' d : Expr} (h : e.Copied exact e')
    (ih : ∀ d, infer e = .ok d → ∃ d', infer e' = .ok d' ∧ d.Copied exact d')
    (hd : asScalar e (infer e) = .ok d) :
    ∃ d', asScalar e' (infer e') = .ok d' ∧ d.Copied exact d' := by
  obtain ⟨hscalar, hd⟩ := asScalar_ok hd
  obtain ⟨d', hd', hcopied⟩ := ih d hd
  refine ⟨d', ?_, hcopied⟩
  have hscalar' : checkScalar e' = .ok () := by
    rw [checkScalar_ok] at hscalar ⊢
    exact h.shape.trans hscalar
  unfold asScalar
  rw [hscalar']
  exact hd'

variable {f : Fragment}

theorem typeUnary_copied {op : UnaryOp} {operand operand' o : Expr} {t : SqlType}
    (h : operand.Copied exact operand') (f' : Fragment)
    (ht : typeUnary op operand f = .ok (o, t)) :
    ∃ o', typeUnary op operand' f' = .ok (o', t) ∧ o.Copied exact o' := by
  unfold typeUnary at ht ⊢
  rw [h.type]
  split at ht
  · cases ht
    exact ⟨_, rfl, h.withType _⟩
  · split at ht
    · next hlogical =>
      cases ht
      exact ⟨_, if_pos hlogical, h⟩
    · cases ht
  · cases ht
  · split at ht
    · next hnumeric =>
      cases ht
      exact ⟨_, if_pos hnumeric, h⟩
    · cases ht

theorem operandTypes_copied {op : BinaryOp} {l r : Option SqlType} {types : SqlType × SqlType}
    (h : operandTypes op l r f = .ok types) (f' : Fragment) :
    operandTypes op l r f' = .ok types := by
  unfold operandTypes at h ⊢
  split at h
  · exact h
  · exact h
  · exact h
  · split at h
    · next hlogical => simpa only [if_pos hlogical] using h
    · cases h

theorem resultType_copied {op : BinaryOp} {l r t : SqlType} (h : resultType op l r f = .ok t)
    (f' : Fragment) : resultType op l r f' = .ok t := by
  unfold resultType at h ⊢
  split_ifs at h ⊢
  · exact h
  · exact h
  · exact h
  · cases hpromote : l.promote r with
    | none => simp [hpromote] at h
    | some joined =>
      simp only [hpromote] at h ⊢
      split_ifs at h ⊢
      exact h

theorem typeBinary_copied {op : BinaryOp} {left left' right right' e : Expr}
    (hl : left.Copied exact left') (hr : right.Copied exact right') {f' : Fragment}
    (hplace : exact = true → f' = f) (h : typeBinary op left right f = .ok e) :
    ∃ e', typeBinary op left' right' f' = .ok e' ∧ e.Copied exact e' := by
  unfold typeBinary at h ⊢
  rw [hl.type, hr.type]
  split at h
  · cases h
  · next l r htypes =>
    split at h
    · cases h
    · next t hresult =>
      cases h
      simp only [operandTypes_copied htypes f', resultType_copied hresult f']
      exact ⟨_, rfl, .intro (.binary op (hl.withType l) (hr.withType r)) hplace⟩

theorem joinType_copied {common joined : Option SqlType} {e e' : Expr} (h : e.Copied exact e')
    (hj : joinType common e = .ok joined) : joinType common e' = .ok joined := by
  unfold joinType at hj ⊢
  rw [h.type]
  split at hj
  · exact hj
  · exact hj
  · split at hj
    · next hpromote => simpa only [hpromote] using hj
    · cases hj

theorem typeCharacter_copied {e e' d : Expr} (h : e.Copied exact e')
    (hd : typeCharacter e = .ok d) : ∃ d', typeCharacter e' = .ok d' ∧ d.Copied exact d' := by
  unfold typeCharacter at hd ⊢
  rw [h.type]
  split at hd
  · cases hd
    exact ⟨_, rfl, h.withType _⟩
  · split at hd
    · next hcharacter =>
      cases hd
      exact ⟨_, if_pos hcharacter, h⟩
    · cases hd

theorem typeSingle_copied {builtin : Builtin} {e e' d : Expr} {t : SqlType}
    (h : e.Copied exact e') (hd : typeSingle builtin e = .ok (d, t)) :
    ∃ d', typeSingle builtin e' = .ok (d', t) ∧ d.Copied exact d' := by
  have hcharacter : ∀ {type : SqlType}, (typeCharacter e).map (fun a => (a, type)) = .ok (d, t) →
      ∃ d', (typeCharacter e').map (fun a => (a, type)) = .ok (d', t) ∧ d.Copied exact d' := by
    intro type hd
    cases ha : typeCharacter e with
    | error => simp [ha, Except.map] at hd
    | ok a =>
      obtain ⟨a', ha', hcopied⟩ := typeCharacter_copied h ha
      simp only [ha, Except.map, Except.ok.injEq, Prod.mk.injEq] at hd
      obtain ⟨rfl, rfl⟩ := hd
      exact ⟨a', by simp [ha', Except.map], hcopied⟩
  cases builtin with
  | abs =>
    simp only [typeSingle, h.type] at hd ⊢
    split at hd
    · cases hd
    · split at hd
      · next hnumeric =>
        cases hd
        exact ⟨_, if_pos hnumeric, h⟩
      · cases hd
  | _ => exact hcharacter hd

/-! ## Inference -/

section

variable {es es' ts : List Expr}

theorem inferList_copied (h : List.Forall₂ (Copied exact) es es')
    (ih : ∀ e ∈ es, ∀ e' t, e.Copied exact e' → infer e = .ok t →
      ∃ t', infer e' = .ok t' ∧ t.Copied exact t')
    (hts : inferList es = .ok ts) :
    ∃ ts', inferList es' = .ok ts' ∧ List.Forall₂ (Copied exact) ts ts' := by
  induction h generalizing ts with
  | nil =>
    cases hts
    exact ⟨[], rfl, .nil⟩
  | @cons e e' es es' he _ ihs =>
    simp only [inferList] at hts ⊢
    split at hts
    · cases hts
    · next t ht =>
      split at hts
      · next us hus =>
        cases hts
        obtain ⟨t', ht', hcopied⟩ := ih e (by simp) _ _ he ht
        obtain ⟨us', hus', hcopies⟩ := ihs (fun c hc => ih c (by simp [hc])) hus
        exact ⟨t' :: us', by simp only [ht', hus'], .cons hcopied hcopies⟩
      · cases hts

theorem inferCommon_copied {common joined : Option SqlType}
    (h : List.Forall₂ (Copied exact) es es')
    (ih : ∀ e ∈ es, ∀ e' t, e.Copied exact e' → infer e = .ok t →
      ∃ t', infer e' = .ok t' ∧ t.Copied exact t')
    (hts : inferCommon common es = .ok (ts, joined)) :
    ∃ ts', inferCommon common es' = .ok (ts', joined) ∧ List.Forall₂ (Copied exact) ts ts' := by
  induction h generalizing ts common with
  | nil =>
    cases hts
    exact ⟨[], rfl, .nil⟩
  | @cons e e' es es' he _ ihs =>
    simp only [inferCommon] at hts ⊢
    split at hts
    · cases hts
    · next t ht =>
      split at hts
      · cases hts
      · next mid hmid =>
        split at hts
        · next us final hus =>
          cases hts
          obtain ⟨t', ht', hcopied⟩ :=
            asScalar_copied he (fun d hd => ih e (by simp) _ _ he hd) ht
          obtain ⟨us', hus', hcopies⟩ := ihs (fun c hc => ih c (by simp [hc])) hus
          exact ⟨t' :: us', by simp only [ht', joinType_copied hcopied hmid, hus'],
            .cons hcopied hcopies⟩
        · cases hts

end

section

variable {name : String} {es es' : List Expr} {f' : Fragment} {type : Option SqlType} {t : Expr}

theorem inferCoalesce_copied (h : List.Forall₂ (Copied exact) es es')
    (hplace : exact = true → f' = f)
    (ih : ∀ e ∈ es, ∀ e' t, e.Copied exact e' → infer e = .ok t →
      ∃ t', infer e' = .ok t' ∧ t.Copied exact t')
    (ht : infer ⟨.call name (some .coalesce) es, f, type⟩ = .ok t) :
    ∃ t', infer ⟨.call name (some .coalesce) es', f', type⟩ = .ok t' ∧ t.Copied exact t' := by
  unfold infer at ht ⊢
  split at ht
  · cases ht
  · next hempty =>
    split at ht
    · cases ht
    · cases ht
    · next ds common hds =>
      cases ht
      obtain ⟨ds', hds', hcopies⟩ := inferCommon_copied h ih hds
      have hempty' : es'.isEmpty = es.isEmpty := by cases h <;> rfl
      rw [hempty', if_neg hempty, hds']
      refine ⟨_, rfl, .intro (.call _ _ ?_) hplace⟩
      exact List.forall₂_map_left_iff.2 (List.forall₂_map_right_iff.2
        (hcopies.imp fun d d' hd => hd.settle common))

theorem inferCall_copied {builtin : Builtin} (hb : builtin ≠ .coalesce)
    (h : List.Forall₂ (Copied exact) es es') (hplace : exact = true → f' = f)
    (ih : ∀ e ∈ es, ∀ e' t, e.Copied exact e' → infer e = .ok t →
      ∃ t', infer e' = .ok t' ∧ t.Copied exact t')
    (ht : infer ⟨.call name (some builtin) es, f, type⟩ = .ok t) :
    ∃ t', infer ⟨.call name (some builtin) es', f', type⟩ = .ok t' ∧ t.Copied exact t' := by
  by_cases hlength : es.length = 1
  · obtain ⟨e, rfl⟩ := List.length_eq_one_iff.1 hlength
    obtain ⟨e', es', he, hrest, rfl⟩ := List.forall₂_cons_left_iff.1 h
    cases hrest
    rw [infer_call_single hb] at ht
    rw [infer_call_single hb]
    split at ht
    · cases ht
    · next d hd =>
      obtain ⟨d', hd', hcopied⟩ := asScalar_copied he (fun c hc => ih e (by simp) _ _ he hc) hd
      split at ht
      · next ho =>
        cases ht
        obtain ⟨o', ho', hcopied⟩ := typeSingle_copied hcopied ho
        simp only [hd', ho']
        exact ⟨_, rfl, .intro (.call _ _ (.cons hcopied .nil)) hplace⟩
      · cases ht
  · rw [infer_call_degree hb name hlength] at ht
    cases ht

end

theorem infer_copied {e e' t : Expr} (h : e.Copied exact e') (ht : infer e = .ok t) :
    ∃ t', infer e' = .ok t' ∧ t.Copied exact t' := by
  induction e using induct generalizing e' t with
  | h e ih =>
    have hscalar : ∀ {c c' d : Expr}, c.Copied exact c' → c ∈ e.children →
        asScalar c (infer c) = .ok d → ∃ d', asScalar c' (infer c') = .ok d' ∧ d.Copied exact d' :=
      fun hcopied hc => asScalar_copied hcopied fun d hd => ih _ hc hcopied hd
    have hchildren : ∀ c ∈ e.children, ∀ c' t, c.Copied exact c' → infer c = .ok t →
        ∃ t', infer c' = .ok t' ∧ t.Copied exact t' :=
      fun c hc c' t hcopied ht => ih c hc hcopied ht
    obtain @⟨kind, kind', f, f', type, hkind, hplace⟩ := h
    cases hkind with
    | constant value =>
      cases ht
      exact ⟨_, rfl, .intro (.constant value) hplace⟩
    | parameter hc hw hi =>
      cases ht
      exact ⟨_, rfl, .intro (.parameter hc hw hi) hplace⟩
    | defaultMarker =>
      cases ht
      exact ⟨_, rfl, .intro .defaultMarker hplace⟩
    | column ref =>
      simp only [infer] at ht ⊢
      split at ht
      · cases ht
        exact ⟨_, rfl, .intro (.column ref) hplace⟩
      · cases ht
    | row items =>
      simp only [infer] at ht ⊢
      split at ht
      · next us hus =>
        cases ht
        obtain ⟨us', hus', hcopies⟩ := inferList_copied items hchildren hus
        exact ⟨_, by simp only [hus'], .intro (.row hcopies) hplace⟩
      · cases ht
    | values rows =>
      simp only [infer] at ht ⊢
      split at ht
      · next us hus =>
        cases ht
        obtain ⟨us', hus', hcopies⟩ := inferList_copied rows hchildren hus
        exact ⟨_, by simp only [hus'], .intro (.values hcopies) hplace⟩
      · cases ht
    | pending => cases ht
    | query he shape plan =>
      cases shape with
      | scalar =>
        cases ht
        exact ⟨_, rfl, .intro (.query he _ plan) hplace⟩
      | row degree =>
        cases ht
        exact ⟨_, rfl, .intro (.query he _ plan) hplace⟩
    | diagnostics item =>
      cases item <;> cases ht <;> exact ⟨_, rfl, .intro (.diagnostics _) hplace⟩
    | unary op operand =>
      simp only [infer] at ht ⊢
      split at ht
      · cases ht
      · next d hd =>
        split at ht
        · next o type ho =>
          cases ht
          obtain ⟨d', hd', hcopied⟩ := hscalar operand (by simp [children]) hd
          obtain ⟨o', ho', hcopied⟩ := typeUnary_copied hcopied f' ho
          simp only [hd', ho']
          exact ⟨_, rfl, .intro (.unary op hcopied) hplace⟩
        · cases ht
    | binary op left right =>
      simp only [infer] at ht ⊢
      split at ht
      · cases ht
      · next l hl =>
        split at ht
        · cases ht
        · next r hr =>
          obtain ⟨l', hl', hleft⟩ := hscalar left (by simp [children]) hl
          obtain ⟨r', hr', hright⟩ := hscalar right (by simp [children]) hr
          simp only [hl', hr']
          exact typeBinary_copied hleft hright hplace ht
    | isNull operand negated =>
      simp only [infer] at ht ⊢
      split at ht
      · cases ht
      · next d hd =>
        split at ht
        · next type htype =>
          cases ht
          obtain ⟨d', hd', hcopied⟩ := hscalar operand (by simp [children]) hd
          simp only [hd', hcopied.type, htype]
          exact ⟨_, rfl, .intro (.isNull hcopied negated) hplace⟩
        · cases ht
    | call name builtin arguments =>
      cases builtin with
      | none => cases ht
      | some builtin =>
        -- COALESCE alone takes any number of arguments
        by_cases hb : builtin = .coalesce
        · subst hb
          exact inferCoalesce_copied arguments hplace hchildren ht
        · exact inferCall_copied hb arguments hplace hchildren ht

end Expr

end DataChange
