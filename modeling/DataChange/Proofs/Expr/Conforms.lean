import DataChange.Proofs.Expr.Moved
import DataChange.Proofs.Expr.Subqueries
import DataChange.Proofs.Expr.Typed
import DataChange.Proofs.SqlType
import DataChange.Proofs.Statement.Held

/-!
# Expressions that conform to the rules of types

`Conforms` states the rule of types for each kind of node: which types its operands may have and
which type it has itself. An expression of which every node conforms is a fixed point of inference
(`infer_self`), and inference makes such expressions of those that are bound (`infer_conforming`).
For the parameters that it settles this rests on two facts: an operator computes its result from the
settled types, and the common type of the arguments of COALESCE absorbs what it was joined from.
-/

namespace DataChange

namespace Expr

/-- A single value with a type. -/
structure HasType (e : Expr) (t : SqlType) : Prop where
  scalar : e.shape = .scalar
  type : e.type? = some t

/-- The type of a node is the one that its kind and the types of its operands call for. -/
inductive Conforms : Expr → Prop
  | constant (value : Value) (fragment : Fragment) : Conforms (literal value fragment)
  | parameter (marker : Marker) (fragment : Fragment) (type : Option SqlType) :
      Conforms ⟨.parameter marker, fragment, type⟩
  | column {ref : ColumnRef} {b : Binding} (hb : ref.binding = some b) (fragment : Fragment) :
      Conforms ⟨.column ref, fragment, some b.type⟩
  | defaultMarker (fragment : Fragment) : Conforms (untyped .defaultMarker fragment)
  | row (items : List Expr) (fragment : Fragment) : Conforms (untyped (.row items) fragment)
  | values (rows : List Expr) (fragment : Fragment) : Conforms (untyped (.values rows) fragment)
  | scalarQuery {plan : Plan} {c : Attribute} (hc : plan.columns = [c]) (fragment : Fragment) :
      Conforms ⟨.query .scalar plan, fragment, some c.type⟩
  | rowQuery (degree : Nat) (plan : Plan) (fragment : Fragment) :
      Conforms (untyped (.query (.row degree) plan) fragment)
  | rowCount (fragment : Fragment) : Conforms ⟨.diagnostics .rowCount, fragment, some .bigint⟩
  | more (fragment : Fragment) : Conforms ⟨.diagnostics .more, fragment, some .varchar⟩
  | not {operand : Expr} {t : SqlType} (ho : operand.HasType t) (ht : isLogical t = true)
      (fragment : Fragment) : Conforms ⟨.unary .not operand, fragment, some .boolean⟩
  | sign {op : UnaryOp} {operand : Expr} {t : SqlType} (hop : op ≠ .not) (ho : operand.HasType t)
      (ht : isNumeric t = true) (fragment : Fragment) :
      Conforms ⟨.unary op operand, fragment, some t⟩
  | binary {op : BinaryOp} {left right : Expr} {l r t : SqlType} {fragment : Fragment}
      (hl : left.HasType l) (hr : right.HasType r) (ht : resultType op l r fragment = .ok t) :
      Conforms ⟨.binary op left right, fragment, some t⟩
  | isNull {operand : Expr} {t : SqlType} (ho : operand.HasType t) (negated : Bool)
      (fragment : Fragment) : Conforms ⟨.isNull operand negated, fragment, some .boolean⟩
  /-- The type of COALESCE is that of one of its arguments, which absorbs those of the others. -/
  | coalesce {arguments : List Expr} {t : SqlType} (hone : ∃ a ∈ arguments, a.HasType t)
      (hall : ∀ a ∈ arguments, ∃ u, a.HasType u ∧ t.Absorbs u) (name : String)
      (fragment : Fragment) : Conforms ⟨.call name (some .coalesce) arguments, fragment, some t⟩
  | abs {argument : Expr} {t : SqlType} (ha : argument.HasType t) (ht : isNumeric t = true)
      (name : String) (fragment : Fragment) :
      Conforms ⟨.call name (some .abs) [argument], fragment, some t⟩
  | length {argument : Expr} {t : SqlType} (ha : argument.HasType t) (ht : isCharacter t = true)
      (name : String) (fragment : Fragment) :
      Conforms ⟨.call name (some .length) [argument], fragment, some .integer⟩
  | letters {builtin : Builtin} {argument : Expr} {t : SqlType}
      (hb : builtin = .upper ∨ builtin = .lower) (ha : argument.HasType t)
      (ht : isCharacter t = true) (name : String) (fragment : Fragment) :
      Conforms ⟨.call name (some builtin) [argument], fragment, some .varchar⟩

variable {e e' : Expr} {es es' : List Expr} {fragment : Fragment} {t : SqlType}

/-! ## What conforms is a fixed point -/

theorem HasType.asScalar (h : e.HasType t) (hi : infer e = .ok e) :
    asScalar e (infer e) = .ok e := by
  rw [Expr.asScalar, checkScalar_ok.2 h.scalar]
  exact hi

theorem withType_self (h : e.type? = some t) : e.withType t = e := by
  obtain ⟨kind, fragment, type⟩ := e
  obtain rfl : type = some t := h
  rfl

theorem HasType.withType (h : e.shape = .scalar) (t : SqlType) : (e.withType t).HasType t :=
  ⟨h, rfl⟩

theorem HasType.settle {u : SqlType} (h : e.HasType u) (t : SqlType) : e.settle t = e := by
  simp [Expr.settle, isUntypedParameter, h.type]

theorem inferList_self (h : ∀ e ∈ es, infer e = .ok e) : inferList es = .ok es := by
  induction es with
  | nil => rfl
  | cons e es ih =>
    have hes := ih fun c hc => h c (by simp [hc])
    simp [inferList, h e (by simp), hes]

/-- Types that one type absorbs are joined without leaving it, and end there once they have come
to it. -/
theorem inferCommon_self {common : Option SqlType} (h : ∀ e ∈ es, infer e = .ok e)
    (hall : ∀ e ∈ es, ∃ u, e.HasType u ∧ t.Absorbs u) (hcommon : ∀ c ∈ common, t.Absorbs c)
    (hone : common = some t ∨ ∃ e ∈ es, e.HasType t) :
    inferCommon common es = .ok (es, some t) := by
  induction es generalizing common with
  | nil =>
    obtain rfl : common = some t := by simpa using hone
    rfl
  | cons e es ih =>
    obtain ⟨u, hu, habsorbs⟩ := hall e (by simp)
    -- `e` joins to a type that `t` absorbs, and the rest of the list joins that one to `t`
    have hnext : ∀ {next : SqlType}, joinType common e = .ok (some next) → t.Absorbs next →
        (next = t ∨ ∃ e ∈ es, e.HasType t) →
          inferCommon common (e :: es) = .ok (e :: es, some t) := by
      intro next hjoin hnext hone
      have hrest := ih (fun c hc => h c (by simp [hc]))
        (fun c hc => hall c (by simp [hc])) (by simpa using hnext) (hone.imp_left (congrArg some))
      simp [inferCommon, hu.asScalar (h e (by simp)), hjoin, hrest]
    have hlater : (∃ c ∈ e :: es, c.HasType t) → u = t ∨ ∃ c ∈ es, c.HasType t := by
      rintro ⟨c, hc, hct⟩
      rcases List.mem_cons.1 hc with rfl | hc
      · exact .inl (Option.some.inj (hu.type.symm.trans hct.type))
      · exact .inr ⟨c, hc, hct⟩
    cases common with
    | none => exact hnext (by simp [joinType, hu.type]) habsorbs (hlater (by simpa using hone))
    | some c =>
      have hc : t.Absorbs c := hcommon c rfl
      obtain ⟨joined, hjoined, hjoinedAbsorbs⟩ := hc.promote habsorbs
      refine hnext (by simp [joinType, hu.type, hjoined]) hjoinedAbsorbs ?_
      -- `t` was reached before `e`, or is the type of `e`, or of an item after it
      rcases hone with heq | hone
      · obtain rfl := Option.some.inj heq
        exact .inl (Option.some.inj (hjoined.symm.trans habsorbs))
      · refine (hlater hone).imp_left ?_
        rintro rfl
        exact Option.some.inj (hjoined.symm.trans ((SqlType.promote_comm _ _).trans hc))

theorem typeCharacter_self (h : e.HasType t) (ht : isCharacter t = true) :
    typeCharacter e = .ok e := by
  simp [typeCharacter, h.type, ht]

/-- A node that conforms, over operands that inference leaves alone, is left alone. -/
theorem Conforms.infer_self (h : e.Conforms) (hcs : ∀ c ∈ e.children, infer c = .ok c) :
    infer e = .ok e := by
  cases h with
  | constant | parameter | defaultMarker | rowQuery | rowCount | more => rfl
  | column hb => simp [infer, hb]
  | row items =>
    have hitems : inferList items = .ok items := inferList_self hcs
    simp [infer, untyped, hitems]
  | values rows =>
    have hrows : inferList rows = .ok rows := inferList_self hcs
    simp [infer, untyped, hrows]
  | scalarQuery hc => simp [infer, hc]
  | @not operand t ho ht =>
    have hoperand := ho.asScalar (hcs operand (by simp [children]))
    simp [infer, hoperand, typeUnary, ho.type, ht]
  | @sign op operand t hop ho ht =>
    have hoperand := ho.asScalar (hcs operand (by simp [children]))
    cases op with
    | not => exact absurd rfl hop
    | negate | plus => simp [infer, hoperand, typeUnary, ho.type, ht]
  | @binary op left right l r t _ hl hr ht =>
    have hleft := hl.asScalar (hcs left (by simp [children]))
    have hright := hr.asScalar (hcs right (by simp [children]))
    simp [infer, hleft, hright, typeBinary, operandTypes, hl.type, hr.type, ht,
      withType_self hl.type, withType_self hr.type]
  | @isNull operand t ho =>
    have hoperand := ho.asScalar (hcs operand (by simp [children]))
    simp [infer, hoperand, ho.type]
  | @coalesce arguments t hone hall =>
    have hcommon : inferCommon none arguments = .ok (arguments, some t) :=
      inferCommon_self hcs hall (by simp) (.inr hone)
    have hsettled : arguments.map (settle t) = arguments := by
      refine (List.map_congr_left fun a ha => ?_).trans (List.map_id arguments)
      obtain ⟨u, hu, -⟩ := hall a ha
      exact hu.settle t
    have hne : arguments ≠ [] := by
      obtain ⟨a, ha, -⟩ := hone
      exact List.ne_nil_of_mem ha
    simp [infer, hne, hcommon, hsettled]
  | @abs argument t ha ht =>
    have hargument := ha.asScalar (hcs argument (by simp [children]))
    simp [infer, hargument, typeSingle, ha.type, ht]
  | @length argument t ha ht =>
    have hargument := ha.asScalar (hcs argument (by simp [children]))
    simp [infer, hargument, typeSingle, typeCharacter_self ha ht, Except.map]
  | @letters builtin argument t hb ha ht =>
    have hargument := ha.asScalar (hcs argument (by simp [children]))
    rcases hb with rfl | rfl <;>
      simp [infer, hargument, typeSingle, typeCharacter_self ha ht, Except.map]

/-! ## Whole expressions -/

/-- Every node conforms, in subqueries too. -/
def Conforming (e : Expr) : Prop :=
  ∀ n ∈ e.nodes, n.Conforms

end Expr

/-- Every node of a query conforms. -/
def Plan.Conforming (plan : Plan) : Prop :=
  ∀ n ∈ plan.nodes, n.Conforms

theorem Plan.Conforming.of_exprs {plan : Plan} (h : ∀ e ∈ plan.exprs, e.Conforming) :
    plan.Conforming := by
  intro n hn
  rw [Plan.nodes_eq] at hn
  obtain ⟨e, he, hn⟩ := List.mem_flatMap.1 hn
  exact h e he n hn

theorem Plan.Conforming.of_mem {plan : Plan} {n : Expr} (h : plan.Conforming) (hn : n ∈ plan.nodes) :
    n.Conforming :=
  fun m hm => h m (nodes_trans.2 plan n hn hm)

namespace Expr

variable {e e' : Expr} {es es' : List Expr} {fragment : Fragment} {t : SqlType}

namespace Conforming

theorem node (h : e.Conforming) : e.Conforms :=
  h e (self_mem_nodes e)

theorem children (h : e.Conforming) : ∀ c ∈ e.children, c.Conforming :=
  fun c hc n hn => h n (mem_nodes.2 (.inl ⟨c, hc, hn⟩))

theorem intro (hnode : e.Conforms) (hcs : ∀ c ∈ e.children, c.Conforming)
    (hplan : ∀ shape plan, e.kind = .query shape plan → plan.Conforming) : e.Conforming := by
  intro n hn
  rcases mem_nodes.1 hn with ⟨c, hc, hn⟩ | ⟨shape, plan, hk, hn⟩ | rfl
  · exact hcs c hc n hn
  · exact hplan shape plan hk n hn
  · exact hnode

theorem of_mem {n : Expr} (h : e.Conforming) (hn : n ∈ e.nodes) : n.Conforming :=
  fun m hm => h m (nodes_trans.1 e n hn hm)

/-- Inference leaves an expression alone if all its nodes conform. -/
theorem infer_self (h : e.Conforming) : infer e = .ok e := by
  induction e using induct with
  | h e ih => exact h.node.infer_self fun c hc => ih c hc (h.children c hc)

end Conforming

/-! ## Inference makes expressions that conform -/

/-- A single value without a type is a parameter. -/
theorem Conforms.isUntypedParameter (h : e.Conforms) (hs : e.shape = .scalar)
    (hnone : e.type? = none) : e.isUntypedParameter = true := by
  cases h with
  | parameter => simpa [Expr.isUntypedParameter, isParameter] using hnone
  | defaultMarker | row | values | rowQuery => cases hs
  | _ => cases hnone

/-- A parameter conforms with any type. -/
theorem Conforming.withType (h : e.isUntypedParameter = true) (t : SqlType) :
    (e.withType t).Conforming := by
  obtain ⟨kind, fragment, type⟩ := e
  cases kind <;> try cases h
  exact .intro (.parameter _ _ _) (fun _ hc => by cases hc) (by simp [Expr.withType])

theorem Conforming.asColumn (h : e.Conforming) (t : SqlType) (writeable : Bool) :
    (e.asColumn t writeable).Conforming := by
  obtain ⟨kind, fragment, type⟩ := e
  cases kind with
  | parameter marker =>
    exact .intro (.parameter _ _ _) (fun _ hc => by cases hc) (by simp [Expr.asColumn])
  | _ => exact h

theorem Conforming.defaultMarker (fragment : Fragment) :
    Conforming (.untyped .defaultMarker fragment) :=
  .intro (.defaultMarker fragment) (fun _ hc => by cases hc) (by simp [untyped])

/-- A row with other items. -/
theorem Conforming.withItems {items items' : List Expr} (h : e.Conforming)
    (hk : e.kind = .row items) (hitems : ∀ c ∈ items', c.Conforming) :
    Conforming { e with kind := .row items' } := by
  have hnode := h.node
  obtain ⟨kind, fragment, type⟩ := e
  subst hk
  cases hnode with
  | row => exact .intro (.row items' fragment) hitems (by simp)

theorem Conforming.values {rows : List Expr} (h : ∀ row ∈ rows, row.Conforming)
    (fragment : Fragment) : Conforming (.untyped (.values rows) fragment) :=
  .intro (.values rows fragment) h (by simp [untyped])

/-- A list of other rows. -/
theorem Conforming.withRows {rows rows' : List Expr} (h : e.Conforming)
    (hk : e.kind = .values rows) (hrows : ∀ row ∈ rows', row.Conforming) :
    Conforming { e with kind := .values rows' } := by
  have hnode := h.node
  obtain ⟨kind, fragment, type⟩ := e
  subst hk
  cases hnode with
  | values => exact .values hrows fragment

/-- An operand that is inferred is a single value. -/
theorem scalar_inferred_shape (h : asScalar e (infer e) = .ok e') : e'.shape = .scalar :=
  (infer_alike (scalar_inferred h)).shape.trans (scalar_shape h)

theorem typeUnary_conforms {op : UnaryOp} (hs : e.shape = .scalar)
    (h : typeUnary op e fragment = .ok (e', t)) : Conforms ⟨.unary op e', fragment, some t⟩ := by
  unfold typeUnary at h
  split at h
  · cases h
    exact .not (.withType hs .boolean) rfl fragment
  · next ht =>
    split at h
    · next hlogical =>
      cases h
      exact .not ⟨hs, ht⟩ hlogical fragment
    · cases h
  · cases h
  · next hop ht =>
    split at h
    · next hnumeric =>
      cases h
      exact .sign hop ⟨hs, ht⟩ hnumeric fragment
    · cases h

theorem typeBinary_conforms {op : BinaryOp} {left right : Expr} (hl : left.shape = .scalar)
    (hr : right.shape = .scalar) (h : typeBinary op left right fragment = .ok e) : e.Conforms := by
  unfold typeBinary at h
  split at h
  · cases h
  · split at h
    · cases h
    · next ht =>
      cases h
      exact .binary (.withType hl _) (.withType hr _) ht

theorem typeCharacter_hasType (hs : e.shape = .scalar) (h : typeCharacter e = .ok e') :
    ∃ t, e'.HasType t ∧ isCharacter t = true := by
  unfold typeCharacter at h
  split at h
  · cases h
    exact ⟨.varchar, .withType hs .varchar, rfl⟩
  · next t ht =>
    split at h
    · next hcharacter =>
      cases h
      exact ⟨t, ⟨hs, ht⟩, hcharacter⟩
    · cases h

theorem typeSingle_conforms {builtin : Builtin} (hb : builtin ≠ .coalesce)
    (hs : e.shape = .scalar) (h : typeSingle builtin e = .ok (e', t)) (name : String) :
    Conforms ⟨.call name (some builtin) [e'], fragment, some t⟩ := by
  have hcharacter : ∀ result : SqlType,
      (typeCharacter e).map (fun a => (a, result)) = .ok (e', t) →
        t = result ∧ ∃ u, e'.HasType u ∧ isCharacter u = true := by
    intro result h
    cases hc : typeCharacter e with
    | error err => simp [hc, Except.map] at h
    | ok a =>
      simp only [hc, Except.map, Except.ok.injEq, Prod.mk.injEq] at h
      obtain ⟨rfl, rfl⟩ := h
      exact ⟨rfl, typeCharacter_hasType hs hc⟩
  cases builtin with
  | coalesce => exact absurd rfl hb
  | abs =>
    simp only [typeSingle] at h
    split at h
    · cases h
    · next ht =>
      split at h
      · next hnumeric =>
        cases h
        exact .abs ⟨hs, ht⟩ hnumeric name fragment
      · cases h
  | length =>
    obtain ⟨rfl, u, hu, hcharacter⟩ := hcharacter _ h
    exact .length hu hcharacter name fragment
  | upper =>
    obtain ⟨rfl, u, hu, hcharacter⟩ := hcharacter _ h
    exact .letters (.inl rfl) hu hcharacter name fragment
  | lower =>
    obtain ⟨rfl, u, hu, hcharacter⟩ := hcharacter _ h
    exact .letters (.inr rfl) hu hcharacter name fragment

theorem joinType_absorbs {common joined : Option SqlType} (h : joinType common e = .ok joined) :
    (∀ c ∈ common, ∃ j ∈ joined, j.Absorbs c) ∧ (∀ u ∈ e.type?, ∃ j ∈ joined, j.Absorbs u) ∧
      (joined = common ∨ joined = e.type?) := by
  unfold joinType at h
  split at h
  · next hnone =>
    cases h
    exact ⟨fun c hc => ⟨c, hc, SqlType.promote_self c⟩, by simp [hnone], .inl rfl⟩
  · next u hu =>
    cases h
    exact ⟨by simp, fun v hv => ⟨v, hu ▸ hv, SqlType.promote_self v⟩, .inr hu.symm⟩
  · next c u hu =>
    split at h
    · next j hj =>
      cases h
      obtain ⟨hc, hjoin⟩ := SqlType.promote_absorbs hj
      refine ⟨by simpa using hc, by simpa [hu] using hjoin, ?_⟩
      rcases SqlType.promote_eq hj with rfl | rfl
      · exact .inl rfl
      · exact .inr hu.symm
    · cases h

/-- The common type of some values absorbs the types of all of them and is one of these. -/
theorem inferCommon_joins {common joined : Option SqlType}
    (h : inferCommon common es = .ok (es', joined)) :
    (∀ c ∈ common, ∃ j ∈ joined, j.Absorbs c) ∧
      (∀ e ∈ es', ∀ u ∈ e.type?, ∃ j ∈ joined, j.Absorbs u) ∧
      (joined = common ∨ ∃ e ∈ es', joined = e.type?) := by
  induction es generalizing es' common with
  | nil =>
    cases h
    exact ⟨fun c hc => ⟨c, hc, SqlType.promote_self c⟩, by simp, .inl rfl⟩
  | cons e es ih =>
    unfold inferCommon at h
    split at h
    · cases h
    · split at h
      · cases h
      · next d _ _ mid hmid =>
        split at h
        · next ds _ hds =>
          cases h
          obtain ⟨hmids, hall, hone⟩ := ih hds
          obtain ⟨hcommon, hd, hor⟩ := joinType_absorbs hmid
          -- what the join so far absorbs is absorbed by the join of all
          have hpass : ∀ u, (∃ j ∈ mid, j.Absorbs u) → ∃ j ∈ joined, j.Absorbs u := by
            rintro u ⟨j, hj, hju⟩
            obtain ⟨k, hk, hkj⟩ := hmids j hj
            exact ⟨k, hk, hkj.trans hju⟩
          refine ⟨fun c hc => hpass c (hcommon c hc), fun x hx u hu => ?_, ?_⟩
          · rcases List.mem_cons.1 hx with rfl | hx
            · exact hpass u (hd u hu)
            · exact hall x hx u hu
          · rcases hone with rfl | ⟨x, hx, hjoined⟩
            · exact hor.imp_right fun h => ⟨d, by simp, h⟩
            · exact .inr ⟨x, by simp [hx], hjoined⟩
        · cases h

theorem inferCoalesce_conforms {name : String}
    (hcs : ∀ c ∈ es, ∀ d, infer c = .ok d → d.Conforms)
    (h : inferCommon none es = .ok (es', some t)) :
    Conforms ⟨.call name (some .coalesce) (es'.map (settle t)), fragment, some t⟩ := by
  obtain ⟨-, hall, hone⟩ := inferCommon_joins h
  have hscalars := inferCommon_ok h
  have hsettled : ∀ d ∈ es', ∃ u, (d.settle t).HasType u ∧ t.Absorbs u := by
    intro d hd
    obtain ⟨c, hc, hcd⟩ := forall₂_exists_left hscalars hd
    have hinfer := scalar_inferred hcd
    have hshape := scalar_inferred_shape hcd
    -- only a parameter can be left without a type, and settling gives it the common one
    cases htype : d.type? with
    | none =>
      have hparameter := (hcs c hc d hinfer).isUntypedParameter hshape htype
      exact ⟨t, by simpa [settle, hparameter] using .withType hshape t, SqlType.promote_self t⟩
    | some u =>
      have hu : d.HasType u := ⟨hshape, htype⟩
      obtain ⟨j, hj, habsorbs⟩ := hall d hd u htype
      obtain rfl : j = t := (Option.some.inj hj).symm
      exact ⟨u, (hu.settle j).symm ▸ hu, habsorbs⟩
  refine .coalesce ?_ (by simpa using hsettled) name fragment
  obtain ⟨d, hd, htype⟩ := hone.resolve_left (by simp)
  obtain ⟨u, hu, -⟩ := hsettled d hd
  -- an item that has the common type is not settled again
  have hstays : d.settle t = d := by
    simp [settle, isUntypedParameter, ← htype]
  obtain rfl : u = t := by
    rw [hstays] at hu
    exact Option.some.inj (hu.type.symm.trans htype.symm)
  exact ⟨_, List.mem_map_of_mem hd, hu⟩

theorem inferCall_conforms {name : String} {builtin : Option Builtin} {type : Option SqlType}
    (hcs : ∀ c ∈ es, ∀ d, infer c = .ok d → d.Conforms)
    (h : infer ⟨.call name builtin es, fragment, type⟩ = .ok e') : e'.Conforms := by
  cases builtin with
  | none => cases h
  | some builtin =>
    by_cases hb : builtin = .coalesce
    · subst hb
      unfold infer at h
      split at h
      · cases h
      · split at h
        · cases h
        · cases h
        · next hds =>
          cases h
          exact inferCoalesce_conforms hcs hds
    · by_cases hlength : es.length = 1
      · obtain ⟨c, rfl⟩ := List.length_eq_one_iff.1 hlength
        rw [infer_call_single hb] at h
        split at h
        · cases h
        · next d hd =>
          split at h
          · next ht =>
            cases h
            exact typeSingle_conforms hb (scalar_inferred_shape hd) ht name
          · cases h
      · rw [infer_call_degree hb name hlength] at h
        cases h

/-- Inference makes a node that conforms, if it does so of the operands. -/
theorem infer_conforms (hcs : ∀ c ∈ e.children, ∀ d, infer c = .ok d → d.Conforms)
    (hquery : ∀ plan, e.kind = .query .scalar plan → plan.columns.length = 1)
    (h : infer e = .ok e') : e'.Conforms := by
  obtain ⟨kind, fragment, type⟩ := e
  cases kind with
  | constant value =>
    cases h
    exact .constant value fragment
  | parameter marker =>
    cases h
    exact .parameter marker fragment type
  | column ref =>
    unfold infer at h
    split at h
    · next hb =>
      cases h
      exact .column hb fragment
    · cases h
  | defaultMarker =>
    cases h
    exact .defaultMarker fragment
  | row items =>
    unfold infer at h
    split at h
    · cases h
      exact .row _ fragment
    · cases h
  | values rows =>
    unfold infer at h
    split at h
    · cases h
      exact .values _ fragment
    · cases h
  | pending shape body => cases h
  | query shape plan =>
    cases shape with
    | scalar =>
      cases h
      obtain ⟨c, hc⟩ := List.length_eq_one_iff.1 (hquery plan rfl)
      simpa [hc] using Conforms.scalarQuery hc fragment
    | row degree =>
      cases h
      exact .rowQuery degree plan fragment
  | diagnostics item =>
    cases item with
    | rowCount =>
      cases h
      exact .rowCount fragment
    | more =>
      cases h
      exact .more fragment
  | unary op operand =>
    unfold infer at h
    split at h
    · cases h
    · next d hd =>
      split at h
      · next ht =>
        cases h
        exact typeUnary_conforms (scalar_inferred_shape hd) ht
      · cases h
  | binary op left right =>
    unfold infer at h
    split at h
    · cases h
    · next l hl =>
      split at h
      · cases h
      · next r hr =>
        exact typeBinary_conforms (scalar_inferred_shape hl) (scalar_inferred_shape hr) h
  | isNull operand negated =>
    unfold infer at h
    split at h
    · cases h
    · next d hd =>
      split at h
      · next ht =>
        cases h
        exact .isNull ⟨scalar_inferred_shape hd, ht⟩ negated fragment
      · cases h
  | call name builtin arguments => exact inferCall_conforms hcs h

/-- Inference makes an expression that conforms, if its subqueries do. -/
theorem infer_conforming (hb : e.Each (CompiledTo Plan.Conforming)) (h : infer e = .ok e') : e'.Conforming := by
  induction hb generalizing e' with
  | @intro e hnode _ ih =>
    have hi := infer_ok h
    refine .intro (infer_conforms (fun c hc d hd => (ih c hc hd).node)
      (fun plan hk => (hnode .scalar plan hk).1) h) (fun c' hc' => ?_) fun shape plan hk => ?_
    · obtain ⟨c, hc, d, hd, hs, hor⟩ := forall₂_exists_left hi.children hc'
      have hconforming := ih c hc hd
      rcases hs with rfl | ⟨hnone, t, rfl⟩
      · exact hconforming
      · rcases hor with heq | hscalar
        · exact heq ▸ hconforming
        · have hshape := (infer_alike hd).shape.trans hscalar
          exact .withType (hconforming.node.isUntypedParameter hshape hnone) t
    · rw [hi.kind, withChildren_eq_query] at hk
      exact (hnode shape plan hk).2

/-! ## Conditions -/

/-- A truth value or NULL of which every node conforms. -/
structure IsCondition (e : Expr) : Prop where
  conforming : e.Conforming
  logical : ∃ t, e.HasType t ∧ isLogical t = true

theorem inferCondition_condition (hb : e.Each (CompiledTo Plan.Conforming)) (h : inferCondition e = .ok e') :
    e'.IsCondition := by
  unfold inferCondition at h
  split at h
  · cases h
  · next d hd =>
    have hconforming := infer_conforming hb (scalar_inferred hd)
    have hshape := scalar_inferred_shape hd
    split at h
    · next hnone =>
      cases h
      have hparameter := hconforming.node.isUntypedParameter hshape hnone
      exact ⟨.withType hparameter .boolean, .boolean, .withType hshape .boolean, rfl⟩
    · next htype =>
      cases h
      exact ⟨hconforming, .boolean, ⟨hshape, htype⟩, rfl⟩
    · cases h

theorem always_condition : always.IsCondition :=
  ⟨.intro (.constant _ _) (fun _ hc => by cases hc) (by simp [always, literal]), .boolean, ⟨rfl, rfl⟩,
    rfl⟩

/-- A conjunction is a condition if its sides are. -/
theorem conjunctive_condition : Conjunctive IsCondition where
  split {left right fragment type} h := by
    have hsides := h.conforming.children
    have hlogical : ∀ {l r t : SqlType}, resultType .and l r fragment = .ok t →
        isLogical l = true ∧ isLogical r = true := by
      intro l r t ht
      unfold resultType at ht
      simp only [BinaryOp.isLogical, ↓reduceIte] at ht
      split at ht
      · next hsides => exact Bool.and_eq_true_iff.1 hsides
      · cases ht
    cases h.conforming.node with
    | binary hl hr ht =>
      obtain ⟨hleft, hright⟩ := hlogical ht
      exact ⟨⟨hsides left (by simp [Expr.children]), _, hl, hleft⟩,
        ⟨hsides right (by simp [Expr.children]), _, hr, hright⟩⟩
  join {left right} hl hr := by
    obtain ⟨l, hlt, hleft⟩ := hl.logical
    obtain ⟨r, hrt, hright⟩ := hr.logical
    have htype : resultType .and l r (left.fragment.withText "AND") = .ok .boolean := by
      simp [resultType, BinaryOp.isLogical, hleft, hright]
    refine ⟨.intro (.binary hlt hrt htype) ?_ (by simp [and]), .boolean, ⟨rfl, rfl⟩, rfl⟩
    simpa [and, Expr.children] using ⟨hl.conforming, hr.conforming⟩

end Expr

end DataChange
