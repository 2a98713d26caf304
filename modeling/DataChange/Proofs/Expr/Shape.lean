import DataChange.Expr.Typing
import DataChange.Proofs.Expr.Tree
import Mathlib.Data.List.Forall2

/-!
# The shape of a value

Whether an expression is a single value, DEFAULT, a row or a subquery for a row is seen in its
outermost node, and nothing that happens to it after it is read changes this. `Alike` says that two
expressions have the same shape, and their operands too.
-/

namespace DataChange

/-- Two lists that are related through a third. -/
theorem forall₂_comp {α β γ : Type} {R : α → β → Prop} {S : β → γ → Prop} {T : α → γ → Prop}
    {as : List α} {bs : List β} {cs : List γ} (h : List.Forall₂ R as bs) (k : List.Forall₂ S bs cs)
    (hT : ∀ a ∈ as, ∀ b c, R a b → S b c → T a c) : List.Forall₂ T as cs := by
  induction h generalizing cs with
  | nil =>
    cases k
    exact .nil
  | cons hab _ ih =>
    cases k with
    | cons hbc hrest =>
      exact .cons (hT _ (by simp) _ _ hab hbc) (ih hrest fun a ha => hT a (by simp [ha]))

theorem forall₂_exists_left {α β : Type} {R : α → β → Prop} {as : List α} {bs : List β}
    (h : List.Forall₂ R as bs) {b : β} (hb : b ∈ bs) : ∃ a ∈ as, R a b := by
  induction h with
  | nil => cases hb
  | cons hab _ ih =>
    rcases List.mem_cons.1 hb with rfl | hb
    · exact ⟨_, by simp, hab⟩
    · obtain ⟨a, ha, hr⟩ := ih hb
      exact ⟨a, by simp [ha], hr⟩

theorem forall₂_exists_right {α β : Type} {R : α → β → Prop} {as : List α} {bs : List β}
    (h : List.Forall₂ R as bs) {a : α} (ha : a ∈ as) : ∃ b ∈ bs, R a b :=
  forall₂_exists_left h.flip ha

theorem forall₂_imp_mem {α β : Type} {R S : α → β → Prop} {as : List α} {bs : List β}
    (h : List.Forall₂ R as bs) (himp : ∀ a ∈ as, ∀ b ∈ bs, R a b → S a b) : List.Forall₂ S as bs := by
  induction h with
  | nil => exact .nil
  | cons hab _ ih =>
    exact .cons (himp _ (by simp) _ (by simp) hab)
      (ih fun a ha b hb => himp a (by simp [ha]) b (by simp [hb]))

/-- What an expression stands for where a value is expected. -/
inductive Shape where
  | scalar
  | default
  | row (length : Nat)
  /-- A list of rows. -/
  | rows
  /-- A subquery for a row. -/
  | query (degree : Nat)
  deriving DecidableEq

/-- The number of values in a shape. -/
def Shape.degree : Shape → Nat
  | row length => length
  | query degree => degree
  | _ => 1

/-- Whether it is a shape that is read within an expression. -/
def Shape.isPlain : Shape → Bool
  | scalar | default => true
  | row length => 0 < length
  | rows | query _ => false

namespace Expr

def shape (e : Expr) : Shape :=
  match e.kind with
  | .defaultMarker => .default
  | .row items => .row items.length
  | .values _ => .rows
  | .pending (.row degree) _ | .query (.row degree) _ => .query degree
  | _ => .scalar

variable {e e' : Expr}

theorem degree_eq (e : Expr) : e.degree = e.shape.degree := by
  obtain ⟨kind, fragment, type⟩ := e
  cases kind with
  | pending shape => cases shape <;> rfl
  | query shape => cases shape <;> rfl
  | _ => rfl

theorem shape_of_isUntypedParameter (h : e.isUntypedParameter = true) : e.shape = .scalar := by
  obtain ⟨kind, fragment, type⟩ := e
  cases kind <;> first | rfl | cases h

theorem isDefault_iff : e.isDefault = true ↔ e.shape = .default := by
  obtain ⟨kind, fragment, type⟩ := e
  cases kind with
  | pending shape => cases shape <;> simp [isDefault, shape]
  | query shape => cases shape <;> simp [isDefault, shape]
  | _ => simp [isDefault, shape]

theorem isRow_iff : e.isRow = true ↔ ∃ length, e.shape = .row length := by
  obtain ⟨kind, fragment, type⟩ := e
  cases kind with
  | pending shape => cases shape <;> simp [isRow, shape]
  | query shape => cases shape <;> simp [isRow, shape]
  | _ => simp [isRow, shape]

theorem shape_eq_row {length : Nat} :
    e.shape = .row length ↔ ∃ items, e.kind = .row items ∧ items.length = length := by
  obtain ⟨kind, fragment, type⟩ := e
  cases kind with
  | pending shape => cases shape <;> simp [shape]
  | query shape => cases shape <;> simp [shape]
  | _ => simp [shape]

theorem shape_eq_rows : e.shape = .rows ↔ ∃ rows, e.kind = .values rows := by
  obtain ⟨kind, fragment, type⟩ := e
  cases kind with
  | pending shape => cases shape <;> simp [shape]
  | query shape => cases shape <;> simp [shape]
  | _ => simp [shape]

/-- A single value is what may stand under an operator. -/
theorem checkScalar_ok : checkScalar e = .ok () ↔ e.shape = .scalar := by
  obtain ⟨kind, fragment, type⟩ := e
  cases kind with
  | pending shape => cases shape <;> simp [checkScalar, shape]
  | query shape => cases shape <;> simp [checkScalar, shape]
  | _ => simp [checkScalar, shape]

@[simp] theorem shape_withType (e : Expr) (t : SqlType) : (e.withType t).shape = e.shape := rfl

@[simp] theorem children_withType (e : Expr) (t : SqlType) :
    (e.withType t).children = e.children := rfl

theorem shape_withChildren {cs : List Expr} (h : cs.length = e.children.length) :
    (e.withChildren cs).shape = e.shape := by
  obtain ⟨kind, fragment, type⟩ := e
  cases kind <;> simp only [children, List.length_cons, List.length_nil] at h
  case unary | isNull =>
    obtain ⟨c, rfl⟩ := List.length_eq_one_iff.1 h
    rfl
  case binary =>
    obtain ⟨c, d, rfl⟩ := List.length_eq_two.1 h
    rfl
  case row =>
    show Shape.row cs.length = Shape.row _
    rw [h]
  all_goals rfl

/-! ## Expressions of one shape -/

/-- Two expressions of one shape, with operands of the same shapes. -/
inductive Alike : Expr → Expr → Prop
  | intro {e e' : Expr} (shape : e'.shape = e.shape)
      (children : List.Forall₂ Alike e.children e'.children) : Alike e e'

namespace Alike

theorem shape (h : Alike e e') : e'.shape = e.shape := by
  cases h with
  | intro shape _ => exact shape

theorem children (h : Alike e e') : List.Forall₂ Alike e.children e'.children := by
  cases h with
  | intro _ children => exact children

theorem refl (e : Expr) : Alike e e := by
  induction e using induct with
  | h e ih => exact .intro rfl (List.forall₂_same.2 ih)

theorem trans {e e' e'' : Expr} (h : Alike e e') (k : Alike e' e'') : Alike e e'' := by
  induction e using induct generalizing e' e'' with
  | h e ih =>
    exact .intro (k.shape.trans h.shape)
      (forall₂_comp h.children k.children fun c hc _ _ hcd hde => ih c hc hcd hde)

theorem withType (e : Expr) (t : SqlType) : Alike e (e.withType t) :=
  .intro rfl (refl e).children

theorem withChildren {cs : List Expr} (h : List.Forall₂ Alike e.children cs) :
    Alike e (e.withChildren cs) := by
  refine .intro (shape_withChildren h.length_eq.symm) ?_
  rw [children_withChildren h.length_eq.symm]
  exact h

theorem asColumn (e : Expr) (t : SqlType) (writeable : Bool) : Alike e (e.asColumn t writeable) := by
  obtain ⟨kind, fragment, type⟩ := e
  cases kind with
  | parameter marker => exact .intro rfl .nil
  | _ => exact refl _

end Alike

/-- Every node has a shape that is read within an expression. -/
abbrev Regular (e : Expr) : Prop :=
  Each (fun n => n.shape.isPlain = true) e

theorem Regular.alike (h : Regular e) (k : Alike e e') : Regular e' := by
  induction h generalizing e' with
  | @intro e hnode _ ih =>
    refine .intro (k.shape ▸ hnode) fun c' hc' => ?_
    obtain ⟨c, hc, hcc⟩ := forall₂_exists_left k.children hc'
    exact ih c hc hcc

theorem Regular.degree_pos (h : Regular e) : 0 < e.degree := by
  have hs := h.node
  rw [degree_eq]
  cases hk : e.shape <;> simp_all [Shape.degree, Shape.isPlain]

/-- Only a row has several values. -/
theorem Regular.degree_eq_one (h : Regular e) (hrow : ¬ e.isRow = true) : e.degree = 1 := by
  have hs := h.node
  rw [isRow_iff] at hrow
  rw [degree_eq]
  cases hk : e.shape <;> simp_all [Shape.degree, Shape.isPlain]

end Expr

end DataChange
