import DataChange.ColumnPolicy
import DataChange.Proofs.Copy.References
import DataChange.Proofs.Copy.Typed
import DataChange.Query
import DataChange.Statement.Insert

/-!
# Copied expressions after they are read

A copy of an expression is resolved and assigned like the expression itself, as long as its
references are looked up alike (`Expr.resolveWith_mirrors`, `ViewTarget.assign_mirrors`). Where an
exact copy stands does not matter for what its subqueries are compiled to.
-/

namespace DataChange

/-! ## Steps of the compiler -/

namespace Mirrors

variable {P : Pairing CompilerState} {α β γ δ : Type}

theorem lift_except {R : α → β → Prop} {x : Except Error α} {y : Except Error β}
    (h : ∀ a, x = .ok a → ∃ b, y = .ok b ∧ R a b) :
    Mirrors P 0 R (liftM x : Compiler α) (liftM y : Compiler β) := by
  intro s s' a t hs hx
  obtain ⟨ha, rfl⟩ := lift_except_ok.1 hx
  obtain ⟨b, hy, hab⟩ := h a ha
  exact ⟨b, s', lift_except_ok.2 ⟨hy, rfl⟩, hab, hs, Nat.le_refl _⟩

theorem inRange (x : Option α) :
    Mirrors P 0 (· = ·) (DataChange.inRange x : Compiler α) (DataChange.inRange x) := by
  intro s s' a t hs hx
  obtain ⟨ha, rfl⟩ := inRange_ok.1 hx
  exact ⟨a, s', inRange_ok.2 ⟨ha, rfl⟩, rfl, hs, Nat.le_refl _⟩

theorem mapM {ε σ : Type} {P : Pairing σ} {R : α → β → Prop} {S : γ → δ → Prop}
    {f : α → EStateM ε σ γ} {g : β → EStateM ε σ δ} {as : List α} {bs : List β}
    (h : List.Forall₂ R as bs) (hf : ∀ a ∈ as, ∀ b, R a b → Mirrors P 0 S (f a) (g b)) :
    Mirrors P 0 (List.Forall₂ S) (as.mapM f) (bs.mapM g) := by
  induction h with
  | nil => exact .pure .nil
  | cons hab _ ih =>
    simp only [List.mapM_cons]
    refine (hf _ (by simp) _ hab).bind fun c d hcd => ?_
    refine (ih fun a ha => hf a (by simp [ha])).bind fun cs ds hcds => ?_
    exact .pure (.cons hcd hcds)

end Mirrors

namespace Expr

variable {exact : Bool} {P : Pairing CompilerState} {compile : QueryCompiler}
  {scope scope' : Scope}

/-! ## Binding -/

/-- Two scopes in which a reference stands for the same column. -/
def Agree (scope scope' : Scope) (ref : ColumnRef) : Prop :=
  ∀ f f' found, scope.lookup ref f = .ok found → scope'.lookup ref f' = .ok found

theorem lookupFirst_copied {ref : ColumnRef} {f : Fragment} {groups : List RangeGroup}
    {found : Option Binding} (h : Scope.lookupFirst ref f groups = .ok found) (f' : Fragment) :
    Scope.lookupFirst ref f' groups = .ok found := by
  induction groups with
  | nil => exact h
  | cons group groups ih =>
    unfold Scope.lookupFirst Scope.lookupIn at h ⊢
    cases hmatches : group.filterMap (Scope.matchRange ref.qualifier ref.name) with
    | nil =>
      simp only [hmatches] at h ⊢
      exact ih h
    | cons b bs =>
      cases bs with
      | nil => simpa only [hmatches] using h
      | cons => simp only [hmatches, reduceCtorEq] at h

theorem Agree.refl (scope : Scope) (ref : ColumnRef) : Agree scope scope ref :=
  fun _ f' _ h => lookupFirst_copied h f'

theorem Each.of_forall {Q : Expr → Prop} (h : ∀ e, Q e) (e : Expr) : Each Q e := by
  induction e using induct with
  | h e ih => exact .intro (h e) ih

/-- An exact copy is bound in the same scope, and its subqueries are compiled alike. -/
def BindsExactly (exact : Bool) (P : Pairing CompilerState) (compile : QueryCompiler)
    (scope scope' : Scope) : Prop :=
  exact = true → scope' = scope ∧
    ∀ body outer, Mirrors P 0 (· = ·) (compile body outer) (compile body outer)

theorem bindColumn_copied {ref ref' : ColumnRef} {f : Fragment} {free : List FreeColumn}
    (hagree : Agree scope scope' ref) (f' : Fragment)
    (h : bindColumn scope ref f = .ok (ref', free)) :
    ∃ free', bindColumn scope' ref f' = .ok (ref', free') ∧ free'.length = free.length := by
  unfold bindColumn at h ⊢
  split at h
  · next hbinding =>
    cases h
    exact ⟨[], rfl, rfl⟩
  · next hbinding =>
    split at h
    · cases h
    · next hlookup =>
      cases h
      exact ⟨[], by simp only [hagree f f' _ hlookup], rfl⟩
    · next hlookup =>
      cases h
      exact ⟨[⟨ref.text, f'⟩], by simp only [hagree f f' _ hlookup], rfl⟩

theorem findBuiltin_copied {name : String} {builtin : Option Builtin} {f : Fragment}
    {found : Builtin} (h : findBuiltin name builtin f = .ok found) (f' : Fragment) :
    findBuiltin name builtin f' = .ok found := by
  unfold findBuiltin at h ⊢
  split at h
  · exact h
  · split at h
    · exact h
    · cases h

theorem compilePending_mirrors
    (hcompile : ∀ body outer, Mirrors P 0 (· = ·) (compile body outer) (compile body outer))
    {shape : QueryShape} {body : List Token} {f : Fragment} :
    Mirrors P 0 (· = ·) (compilePending compile scope shape body f)
      (compilePending compile scope shape body f) := by
  refine (Mirrors.lift_except (R := (· = ·)) fun a ha => ⟨a, ha, rfl⟩).bind fun outer _ houter => ?_
  subst houter
  refine (hcompile body outer).bind fun plan _ hplan => ?_
  subst hplan
  split
  · exact .pure rfl
  · exact .reject _

theorem bindListIn_mirrors {es es' : List Expr} (h : List.Forall₂ (Copied exact) es es')
    (ih : ∀ e ∈ es, ∀ e', e.Copied exact e' →
      Mirrors P 0 (fun b b' => b.1.Copied exact b'.1 ∧ b'.2.length = b.2.length)
        (bindIn compile scope e) (bindIn compile scope' e')) :
    Mirrors P 0 (fun b b' => List.Forall₂ (Copied exact) b.1 b'.1 ∧ b'.2.length = b.2.length)
      (bindListIn compile scope es) (bindListIn compile scope' es') := by
  induction h with
  | nil => exact .pure ⟨.nil, rfl⟩
  | cons he _ ihs =>
    simp only [bindListIn]
    refine (ih _ (by simp) _ he).bind fun b b' hb => ?_
    refine (ihs fun e he => ih e (by simp [he])).bind fun bs bs' hbs => ?_
    exact .pure ⟨.cons hb.1 hbs.1, by simp [hb.2, hbs.2]⟩

theorem bindIn_mirrors (hexact : BindsExactly exact P compile scope scope') {e e' : Expr}
    (h : e.Copied exact e')
    (hagree : Each (fun n => ∀ ref, n.kind = .column ref → Agree scope scope' ref) e) :
    Mirrors P 0 (fun b b' => b.1.Copied exact b'.1 ∧ b'.2.length = b.2.length)
      (bindIn compile scope e) (bindIn compile scope' e') := by
  induction e using induct generalizing e' with
  | h e ih =>
    have hlist := bindListIn_mirrors h.children fun c hc c' hcc' =>
      ih c hc hcc' (hagree.children c hc)
    obtain ⟨hkind, hplace⟩ := h
    cases hkind with
    | column ref =>
      simp only [bindIn]
      refine (Mirrors.lift_except (R := fun b b' => b'.1 = b.1 ∧ b'.2.length = b.2.length) ?_).bind
        fun b b' hb => ?_
      · rintro ⟨ref', free⟩ hb
        obtain ⟨free', hb', hfree⟩ := bindColumn_copied (hagree.node ref rfl) _ hb
        exact ⟨_, hb', rfl, hfree⟩
      · obtain ⟨ref₁, free₁⟩ := b
        obtain ⟨ref₂, free₂⟩ := b'
        obtain ⟨rfl, hfree⟩ := hb
        exact .pure ⟨.intro (.column _) hplace, hfree⟩
    | pending he shape body =>
      -- only an exact copy holds a subquery, and there both scopes bind it the same way
      subst he
      obtain ⟨rfl, hcompile⟩ := hexact rfl
      simp only [bindIn, hplace rfl]
      refine Mirrors.bind (compilePending_mirrors hcompile) fun plan _ hplan => ?_
      subst hplan
      exact .pure ⟨.intro (.query rfl shape plan) fun _ => rfl, rfl⟩
    | row items =>
      simp only [bindIn]
      exact hlist.bind fun b b' hb => .pure ⟨.intro (.row hb.1) hplace, hb.2⟩
    | values items =>
      simp only [bindIn]
      exact hlist.bind fun b b' hb => .pure ⟨.intro (.values hb.1) hplace, hb.2⟩
    | call name builtin arguments =>
      simp only [bindIn]
      refine (Mirrors.lift_except (R := (· = ·)) ?_).bind fun found _ hfound => ?_
      · intro found hfound
        exact ⟨found, findBuiltin_copied hfound _, rfl⟩
      · subst hfound
        exact hlist.bind fun b b' hb => .pure ⟨.intro (.call _ _ hb.1) hplace, hb.2⟩
    | unary op operand =>
      simp only [bindIn]
      refine (ih _ (by simp [children]) operand (hagree.children _ (by simp [children]))).bind ?_
      exact fun b b' hb => .pure ⟨.intro (.unary op hb.1) hplace, hb.2⟩
    | isNull operand negated =>
      simp only [bindIn]
      refine (ih _ (by simp [children]) operand (hagree.children _ (by simp [children]))).bind ?_
      exact fun b b' hb => .pure ⟨.intro (.isNull hb.1 negated) hplace, hb.2⟩
    | binary op left right =>
      simp only [bindIn]
      refine (ih _ (by simp [children]) left (hagree.children _ (by simp [children]))).bind
        fun b b' hb => ?_
      refine (ih _ (by simp [children]) right (hagree.children _ (by simp [children]))).bind
        fun d d' hd => ?_
      exact .pure ⟨.intro (.binary op hb.1 hd.1) hplace, by simp [hb.2, hd.2]⟩
    | constant value => exact .pure ⟨.intro (.constant value) hplace, rfl⟩
    | parameter hc hw hi => exact .pure ⟨.intro (.parameter hc hw hi) hplace, rfl⟩
    | defaultMarker => exact .pure ⟨.intro .defaultMarker hplace, rfl⟩
    | query he shape plan => exact .pure ⟨.intro (.query he shape plan) hplace, rfl⟩
    | diagnostics item => exact .pure ⟨.intro (.diagnostics item) hplace, rfl⟩

/-- A copy is resolved like the expression. -/
theorem resolveWith_mirrors (hexact : BindsExactly exact P compile scope scope') {e e' : Expr}
    (h : e.Copied exact e')
    (hagree : Each (fun n => ∀ ref, n.kind = .column ref → Agree scope scope' ref) e) :
    Mirrors P 0 (Copied exact) (resolveWith compile scope e) (resolveWith compile scope' e') := by
  have hbind : Mirrors P 0 (Copied exact) (bindWith compile scope e)
      (bindWith compile scope' e') := by
    refine (bindIn_mirrors hexact h hagree).bind fun b b' hb => ?_
    obtain ⟨b, free⟩ := b
    obtain ⟨b', free'⟩ := b'
    refine (Mirrors.lift_except (R := fun _ _ => True) fun a ha => ?_).bind fun _ _ _ => .pure hb.1
    cases free with
    | nil =>
      obtain rfl := List.length_eq_zero_iff.1 hb.2
      exact ⟨(), rfl, trivial⟩
    | cons => cases ha
  exact hbind.bind fun b b' hb => .lift_except fun t ht => infer_copied hb ht

end Expr

/-! ## The rules for columns -/

namespace ColumnPolicy

variable {P : Pairing CompilerState} {columns : List Column}

theorem checkAssignable_copied {target : SqlType} {e e' : Expr} {column : String}
    (h : e.Copied false e') (hc : Expr.checkAssignable target e column = .ok ()) :
    Expr.checkAssignable target e' column = .ok () := by
  unfold Expr.checkAssignable at hc ⊢
  rw [h.type]
  split at hc
  · split_ifs at hc ⊢
    rfl
  · rfl

theorem assign_copied {column : Column} {e e' d : Expr} (h : e.Copied false e')
    (hd : assign column e = .ok d) : ∃ d', assign column e' = .ok d' ∧ d.Copied false d' := by
  have hcell : Expr.Copied false (if e.isUntypedParameter then e.asColumn column.type false else e)
      (if e'.isUntypedParameter then e'.asColumn column.type false else e') := by
    rw [h.isUntypedParameter]
    split
    · obtain ⟨hkind, hplace⟩ := h
      cases hkind with
      | parameter _ _ hindex => exact .intro (.parameter rfl rfl hindex) hplace
      | _ => exact .intro (by constructor <;> assumption) hplace
    · exact h
  unfold assign at hd ⊢
  dsimp only at hd ⊢
  split at hd
  · next hassignable =>
    cases hd
    rw [checkAssignable_copied hcell hassignable]
    exact ⟨_, rfl, hcell⟩
  · cases hd

theorem checkTarget_copied {column : Column} {isDefault : Bool} {f : Fragment}
    (h : checkTarget column isDefault f = .ok ()) (f' : Fragment) :
    checkTarget column isDefault f' = .ok () := by
  unfold checkTarget at h ⊢
  split_ifs at h ⊢
  rfl

theorem updateCell_copied {column : Column} {e e' d : Expr} (h : e.Copied false e')
    (hd : updateCell column e = .ok d) :
    ∃ d', updateCell column e' = .ok d' ∧ d.Copied false d' := by
  unfold updateCell at hd ⊢
  rw [h.isDefault]
  split at hd
  · cases hd
  · next hcheck =>
    rw [checkTarget_copied hcheck e'.fragment]
    dsimp only
    split at hd
    · next hdefault =>
      cases hd
      exact ⟨e', if_pos hdefault, h⟩
    · next hdefault =>
      rw [if_neg hdefault]
      exact assign_copied h hd

theorem nextSlot_mirrors (slots : List Nat) :
    Mirrors P 0 (· = ·) (nextSlot columns slots) (nextSlot columns slots) := by
  cases slots with
  | nil => exact .throw _
  | cons ordinal slots =>
    refine (Mirrors.inRange _).bind fun column _ hcolumn => ?_
    subst hcolumn
    exact .pure rfl

theorem updateItems_mirrors {es es' : List Expr} (h : List.Forall₂ (Expr.Copied false) es es')
    (slots : List Nat) :
    Mirrors P 0 (fun r r' => List.Forall₂ (Expr.Copied false) r.1 r'.1 ∧ r'.2 = r.2)
      (updateItems columns es slots) (updateItems columns es' slots) := by
  induction h generalizing slots with
  | nil => exact .pure ⟨.nil, rfl⟩
  | cons he _ ih =>
    simp only [updateItems]
    refine (nextSlot_mirrors slots).bind fun slot _ hslot => ?_
    subst hslot
    refine (Mirrors.lift_except fun d hd => updateCell_copied he hd).bind fun d d' hd => ?_
    refine (ih _).bind fun r r' hr => ?_
    obtain ⟨ds, slots₁⟩ := r
    obtain ⟨ds', slots₂⟩ := r'
    obtain ⟨hds, rfl⟩ := hr
    exact .pure ⟨.cons hd hds, rfl⟩

theorem updateValue_mirrors {e e' : Expr} (h : e.Copied false e') (slots : List Nat) :
    Mirrors P 0 (fun r r' => r.1.Copied false r'.1 ∧ r'.2 = r.2)
      (updateValue columns e slots) (updateValue columns e' slots) := by
  have hcell : Mirrors P 0 (fun r r' => r.1.Copied false r'.1 ∧ r'.2 = r.2)
      (do let slot ← nextSlot columns slots
          return (← updateCell slot.1 e, slot.2) : Compiler (Expr × List Nat))
      (do let slot ← nextSlot columns slots
          return (← updateCell slot.1 e', slot.2) : Compiler (Expr × List Nat)) := by
    refine (nextSlot_mirrors slots).bind fun slot _ hslot => ?_
    subst hslot
    refine (Mirrors.lift_except fun d hd => updateCell_copied h hd).bind fun d d' hd => ?_
    exact .pure ⟨hd, rfl⟩
  obtain ⟨hkind, hplace⟩ := h
  cases hkind with
  | row items =>
    refine (updateItems_mirrors items slots).bind fun r r' hr => ?_
    obtain ⟨ds, slots₁⟩ := r
    obtain ⟨ds', slots₂⟩ := r'
    obtain ⟨hds, rfl⟩ := hr
    exact .pure ⟨.intro (.row hds) hplace, rfl⟩
  | query hexact => cases hexact
  | _ => exact hcell

/-- The values of a copied SET clause pass the rules for columns like those of the clause. -/
theorem updateValuesFrom_mirrors {es es' : List Expr}
    (h : List.Forall₂ (Expr.Copied false) es es') (slots : List Nat) :
    Mirrors P 0 (List.Forall₂ (Expr.Copied false)) (updateValuesFrom columns es slots)
      (updateValuesFrom columns es' slots) := by
  induction h generalizing slots with
  | nil => exact .pure .nil
  | cons he _ ih =>
    simp only [updateValuesFrom]
    refine (updateValue_mirrors he slots).bind fun r r' hr => ?_
    obtain ⟨d, slots₁⟩ := r
    obtain ⟨d', slots₂⟩ := r'
    obtain ⟨hd, rfl⟩ := hr
    exact (ih _).bind fun ds ds' hds => .pure (.cons hd hds)

end ColumnPolicy

/-- Copies of values are assigned to the same columns. -/
theorem ViewTarget.assign_mirrors {P : Pairing CompilerState} {target target' : ViewTarget}
    (hrelation : target'.relation = target.relation)
    (hcolumns : target'.columnMap = target.columnMap) (map : ColumnMap) {es es' : List Expr}
    (h : List.Forall₂ (Expr.Copied false) es es') :
    Mirrors P 0 (fun a a' => a' = { a with values := a'.values } ∧
      List.Forall₂ (Expr.Copied false) a.values a'.values) (target.assign map es)
      (target'.assign map es') := by
  unfold assign project checkList
  rw [hrelation, hcolumns]
  refine (Mirrors.inRange _).bind fun map _ hmap => ?_
  subst hmap
  refine (ColumnPolicy.updateValuesFrom_mirrors h _).bind fun ds ds' hds => ?_
  refine (Mirrors.inRange _).bind fun flags _ hflags => ?_
  subst hflags
  exact .pure ⟨rfl, hds⟩

/-! ## States before more tokens -/

/-- States that differ in the tokens that come after those of the first one. -/
def Pairing.states (more : List Token) : Pairing CompilerState where
  Paired s s' := s.cursor.Copied true more s'.cursor ∧ s' = { s with cursor := s'.cursor }
  left s := s.cursor.rest.length

namespace Mirrors

variable {more : List Token} {α β : Type} {R : α → β → Prop} {k : Nat}

theorem lift_parsing {x : Parser α} {y : Parser β} (h : Mirrors (.readings true more) k R x y) :
    Mirrors (.states more) k R (liftM x : Compiler α) (liftM y : Compiler β) := by
  intro s s' a t hs hx
  obtain ⟨hcursor, hstate⟩ := hs
  obtain ⟨r, hr, rfl⟩ := lift_parser_ok.1 hx
  have hpaired : (Pairing.readings true more).Paired s.toReading s'.toReading :=
    ⟨hcursor, fun _ => by rw [hstate]⟩
  obtain ⟨b, r', hr', hab, ⟨hcursor', hparameters⟩, hk⟩ := h hpaired hr
  refine ⟨b, _, lift_parser_run hr', hab, ⟨hcursor', ?_⟩, hk⟩
  rw [hstate]
  obtain ⟨cursor', parameters'⟩ := r'
  obtain rfl : parameters' = r.parameters := hparameters rfl
  rfl

theorem outerGroups :
    Mirrors (.states more) 0 (· = ·) Compiler.outerGroups Compiler.outerGroups := by
  intro s s' groups t hs h
  obtain ⟨rfl, rfl⟩ := outerGroups_ok.1 h
  exact ⟨s.outer, s', outerGroups_ok.2 ⟨by rw [hs.2], rfl⟩, rfl, hs, Nat.le_refl _⟩

theorem onTokens (tokens : List Token) (x : Compiler α) :
    Mirrors (.states more) 0 (· = ·) (Compiler.onTokens tokens x) (Compiler.onTokens tokens x) := by
  intro s s' a t hs h
  obtain ⟨u, hu, rfl⟩ := onTokens_ok.1 h
  refine ⟨a, { u with cursor := s'.cursor }, onTokens_ok.2 ⟨u, ?_, rfl⟩, rfl, ⟨hs.1, rfl⟩,
    Nat.le_refl _⟩
  rw [hs.2]
  exact hu

end Mirrors

end DataChange
