import DataChange.Proofs.Expr.Lookup
import DataChange.Proofs.Statement.BaseTable

/-!
# The proposed row

The assignments of an upsert see two rows with the same columns: that of the table and that which is
proposed. A reference that names no column of the proposed row means the same as without it
(`agree_of_not_proposes`), and only such a reference does (`not_proposes_of_bound`).
-/

namespace DataChange

/-! ## The proposed row -/

/-- Whether a reference names a column of the row that an INSERT into a table proposes. -/
def Table.proposes (table : Table) (ref : ColumnRef) : Bool :=
  ref.qualifier.all (Text.sameName newRowName) &&
    table.columns.any fun c => Text.sameName c.name ref.name

namespace Scope

theorem matchRange_fragment (qualifier : Option String) (name : String) (r : Range) (f : Fragment) :
    matchRange qualifier name { r with fragment := f } = matchRange qualifier name r := by
  cases h : r.columnIndex? name with
  | none =>
    have h' : Range.columnIndex? { r with fragment := f } name = none := h
    simp only [matchRange, h, h']
    rfl
  | some column =>
    have h' : Range.columnIndex? { r with fragment := f } name = some column := h
    simp only [matchRange, h, h']
    rfl

end Scope

section

variable {table : Table} {ref ref' : ColumnRef} {id newId : Nat} {f f' g : Fragment}
  {outer : List RangeGroup}

/-- The scope of the assignments of an upsert. -/
def Table.upsertScope (table : Table) (id newId : Nat) (f g : Fragment) (outer : List RangeGroup) :
    Scope :=
  ⟨[table.range id f, Insert.newRow newId (table.range id f) g], outer⟩

theorem isSome_matchRange_newRow :
    (Scope.matchRange ref.qualifier ref.name (Insert.newRow newId (table.range id f) g)).isSome =
      table.proposes ref := by
  rw [Scope.isSome_matchRange]
  show (_ && (table.columns.map Column.toAttribute).any _) = _
  rw [List.any_map]
  rfl

theorem agree_of_not_proposes (h : table.proposes ref = false) :
    Expr.Agree ⟨[table.range id f], outer⟩ (table.upsertScope id newId f' g outer) ref := by
  intro p p' found hfound
  have hnone : Scope.matchRange ref.qualifier ref.name
      (Insert.newRow newId (table.range id f') g) = none := by
    rw [← Option.not_isSome_iff_eq_none, isSome_matchRange_newRow, h]
    simp
  have hsame : Scope.matchRange ref.qualifier ref.name (table.range id f') =
      Scope.matchRange ref.qualifier ref.name (table.range id f) :=
    Scope.matchRange_fragment _ _ (table.range id f) f'
  refine Expr.lookupFirst_copied (f := p) ?_ p'
  rw [← hfound]
  simp only [Scope.lookup, Scope.groups, Table.upsertScope, Scope.lookupFirst, Scope.lookupIn,
    List.filterMap_cons, hnone, hsame, List.filterMap_nil]

theorem Expr.BoundIn.lookup {scope : Scope} (hraw : ref.binding = none)
    (h : Expr.BoundIn scope ref ref') :
    ∃ p b, scope.lookup ref p = .ok (some b) ∧ ref'.binding = some b := by
  obtain ⟨p, h⟩ := h
  unfold Expr.bindColumn at h
  rw [hraw] at h
  dsimp only at h
  split at h
  · cases h
  · next b hb =>
    cases h
    exact ⟨p, b, hb, rfl⟩
  · cases h

/-- What an upsert binds a reference to that names a column of the proposed row. -/
theorem range_of_proposes {p : Fragment} {b : Binding} (hproposes : table.proposes ref = true)
    (h : (table.upsertScope id newId f g outer).lookup ref p = .ok (some b)) : b.range = newId := by
  have hfound : (Scope.matchRange ref.qualifier ref.name
      (Insert.newRow newId (table.range id f) g)).isSome = true :=
    isSome_matchRange_newRow.trans hproposes
  obtain ⟨b', hb'⟩ := Option.isSome_iff_exists.1 hfound
  simp only [Scope.lookup, Scope.groups, Table.upsertScope, Scope.lookupFirst, Scope.lookupIn,
    List.filterMap_cons, hb', List.filterMap_nil] at h
  cases hw : Scope.matchRange ref.qualifier ref.name (table.range id f) with
  | some b₀ => simp [hw] at h
  | none =>
    simp only [hw, Except.ok.injEq, Option.some.injEq] at h
    exact h ▸ Scope.range_matchRange hb'

/-- A reference bound to the same column in both scopes names no column of the proposed row. -/
theorem not_proposes_of_bound (hraw : ref.binding = none)
    (hid : id < newId) (houter : ∀ group ∈ outer, ∀ r ∈ group, r.id < newId)
    (h : Expr.BoundIn ⟨[table.range id f], outer⟩ ref ref')
    (h' : Expr.BoundIn (table.upsertScope id newId f' g outer) ref ref') :
    table.proposes ref = false := by
  obtain ⟨p, b, hb, hbinding⟩ := h.lookup hraw
  obtain ⟨p', b', hb', hbinding'⟩ := h'.lookup hraw
  obtain rfl : b = b' := Option.some.inj (hbinding.symm.trans hbinding')
  rw [← Bool.not_eq_true]
  intro hproposes
  have hnew := range_of_proposes hproposes hb'
  obtain ⟨columns, -, hvisible, -⟩ := Scope.lookup_in hb
  simp only [Scope.headings, List.singleton_append, List.map_cons, List.mem_cons,
    List.mem_map] at hvisible
  rcases hvisible with heq | ⟨r, hr, heq⟩
  · have : b.range = id := congrArg Prod.fst heq
    omega
  · obtain ⟨group, hgroup, hr⟩ := List.mem_flatten.1 hr
    have hlt := houter group hgroup r hr
    have : r.id = b.range := congrArg Prod.fst heq
    omega

end

/-! ## References of a SET clause -/

theorem forall₂_both {α β : Type} {R S : α → β → Prop} {as : List α} {bs : List β}
    (h : List.Forall₂ R as bs) (k : List.Forall₂ S as bs) :
    List.Forall₂ (fun a b => R a b ∧ S a b) as bs := by
  rw [List.forall₂_iff_zip] at h k ⊢
  exact ⟨h.1, fun hz => ⟨h.2 hz, k.2 hz⟩⟩

namespace Expr

variable {env : Environment} {scope scope' : Scope} {s t u v : CompilerState}

theorem BoundIn.proposes {table : Table} {ref ref' : ColumnRef} (h : BoundIn scope ref ref') :
    table.proposes ref' = table.proposes ref := by
  obtain ⟨p, h⟩ := h
  unfold bindColumn at h
  split at h
  · cases h
    rfl
  · split at h
    · cases h
    · cases h
      rfl
    · cases h

theorem Flat.each_references {P : ColumnRef → Prop} {e : Expr} (hflat : Flat e)
    (h : ∀ ref ∈ e.references, P ref) : Each (fun n => ∀ ref, n.kind = .column ref → P ref) e := by
  induction e using induct with
  | h e ih =>
    rw [hflat.references] at h
    refine .intro (fun ref hk => h ref ?_) fun c hc => ?_
    · simp [column?, hk]
    · refine ih c hc (hflat.children c hc) fun ref href => h ref ?_
      exact List.mem_append_left _ (List.mem_flatMap.2 ⟨c, hc, href⟩)

/-- The references of assigned values are those of the values as they were read, bound. -/
theorem assigned_references {target : ViewTarget} {map : ColumnMap} {values values₁ : List Expr}
    {a : Assignments} (hflat : ∀ e ∈ values, e.Flat)
    (hresolve : values.mapM (fun value => value.resolve env scope) s = .ok values₁ t)
    (hassign : target.assign map values₁ u = .ok a v) :
    List.Forall₂ (BoundIn scope) (values.flatMap references) (a.values.flatMap references) := by
  have hvalues : List.Forall₂ (fun e e' => List.Forall₂ (BoundIn scope) e.references e'.references)
      values a.values := by
    refine forall₂_comp (mapM_forall₂ hresolve) (ViewTarget.assign_ok hassign).1 ?_
    rintro e he e₁ e' ⟨s, t, hs⟩ hassigned
    obtain ⟨b, hb, hinfer⟩ := resolveWith_ok hs
    rw [hassigned.references, infer_references hinfer]
    exact bindIn_references (hflat e he) hb
  exact List.rel_flatMap hvalues fun _ _ h => h

theorem Raw.references {e : Expr} (h : Raw e) : ∀ ref ∈ e.references, ref.binding = none := by
  intro ref href
  obtain ⟨n, hn, hcolumn⟩ := List.mem_filterMap.1 href
  have hraw := raw_iff.1 h n hn
  obtain ⟨kind, fragment, type⟩ := n
  cases kind with
  | column ref' =>
    obtain rfl : ref' = ref := Option.some.inj hcolumn
    exact Option.isNone_iff_eq_none.1 hraw
  | _ => cases hcolumn

theorem copied_flat {es es' : List Expr} (h : List.Forall₂ (Copied false) es es') :
    (∀ e ∈ es, e.Flat) ∧ ∀ e ∈ es', e.Flat := by
  constructor
  · intro e he
    obtain ⟨e', -, hcopy⟩ := forall₂_exists_right h he
    exact hcopy.flat.1
  · intro e' he'
    obtain ⟨e, -, hcopy⟩ := forall₂_exists_left h he'
    exact hcopy.flat.2

/-- Copies of values have the references of the values. -/
theorem copied_references {es es' : List Expr} (h : List.Forall₂ (Copied false) es es') :
    es'.flatMap references = es.flatMap references :=
  flatMap_references (h.imp fun _ _ h => h.references)

end Expr

end DataChange
