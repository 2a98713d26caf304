import DataChange.Proofs.Marker.Merges
import DataChange.Proofs.Query.Resolved
import DataChange.Proofs.Statement.Assigned

/-!
# Resolved parts of statements

The values, conditions, guards and slices of statements are resolved where they are read, and the
rules for columns keep them so.
-/

namespace DataChange

variable {env : Environment} {scope : Scope} {outer : List RangeGroup} {s t : CompilerState}

theorem mapM_resolved : ∀ {es es' : List Expr} {s t : CompilerState}, (∀ e ∈ es, e.Raw) →
    es.mapM (fun e => e.resolve env scope) s = .ok es' t →
    ∀ e ∈ es', e.Resolved (Issued s.nextRange t.nextRange) scope.headings
  | [], _, _, _, _, h => by
    obtain ⟨rfl, -⟩ := pure_ok.1 h
    simp
  | e :: es, es', s, t, hraw, h => by
    simp only [List.mapM_cons, bind_ok, pure_ok] at h
    obtain ⟨e', u, he, es'', _, hes, rfl, rfl⟩ := h
    have hsu := (Expr.resolveWith_resolves (Query.compileTokens_resolves env) he).ranges
    have hut := (mapM_resolves (fun _ _ _ _ h =>
      Expr.resolveWith_resolves (Query.compileTokens_resolves env) h) hes).ranges
    intro x hx
    rcases List.mem_cons.1 hx with rfl | hx
    · exact (Expr.resolve_resolved (hraw e (by simp)) he).mono
        (Issued.mono (Nat.le_refl _) hut) (List.Subset.refl _)
    · exact (mapM_resolved (fun e he => hraw e (by simp [he])) hes x hx).mono
        (Issued.mono hsu (Nat.le_refl _)) (List.Subset.refl _)

/-! ## Slices -/

/-- A slice whose keys see some ranges, and whose bounds see fewer. -/
structure Slice.Resolved (I : Nat → Prop) (visible around : List Heading) (slice : Slice) :
    Prop where
  keys : ∀ k ∈ slice.orderBy, k.key.Resolved I visible
  bounds : ∀ e ∈ slice.limit :: slice.offset.toList, e.Typed I around

namespace Slice

theorem typeBound_typed {I : Nat → Prop} {visible : List Heading} {e e' : Expr}
    (h : typeBound e = .ok e') (he : e.Resolved I visible) : e'.Typed I visible := by
  unfold typeBound at h
  split at h
  · split at h
    · next huntyped =>
      cases h
      exact ⟨he.asColumn _ _, by simp [Expr.type_asColumn huntyped]⟩
    · cases h
  · next htype =>
    split at h
    · cases h
      exact ⟨he, by simp [htype]⟩
    · cases h

theorem readBound_typed {e : Expr} (h : readBound env outer s = .ok e t) :
    e.Typed (Issued s.nextRange t.nextRange) (outer.flatten.map Range.heading) := by
  obtain ⟨bound, s₁, bound', hparse, hresolve, htype⟩ := readBound_ok h
  have hle := (parser_keeps hparse).ranges
  obtain ⟨r, hr, rfl⟩ := lift_parser_ok.1 hparse
  have he := Expr.resolve_resolved (Expr.parseAt_reads .comparison _ _ _ hr).raw hresolve
  exact (typeBound_typed htype he).mono (Issued.mono hle (Nat.le_refl _))
    (by simp [Scope.headings, Scope.outerOnly])

theorem readBound_keeps {e : Expr} (h : readBound env outer s = .ok e t) : Keeps s t :=
  (readBound_inOrder h).1

theorem key_resolved {k : SortKey} (h : SortKey.read env scope s = .ok k t) :
    k.key.Resolved (Issued s.nextRange t.nextRange) scope.headings := by
  obtain ⟨key, s₁, s₂, hparse, hresolve, hdescending⟩ := key_ok h
  have h₁ := (parser_keeps hparse).ranges
  have h₂ := (reader_keeps hdescending).ranges
  obtain ⟨r, hr, rfl⟩ := lift_parser_ok.1 hparse
  exact (Expr.resolve_resolved (Expr.parse_reads _ _ _ hr).raw hresolve).mono
    (Issued.mono h₁ h₂) (List.Subset.refl _)

theorem readKeys_resolved {found : Bool} {keys : List SortKey}
    (h : readKeys env scope found s = .ok keys t) :
    Keeps s t ∧
      ∀ k ∈ keys, k.key.Resolved (Issued s.nextRange t.nextRange) scope.headings := by
  unfold readKeys at h
  split at h
  · simp only [bind_ok] at h
    obtain ⟨by', s₁, hby, hkeys⟩ := h
    have hle := reader_keeps hby
    have hitem : ∀ s k t, SortKey.read env scope s = .ok k t → Keeps s t :=
      fun _ _ _ hk => (key_inOrder hk).1
    refine ⟨hle.trans (commaSeparated_keeps hitem hkeys), fun k hk => ?_⟩
    exact (commaSeparated_issued
      (P := fun lo hi (k : SortKey) => k.key.Resolved (Issued lo hi) scope.headings)
      (fun hlo hhi hk => hk.mono (Issued.mono hlo hhi) (List.Subset.refl _)) hitem
      (fun _ _ _ hk => key_resolved hk) hkeys k hk).mono
      (Issued.mono hle.ranges (Nat.le_refl _)) (List.Subset.refl _)
  · obtain ⟨rfl, rfl⟩ := pure_ok.1 h
    exact ⟨.refl _, by simp⟩

theorem readOffset_typed {found : Bool} {offset : Option Expr}
    (h : readOffset env outer found s = .ok offset t) : Keeps s t ∧
      ∀ e ∈ offset, e.Typed (Issued s.nextRange t.nextRange) (outer.flatten.map Range.heading) := by
  unfold readOffset at h
  split at h
  · obtain ⟨e, he, rfl⟩ := map_ok.1 h
    exact ⟨readBound_keeps he, by simpa using readBound_typed he⟩
  · obtain ⟨rfl, rfl⟩ := pure_ok.1 h
    exact ⟨.refl _, by simp⟩

theorem read?_resolved {ranges : List Range} {slice : Option Slice}
    (h : read? env ranges s = .ok slice t) : Keeps s t ∧
      ∀ x ∈ slice, x.Resolved (Issued s.nextRange t.nextRange) (Scope.headings ⟨ranges, s.outer⟩)
        (s.outer.flatten.map Range.heading) := by
  obtain ⟨found, s₁, orderBy, s₂, hskip, hkeys, hbounds⟩ := read?_ok h
  have h₁ := reader_keeps hskip
  obtain ⟨h₂, hkeys⟩ := readKeys_resolved hkeys
  cases hbounds with
  | none hempty hlimit => exact ⟨(h₁.trans h₂).trans (reader_keeps hlimit), by simp⟩
  | @some s₃ s₄ s₅ _ limit found offset hskip' hlimit hoffset ho =>
    have h₃ := reader_keeps hskip'
    have h₄ := readBound_keeps hlimit
    have h₅ := reader_keeps hoffset
    obtain ⟨h₆, ho⟩ := readOffset_typed ho
    have hl := readBound_typed hlimit
    -- what was given to a key or a bound lies between the ids at the start and at the end
    have := h₁.ranges
    have := h₂.ranges
    have := h₃.ranges
    have := h₄.ranges
    have := h₅.ranges
    have := h₆.ranges
    refine ⟨(h₁.trans h₂).trans (h₃.trans (h₄.trans (h₅.trans h₆))), ?_⟩
    rintro _ ⟨⟩
    refine ⟨fun k hk => (hkeys k hk).mono (Issued.mono (by omega) (by omega)) (List.Subset.refl _),
      fun e he => ?_⟩
    rcases List.mem_cons.1 he with rfl | he
    · exact hl.mono (Issued.mono (by omega) (by omega)) (List.Subset.refl _)
    · exact (ho e (by simpa using he)).mono (Issued.mono (by omega) (Nat.le_refl _))
        (List.Subset.refl _)

end Slice

/-! ## Guards -/

theorem Expr.always_typed (I : Nat → Prop) (visible : List Heading) : Expr.always.Typed I visible :=
  ⟨.leaf (.leaf rfl (by simp [always, literal, shape]) rfl (by simp [always, literal])) rfl
    (by simp [always, literal]) (by simp [always, literal]), rfl⟩

theorem Merge.resolveGuard_typed {guard : Option Expr} {e : Expr} (hraw : ∀ g ∈ guard.toList, g.Raw)
    (h : resolveGuard env scope guard s = .ok e t) :
    Resolves s t ∧ e.Typed (Issued s.nextRange t.nextRange) scope.headings := by
  cases guard with
  | none =>
    obtain ⟨rfl, rfl⟩ := pure_ok.1 h
    exact ⟨.refl _, Expr.always_typed _ _⟩
  | some g =>
    exact ⟨Expr.resolveConditionWith_resolves (Query.compileTokens_resolves env) h,
      Expr.resolveCondition_typed (hraw g (by simp)) h⟩

/-! ## The rules for columns -/

/-- What the rules for columns keep: it passes to parameters that are given a type, to DEFAULT and
to rows of other items. -/
structure Expr.Assignable (Q : Expr → Prop) : Prop where
  asColumn : ∀ {e : Expr}, Q e → ∀ t w, Q (e.asColumn t w)
  default : ∀ fragment, Q (.untyped .defaultMarker fragment)
  children : ∀ {e : Expr}, Q e → ∀ c ∈ e.children, Q c
  withItems : ∀ {e : Expr} {items items' : List Expr}, Q e → e.kind = .row items →
    (∀ c ∈ items', Q c) → Q { e with kind := .row items' }

theorem Expr.SettledNode.defaultMarker (fragment : Fragment) :
    SettledNode (.untyped .defaultMarker fragment) :=
  .leaf rfl (by simp [untyped, shape]) rfl (by simp [untyped])

theorem Expr.assignable_resolved (I : Nat → Prop) (visible : List Heading) :
    Assignable fun e => e.Resolved I visible where
  asColumn h t w := h.asColumn t w
  default fragment := .leaf (.defaultMarker fragment) rfl (by simp [untyped]) (by simp [untyped])
  children h := h.children
  withItems h hk hitems := h.withItems hk hitems

theorem Expr.assignable_settled : Assignable Settled where
  asColumn h t w := h.asColumn t w
  default fragment := .intro (.defaultMarker fragment) (by simp [untyped, Expr.children])
    (by simp [untyped])
  children h := h.children
  withItems h hk hitems := h.withItems hk hitems

section

variable {Q : Expr → Prop} {e e' : Expr}

theorem Expr.Assigned.keeps (hQ : Assignable Q) (h : e.Assigned e') (he : Q e) : Q e' := by
  obtain ⟨-, rfl | ⟨t, w, rfl⟩⟩ := h
  · exact he
  · exact hQ.asColumn he t w

theorem Expr.AssignedValue.keeps (hQ : Assignable Q) (h : e.AssignedValue e') (he : Q e) : Q e' := by
  cases h with
  | cell _ h => exact h.keeps hQ he
  | query hk => exact he
  | row h =>
    refine hQ.withItems he rfl fun c' hc' => ?_
    obtain ⟨c, hc, hassigned⟩ := forall₂_exists_left h hc'
    exact hassigned.keeps hQ (hQ.children he c hc)

theorem ColumnPolicy.insertRow_keeps {columns : List Column} {overriding : Option OverridingKind}
    {map : ColumnMap} {row row' : Expr} (hQ : Expr.Assignable Q)
    (h : insertRow columns map overriding row s = .ok row' t) (hrow : Q row) : Q row' := by
  obtain ⟨-, cells, cells', hk, rfl, hcells, -⟩ := insertRow_ok h
  refine hQ.withItems hrow hk fun c' hc' => ?_
  obtain ⟨c, hc, hinserted⟩ := forall₂_exists_left hcells hc'
  have hcell := hQ.children hrow c (by simpa [Expr.children, hk] using hc)
  rcases hinserted with (hinserted | rfl) | rfl
  · exact hinserted.keeps hQ hcell
  · exact hQ.default _
  · exact hcell

end

end DataChange
