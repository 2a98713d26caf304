import DataChange.Proofs.Expr.Grammar
import DataChange.Proofs.Expr.Moved
import DataChange.Statement.Merge

/-!
# Targets and values as they are written

A SET clause is read one assignment after the other. Each adds a group of columns to the column map
and one value; the value has the degree of its group, or the group is a single column
(`SetClause.Fits`). `SetClause.ReadsGroups` keeps the groups apart that the column map joins. A row
to insert has as many items as the row map has columns.
-/

namespace DataChange

/-! ## Qualified columns -/

/-- Qualifying the columns of an expression keeps its shape. -/
theorem Expr.qualifyFree_alike (qualifier : String) (e : Expr) :
    Expr.Alike e (e.qualifyFree qualifier) := by
  unfold qualifyFree
  cases h : e.mapColumns (ColumnRef.qualifyFree qualifier) with
  | none => exact .refl e
  | some e' => exact Moves.alike h

/-! ## Target columns -/

namespace TargetColumn

variable {range : Range} {c d : Cursor}

theorem find_ok {qualifier : Option Token} {name : Token} {column : TargetColumn}
    (h : find range qualifier name = .ok column) : column.ordinal < range.columns.length := by
  unfold find at h
  split at h
  · next ordinal _ =>
    cases h
    exact ordinal.isLt
  · cases h

theorem read_ok {qualified : Bool} {column : TargetColumn}
    (h : read range qualified c = .ok column d) : column.ordinal < range.columns.length := by
  simp only [read, bind_ok, Prod.exists] at h
  obtain ⟨qualifier, name, u, -, h⟩ := h
  obtain ⟨m, hm, h⟩ := run_eq h
  split at hm
  · subst hm
    exact (throw_ok.1 h).elim
  · split at hm <;> subst hm
    · next found hfound =>
      obtain ⟨rfl, -⟩ := pure_ok.1 h
      exact find_ok hfound
    · exact (throw_ok.1 h).elim

theorem addTo_ok {column : TargetColumn} {map map' : ColumnMap}
    (h : column.addTo map c = .ok map' d) : map'.ordinals = map.ordinals ++ [column.ordinal] := by
  unfold addTo ColumnMap.insert at h
  obtain ⟨m, hm, h⟩ := run_eq h
  split at hm <;> subst hm
  · next hinsert =>
    split at hinsert
    · cases hinsert
    · cases hinsert
      obtain ⟨rfl, -⟩ := pure_ok.1 h
      rfl
  · exact (throw_ok.1 h).elim

theorem addTo_nodup {column : TargetColumn} {map map' : ColumnMap}
    (h : column.addTo map c = .ok map' d) (hmap : map.ordinals.Nodup) : map'.ordinals.Nodup := by
  unfold addTo at h
  obtain ⟨m, hm, h⟩ := run_eq h
  split at hm <;> subst hm
  · next hinsert =>
    obtain ⟨rfl, -⟩ := pure_ok.1 h
    exact ColumnMap.insert_nodup hmap hinsert
  · exact (throw_ok.1 h).elim

end TargetColumn

/-- A column map into the columns of a range. -/
def ColumnMap.Within (map : ColumnMap) (range : Range) : Prop :=
  ∀ ordinal ∈ map.ordinals, ordinal < range.columns.length

/-- What adding a column to a map keeps holds for a list of columns. -/
theorem ColumnMap.read_induct {range : Range} {qualified : Bool} {map : ColumnMap} {c d : Cursor}
    (Inv : ColumnMap → Prop) (h : ColumnMap.read range qualified c = .ok map d) (hempty : Inv empty)
    (hstep : ∀ {column : TargetColumn} {map map' : ColumnMap} {c d e : Cursor},
      TargetColumn.read range qualified c = .ok column d → column.addTo map d = .ok map' e →
      Inv map → Inv map') : Inv map := by
  simp only [ColumnMap.read, bind_ok, pure_ok] at h
  obtain ⟨_, _, -, map', _, hsteps, _, _, -, rfl, -⟩ := h
  have hstep : ∀ {map map' : ColumnMap} {c d : Cursor},
      (do (← TargetColumn.read range qualified).addTo map : Reader ColumnMap) c = .ok map' d →
      Inv map → Inv map' := by
    intro map map' c d h hmap
    simp only [bind_ok] at h
    obtain ⟨column, _, hread, hadd⟩ := h
    exact hstep hread hadd hmap
  refine commaSteps_induct (fun (map : ColumnMap) _ => Inv map) hsteps ?_ (fun _ _ _ _ hi _ => hi)
    ?_ (fun _ _ _ hi _ => hi)
  · exact fun map _ h => hstep h hempty
  · exact fun map _ _ map' _ hi _ h => hstep h hi

theorem ColumnMap.all_within (range : Range) : (ColumnMap.all range.columns.length).Within range := by
  simp [Within, all]

theorem ColumnMap.read_nodup {range : Range} {qualified : Bool} {map : ColumnMap} {c d : Cursor}
    (h : ColumnMap.read range qualified c = .ok map d) : map.ordinals.Nodup :=
  read_induct (·.ordinals.Nodup) h List.nodup_nil
    fun _ hadd hmap => TargetColumn.addTo_nodup hadd hmap

/-! ## Groups of targets -/

namespace SetClause

variable {range : Range} {clause clause' : SetClause}

/-- What reading targets adds to a clause. -/
structure Extends (range : Range) (clause clause' : SetClause) (group : List Nat) : Prop where
  ordinals : clause'.columnMap.ordinals = clause.columnMap.ordinals ++ group
  values : clause'.values = clause.values
  within : ∀ ordinal ∈ group, ordinal < range.columns.length
  nodup : clause.columnMap.ordinals.Nodup → clause'.columnMap.ordinals.Nodup

theorem Extends.trans {clause'' : SetClause} {group group' : List Nat}
    (h : Extends range clause clause' group) (k : Extends range clause' clause'' group') :
    Extends range clause clause'' (group ++ group') := by
  refine ⟨by rw [k.ordinals, h.ordinals, List.append_assoc], k.values.trans h.values, ?_,
    fun hnodup => k.nodup (h.nodup hnodup)⟩
  intro ordinal ho
  rcases List.mem_append.1 ho with ho | ho
  · exact h.within ordinal ho
  · exact k.within ordinal ho

theorem addTarget_extends {c d : Cursor} (h : addTarget range clause c = .ok clause' d) :
    ∃ ordinal, Extends range clause clause' [ordinal] := by
  simp only [addTarget, bind_ok, pure_ok] at h
  obtain ⟨column, _, hread, map, _, hadd, rfl, rfl⟩ := h
  exact ⟨column.ordinal, TargetColumn.addTo_ok hadd, rfl,
    by simpa using TargetColumn.read_ok hread, TargetColumn.addTo_nodup hadd⟩

/-- A group of targets is not empty, and has one column if it is not bracketed. -/
theorem addTargets_extends {c d : Cursor} {bracketed : Bool}
    (h : addTargets range clause c = .ok (clause', bracketed) d) :
    ∃ group, Extends range clause clause' group ∧ 0 < group.length ∧
      (bracketed = false → group.length = 1) := by
  simp only [addTargets, bind_ok] at h
  obtain ⟨found, u, -, h⟩ := h
  cases found with
  | true =>
    simp only [↓reduceIte, bind_ok, pure_ok, Prod.mk.injEq] at h
    obtain ⟨clause'', v, hsteps, _, _, -, ⟨rfl, rfl⟩, rfl⟩ := h
    obtain ⟨group, hextends, hpos⟩ : ∃ group, Extends range clause clause'' group ∧
        0 < group.length := by
      refine commaSteps_induct (fun (b : SetClause) _ => ∃ group, Extends range clause b group ∧
        0 < group.length) hsteps ?_ (fun _ _ _ _ hi _ => hi) ?_ (fun _ _ _ hi _ => hi)
      · intro b _ h
        obtain ⟨ordinal, hextends⟩ := addTarget_extends h
        exact ⟨_, hextends, by simp⟩
      · rintro a _ _ b _ ⟨group, hextends, -⟩ _ h
        obtain ⟨ordinal, hmore⟩ := addTarget_extends h
        exact ⟨_, hextends.trans hmore, by simp⟩
    exact ⟨group, hextends, hpos, by simp⟩
  | false =>
    simp only [Bool.false_eq_true, ↓reduceIte, bind_ok, pure_ok, Prod.mk.injEq] at h
    obtain ⟨clause'', _, hadd, ⟨rfl, rfl⟩, rfl⟩ := h
    obtain ⟨ordinal, hextends⟩ := addTarget_extends hadd
    exact ⟨_, hextends, by simp, by simp⟩

/-! ## Values -/

/-- A value for a group of targets: it has the degree of the group, or the group is a single
column, whose value may be a row. A subquery for a row stands by itself. -/
structure Fits (group : List Nat) (value : Expr) : Prop where
  degree : value.degree = group.length ∨ group.length = 1 ∧ value.Regular
  shape : value.Regular ∨ ∃ degree, value.shape = .query degree

theorem Fits.alike {group : List Nat} {value value' : Expr} (h : Fits group value)
    (k : value.Alike value') : Fits group value' := by
  obtain ⟨hdegree, hshape⟩ := h
  rw [Expr.degree_eq, ← k.shape, ← Expr.degree_eq] at hdegree
  refine ⟨hdegree.imp_right fun ⟨hone, hregular⟩ => ⟨hone, hregular.alike k⟩,
    hshape.imp (·.alike k) ?_⟩
  rintro ⟨degree, hd⟩
  exact ⟨degree, k.shape.trans hd⟩

theorem Fits.length_le {group : List Nat} {value : Expr} (h : Fits group value) :
    group.length ≤ value.degree := by
  rcases h.degree with h | ⟨h, hregular⟩
  · omega
  · have := hregular.degree_pos
    omega

variable {s t : Reading} {value : Expr} {group : List Nat}

theorem readRow_ok {degree : Nat} (h : readRow degree s = .ok value t) :
    value.Regular ∧ value.degree = degree := by
  simp only [readRow, bind_ok] at h
  obtain ⟨_, u, -, row, _, hrow, _, _, -, h⟩ := h
  obtain ⟨items, hitems, rfl⟩ := Expr.parseRow_reads hrow
  have hregular : (Expr.ofItems u.cursor.fragment items).Regular :=
    (Expr.Plain.ofItems hitems.ne_nil hitems.plain).regular
  generalize Expr.ofItems _ items = e at h hregular
  have hactual : (if e.isRow then e.degree else 1) = e.degree := by
    split
    · rfl
    · next hrow => exact (hregular.degree_eq_one hrow).symm
  rw [hactual] at h
  split at h
  · next hdegree =>
    obtain ⟨rfl, -⟩ := pure_ok.1 h
    exact ⟨hregular, hdegree⟩
  · exact (reject_ok.1 h).elim

theorem readQuery_ok {degree brackets : Nat} (h : readQuery degree brackets s = .ok value t) :
    value.shape = .query degree := by
  simp only [readQuery, bind_ok, pure_ok] at h
  obtain ⟨_, _, -, opening, _, -, body, _, -, _, _, -, rfl, -⟩ := h
  rfl

theorem readValue_fits {mysql bracketed : Bool} (hpos : 0 < group.length)
    (h : readValue mysql bracketed group.length s = .ok value t) : Fits group value := by
  simp only [readValue, bind_ok, get_ok] at h
  obtain ⟨_, _, ⟨rfl, rfl⟩, h⟩ := h
  -- a row has the degree of the group, with and without ROW before it
  have hrow : ∀ {u v : Reading} {row : Expr}, readRow group.length u = .ok row v → Fits group row := by
    intro u v row h
    obtain ⟨hregular, hdegree⟩ := readRow_ok h
    exact ⟨.inl hdegree, .inl hregular⟩
  have hplain : ∀ {u : Reading},
      (if group.length > 1 then readRow group.length else Expr.parse) u = .ok value t →
      Fits group value := by
    intro u h
    split at h
    · exact hrow h
    · have hregular := (Expr.parse_reads _ _ _ h).plain.regular
      exact ⟨.inr ⟨by omega, hregular⟩, .inl hregular⟩
  obtain ⟨m, hm, h⟩ := run_eq h
  split at hm <;> subst hm
  · have hshape := readQuery_ok h
    exact ⟨.inl (by rw [Expr.degree_eq, hshape]; rfl), .inr ⟨_, hshape⟩⟩
  · cases mysql with
    | false =>
      simp only [Bool.false_eq_true, ↓reduceIte, pure_bind] at h
      exact hplain h
    | true =>
      simp only [↓reduceIte, bind_ok] at h
      obtain ⟨found, u, -, h⟩ := h
      cases found with
      | false => exact hplain h
      | true =>
        simp only [↓reduceIte, bind_ok, pure_ok] at h
        obtain ⟨row, _, hread, rfl, rfl⟩ := h
        exact (hrow hread).alike (Expr.qualifyFree_alike newRowName row)

/-! ## Assignments -/

/-- What one assignment adds to a clause. -/
structure Adds (range : Range) (clause clause' : SetClause) (group : List Nat) (value : Expr) :
    Prop where
  ordinals : clause'.columnMap.ordinals = clause.columnMap.ordinals ++ group
  values : clause'.values = clause.values ++ [value]
  within : ∀ ordinal ∈ group, ordinal < range.columns.length
  fits : Fits group value
  nodup : clause.columnMap.ordinals.Nodup → clause'.columnMap.ordinals.Nodup

theorem addAssignment_adds {mysql : Bool} (h : addAssignment mysql range clause s = .ok clause' t) :
    ∃ group value, Adds range clause clause' group value := by
  simp only [addAssignment, bind_ok, pure_ok, Prod.exists] at h
  obtain ⟨extended, bracketed, u, htargets, _, _, -, value, _, hvalue, rfl, rfl⟩ := h
  obtain ⟨c, hc, rfl⟩ := lift_reader_ok.1 htargets
  obtain ⟨group, hextends, hpos, -⟩ := addTargets_extends hc
  have hdegree : extended.columnMap.length - clause.columnMap.length = group.length := by
    simp [ColumnMap.length, hextends.ordinals]
  rw [hdegree] at hvalue
  exact ⟨group, value, hextends.ordinals, by simp [hextends.values], hextends.within,
    readValue_fits hpos hvalue, hextends.nodup⟩

/-- A clause read one assignment after the other, with the groups of targets that these name. -/
inductive ReadsGroups (mysql : Bool) (range : Range) (s : Reading) :
    List (List Nat) → SetClause → Reading → Prop
  | first {group : List Nat} {clause : SetClause} {t : Reading}
      (h : addAssignment mysql range {} s = .ok clause t)
      (hgroup : clause.columnMap.ordinals = group) : ReadsGroups mysql range s [group] clause t
  | more {groups : List (List Nat)} {group : List Nat} {clause clause' : SetClause} {t u v : Reading}
      (hread : ReadsGroups mysql range s groups clause t)
      (hcomma : (liftM (Reader.skipSymbol .comma) : Parser Bool) t = .ok true u)
      (h : addAssignment mysql range clause u = .ok clause' v)
      (hgroup : clause'.columnMap.ordinals = clause.columnMap.ordinals ++ group) :
      ReadsGroups mysql range s (groups ++ [group]) clause' v

theorem read_groups {mysql : Bool} (h : SetClause.read mysql range s = .ok clause t) :
    ∃ groups, ReadsGroups mysql range s groups clause t := by
  refine commaSteps_induct (fun clause t => ∃ groups, ReadsGroups mysql range s groups clause t) h
    ?_ ?_ ?_ ?_
  · exact fun clause t h => ⟨_, .first h rfl⟩
  · rintro clause t n u hread hlook
    obtain rfl := Reading.remaining_stays hlook
    exact hread
  · rintro clause t u clause' v ⟨groups, hread⟩ hcomma h
    obtain ⟨group, value, hadds⟩ := addAssignment_adds h
    exact ⟨_, .more hread hcomma h hadds.ordinals⟩
  · rintro clause t u hread hcomma
    rcases Reading.skipSymbol_takes hcomma with ⟨hf, -⟩ | ⟨-, rfl⟩
    · cases hf
    · exact hread

/-- The tokens `rest` after the keywords before some assignments, in what follows the target of an
operation: the SET of an UPDATE stands at the head, the others somewhere in it. -/
inductive Place : Operation → List Token → List Token → Prop
  | update {set : Token} {rest : List Token} (hset : set.kind = .keyword .SET) :
      Place .update (set :: rest) rest
  | branch {before words rest : List Token}
      (hwords : words.map (·.kind) = [.keyword .THEN, .keyword .UPDATE, .keyword .SET]) :
      Place .merge (before ++ words ++ rest) rest
  | upsert {before words rest : List Token} (hwords : words.map (·.kind) =
        [.keyword .ON, .keyword .DUPLICATE, .keyword .KEY, .keyword .UPDATE]) :
      Place .insert (before ++ words ++ rest) rest

/-- What stands somewhere in the tokens that are left stands somewhere in all of them. -/
theorem Place.mono {operation : Operation} {after after' rest : List Token}
    (h : Place operation after rest) (hother : operation ≠ .update) (hsub : after <:+ after') :
    Place operation after' rest := by
  obtain ⟨more, rfl⟩ := hsub
  cases h with
  | update => exact absurd rfl hother
  | @branch before _ _ hwords =>
    rw [← List.append_assoc, ← List.append_assoc]
    exact .branch hwords
  | @upsert before _ _ hwords =>
    rw [← List.append_assoc, ← List.append_assoc]
    exact .upsert hwords

/-- A clause that is read at its place and up to its end, where no comma follows, with the groups of
targets that it names. -/
def ReadAt (operation : Operation) (mysql : Bool) (range : Range) (after : List Token)
    (groups : List (List Nat)) (clause : SetClause) : Prop :=
  ∃ u v, Place operation after u.cursor.rest ∧ ReadsGroups mysql range u groups clause v ∧
    Lacks (.symbol .comma) v.cursor.rest

theorem ReadAt.mono {operation : Operation} {mysql : Bool} {after after' : List Token}
    {groups : List (List Nat)} (h : clause.ReadAt operation mysql range after groups)
    (hother : operation ≠ .update) (hsub : after <:+ after') :
    clause.ReadAt operation mysql range after' groups := by
  obtain ⟨u, v, hplace, hread, hend⟩ := h
  exact ⟨u, v, hplace.mono hother hsub, hread, hend⟩

/-- The groups of a clause line up with its column map and its values. -/
structure Grouped (range : Range) (groups : List (List Nat)) (clause : SetClause) : Prop where
  ordinals : clause.columnMap.ordinals = groups.flatten
  within : clause.columnMap.Within range
  fits : List.Forall₂ Fits groups clause.values
  nodup : clause.columnMap.ordinals.Nodup

theorem Grouped.add {groups : List (List Nat)} (hg : Grouped range groups clause)
    (ha : Adds range clause clause' group value) : Grouped range (groups ++ [group]) clause' := by
  refine ⟨by simp [ha.ordinals, hg.ordinals], fun ordinal ho => ?_, ?_, ha.nodup hg.nodup⟩
  · rw [ha.ordinals, List.mem_append] at ho
    exact ho.elim (hg.within ordinal) (ha.within ordinal)
  · rw [ha.values]
    exact List.rel_append hg.fits (.cons ha.fits .nil)

theorem ReadsGroups.grouped {mysql : Bool} {groups : List (List Nat)}
    (h : ReadsGroups mysql range s groups clause t) : Grouped range groups clause := by
  induction h with
  | first h hgroup =>
    obtain ⟨group, value, hadds⟩ := addAssignment_adds h
    obtain rfl : group = _ := hadds.ordinals.symm.trans hgroup
    have hempty : Grouped range [] {} := ⟨rfl, by simp [ColumnMap.Within, ColumnMap.empty], .nil,
      List.nodup_nil⟩
    exact hempty.add hadds
  | more _ _ h hgroup ih =>
    obtain ⟨group, value, hadds⟩ := addAssignment_adds h
    obtain rfl : group = _ := List.append_cancel_left (hadds.ordinals.symm.trans hgroup)
    exact ih.add hadds

theorem ReadAt.grouped {operation : Operation} {mysql : Bool} {after : List Token}
    {groups : List (List Nat)} (h : clause.ReadAt operation mysql range after groups) :
    Grouped range groups clause := by
  obtain ⟨_, _, -, hread, -⟩ := h
  exact hread.grouped

end SetClause

/-! ## Rows -/

/-- A row of some degree as it is written. -/
structure Rows.IsRow (degree : Nat) (row : Expr) : Prop where
  shape : row.shape = .row degree
  regular : ∀ c ∈ row.children, c.Regular

theorem Rows.IsRow.alike {degree : Nat} {row row' : Expr} (h : IsRow degree row)
    (k : row.Alike row') : IsRow degree row' := by
  refine ⟨k.shape.trans h.shape, fun c' hc' => ?_⟩
  obtain ⟨c, hc, hcc⟩ := forall₂_exists_left k.children hc'
  exact (h.regular c hc).alike hcc

theorem Rows.readRow_isRow {degree : Nat} {row : Expr} {s t : Reading}
    (h : readRow degree s = .ok row t) : IsRow degree row := by
  simp only [readRow, bind_ok, get_ok] at h
  obtain ⟨_, _, ⟨rfl, rfl⟩, found, u, -, h⟩ := h
  have hend : ∀ {items : List Expr} {v : Reading}, (∀ i ∈ items, i.Plain) →
      (if items.length = degree then pure (.untyped (.row items) s.cursor.fragment)
        else reject (.degree degree items.length s.cursor.fragment) : Parser Expr) v = .ok row t →
      IsRow degree row := by
    intro items v hplain h
    split at h
    · next hlen =>
      obtain ⟨rfl, -⟩ := pure_ok.1 h
      exact ⟨congrArg Shape.row hlen, fun c hc => (hplain c hc).regular⟩
    · exact (reject_ok.1 h).elim
  cases found with
  | true =>
    simp only [↓reduceIte, bind_ok, pure_ok] at h
    obtain ⟨items, v, hitems, _, w, -, _, _, ⟨rfl, rfl⟩, h⟩ := h
    exact hend (Expr.parseList_reads _ _ _ hitems).plain h
  | false =>
    simp only [Bool.false_eq_true, ↓reduceIte, bind_ok, pure_ok] at h
    obtain ⟨item, v, hitem, _, _, ⟨rfl, rfl⟩, h⟩ := h
    exact hend (by simpa using (Expr.parse_reads _ _ _ hitem).plain) h

theorem Rows.read_isRow {degree : Nat} {rows : List Expr} {fragment : Fragment} {s t : Reading}
    (h : read degree s = .ok (rows, fragment) t) : ∀ row ∈ rows, IsRow degree row := by
  simp only [read, bind_ok, get_ok, pure_ok, Prod.mk.injEq] at h
  obtain ⟨_, _, ⟨rfl, rfl⟩, rows', _, h, ⟨rfl, -⟩, rfl⟩ := h
  exact forall_commaSeparated (fun _ _ _ hr => readRow_isRow hr) h

end DataChange
