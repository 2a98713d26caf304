import DataChange.ColumnPolicy
import DataChange.Proofs.Spelling.Tokens
import DataChange.Proofs.Spelling.Typed

/-!
# Rules for columns and respelled values

The rules for the columns of a target look at the columns and at the types of values, whatever the
spelling of the values.
-/

namespace DataChange

variable {P : Likeness}

/-! ## OVERRIDING -/

/-- Two spellings of an OVERRIDING clause. -/
structure Overriding.Respelled (P : Likeness) (o o' : Overriding) : Prop where
  kind : o'.kind = o.kind
  fragment : o.fragment.Respelled P o'.fragment

theorem OverridingKind.read_tracks :
    Tracks (.cursors P) (· = ·) OverridingKind.read OverridingKind.read :=
  (Reader.skipKeyword_tracks _).whether (.pure rfl) <|
    (Reader.skipKeyword_tracks _).whether (.pure rfl) <| .get fun _ _ hc => .throw hc.fragment

theorem Overriding.read?_tracks :
    Tracks (.cursors P) (Option.Rel (Overriding.Respelled P)) Overriding.read? Overriding.read? := by
  refine (Reader.keyword?_tracks _).bind fun found found' hfound => ?_
  refine hfound.elim (.pure .none) fun t t' ht => ?_
  exact OverridingKind.read_tracks.bindSame fun _ => (Reader.keyword_tracks _).bind fun _ _ _ =>
    .pure (.some ⟨rfl, ht.fragment⟩)

namespace ColumnPolicy

variable {e e' : Expr} {f f' : Fragment} {overriding overriding' : Option Overriding}

theorem checkOverriding_concur (columns : List Column) (columnMap : ColumnMap)
    (h : Option.Rel (Overriding.Respelled P) overriding overriding') :
    Concur P (fun _ _ => True) (checkOverriding columns columnMap overriding)
      (checkOverriding columns columnMap overriding') := by
  cases h with
  | none => exact .ok trivial
  | some ho =>
    unfold checkOverriding
    dsimp only
    split
    · exact .ok trivial
    · exact .error ho.fragment

theorem kind_eq (h : Option.Rel (Overriding.Respelled P) overriding overriding') :
    overriding'.map (·.kind) = overriding.map (·.kind) := by
  cases h with
  | none => rfl
  | some ho => exact congrArg some ho.kind

theorem assign_concur (column : Column) (h : e.Respelled P e') :
    Concur P (Expr.Respelled P) (assign column e) (assign column e') := by
  have hcell : (if e.isUntypedParameter then e.asColumn column.type false else e).Respelled P
      (if e'.isUntypedParameter then e'.asColumn column.type false else e') := by
    rw [h.isUntypedParameter]
    split
    · exact h.asColumn _ _
    · exact h
  unfold assign
  dsimp only
  exact (Expr.checkAssignable_concur column.type hcell column.name column.name).elim
    (fun _ _ _ => .ok hcell) fun _ _ he => .error he

/-! ## Inserted rows -/

theorem insertCell_concur (column : Column) (identity : Option Identity)
    (kind : Option OverridingKind) (h : e.Respelled P e') :
    Concur P (Expr.Respelled P) (insertCell column identity kind e)
      (insertCell column identity kind e') := by
  unfold insertCell
  rw [h.isDefault]
  split
  · exact .ok h
  · split
    · exact .ok (.untyped .defaultMarker h.fragment)
    · split
      · exact .error h.fragment
      · split
        · exact .error h.fragment
        · exact assign_concur column h

theorem insertCells_tracks (columns : List Column) (kind : Option OverridingKind)
    {cells cells' : List Expr} (h : List.Forall₂ (Expr.Respelled P) cells cells')
    (ordinals : List Nat) :
    Tracks (.states P) (List.Forall₂ (Expr.Respelled P)) (insertCells columns kind cells ordinals)
      (insertCells columns kind cells' ordinals) := by
  induction h generalizing ordinals with
  | nil => exact .pure .nil
  | cons hcell hcells ih =>
    cases ordinals with
    | nil => exact .pure (.cons hcell hcells)
    | cons ordinal ordinals =>
      refine (Tracks.inRangeSame _).bindSame fun column => ?_
      refine (Tracks.except (insertCell_concur column _ kind hcell)).bind fun _ _ hcell => ?_
      exact (ih ordinals).bind fun _ _ hcells => .pure (.cons hcell hcells)

theorem insertRow_tracks (columns : List Column) (columnMap : ColumnMap)
    (kind : Option OverridingKind) (h : e.Respelled P e') :
    Tracks (.states P) (Expr.Respelled P) (insertRow columns columnMap kind e)
      (insertRow columns columnMap kind e') := by
  obtain ⟨hkind, hf⟩ := h
  cases hkind with
  | row hcells =>
    exact (insertCells_tracks columns kind hcells _).bind fun _ _ hcells =>
      .pure (.intro (.row hcells) hf)
  | _ => exact .reject hf

theorem insertRows_tracks (columns : List Column) (columnMap : ColumnMap)
    (ho : Option.Rel (Overriding.Respelled P) overriding overriding') {rows rows' : List Expr}
    (h : List.Forall₂ (Expr.Respelled P) rows rows') :
    Tracks (.states P) (List.Forall₂ (Expr.Respelled P)) (insertRows columns columnMap overriding rows)
      (insertRows columns columnMap overriding' rows') := by
  refine (Tracks.except (checkOverriding_concur columns columnMap ho)).bind fun _ _ _ => ?_
  rw [kind_eq ho]
  exact .mapM h fun _ _ => insertRow_tracks columns columnMap _

/-! ## Inserted queries -/

theorem queryColumn_concur (column : Column) (ordinal : Nat) (kind : Option OverridingKind)
    (produced : SqlType) (hf : f.Respelled P f') :
    Concur P (· = ·) (queryColumn column ordinal kind produced f)
      (queryColumn column ordinal kind produced f') := by
  unfold queryColumn
  repeat' split
  all_goals first | exact .ok rfl | exact .error hf

theorem queryColumnsFrom_tracks (columns : List Column) (kind : Option OverridingKind)
    (hf : f.Respelled P f') (overridden : Option Nat) (ordinals : List Nat) (types : List SqlType) :
    Tracks (.states P) (· = ·) (queryColumnsFrom columns kind f overridden ordinals types)
      (queryColumnsFrom columns kind f' overridden ordinals types) := by
  induction ordinals generalizing overridden types with
  | nil => exact .pure rfl
  | cons ordinal ordinals ih =>
    cases types with
    | nil => exact .pure rfl
    | cons produced types =>
      exact (Tracks.inRangeSame _).bindSame fun column =>
        (Tracks.except (queryColumn_concur column ordinal kind produced hf)).bindSame fun _ => ih _ _

theorem queryColumns_tracks (columns : List Column) (columnMap : ColumnMap) (produced : List SqlType)
    (ho : Option.Rel (Overriding.Respelled P) overriding overriding') (hf : f.Respelled P f') :
    Tracks (.states P) (· = ·) (queryColumns columns columnMap produced overriding f)
      (queryColumns columns columnMap produced overriding' f') := by
  refine (Tracks.except (checkOverriding_concur columns columnMap ho)).bind fun _ _ _ => ?_
  rw [kind_eq ho]
  exact queryColumnsFrom_tracks columns _ hf _ _ _

/-! ## Assignments -/

theorem checkTarget_concur (column : Column) (isDefault : Bool) (hf : f.Respelled P f') :
    Concur P (fun _ _ => True) (checkTarget column isDefault f) (checkTarget column isDefault f') := by
  unfold checkTarget
  split
  · exact .error hf
  · split
    · exact .error hf
    · exact .ok trivial

theorem updateCell_concur (column : Column) (h : e.Respelled P e') :
    Concur P (Expr.Respelled P) (updateCell column e) (updateCell column e') := by
  unfold updateCell
  rw [h.isDefault]
  refine (checkTarget_concur column e.isDefault h.fragment).elim (fun _ _ _ => ?_)
    fun _ _ he => .error he
  dsimp only
  split
  · exact .ok h
  · exact assign_concur column h

theorem updateProduced_concur (column : Column) (produced : SqlType) (hf : f.Respelled P f') :
    Concur P (fun _ _ => True) (updateProduced column produced f)
      (updateProduced column produced f') := by
  unfold updateProduced
  refine (checkTarget_concur column false hf).elim (fun _ _ _ => ?_) fun _ _ he => .error he
  dsimp only
  split
  · exact .ok trivial
  · exact .error hf

theorem nextSlot_tracks (columns : List Column) (slots : List Nat) :
    Tracks (.states P) (· = ·) (nextSlot columns slots) (nextSlot columns slots) := by
  cases slots with
  | nil => exact .throw .outOfRange
  | cons ordinal slots => exact (Tracks.inRangeSame _).bindSame fun _ => .pure rfl

theorem updateItems_tracks (columns : List Column) {items items' : List Expr}
    (h : List.Forall₂ (Expr.Respelled P) items items') (slots : List Nat) :
    Tracks (.states P) (Expr.RespelledListWith P) (updateItems columns items slots)
      (updateItems columns items' slots) := by
  induction h generalizing slots with
  | nil => exact .pure ⟨.nil, rfl⟩
  | cons hitem _ ih =>
    refine (nextSlot_tracks columns slots).bindSame fun (column, slots) => ?_
    refine (Tracks.except (updateCell_concur column hitem)).bind fun _ _ hitem => ?_
    exact (ih slots).bind fun (_, _) (_, _) hitems => .pure ⟨.cons hitem hitems.1, hitems.2⟩

theorem updateProducedList_tracks (columns : List Column) (hf : f.Respelled P f')
    (types : List SqlType) (slots : List Nat) :
    Tracks (.states P) (· = ·) (updateProducedList columns f types slots)
      (updateProducedList columns f' types slots) := by
  induction types generalizing slots with
  | nil => exact .pure rfl
  | cons produced types ih =>
    refine (nextSlot_tracks columns slots).bindSame fun (column, slots) => ?_
    exact (Tracks.except (updateProduced_concur column produced hf)).bind fun _ _ _ => ih slots

theorem updateValue_tracks (columns : List Column) (h : e.Respelled P e') (slots : List Nat) :
    Tracks (.states P) (Expr.RespelledWith P) (updateValue columns e slots)
      (updateValue columns e' slots) := by
  have hcell : ∀ slot : Column × List Nat, Tracks (.states P) (Expr.RespelledWith P)
      (do return (← updateCell slot.1 e, slot.2) : Compiler (Expr × List Nat))
      (do return (← updateCell slot.1 e', slot.2)) :=
    fun slot => (Tracks.except (updateCell_concur slot.1 h)).bind fun _ _ he => .pure ⟨he, rfl⟩
  have hsingle := (nextSlot_tracks columns slots).bindSame hcell
  have hkept := h
  obtain ⟨hkind, hf⟩ := h
  cases hkind with
  | row hitems =>
    exact (updateItems_tracks columns hitems slots).bind fun _ _ hitems =>
      .pure ⟨.intro (.row hitems.1) hf, hitems.2⟩
  | query shape hplan =>
    cases shape with
    | scalar => exact hsingle
    | row degree =>
      refine .bind (R := (· = ·)) ?_ fun _ _ hslots => .pure ⟨hkept, hslots.symm⟩
      dsimp only
      rw [hplan.columnTypes]
      exact updateProducedList_tracks columns hf _ slots
  | _ => exact hsingle

theorem updateValues_tracks (columns : List Column) (columnMap : ColumnMap)
    {values values' : List Expr} (h : List.Forall₂ (Expr.Respelled P) values values') :
    Tracks (.states P) (List.Forall₂ (Expr.Respelled P)) (updateValues columns columnMap values)
      (updateValues columns columnMap values') := by
  unfold updateValues
  generalize columnMap.ordinals = slots
  induction h generalizing slots with
  | nil => exact .pure .nil
  | cons hvalue _ ih =>
    refine (updateValue_tracks columns hvalue slots).bind fun (_, _) (_, slots) hvalue => ?_
    obtain ⟨hvalue, rfl⟩ := hvalue
    exact (ih slots).bind fun _ _ hvalues => .pure (.cons hvalue hvalues)

end ColumnPolicy

end DataChange
