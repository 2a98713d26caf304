import DataChange.Proofs.Statement.Stored
import Mathlib

/-!
# The slots that values are assigned to

A SET clause gives each group of targets a value, but the rules for columns see one list of slots
for all of them: each value takes as many slots off its front as it has parts (`updateValue_frame`).
A value never has fewer parts than its group has columns, so no value can take more without leaving
too few for those after it, and the values of a clause that compiles take exactly the slots of
their own groups (`assignments_linedUp`).
-/

namespace DataChange

/-- What goes to one column: a value, or a column that a subquery produces. -/
inductive Slot where
  | value (e : Expr)
  | produced (type : SqlType)

/-- What a value puts into the columns that it is assigned to, one after the other. -/
def Expr.slots (e : Expr) : List Slot :=
  match e.kind with
  | .row items => items.map .value
  | .query (.row _) plan => plan.columnTypes.map .produced
  | _ => [.value e]

/-- A settled value has as many parts as its degree says. -/
theorem Expr.SettledNode.length_slots {e : Expr} (h : e.SettledNode) :
    e.slots.length = e.degree := by
  obtain ⟨kind, fragment, type⟩ := e
  cases kind with
  | query shape plan =>
    have hplan := (h.plan shape plan rfl).1
    cases shape with
    | scalar => rfl
    | row columns => simpa [slots, Plan.columnTypes, Expr.degree] using hplan
  | pending => rcases h.resolved with h | h <;> cases h
  | row items => simp [slots, Expr.degree]
  | _ => rfl

/-- A value that is neither a row nor a subquery for one. -/
def Expr.IsCell (e : Expr) : Prop :=
  (∀ items, e.kind ≠ .row items) ∧ ∀ degree plan, e.kind ≠ .query (.row degree) plan

theorem Expr.isCell_or (e : Expr) : e.IsCell ∨ (∃ items, e.kind = .row items) ∨
    ∃ degree plan, e.kind = .query (.row degree) plan := by
  by_cases hrow : ∃ items, e.kind = .row items
  · exact .inr (.inl hrow)
  · by_cases hquery : ∃ degree plan, e.kind = .query (.row degree) plan
    · exact .inr (.inr hquery)
    · exact .inl ⟨not_exists.1 hrow, fun degree plan hk => hquery ⟨degree, plan, hk⟩⟩

theorem Expr.IsCell.slots {e : Expr} (h : e.IsCell) : e.slots = [.value e] := by
  unfold Expr.slots
  split
  · next items hk => exact absurd hk (h.1 items)
  · next degree plan hk => exact absurd hk (h.2 degree plan)
  · rfl

theorem Expr.IsCell.assigned {e e' : Expr} (h : e.IsCell) (ha : e.Assigned e') : e'.IsCell := by
  obtain ⟨-, rfl | ⟨t, w, rfl⟩⟩ := ha
  · exact h
  · obtain ⟨kind, fragment, type⟩ := e
    cases kind with
    | parameter marker => exact ⟨by simp [Expr.asColumn], by simp [Expr.asColumn]⟩
    | _ => exact h

theorem Expr.AssignedValue.length_slots {e e' : Expr} (h : e.AssignedValue e') :
    e'.slots.length = e.slots.length := by
  cases h with
  | cell _ h =>
    obtain ⟨-, rfl | ⟨t, w, rfl⟩⟩ := h
    · rfl
    · obtain ⟨kind, fragment, type⟩ := e
      cases kind <;> rfl
  | query => rfl
  | row h => simpa [slots] using h.length_eq.symm

/-- A column accepts what goes to it: DEFAULT, or what has a type that fits if it has one. -/
def Column.Accepts (column : Column) : Slot → Prop
  | .value e => e.isDefault = true ∨ ∀ t, e.type? = some t → column.type.assignableFrom t = true
  | .produced t => column.type.assignableFrom t = true

/-- A slot that stands for a column accepts what goes to it. -/
def AcceptsAt (columns : List Column) (ordinal : Nat) (slot : Slot) : Prop :=
  ∃ column, columns[ordinal]? = some column ∧ column.Accepts slot

/-- A column receives what the rules let pass. -/
inductive Column.Receives (column : Column) : Slot → Prop
  | value {cell cell' : Expr} (h : ColumnPolicy.updateCell column cell = .ok cell') :
      column.Receives (.value cell')
  | produced {type : SqlType} {fragment : Fragment}
      (h : ColumnPolicy.updateProduced column type fragment = .ok ()) :
      column.Receives (.produced type)

/-- A slot that stands for a column receives what goes to it. -/
def ReceivesAt (columns : List Column) (ordinal : Nat) (slot : Slot) : Prop :=
  ∃ column, columns[ordinal]? = some column ∧ column.Receives slot

namespace ColumnPolicy

variable {columns : List Column} {column : Column} {cell cell' value value' : Expr}
  {s t : CompilerState}

theorem checkAssignable_ok {type : SqlType} {name : String}
    (h : Expr.checkAssignable type cell name = .ok ()) :
    ∀ t, cell.type? = some t → type.assignableFrom t = true := by
  unfold Expr.checkAssignable at h
  intro t ht
  simp only [ht] at h
  split at h
  · assumption
  · cases h

theorem assign_accepts (h : assign column cell = .ok cell') : column.Accepts (.value cell') := by
  unfold assign at h
  dsimp only at h
  split at h
  · next hcheck =>
    obtain rfl := Except.ok.inj h
    exact .inr (checkAssignable_ok hcheck)
  · cases h

theorem updateCell_accepts (h : updateCell column cell = .ok cell') :
    column.Accepts (.value cell') := by
  unfold updateCell at h
  split at h
  · cases h
  · split at h
    · next hd =>
      cases h
      exact .inl hd
    · exact assign_accepts h

theorem updateProduced_accepts {type : SqlType} {fragment : Fragment}
    (h : updateProduced column type fragment = .ok ()) : column.Accepts (.produced type) := by
  unfold updateProduced at h
  split at h
  · cases h
  · split at h
    · assumption
    · cases h

theorem receives_accepts {slot : Slot} (h : column.Receives slot) : column.Accepts slot := by
  cases h with
  | value h => exact updateCell_accepts h
  | produced h => exact updateProduced_accepts h

/-! ## Each value takes its slots -/

theorem updateItems_frame {items items' : List Expr} {slots rest : List Nat}
    (h : updateItems columns items slots s = .ok (items', rest) t) :
    ∃ taken, slots = taken ++ rest ∧ updateItems columns items taken s = .ok (items', []) t ∧
      List.Forall₂ (ReceivesAt columns) taken (items'.map .value) := by
  induction items generalizing items' slots s with
  | nil =>
    simp only [updateItems, pure_ok, Prod.mk.injEq] at h
    obtain ⟨⟨rfl, rfl⟩, rfl⟩ := h
    exact ⟨[], rfl, rfl, .nil⟩
  | cons item items ih =>
    simp only [updateItems, bind_ok, lift_except_ok, pure_ok, Prod.exists, Prod.mk.injEq,
      nextSlot_ok] at h
    obtain ⟨column, slots', _, ⟨ordinal, rfl, hcolumn, rfl⟩, item', _, ⟨hcell, rfl⟩, items'', rest',
      _, hitems, ⟨rfl, rfl⟩, rfl⟩ := h
    obtain ⟨taken, rfl, hrun, hreceives⟩ := ih hitems
    refine ⟨ordinal :: taken, rfl, ?_, .cons ⟨column, hcolumn, .value hcell⟩ hreceives⟩
    simp only [updateItems, bind_ok, lift_except_ok, pure_ok, Prod.exists, Prod.mk.injEq,
      nextSlot_ok]
    exact ⟨column, taken, _, ⟨ordinal, rfl, hcolumn, rfl⟩, item', _, ⟨hcell, rfl⟩, items'', [], _,
      hrun, ⟨rfl, rfl⟩, rfl⟩

theorem updateProducedList_frame {fragment : Fragment} {types : List SqlType}
    {slots rest : List Nat} (h : updateProducedList columns fragment types slots s = .ok rest t) :
    ∃ taken, slots = taken ++ rest ∧
      updateProducedList columns fragment types taken s = .ok [] t ∧
      List.Forall₂ (ReceivesAt columns) taken (types.map .produced) := by
  induction types generalizing slots s with
  | nil =>
    obtain ⟨rfl, rfl⟩ := pure_ok.1 h
    exact ⟨[], rfl, rfl, .nil⟩
  | cons type types ih =>
    simp only [updateProducedList, bind_ok, lift_except_ok, Prod.exists, nextSlot_ok] at h
    obtain ⟨column, slots', _, ⟨ordinal, rfl, hcolumn, rfl⟩, _, _, ⟨hproduced, rfl⟩, h⟩ := h
    obtain ⟨taken, rfl, hrun, hreceives⟩ := ih h
    refine ⟨ordinal :: taken, rfl, ?_, .cons ⟨column, hcolumn, .produced hproduced⟩ hreceives⟩
    simp only [updateProducedList, bind_ok, lift_except_ok, Prod.exists, nextSlot_ok]
    exact ⟨column, taken, _, ⟨ordinal, rfl, hcolumn, rfl⟩, _, _, ⟨hproduced, rfl⟩, hrun⟩

theorem updateValue_cell (h : value.IsCell) (slots : List Nat) :
    updateValue columns value slots = do
      let (column, slots) ← nextSlot columns slots
      return (← updateCell column value, slots) := by
  unfold updateValue
  split
  · next items hk => exact absurd hk (h.1 items)
  · next degree plan hk => exact absurd hk (h.2 degree plan)
  · rfl

/-- A value takes the first slots, and does not look at those after them. -/
theorem updateValue_frame {slots rest : List Nat}
    (h : updateValue columns value slots s = .ok (value', rest) t) :
    ∃ taken, slots = taken ++ rest ∧ updateValue columns value taken s = .ok (value', []) t ∧
      List.Forall₂ (ReceivesAt columns) taken value'.slots := by
  rcases value.isCell_or with hc | ⟨items, hk⟩ | ⟨degree, plan, hk⟩
  · rw [updateValue_cell hc] at h
    simp only [bind_ok, lift_except_ok, pure_ok, Prod.exists, Prod.mk.injEq, nextSlot_ok] at h
    obtain ⟨column, slots', _, ⟨ordinal, rfl, hcolumn, rfl⟩, _, _, ⟨hcell, rfl⟩, ⟨rfl, rfl⟩, rfl⟩ := h
    refine ⟨[ordinal], rfl, ?_, ?_⟩
    · rw [updateValue_cell hc]
      simp only [bind_ok, lift_except_ok, pure_ok, Prod.exists, Prod.mk.injEq, nextSlot_ok]
      exact ⟨column, [], _, ⟨ordinal, rfl, hcolumn, rfl⟩, _, _, ⟨hcell, rfl⟩, ⟨rfl, rfl⟩, rfl⟩
    · rw [(hc.assigned (updateCell_ok hcell)).slots]
      exact .cons ⟨column, hcolumn, .value hcell⟩ .nil
  · simp only [updateValue, hk, bind_ok, pure_ok, Prod.exists, Prod.mk.injEq] at h ⊢
    obtain ⟨items', _, _, hitems, ⟨rfl, rfl⟩, rfl⟩ := h
    obtain ⟨taken, rfl, hrun, hreceives⟩ := updateItems_frame hitems
    exact ⟨taken, rfl, ⟨items', [], _, hrun, ⟨rfl, rfl⟩, rfl⟩, hreceives⟩
  · simp only [updateValue, hk, bind_ok, pure_ok, Prod.mk.injEq] at h ⊢
    obtain ⟨_, _, hproduced, ⟨rfl, rfl⟩, rfl⟩ := h
    obtain ⟨taken, rfl, hrun, hreceives⟩ := updateProducedList_frame hproduced
    refine ⟨taken, rfl, ⟨[], _, hrun, ⟨rfl, rfl⟩, rfl⟩, ?_⟩
    simpa [Expr.slots, hk] using hreceives

/-- Values of which each is assigned to slots of its own. -/
inductive Checks (columns : List Column) (s : CompilerState) :
    List (List Nat) → List Expr → List Expr → Prop
  | nil : Checks columns s [] [] []
  | cons {group : List Nat} {groups : List (List Nat)} {value value' : Expr}
      {values values' : List Expr} (h : updateValue columns value group s = .ok (value', []) s)
      (hrest : Checks columns s groups values values') :
      Checks columns s (group :: groups) (value :: values) (value' :: values')

theorem updateValuesFrom_checks {values values' : List Expr} {slots : List Nat}
    (h : updateValuesFrom columns values slots s = .ok values' t) :
    ∃ groups rest, slots = groups.flatten ++ rest ∧ Checks columns s groups values values' := by
  induction values generalizing values' slots with
  | nil =>
    obtain ⟨rfl, -⟩ := pure_ok.1 h
    exact ⟨[], slots, rfl, .nil⟩
  | cons value values ih =>
    simp only [updateValuesFrom, bind_ok, pure_ok, Prod.exists] at h
    obtain ⟨value', left, u, hvalue, values'', _, hvalues, rfl, rfl⟩ := h
    obtain ⟨group, rfl, hrun, -⟩ := updateValue_frame hvalue
    obtain ⟨-, rfl⟩ := updateValue_ok hvalue
    obtain ⟨groups, rest, rfl, hchecks⟩ := ih hvalues
    exact ⟨group :: groups, rest, by simp, .cons hrun hchecks⟩

namespace Checks

variable {groups : List (List Nat)} {values values' : List Expr}

theorem receives (h : Checks columns s groups values values') :
    List.Forall₂ (ReceivesAt columns) groups.flatten (values'.flatMap Expr.slots) := by
  induction h with
  | nil => exact .nil
  | cons h _ ih =>
    obtain ⟨taken, htaken, -, hreceives⟩ := updateValue_frame h
    obtain rfl : _ = taken := by simpa using htaken
    exact List.rel_append hreceives ih

theorem lengths (h : Checks columns s groups values values') :
    List.Forall₂ (fun group value => group.length = value.slots.length) groups values := by
  induction h with
  | nil => exact .nil
  | cons h _ ih =>
    obtain ⟨taken, htaken, -, hreceives⟩ := updateValue_frame h
    obtain rfl : _ = taken := by simpa using htaken
    exact .cons (hreceives.length_eq.trans (updateValue_ok h).1.length_slots) ih

end Checks

end ColumnPolicy

/-! ## Groups of slots -/

theorem length_flatten_le {α : Type} {groups takens : List (List α)}
    (h : List.Forall₂ (fun group taken => group.length ≤ taken.length) groups takens) :
    groups.flatten.length ≤ takens.flatten.length := by
  induction h with
  | nil => exact Nat.le_refl _
  | cons hle _ ih => simpa using Nat.add_le_add hle ih

/-- Two ways to cut a list into groups, of which the second has none that is shorter, are one. -/
theorem eq_of_flatten_eq {α : Type} {groups takens : List (List α)} {rest : List α}
    (h : groups.flatten = takens.flatten ++ rest)
    (hle : List.Forall₂ (fun group taken => group.length ≤ taken.length) groups takens) :
    groups = takens ∧ rest = [] := by
  induction hle generalizing rest with
  | nil => simpa using h
  | @cons group taken groups takens hle hrest ih =>
    have hsum := length_flatten_le hrest
    have hlength := congrArg List.length h
    simp only [List.flatten_cons, List.length_append] at hlength
    simp only [List.flatten_cons, List.append_assoc] at h
    obtain ⟨rfl, htail⟩ := List.append_inj h (by omega)
    obtain ⟨rfl, rfl⟩ := ih htail
    exact ⟨rfl, rfl⟩

/-- The columns behind some groups, group by group. -/
theorem project_groups {groups : List (List Nat)} {base ordinals : List Nat}
    (h : groups.flatten.mapM (fun column => base[column]?) = some ordinals) :
    ∃ slots, List.Forall₂ (fun group slot => group.mapM (fun column => base[column]?) = some slot)
      groups slots ∧ ordinals = slots.flatten := by
  induction groups generalizing ordinals with
  | nil =>
    obtain rfl : [] = ordinals := by simpa using h
    exact ⟨[], .nil, rfl⟩
  | cons group groups ih =>
    simp only [List.flatten_cons, List.mapM_append, Option.bind_eq_bind, Option.bind_eq_some_iff,
      Option.pure_def, Option.some.injEq] at h
    obtain ⟨slot, hslot, rest, hrest, rfl⟩ := h
    obtain ⟨slots, hslots, rfl⟩ := ih hrest
    exact ⟨slot :: slots, .cons hslot hslots, by simp⟩

/-- How the assignments of a statement line up: the column map is made of the columns behind the
groups of targets, and each value is assigned to those of its own group. -/
inductive LinedUp (env : Environment) (tokens : List Token) (columns : List Column)
    (a : Assignments) : Prop
  | intro {operation : Operation} {written : Range} {after : List Token}
      {groups slots : List (List Nat)} {clause : SetClause} {base : List Nat} {values : List Expr}
      {s : CompilerState} (htargets : Targets env tokens operation written after)
      (hread : clause.ReadAt operation env.config.dialect.mysql written after groups)
      (hslots : List.Forall₂
        (fun group slot => group.mapM (fun column => base[column]?) = some slot) groups slots)
      (hmap : a.columnMap.ordinals = slots.flatten)
      (hvalues : List.Forall₂ Expr.SettledFrom clause.values values)
      (hchecks : ColumnPolicy.Checks columns s slots values a.values) :
      LinedUp env tokens columns a

theorem Assigns.linedUp {env : Environment} {tokens : List Token} {columns : List Column}
    {a : Assignments} (h : Assigns env tokens columns a) :
    LinedUp env tokens columns a := by
  obtain @⟨operation, written, after, groups, _, _, _, _, htargets, hread, hvalues, rfl, hassign⟩ := h
  have hgrouped := hread.grouped
  simp only [ViewTarget.assign, ViewTarget.project, ViewTarget.checkList, bind_ok, inRange_ok,
    pure_ok, ColumnPolicy.updateValues, ColumnMap.project, Option.map_eq_some_iff] at hassign
  obtain ⟨_, _, ⟨⟨ordinals, hproject, rfl⟩, rfl⟩, values', _, hupdate, _, _, ⟨-, rfl⟩, rfl, -⟩ := hassign
  rw [hgrouped.ordinals] at hproject
  obtain ⟨slots, hslots, rfl⟩ := project_groups hproject
  obtain ⟨takens, rest, hflatten, hchecks⟩ := ColumnPolicy.updateValuesFrom_checks hupdate
  -- no value has fewer parts than its group has columns, from reading up to here
  have hdegree : List.Forall₂ (fun group (value : Expr) => group.length ≤ value.slots.length)
      groups _ := forall₂_comp hgrouped.fits hvalues fun _ _ _ _ hfits hfrom => by
      rw [hfrom.settled.node.length_slots]
      exact (hfits.alike hfrom.alike).length_le
  have hle : List.Forall₂ (fun slot taken => slot.length ≤ taken.length) slots takens :=
    forall₂_comp hslots.flip (forall₂_comp hdegree hchecks.lengths.flip
      fun _ _ _ _ hd hl => Nat.le_trans hd (Nat.le_of_eq hl.symm))
      fun _ _ _ _ hs hl => Nat.le_trans (Nat.le_of_eq (ColumnMap.mapM_some_length hs)) hl
  obtain ⟨rfl, -⟩ := eq_of_flatten_eq hflatten hle
  exact .intro htargets hread hslots rfl hvalues hchecks

theorem LinedUp.receives {env : Environment} {tokens : List Token} {columns : List Column}
    {a : Assignments} (h : LinedUp env tokens columns a) :
    List.Forall₂ (ReceivesAt columns) a.columnMap.ordinals (a.values.flatMap Expr.slots) := by
  obtain ⟨-, -, -, hmap, -, hchecks⟩ := h
  rw [hmap]
  exact hchecks.receives

theorem LinedUp.accepts {env : Environment} {tokens : List Token} {columns : List Column}
    {a : Assignments} (h : LinedUp env tokens columns a) :
    List.Forall₂ (AcceptsAt columns) a.columnMap.ordinals (a.values.flatMap Expr.slots) :=
  h.receives.imp fun _ _ ⟨column, hcolumn, hslot⟩ =>
    ⟨column, hcolumn, ColumnPolicy.receives_accepts hslot⟩

namespace Statement

variable {env : Environment} {s t : CompilerState} {statement : Statement}

/-- In a statement that compiles, the parts of the values of a SET clause are as many as the columns
that it names, and every value is checked against the columns of its own group. -/
theorem assignments_linedUp {text : String} (h : compile env text s = .ok statement t)
    (a : Assignments) (ha : a ∈ statement.assignments) :
    (a.values.map fun value => value.slots.length).sum = a.columnMap.length ∧
      ∃ tokens, tokenize text = .ok tokens ∧
        LinedUp env tokens statement.columns a := by
  obtain ⟨tokens, u, c, htokens, hhead, -⟩ := compile_ok h
  have hlined := (compileHead_assigns hhead a ha).linedUp
  refine ⟨?_, tokens, htokens, hlined⟩
  rw [← List.length_flatMap, ← hlined.accepts.length_eq, ColumnMap.length]

/-- A row, a subquery for a row and a single value. -/
def mixedGroups : String :=
  "UPDATE t SET (b) = (SELECT amount FROM ledger WHERE id = ?), (id, a) = (?, DEFAULT)"

set_option maxRecDepth 10000 in
theorem assignments_linedUp_mixed :
    ∃ statement t a, compile .bank mixedGroups .initial = .ok statement t ∧
      a ∈ statement.assignments ∧ a.columnMap.ordinals = [2, 0, 1] ∧
      (a.values.map fun value => value.slots.length).sum = a.columnMap.length ∧
      ∃ tokens, tokenize mixedGroups = .ok tokens ∧
        LinedUp .bank tokens statement.columns a := by
  obtain ⟨statement, t, hcompile, hcheck⟩ := exists_compile .bank mixedGroups
    (fun statement => statement.assignments.any (·.columnMap.ordinals = [2, 0, 1]))
    rfl (by decide +kernel)
  obtain ⟨a, ha, hmap⟩ := List.any_eq_true.1 hcheck
  exact ⟨statement, t, a, hcompile, ha, of_decide_eq_true hmap,
    assignments_linedUp hcompile a ha⟩

end Statement

end DataChange
