import Mathlib
import DataChange.Proofs.Catalog.History

/-!
# Tables that a change leaves alone

What a name finds after a change to another definition. A directory drops the name of the changed
definition without a look at whom it stands for, so a name that the definition carries or carried is
lost even where another definition has taken it (`find?_erase`, `find?_insert`). Over any history a
table stays found through a change to another one exactly where the other one does not carry its
name (`found_after_change`), which is always so if no name was ever taken from a definition.
-/

namespace DataChange

namespace Directory

variable {κ α : Type} [BEq κ] [LawfulBEq κ] [Named α κ] {d : Directory κ α} {id : Nat} {key : κ}

/-- Whether the definition that is stored under an id has a name. -/
def hasName (d : Directory κ α) (id : Nat) (key : κ) : Bool :=
  (d.get? id).any fun x => Named.key x == key

theorem hasName_iff : d.hasName id key = true ↔ ∃ x, d.get? id = some x ∧ Named.key x = key := by
  simp [hasName, Option.any_eq_true]

/-- A definition that goes takes its name along; every other name finds what it found. -/
theorem find?_erase (h : d.Consistent) (id : Nat) (key : κ) :
    (d.erase id).find? key = if d.hasName id key then none else d.find? key := by
  split
  · next hname =>
    obtain ⟨x, hx, rfl⟩ := hasName_iff.1 hname
    refine Option.eq_none_iff_forall_ne_some.2 fun y hy => ?_
    obtain ⟨other, hother, -⟩ := find?_eq_some_iff.1 hy
    exact (get?_idsWithout.1 hother).2 x hx rfl
  · next hname =>
    have hne : ∀ x, d.get? id = some x → Named.key x ≠ key :=
      fun x hx hkey => hname (hasName_iff.2 ⟨x, hx, hkey⟩)
    refine Option.ext fun y => ?_
    simp only [find?_eq_some_iff, get?_erase]
    constructor
    · rintro ⟨other, hother, hy⟩
      split at hy
      · cases hy
      · exact ⟨other, (get?_idsWithout.1 hother).1, hy⟩
    · rintro ⟨other, hother, hy⟩
      obtain ⟨z, hz, hkey⟩ := h.named key other hother
      -- the name stands for `other`, which has it, so `other` is not the id that goes
      have hid : other ≠ id := by
        rintro rfl
        exact hne z hz hkey
      exact ⟨other, get?_idsWithout.2 ⟨hother, hne⟩, by rw [if_neg hid, hy]⟩

/-- A definition that is set is found by its name; for every other name it is as if the definition
that had its id before were gone. -/
theorem find?_insert (h : d.Consistent) (x : α) (key : κ) : (d.insert x).find? key =
    if key == Named.key x then some x else (d.erase (Named.id x)).find? key := by
  split
  · next hkey => rw [eq_of_beq hkey, find?_insert_self]
  · next hkey =>
    refine Option.ext fun y => ?_
    simp only [find?_eq_some_iff, get?_ids_insert, if_neg hkey, get?_insert, get?_erase]
    refine exists_congr fun other => and_congr_right fun hother => ?_
    have hid : other ≠ Named.id x := by
      rintro rfl
      obtain ⟨hold, hne⟩ := get?_idsWithout.1 hother
      obtain ⟨z, hz, hkey⟩ := h.named key _ hold
      exact hne z hz hkey
    rw [if_neg hid, if_neg hid]

/-- In a directory where every definition is found by its name no other one has it. -/
theorem Complete.hasName_eq_false (h : d.Complete) (hc : d.Consistent) {x : α}
    (hx : d.find? key = some x) (hid : id ≠ Named.id x) : d.hasName id key = false := by
  rw [Bool.eq_false_iff, Ne, hasName_iff]
  rintro ⟨y, hy, hkey⟩
  obtain ⟨hholds, hkey'⟩ := hc.of_find? hx
  refine hid ?_
  rw [← hc.own id y hy, h.eq_of_key (hc.holds hy) hholds (hkey.trans hkey'.symm)]

end Directory

namespace Catalog

/-- A change to the table with an id that gives it no name of a given kind: it is removed, or set
under another name. -/
inductive Change.Leaves (id : Nat) (name : NameKey) : Change → Prop
  | remove : Leaves id name (.removeTable id)
  | set {t : Table} (hid : t.id = id) (hname : NameKey.of t.schemaId t.name ≠ name) :
      Leaves id name (.setTable t)

/-- What a name finds after a change to a table that leaves the name alone. -/
theorem tableIn?_leaves {c : Catalog} (h : c.Consistent) {id schemaId : Nat} {name : String}
    {change : Change} (hchange : change.Leaves id (NameKey.of schemaId name)) :
    (change.apply c).tableIn? schemaId name =
      if c.tables.hasName id (NameKey.of schemaId name) then none else c.tableIn? schemaId name := by
  cases hchange with
  | remove => exact Directory.find?_erase h.tables id _
  | @set t hid hname =>
    subst hid
    refine (Directory.find?_insert h.tables t _).trans ?_
    have hother : NameKey.of schemaId name ≠ Named.key t := fun hkey => hname hkey.symm
    rw [if_neg (by simpa using hother)]
    exact Directory.find?_erase h.tables t.id _

/-- Whatever the history of a catalog is, a table that is found by a name is still found after a
change to another table, unless this other one has the name as well: then nothing is found. It never
has it if no name was taken while another definition had it. -/
theorem found_after_change (history : List Change) {schemaId id : Nat} {name : String} {t : Table}
    (hfound : (after history).tableIn? schemaId name = some t) (hid : id ≠ t.id) {change : Change}
    (hchange : change.Leaves id (NameKey.of schemaId name)) :
    ((change.apply (after history)).tableIn? schemaId name =
      if (after history).tables.hasName id (NameKey.of schemaId name) then none else some t) ∧
    (Untaken history → (after history).tables.hasName id (NameKey.of schemaId name) = false) := by
  have hconsistent := consistent_after history
  refine ⟨by rw [tableIn?_leaves hconsistent hchange, hfound], fun huntaken => ?_⟩
  exact (complete_after huntaken).tables.hasName_eq_false hconsistent.tables hfound hid

/-- Two tables of one name: the second takes it from the first. -/
def taking : List Change :=
  [.setTable (Banking.table 1 Banking.publicSchema "bills" []),
    .setTable (Banking.table 2 Banking.publicSchema "Bills" [])]

theorem found_after_change_taking :
    ((after taking).tableIn? 1 "BILLS" = some (Banking.table 2 Banking.publicSchema "Bills" []) ∧
      ((after taking).removeTable 1).tableIn? 1 "BILLS" = none) ∧
    (Untaken reusing ∧
      (after reusing).tableIn? 2 "ORDERS" = some (Banking.table 3 ⟨2, "Archive"⟩ "orders" []) ∧
      ((after reusing).removeTable 2).tableIn? 2 "ORDERS" =
        some (Banking.table 3 ⟨2, "Archive"⟩ "orders" [])) := by
  have htaken : (after taking).tableIn? 1 "BILLS" =
      some (Banking.table 2 Banking.publicSchema "Bills" []) := by cbv
  have hnamed : (after taking).tables.hasName 1 (NameKey.of 1 "BILLS") = true := by cbv
  have hhidden := (found_after_change taking htaken (show 1 ≠ 2 by decide) .remove).1
  have huntaken : Untaken reusing := by decide +kernel
  have hfound : (after reusing).tableIn? 2 "ORDERS" =
      some (Banking.table 3 ⟨2, "Archive"⟩ "orders" []) := by cbv
  have hkept := found_after_change reusing hfound (show 2 ≠ 3 by decide) .remove
  exact ⟨⟨htaken, hhidden.trans (if_pos hnamed)⟩, huntaken, hfound,
    hkept.1.trans (if_neg (by simp [hkept.2 huntaken]))⟩

/-- The removal of one table can hide another. -/
theorem removal_hides : ¬ ∀ (history : List Change) (schemaId id : Nat) (name : String) (t : Table),
    (after history).tableIn? schemaId name = some t → id ≠ t.id →
    ((after history).removeTable id).tableIn? schemaId name = some t := by
  intro h
  have hfound := h taking 1 1 "bills" (Banking.table 2 Banking.publicSchema "Bills" [])
    (by cbv) (by decide)
  have hnone : ((after taking).removeTable 1).tableIn? 1 "bills" = none := by cbv
  rw [hnone] at hfound
  cases hfound

end Catalog

end DataChange
