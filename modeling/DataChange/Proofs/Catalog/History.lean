import DataChange.Proofs.Catalog
import Mathlib.Data.List.Induction

/-!
# Catalogs and how they came about

`after history` is the catalog that a list of changes makes of the empty one. It holds what the
changes set last and did not remove (`SetsLast`). Whatever they were, its names agree with its
definitions (`lookups_agree`): what is found by name is stored under this name, the routines of a
name are all found, and so is every namespace, table and view by its own name if no name was ever
taken from another definition.
-/

namespace DataChange

namespace Catalog

/-! ## Histories -/

/-- A change to a catalog. -/
inductive Change where
  | setNamespace (n : Namespace)
  | setTable (t : Table)
  | removeTable (id : Nat)
  | setView (v : View)
  | setRoutine (r : Routine)
  | setSynonym (schemaId : Nat) (name : String) (target : QualifiedName)

namespace Change

/-- The catalog after a change. -/
def apply (c : Catalog) : Change → Catalog
  | setNamespace n => c.setNamespace n
  | setTable t => c.setTable t
  | removeTable id => c.removeTable id
  | setView v => c.setView v
  | setRoutine r => c.setRoutine r
  | setSynonym schemaId name target => c.setSynonym schemaId name target

/-- A change that gives no definition a name which another one of its kind has. Routines share
names. -/
def Free (c : Catalog) : Change → Prop
  | setNamespace n => c.namespaces.Free n
  | setTable t => c.tables.Free t
  | setView v => c.views.Free v
  | removeTable _ | setRoutine _ | setSynonym .. => True

instance (c : Catalog) (change : Change) : Decidable (change.Free c) :=
  match change with
  | setNamespace n => inferInstanceAs (Decidable (c.namespaces.Free n))
  | setTable t => inferInstanceAs (Decidable (c.tables.Free t))
  | setView v => inferInstanceAs (Decidable (c.views.Free v))
  | removeTable _ | setRoutine _ | setSynonym .. => inferInstanceAs (Decidable True)

end Change

/-- The catalog after some changes to the empty one. -/
def after (history : List Change) : Catalog :=
  history.foldl Change.apply empty

theorem after_append (history : List Change) (change : Change) :
    after (history ++ [change]) = change.apply (after history) := by
  rw [after, List.foldl_append]
  rfl

/-- Every change of a history is of a kind in the catalog that it came to. -/
def Throughout (P : Catalog → Change → Prop) (history : List Change) : Prop :=
  ∀ n, (h : n < history.length) → P (after (history.take n)) (history.get ⟨n, h⟩)

instance (P : Catalog → Change → Prop) [∀ c change, Decidable (P c change)]
    (history : List Change) : Decidable (Throughout P history) :=
  inferInstanceAs (Decidable (∀ n, (h : n < history.length) → _))

theorem throughout_append {P : Catalog → Change → Prop} {history : List Change} {change : Change}
    (h : Throughout P (history ++ [change])) :
    Throughout P history ∧ P (after history) change := by
  refine ⟨fun n hn => ?_, ?_⟩
  · have hstep := h n (by simp; omega)
    rw [List.take_append_of_le_length (by omega)] at hstep
    simpa [List.getElem_append_left hn] using hstep
  · simpa using h history.length (by simp)

/-- No change ever gave a definition a name while another one of its kind had it. -/
def Untaken (history : List Change) : Prop :=
  Throughout (fun c change => change.Free c) history

instance (history : List Change) : Decidable (Untaken history) :=
  inferInstanceAs (Decidable (Throughout _ history))

/-! ## What every change keeps -/

/-- The names of all kinds of definitions agree with them. The name of a routine holds its id, so
that no routine can take the name of another. -/
structure Consistent (c : Catalog) : Prop where
  namespaces : c.namespaces.Consistent
  tables : c.tables.Consistent
  views : c.views.Consistent
  routines : c.routines.Consistent
  overloads : c.routines.Complete

/-- All definitions whose names belong to them alone are found by them. -/
structure Complete (c : Catalog) : Prop where
  namespaces : c.namespaces.Complete
  tables : c.tables.Complete
  views : c.views.Complete

variable {c : Catalog} {change : Change}

theorem routines_free (c : Catalog) (r : Routine) : c.routines.Free r := by
  rintro s - hid hkey
  exact hid (congrArg Prod.snd hkey)

theorem Consistent.apply (h : c.Consistent) : (change.apply c).Consistent := by
  cases change with
  | setNamespace n => exact { h with namespaces := h.namespaces.insert n }
  | setTable t => exact { h with tables := h.tables.insert t }
  | removeTable id => exact { h with tables := h.tables.erase id }
  | setView v => exact { h with views := h.views.insert v }
  | setRoutine r =>
    exact { h with
      routines := h.routines.insert r
      overloads := h.overloads.insert h.routines (routines_free c r) }
  | setSynonym schemaId name target => exact { h with }

theorem Complete.apply (h : c.Complete) (hc : c.Consistent) (hfree : change.Free c) :
    (change.apply c).Complete := by
  cases change with
  | setNamespace n => exact { h with namespaces := h.namespaces.insert hc.namespaces hfree }
  | setTable t => exact { h with tables := h.tables.insert hc.tables hfree }
  | removeTable id => exact { h with tables := h.tables.erase hc.tables id }
  | setView v => exact { h with views := h.views.insert hc.views hfree }
  | setRoutine r => exact { h with }
  | setSynonym schemaId name target => exact { h with }

theorem consistent_after (history : List Change) : (after history).Consistent := by
  induction history using List.reverseRecOn with
  | nil => exact ⟨.empty, .empty, .empty, .empty, .empty⟩
  | append_singleton history change ih =>
    rw [after_append]
    exact ih.apply

theorem complete_after {history : List Change} (h : Untaken history) :
    (after history).Complete := by
  induction history using List.reverseRecOn with
  | nil => exact ⟨.empty, .empty, .empty⟩
  | append_singleton history change ih =>
    obtain ⟨hhistory, hfree⟩ := throughout_append h
    rw [after_append]
    exact (ih hhistory).apply (consistent_after history) hfree

/-! ## What a history leaves -/

/-- The kinds of definitions that have ids. -/
inductive Kind where
  | namespaces
  | tables
  | views
  | routines
  deriving DecidableEq

/-- The definition that a change is about, by kind and id. -/
def Change.subject? : Change → Option (Kind × Nat)
  | setNamespace n => some (.namespaces, n.id)
  | setTable t => some (.tables, t.id)
  | removeTable id => some (.tables, id)
  | setView v => some (.views, v.id)
  | setRoutine r => some (.routines, r.id)
  | setSynonym .. => none

/-- A change of a history that no later one undoes: none is about the same definition. -/
def SetsLast (history : List Change) (change : Change) : Prop :=
  ∃ before later, history = before ++ change :: later ∧
    ∀ other ∈ later, other.subject? ≠ change.subject?

theorem setsLast_append {history : List Change} {last change : Change} :
    SetsLast (history ++ [last]) change ↔
      last = change ∨ SetsLast history change ∧ last.subject? ≠ change.subject? := by
  constructor
  · rintro ⟨before, later, hhistory, hlater⟩
    rcases List.eq_nil_or_concat later with rfl | ⟨later, other, rfl⟩
    · exact .inl (List.singleton_inj.1 (List.append_inj' hhistory rfl).2)
    · have hsplit : history ++ [last] = (before ++ change :: later) ++ [other] := by
        simp [hhistory]
      obtain ⟨rfl, hlast⟩ := List.append_inj' hsplit rfl
      obtain rfl := List.singleton_inj.1 hlast
      refine .inr ⟨⟨before, later, rfl, fun x hx => hlater x (by simp [hx])⟩, ?_⟩
      exact hlater last (by simp)
  · rintro (rfl | ⟨⟨before, later, rfl, hlater⟩, hlast⟩)
    · exact ⟨history, [], rfl, by simp⟩
    · refine ⟨before, later ++ [last], by simp, fun x hx => ?_⟩
      rcases List.mem_append.1 hx with hx | hx
      · exact hlater x hx
      · exact List.mem_singleton.1 hx ▸ hlast

/-- A catalog holds exactly what some changes set last. -/
structure HoldsLast (c : Catalog) (history : List Change) : Prop where
  namespaces : ∀ n, c.namespaces.Holds n ↔ SetsLast history (.setNamespace n)
  tables : ∀ t, c.tables.Holds t ↔ SetsLast history (.setTable t)
  views : ∀ v, c.views.Holds v ↔ SetsLast history (.setView v)
  routines : ∀ r, c.routines.Holds r ↔ SetsLast history (.setRoutine r)

theorem HoldsLast.empty : empty.HoldsLast [] := by
  have hnone : ∀ change, ¬ SetsLast [] change := by
    rintro change ⟨before, later, h, -⟩
    simp at h
  constructor <;> exact fun _ => iff_of_false nofun (hnone _)

/-- One more change sets a definition of one kind, or removes one, and leaves the other kinds. -/
theorem HoldsLast.apply {history : List Change} (h : c.HoldsLast history) :
    (change.apply c).HoldsLast (history ++ [change]) := by
  -- Seen from one kind, a change of another kind changes nothing and is about nothing of this kind.
  refine ⟨fun n => ?_, fun t => ?_, fun v => ?_, fun r => ?_⟩ <;> rw [setsLast_append]
  · rw [← h.namespaces]
    cases change <;> simp [Change.apply, Change.subject?, setNamespace, setTable, removeTable, setView,
      setRoutine, setSynonym, Directory.holds_insert, Named.id]
  · rw [← h.tables]
    cases change <;> simp [Change.apply, Change.subject?, setNamespace, setTable, removeTable, setView,
      setRoutine, setSynonym, Directory.holds_insert, Directory.holds_erase, Named.id]
  · rw [← h.views]
    cases change <;> simp [Change.apply, Change.subject?, setNamespace, setTable, removeTable, setView,
      setRoutine, setSynonym, Directory.holds_insert, Named.id]
  · rw [← h.routines]
    cases change <;> simp [Change.apply, Change.subject?, setNamespace, setTable, removeTable, setView,
      setRoutine, setSynonym, Directory.holds_insert, Named.id]

theorem holdsLast_after (history : List Change) : (after history).HoldsLast history := by
  induction history using List.reverseRecOn with
  | nil => exact .empty
  | append_singleton history change ih =>
    rw [after_append]
    exact ih.apply

/-! ## Routines of a name -/

section

variable {name : NameKey} {key : OverloadKey}

theorem mem_overloads (h : c.Consistent) :
    key ∈ c.overloads name ↔ key.1 = name ∧ key.2 ≤ maxId ∧
      ∃ r, c.routines.Holds r ∧ Named.key r = key := by
  have hkeys : key ∈ c.routines.ids.keys ↔ ∃ r, c.routines.Holds r ∧ Named.key r = key := by
    rw [Index.mem_keys_iff h.routines.distinctNames]
    constructor
    · rintro ⟨id, hid⟩
      obtain ⟨r, hr, hkey⟩ := h.routines.named key id hid
      exact ⟨r, h.routines.holds hr, hkey⟩
    · rintro ⟨r, hr, rfl⟩
      exact ⟨_, h.overloads.get?_ids h.routines hr⟩
  simp only [overloads, List.mem_mergeSort, List.mem_filter, Bool.and_eq_true, beq_iff_eq,
    decide_eq_true_eq, hkeys]
  rw [and_comm, and_assoc]

/-- The keys of a name differ in their ids, which go up. -/
theorem pairwise_overloads (h : c.Consistent) :
    (c.overloads name).Pairwise fun a b => a.2 < b.2 := by
  have hsorted : (c.overloads name).Pairwise fun a b => decide (a.2 ≤ b.2) = true :=
    List.pairwise_mergeSort (fun a b d hab hbd => by simp only [decide_eq_true_eq] at *; omega)
      (fun a b => by simp only [Bool.or_eq_true, decide_eq_true_eq]; omega) _
  have hnodup : (c.overloads name).Nodup :=
    (List.mergeSort_perm _ _).nodup_iff.2 (h.routines.distinctNames.filter _)
  refine (hsorted.and hnodup).imp_of_mem fun {a b} ha hb hab => ?_
  obtain ⟨hle, hne⟩ := hab
  have hname : a.1 = b.1 :=
    ((mem_overloads h).1 ha).1.trans ((mem_overloads h).1 hb).1.symm
  refine Nat.lt_of_le_of_ne (of_decide_eq_true hle) fun hid => hne ?_
  exact Prod.ext hname hid

end

theorem mem_routinesIn (h : c.Consistent) {schemaId : Nat} {name : String} {r : Routine} :
    r ∈ c.routinesIn schemaId name ↔ c.routines.Holds r ∧ r.schemaId = schemaId ∧
      Text.foldCase r.name = Text.foldCase name ∧ r.id ≤ maxId := by
  simp only [routinesIn, List.mem_filterMap, mem_overloads h]
  constructor
  · rintro ⟨_, ⟨hname, hid, q, hq, rfl⟩, hr⟩
    obtain rfl : q = r := Option.some.inj (hq.symm.trans hr)
    obtain ⟨hschema, hfold⟩ := Prod.mk.inj hname
    exact ⟨hq, hschema, hfold, hid⟩
  · rintro ⟨hr, rfl, hfold, hid⟩
    exact ⟨Named.key r, ⟨Prod.ext rfl hfold, hid, r, hr, rfl⟩, hr⟩

theorem pairwise_routinesIn (h : c.Consistent) (schemaId : Nat) (name : String) :
    (c.routinesIn schemaId name).Pairwise fun a b => a.id < b.id := by
  refine List.pairwise_filterMap.2 ((pairwise_overloads h).imp fun {a b} hab => ?_)
  intro r hr s hs
  have hr : r.id = a.2 := h.routines.own _ _ hr
  have hs : s.id = b.2 := h.routines.own _ _ hs
  rwa [hr, hs]

/-! ## Looking up names -/

/-- What is found by a name is stored under this name, and of a name that routines share all are
found, each once and in the order of their ids. -/
structure FindsStored (c : Catalog) : Prop where
  namespaces : ∀ name n, c.namespace? name = some n →
    c.namespaces.Holds n ∧ Text.foldCase n.name = Text.foldCase name
  tables : ∀ schemaId name t, c.tableIn? schemaId name = some t →
    c.tables.Holds t ∧ t.schemaId = schemaId ∧ Text.foldCase t.name = Text.foldCase name
  views : ∀ schemaId name v, c.viewIn? schemaId name = some v →
    c.views.Holds v ∧ v.schemaId = schemaId ∧ Text.foldCase v.name = Text.foldCase name
  routines : ∀ schemaId name r, r ∈ c.routinesIn schemaId name ↔
    c.routines.Holds r ∧ r.schemaId = schemaId ∧ Text.foldCase r.name = Text.foldCase name ∧
      r.id ≤ maxId
  ascending : ∀ schemaId name, (c.routinesIn schemaId name).Pairwise fun a b => a.id < b.id

/-- Every stored namespace, table and view is found by its own name. -/
structure FindsAll (c : Catalog) : Prop where
  namespaces : ∀ n, c.namespaces.Holds n → c.namespace? n.name = some n
  tables : ∀ t, c.tables.Holds t → c.tableIn? t.schemaId t.name = some t
  views : ∀ v, c.views.Holds v → c.viewIn? v.schemaId v.name = some v

theorem Consistent.findsStored (h : c.Consistent) : c.FindsStored := by
  refine ⟨fun name n hn => h.namespaces.of_find? hn, fun schemaId name t ht => ?_,
    fun schemaId name v hv => ?_, fun _ _ _ => mem_routinesIn h, pairwise_routinesIn h⟩
  · obtain ⟨hholds, hkey⟩ := h.tables.of_find? ht
    exact ⟨hholds, Prod.mk.inj hkey⟩
  · obtain ⟨hholds, hkey⟩ := h.views.of_find? hv
    exact ⟨hholds, Prod.mk.inj hkey⟩

/-- Whatever the history of a catalog is, the catalog holds what was set last, its names find what is
stored, and they find all of it if no name was taken while another definition had it. -/
theorem lookups_agree (history : List Change) :
    (after history).HoldsLast history ∧ (after history).FindsStored ∧
      (Untaken history → (after history).FindsAll) := by
  refine ⟨holdsLast_after history, (consistent_after history).findsStored, fun h => ?_⟩
  have hcomplete := complete_after h
  exact ⟨hcomplete.namespaces, hcomplete.tables, hcomplete.views⟩

/-- Changes that rename, move, remove and reuse names, but never take one. -/
def reusing : List Change :=
  let sales : Namespace := ⟨1, "Sales"⟩
  let archive : Namespace := ⟨2, "Archive"⟩
  [.setNamespace sales, .setNamespace archive, .setTable (Banking.table 1 sales "Orders" []),
    .setTable (Banking.table 1 archive "Orders" []), .setTable (Banking.table 2 sales "ORDERS" []),
    .removeTable 1, .setTable (Banking.table 3 archive "orders" []),
    .setView (Banking.view 1 "orders" [] none), .setView (Banking.view 1 "bills" [] none),
    .setNamespace ⟨1, "Trade"⟩, .setNamespace ⟨3, "SALES"⟩,
    .setRoutine (Banking.procedure maxId "log" []), .setRoutine (Banking.procedure 0 "LOG" [])]

/-- A table that has the name of one that was removed is found by it. -/
theorem lookups_agree_reusing :
    let orders := Banking.table 3 ⟨2, "Archive"⟩ "orders" []
    Untaken reusing ∧ SetsLast reusing (.setTable orders) ∧
      (after reusing).tableIn? 2 "orders" = some orders ∧ (after reusing).HoldsLast reusing ∧
      (after reusing).FindsStored ∧ (after reusing).FindsAll := by
  intro orders
  have huntaken : Untaken reusing := by decide +kernel
  have hlast : SetsLast reusing (.setTable orders) :=
    ⟨reusing.take 6, reusing.drop 7, rfl, by decide⟩
  obtain ⟨hholds, hstored, hfinds⟩ := lookups_agree reusing
  have hall := hfinds huntaken
  exact ⟨huntaken, hlast, hall.tables orders ((hholds.tables orders).2 hlast), hholds, hstored, hall⟩

end Catalog

end DataChange
