import DataChange.Catalog.Banking
import DataChange.Range.Reading

/-!
# What the catalog finds

A view that is found by name is one of the views of the catalog (`mem_views`), and what a view is
over is found by the name of its base (`base?_of_relation`).

A directory keeps two indexes, and every change edits both. What it says of a name is never out of
date (`Consistent`): the id that a name stands for is that of a stored definition with this name.
The converse, that a stored definition is found by its name (`Complete`), holds as long as no
definition is given a name that another one has (`Free`).
-/

namespace DataChange

/-! ## Views and their bases -/

theorem Index.mem_values {κ α : Type} [BEq κ] {index : Index κ α} {key : κ} {value : α}
    (h : index.get? key = some value) : value ∈ index.values := by
  obtain ⟨entries⟩ := index
  simp only [get?, values] at h ⊢
  induction entries with
  | nil => cases h
  | cons entry rest ih =>
    obtain ⟨k, v⟩ := entry
    rw [List.lookup_cons] at h
    split at h
    · simp_all
    · simp [ih h]

theorem Directory.mem_values {κ α : Type} [BEq κ] [Named α κ] {d : Directory κ α} {key : κ}
    {definition : α} (h : d.find? key = some definition) : definition ∈ d.byId.values := by
  unfold find? at h
  split at h
  · exact Index.mem_values h
  · cases h

namespace Environment

/-- The views that can be named. -/
def views (env : Environment) : List View :=
  env.catalog.views.byId.values

theorem mem_views {env : Environment} {name : QualifiedName} {fragment : Fragment} {v : View}
    (h : env.relation name fragment = .ok (.view v)) : v ∈ env.views := by
  unfold relation Catalog.relation? Catalog.view? at h
  split at h
  · next found hfound =>
    obtain rfl : found = .view v := by simpa using h
    split at hfound
    · cases hfound
    · split at hfound
      · obtain ⟨w, hw, heq⟩ := Option.map_eq_some_iff.1 hfound
        obtain rfl : w = v := by simpa using heq
        exact Directory.mem_values hw
      · cases hfound
  · cases h

/-- The relation that a view is over. -/
def base? (env : Environment) (v : View) : Option Relation :=
  v.base.bind fun base =>
    let name := base.relation.qualify v.schemaName
    env.catalog.relation? (name.schemaOr env.config.defaultSchema) name.name

theorem base?_of_relation {env : Environment} {v : View} {base : ViewBase} {relation : Relation}
    {fragment : Fragment} (hbase : v.base = some base)
    (h : env.relation (base.relation.qualify v.schemaName) fragment = .ok relation) :
    env.base? v = some relation := by
  unfold Environment.relation at h
  simp only [base?, hbase, Option.bind_some]
  split at h
  · next found hfound =>
    obtain rfl := Except.ok.inj h
    exact hfound
  · cases h

/-- The bank under the default configuration. -/
def bank : Environment := ⟨Catalog.Banking.catalog, {}⟩

end Environment

/-! ## Entries -/

namespace Index

variable {κ α : Type} [BEq κ] {index : Index κ α} {key : κ} {value : α}

theorem nodup_erase (h : index.keys.Nodup) : (index.erase key).keys.Nodup :=
  h.sublist (List.filter_sublist.map _)

variable [LawfulBEq κ]

theorem get?_insert (index : Index κ α) (key other : κ) (value : α) :
    (index.insert key value).get? other =
      if other == key then some value else index.get? other := by
  split
  · next h => rw [eq_of_beq h, get?_insert_self]
  · next h => exact get?_insert_of_ne index value (by simpa using h)

theorem get?_erase (index : Index κ α) (key other : κ) :
    (index.erase key).get? other = if other == key then none else index.get? other := by
  obtain ⟨entries⟩ := index
  simp only [get?, erase]
  induction entries with
  | nil => simp
  | cons entry rest ih =>
    obtain ⟨k, v⟩ := entry
    by_cases hk : key = k
    · subst hk
      rw [List.filter_cons_of_neg (by simp), ih]
      split
      · rfl
      · next hother => rw [List.lookup_cons, eq_false_of_ne_true hother]
    · rw [List.filter_cons_of_pos (by simpa using hk), List.lookup_cons, List.lookup_cons, ih]
      split
      · next hother => rw [if_neg (by rw [eq_of_beq hother]; simpa using Ne.symm hk)]
      · rfl

theorem mem_keys_insert {other : κ} :
    other ∈ (index.insert key value).keys ↔ other = key ∨ other ∈ index.keys := by
  obtain ⟨entries⟩ := index
  simp only [keys, insert]
  induction entries with
  | nil => simp [insertEntry]
  | cons entry rest ih =>
    obtain ⟨k, v⟩ := entry
    by_cases h : key == k
    · obtain rfl : key = k := by simpa using h
      simp [insertEntry]
    · simp only [insertEntry, h, Bool.false_eq_true, ↓reduceIte, List.map_cons, List.mem_cons, ih]
      exact or_left_comm

theorem nodup_insert (h : index.keys.Nodup) : (index.insert key value).keys.Nodup := by
  obtain ⟨entries⟩ := index
  simp only [keys, insert] at h ⊢
  induction entries with
  | nil => simp [insertEntry]
  | cons entry rest ih =>
    obtain ⟨k, v⟩ := entry
    obtain ⟨hk, hrest⟩ := List.nodup_cons.1 h
    by_cases hkey : key == k
    · obtain rfl : key = k := by simpa using hkey
      simpa [insertEntry] using h
    · simp only [insertEntry, hkey, Bool.false_eq_true, ↓reduceIte, List.map_cons, List.nodup_cons]
      refine ⟨fun hmem => ?_, ih hrest⟩
      have hmem : k = key ∨ k ∈ (⟨rest⟩ : Index κ α).keys := mem_keys_insert.1 hmem
      rcases hmem with rfl | hmem
      · simp at hkey
      · exact hk hmem

/-- With distinct keys the entries are what is found. -/
theorem mem_entries_iff (h : index.keys.Nodup) :
    (key, value) ∈ index.entries ↔ index.get? key = some value := by
  obtain ⟨entries⟩ := index
  simp only [keys, get?] at h ⊢
  induction entries with
  | nil => simp
  | cons entry rest ih =>
    obtain ⟨k, v⟩ := entry
    obtain ⟨hk, hrest⟩ := List.nodup_cons.1 h
    rw [List.mem_cons, List.lookup_cons]
    by_cases hkey : key = k
    · subst hkey
      have hnot : (key, value) ∉ rest := fun hmem => hk (List.mem_map.2 ⟨_, hmem, rfl⟩)
      simp [hnot, eq_comm]
    · simp [hkey, beq_false_of_ne hkey, ih hrest]

theorem mem_keys_iff (h : index.keys.Nodup) :
    key ∈ index.keys ↔ ∃ value, index.get? key = some value := by
  simp only [← mem_entries_iff h, keys, List.mem_map, Prod.exists, exists_and_right, exists_eq_right]

end Index

/-! ## Directories -/

namespace Directory

variable {κ α : Type} [BEq κ] {d : Directory κ α} {x y : α} {id : Nat} {key : κ}

theorem find?_eq_some_iff : d.find? key = some x ↔
    ∃ id, d.ids.get? key = some id ∧ d.get? id = some x := by
  unfold find?
  cases d.ids.get? key with
  | none => simp
  | some id => simp

variable [Named α κ]

/-- A definition is stored under its id. -/
def Holds (d : Directory κ α) (x : α) : Prop :=
  d.get? (Named.id x) = some x

/-- No other definition has the name of this one. -/
def Free (d : Directory κ α) (x : α) : Prop :=
  ∀ y ∈ d.byId.values, Named.id y ≠ Named.id x → Named.key y ≠ Named.key x

instance [DecidableEq κ] (d : Directory κ α) (x : α) : Decidable (d.Free x) :=
  inferInstanceAs (Decidable (∀ y ∈ d.byId.values, _))

/-- Every name stands for a stored definition that has it. -/
structure Consistent (d : Directory κ α) : Prop where
  distinctIds : d.byId.keys.Nodup
  distinctNames : d.ids.keys.Nodup
  /-- A definition is stored under no id but its own. -/
  own : ∀ id x, d.get? id = some x → Named.id x = id
  named : ∀ key id, d.ids.get? key = some id → ∃ x, d.get? id = some x ∧ Named.key x = key

/-- Every stored definition is found by its name. -/
def Complete (d : Directory κ α) : Prop :=
  ∀ x, d.Holds x → d.find? (Named.key x) = some x

namespace Consistent

theorem empty : ({} : Directory κ α).Consistent := by
  refine ⟨List.nodup_nil, List.nodup_nil, ?_, ?_⟩
  · rintro id x ⟨⟩
  · rintro key id ⟨⟩

theorem holds (h : d.Consistent) (hx : d.get? id = some x) : d.Holds x := by
  rw [Holds, h.own id x hx, hx]

theorem mem_values_iff (h : d.Consistent) : x ∈ d.byId.values ↔ d.Holds x := by
  simp only [Index.values, List.mem_map, Prod.exists, Index.mem_entries_iff h.distinctIds,
    exists_eq_right]
  constructor
  · rintro ⟨id, hid⟩
    exact h.holds hid
  · exact fun hx => ⟨_, hx⟩

/-- What a name finds is stored, and has the name. -/
theorem of_find? (h : d.Consistent) (hx : d.find? key = some x) :
    d.Holds x ∧ Named.key x = key := by
  obtain ⟨id, hid, hget⟩ := find?_eq_some_iff.1 hx
  obtain ⟨y, hy, hkey⟩ := h.named key id hid
  obtain rfl := Option.some.inj (hget.symm.trans hy)
  exact ⟨h.holds hget, hkey⟩

end Consistent

namespace Complete

theorem empty : ({} : Directory κ α).Complete := by
  rintro x ⟨⟩

/-- Definitions that are found by their names have different names. -/
theorem eq_of_key (h : d.Complete) (hx : d.Holds x) (hy : d.Holds y)
    (hkey : Named.key x = Named.key y) : x = y :=
  Option.some.inj ((h x hx).symm.trans (hkey ▸ h y hy))

/-- The id that the name of a stored definition stands for is its own. -/
theorem get?_ids (h : d.Complete) (hc : d.Consistent) (hx : d.Holds x) :
    d.ids.get? (Named.key x) = some (Named.id x) := by
  obtain ⟨id, hid, hget⟩ := find?_eq_some_iff.1 (h x hx)
  rw [hid, hc.own id x hget]

end Complete

/-! ## Changes -/

theorem get?_insert (d : Directory κ α) (x : α) (id : Nat) :
    (d.insert x).get? id = if id = Named.id x then some x else d.get? id := by
  show (d.byId.insert _ _).get? id = _
  rw [Index.get?_insert]
  simp only [beq_iff_eq]
  rfl

theorem get?_erase (d : Directory κ α) (id other : Nat) :
    (d.erase id).get? other = if other = id then none else d.get? other := by
  show (d.byId.erase id).get? other = _
  rw [Index.get?_erase]
  simp only [beq_iff_eq]
  rfl

theorem holds_insert : (d.insert x).Holds y ↔ x = y ∨ d.Holds y ∧ Named.id x ≠ Named.id y := by
  rw [Holds, get?_insert, Holds]
  by_cases hid : Named.id y = Named.id x
  · rw [if_pos hid]
    constructor
    · exact fun h => .inl (Option.some.inj h)
    · rintro (rfl | ⟨-, hne⟩)
      · rfl
      · exact absurd hid.symm hne
  · rw [if_neg hid]
    constructor
    · exact fun h => .inr ⟨h, Ne.symm hid⟩
    · rintro (rfl | ⟨h, -⟩)
      · exact absurd rfl hid
      · exact h

theorem holds_erase : (d.erase id).Holds y ↔ d.Holds y ∧ id ≠ Named.id y := by
  rw [Holds, get?_erase, Holds]
  by_cases hid : Named.id y = id
  · simp [hid]
  · simp [hid, Ne.symm hid]

theorem nodup_idsWithout (h : d.ids.keys.Nodup) : (d.idsWithout id).keys.Nodup := by
  unfold idsWithout
  split
  · exact Index.nodup_erase h
  · exact h

variable [LawfulBEq κ]

/-- When an id gives up its name, all other names are left. -/
theorem get?_idsWithout {other : Nat} : (d.idsWithout id).get? key = some other ↔
    d.ids.get? key = some other ∧ ∀ x, d.get? id = some x → Named.key x ≠ key := by
  unfold idsWithout
  cases h : d.get? id with
  | none => simp
  | some x =>
    simp only [Index.get?_erase, Option.some.injEq, forall_eq']
    split
    · next hkey => simp [eq_of_beq hkey]
    · next hkey => simp [Ne.symm (show key ≠ Named.key x by simpa using hkey)]

theorem get?_ids_insert : (d.insert x).ids.get? key =
    if key == Named.key x then some (Named.id x) else (d.idsWithout (Named.id x)).get? key :=
  Index.get?_insert ..

namespace Consistent

theorem insert (h : d.Consistent) (x : α) : (d.insert x).Consistent := by
  refine ⟨Index.nodup_insert h.distinctIds, Index.nodup_insert (nodup_idsWithout h.distinctNames),
    fun id y hy => ?_, fun key id hkey => ?_⟩
  · rw [get?_insert] at hy
    split at hy
    · next hid =>
      obtain rfl := Option.some.inj hy
      exact hid.symm
    · exact h.own id y hy
  · rw [get?_ids_insert] at hkey
    split at hkey
    · next heq =>
      obtain rfl := Option.some.inj hkey
      exact ⟨x, by rw [get?_insert, if_pos rfl], (eq_of_beq heq).symm⟩
    · obtain ⟨hold, hother⟩ := get?_idsWithout.1 hkey
      obtain ⟨y, hy, rfl⟩ := h.named key id hold
      -- the name that the id of `x` had before is given up, so this is another id
      have hid : id ≠ Named.id x := by
        rintro rfl
        exact hother y hy rfl
      exact ⟨y, by rw [get?_insert, if_neg hid, hy], rfl⟩

theorem erase (h : d.Consistent) (id : Nat) : (d.erase id).Consistent := by
  refine ⟨Index.nodup_erase h.distinctIds, nodup_idsWithout h.distinctNames, fun other y hy => ?_,
    fun key other hkey => ?_⟩
  · rw [get?_erase] at hy
    split at hy
    · cases hy
    · exact h.own other y hy
  · obtain ⟨hold, hother⟩ := get?_idsWithout.1 hkey
    obtain ⟨y, hy, rfl⟩ := h.named key other hold
    have hid : other ≠ id := by
      rintro rfl
      exact hother y hy rfl
    exact ⟨y, by rw [get?_erase, if_neg hid, hy], rfl⟩

end Consistent

namespace Complete

/-- When an id gives up its name, no other definition that is found loses its own. -/
theorem get?_idsWithout (h : d.Complete) (hc : d.Consistent) (hx : d.Holds x)
    (hid : Named.id x ≠ id) : (d.idsWithout id).get? (Named.key x) = some (Named.id x) := by
  refine Directory.get?_idsWithout.2 ⟨h.get?_ids hc hx, fun previous hprevious heq => hid ?_⟩
  rw [← h.eq_of_key (hc.holds hprevious) hx heq, hc.own _ _ hprevious]

theorem insert (h : d.Complete) (hc : d.Consistent) (hfree : d.Free x) : (d.insert x).Complete := by
  intro y hy
  have hy' := hy
  rw [Holds, get?_insert] at hy'
  split at hy'
  · obtain rfl := Option.some.inj hy'
    exact find?_insert_self d x
  · next hid =>
    have hkey : Named.key y ≠ Named.key x := hfree y (hc.mem_values_iff.2 hy') hid
    refine find?_eq_some_iff.2 ⟨Named.id y, ?_, hy⟩
    rw [get?_ids_insert, if_neg (by simpa using hkey)]
    exact h.get?_idsWithout hc hy' hid

theorem erase (h : d.Complete) (hc : d.Consistent) (id : Nat) : (d.erase id).Complete := by
  intro y hy
  have hy' := hy
  rw [Holds, get?_erase] at hy'
  split at hy'
  · cases hy'
  · next hid => exact find?_eq_some_iff.2 ⟨Named.id y, h.get?_idsWithout hc hy' hid, hy⟩

end Complete

end Directory

end DataChange
