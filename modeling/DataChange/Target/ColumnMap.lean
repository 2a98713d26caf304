import DataChange.Error.Basic

/-!
# Column maps

A column map lists the ordinals of the columns that a statement writes, in the order of their
values. A map as it is written names no column twice; seen through a view, it lists the columns
of the base behind them.
-/

namespace DataChange

/-- Ordinals of target columns, in the order of the values. -/
structure ColumnMap where
  ordinals : List Nat
  deriving DecidableEq, Repr, Inhabited

namespace ColumnMap

def empty : ColumnMap := ⟨[]⟩

/-- All columns of a relation with `count` columns. -/
def all (count : Nat) : ColumnMap :=
  ⟨List.range count⟩

def length (m : ColumnMap) : Nat :=
  m.ordinals.length

def contains (m : ColumnMap) (column : Nat) : Bool :=
  m.ordinals.contains column

/-- Adds a column, which must not be there yet. -/
def insert (m : ColumnMap) (column : Nat) (name : String) (fragment : Fragment) :
    Except Error ColumnMap :=
  if m.contains column then .error ⟨.duplicateTarget name, fragment⟩
  else .ok ⟨m.ordinals ++ [column]⟩

/-- The ordinals behind a view with the given map; none if one lies past its end. -/
def project (m : ColumnMap) (base : List Nat) : Option ColumnMap :=
  (m.ordinals.mapM fun column => base[column]?).map ColumnMap.mk

/-- For each of `count` columns whether it is written; none if the map leads past them. -/
def checkList (m : ColumnMap) (count : Nat) : Option (List Bool) :=
  if m.ordinals.all (· < count) then some ((List.range count).map m.contains) else none

/-! ## Laws -/

theorem insert_nodup {m m' : ColumnMap} {column : Nat} {name : String} {fragment : Fragment}
    (h : m.ordinals.Nodup) (hm : m.insert column name fragment = .ok m') : m'.ordinals.Nodup := by
  unfold insert at hm
  split at hm
  · cases hm
  · next hc =>
    cases hm
    have : column ∉ m.ordinals := by simpa [contains] using hc
    simp only [List.nodup_append, h, List.nodup_cons, List.not_mem_nil, not_false_eq_true,
      List.nodup_nil, and_self, true_and]
    intro a ha b hb
    simp only [List.mem_singleton] at hb
    subst hb
    intro hab
    exact this (hab ▸ ha)

theorem mapM_some_length {base columns result : List Nat}
    (h : columns.mapM (fun column => base[column]?) = some result) :
    result.length = columns.length := by
  induction columns generalizing result with
  | nil => simp_all
  | cons column columns ih =>
    simp only [List.mapM_cons, Option.bind_eq_bind, Option.bind_eq_some_iff, Option.pure_def,
      Option.some.injEq] at h
    obtain ⟨_, _, rest, hrest, rfl⟩ := h
    simp [ih hrest]

theorem project_length {m m' : ColumnMap} {base : List Nat} (h : m.project base = some m') :
    m'.length = m.length := by
  simp only [project, Option.map_eq_some_iff] at h
  obtain ⟨ordinals, h, rfl⟩ := h
  exact mapM_some_length h

end ColumnMap

end DataChange
