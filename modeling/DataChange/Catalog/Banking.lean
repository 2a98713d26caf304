import DataChange.Catalog.Basic

/-!
# A small bank

A catalog to try statements on: accounts with an identity and a computed column, a ledger, two
tables of integers, views over them in layers and routines that overload a name.
-/

namespace DataChange.Catalog.Banking

def publicSchema : Namespace := ⟨1, "public"⟩
def archiveSchema : Namespace := ⟨2, "archive"⟩

/-- A table of a namespace, keyed by its first column. -/
def table (id : Nat) (schema : Namespace) (name : String) (columns : List Column) : Table :=
  ⟨id, schema.id, schema.name, name, columns, [0]⟩

def integerColumns (names : List String) : List Column :=
  names.map fun name => { name := name, type := .integer }

def accountColumns : List Column :=
  [{ name := "id", type := .bigint }, { name := "name", type := .varchar },
   { name := "balance", type := .decimal }]

def tables : List Table :=
  [table 1 publicSchema "account"
    [Column.withIdentity { name := "id", type := .bigint } .always,
     { name := "name", type := .varchar, nullable := false },
     { name := "balance", type := .decimal },
     { name := "active", type := .boolean, defaultText := some "TRUE" },
     { name := "label", type := .varchar, generated := some "UPPER(name)" }],
   table 2 publicSchema "t" (integerColumns ["id", "a", "b"]),
   table 3 publicSchema "ledger"
    [Column.withIdentity { name := "id", type := .integer } .byDefault,
     { name := "amount", type := .integer },
     { name := "memo", type := .varchar, defaultText := some "'none'" }],
   table 4 publicSchema "staging" accountColumns,
   table 5 archiveSchema "t" (integerColumns ["id", "a", "b"])]

/-- A view of the public namespace. -/
def view (id : Nat) (name : String) (columns : List Column) (base : Option ViewBase) : View :=
  { id := id, schemaId := publicSchema.id, schemaName := publicSchema.name, name := name,
    columns := columns, base := base }

/-- A base in the public namespace. -/
def baseOver (relation : String) (columnMap : List Nat) (filter : Option String) :
    Option ViewBase :=
  some ⟨⟨some "public", relation⟩, columnMap, filter⟩

def views : List View :=
  [view 1 "active_account" accountColumns (baseOver "account" [0, 1, 2] (some "active = TRUE")),
   view 2 "rich_active" accountColumns
     (baseOver "active_account" [0, 1, 2] (some "balance > 1000")),
   view 3 "account_labels"
     [{ name := "id", type := .bigint }, { name := "label", type := .varchar }]
    (baseOver "account" [0, 4] none),
   { view 4 "audited_t" (integerColumns ["id", "a"]) (baseOver "t" [0, 1] (some "a > 0")) with
     insertTrigger := true, updateTrigger := true, deleteTrigger := true },
   view 5 "summary" [{ name := "name", type := .varchar }, { name := "total", type := .decimal }]
    none]

/-- A procedure of the public namespace. -/
def procedure (id : Nat) (name : String) (parameters : List RoutineParameter) : Routine :=
  ⟨id, publicSchema.id, publicSchema.name, name, .procedure, parameters, none⟩

def routines : List Routine :=
  [procedure 1 "adjust" [⟨"id", .bigint, .input⟩, ⟨"delta", .decimal, .input⟩],
   procedure 2 "fetch_balance" [⟨"id", .bigint, .input⟩, ⟨"bal", .decimal, .output⟩],
   procedure 3 "log_event" [⟨"msg", .varchar, .input⟩],
   procedure 4 "log_event" [⟨"msg", .varchar, .input⟩, ⟨"level", .integer, .input⟩]]

/-- The catalog of the bank. -/
def catalog : Catalog :=
  let schemas := [publicSchema, archiveSchema].foldl setNamespace empty
  let relations := views.foldl setView (tables.foldl setTable schemas)
  (routines.foldl setRoutine relations).setSynonym publicSchema.id "bump" ⟨some "public", "adjust"⟩

end DataChange.Catalog.Banking
