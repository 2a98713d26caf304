import DataChange.Catalog.Basic
import DataChange.Json.Decode

/-!
# Definitions as JSON

The exchange form of names, types, columns, relations and routines. Optional fields may be left
out and are always written.
-/

namespace DataChange

/-! ## Names and types -/

/-- The names of the types in the exchange form. -/
def SqlType.exchangeNames : List (String × SqlType) :=
  [("Boolean", .boolean), ("Int2", .smallint), ("Int4", .integer), ("Int8", .bigint),
   ("Float4", .real), ("Float8", .double), ("Decimal", .decimal), ("Utf8", .varchar),
   ("Blob", .blob), ("Date", .date), ("DateTime", .timestamp), ("Time", .time),
   ("Undefined", .undefined)]

/-- The name under which a value is found in a list. -/
def nameIn {α : Type} [BEq α] (names : List (String × α)) (a : α) : Json :=
  match names.find? fun entry => entry.2 == a with
  | some (name, _) => .text name
  | none => .null

def SqlType.ofJson? : Decoder SqlType :=
  Decoder.choice exchangeNames

def SqlType.toJson (t : SqlType) : Json :=
  nameIn exchangeNames t

def QualifiedName.ofJson? : Decoder QualifiedName := fun json => do
  match ← Decoder.record ["namespace", "name"] false json with
  | [schema, name] =>
    return ⟨← Decoder.optional Decoder.text schema, ← Decoder.required Decoder.text name⟩
  | _ => none

def QualifiedName.toJson (n : QualifiedName) : Json :=
  .object [("namespace", .ofOption .text n.schema), ("name", .text n.name)]

/-! ## Columns -/

def Identity.exchangeNames : List (String × Identity) :=
  [("Always", .always), ("ByDefault", .byDefault)]

def Column.ofJson? : Decoder Column := fun json => do
  let names := ["name", "data_type", "nullable", "default", "identity", "generated"]
  match ← Decoder.record names false json with
  | [name, type, nullable, defaultText, identity, generated] =>
    return {
      name := ← Decoder.required Decoder.text name
      type := ← Decoder.required SqlType.ofJson? type
      nullable := ← Decoder.required Decoder.bool nullable
      defaultText := ← Decoder.optional Decoder.text defaultText
      identity := ← Decoder.optional (Decoder.choice Identity.exchangeNames) identity
      generated := ← Decoder.optional Decoder.text generated }
  | _ => none

def Column.toJson (c : Column) : Json :=
  .object [("name", .text c.name), ("data_type", c.type.toJson), ("nullable", .bool c.nullable),
    ("default", .ofOption .text c.defaultText),
    ("identity", .ofOption (nameIn Identity.exchangeNames) c.identity),
    ("generated", .ofOption .text c.generated)]

/-! ## Namespaces, tables and views -/

def Namespace.ofJson? : Decoder Namespace := fun json => do
  match ← Decoder.record ["id", "name"] false json with
  | [id, name] =>
    return ⟨← Decoder.required (Decoder.nat 64) id, ← Decoder.required Decoder.text name⟩
  | _ => none

def Namespace.toJson (n : Namespace) : Json :=
  .object [("id", .ofNat n.id), ("name", .text n.name)]

def Table.ofJson? : Decoder Table := fun json => do
  let names := ["id", "namespace", "namespace_name", "name", "columns", "primary_key"]
  match ← Decoder.record names false json with
  | [id, schemaId, schemaName, name, columns, primaryKey] =>
    return {
      id := ← Decoder.required (Decoder.nat 64) id
      schemaId := ← Decoder.required (Decoder.nat 64) schemaId
      schemaName := ← Decoder.required Decoder.text schemaName
      name := ← Decoder.required Decoder.text name
      columns := ← Decoder.required (Decoder.list Column.ofJson?) columns
      primaryKey := ← Decoder.required (Decoder.list (Decoder.nat 64)) primaryKey }
  | _ => none

def Table.toJson (t : Table) : Json :=
  .object [("id", .ofNat t.id), ("namespace", .ofNat t.schemaId),
    ("namespace_name", .text t.schemaName), ("name", .text t.name),
    ("columns", .ofList Column.toJson t.columns), ("primary_key", .ofList .ofNat t.primaryKey)]

def ViewBase.ofJson? : Decoder ViewBase := fun json => do
  match ← Decoder.record ["relation", "column_map", "filter"] false json with
  | [relation, columnMap, filter] =>
    return {
      relation := ← Decoder.required QualifiedName.ofJson? relation
      columnMap := ← Decoder.required (Decoder.list (Decoder.nat 64)) columnMap
      filter := ← Decoder.optional Decoder.text filter }
  | _ => none

def ViewBase.toJson (b : ViewBase) : Json :=
  .object [("relation", b.relation.toJson), ("column_map", .ofList .ofNat b.columnMap),
    ("filter", .ofOption .text b.filter)]

def View.ofJson? : Decoder View := fun json => do
  let names := ["id", "namespace", "namespace_name", "name", "columns", "base",
    "trigger_insertable", "trigger_updatable", "trigger_deletable"]
  match ← Decoder.record names false json with
  | [id, schemaId, schemaName, name, columns, base, insertTrigger, updateTrigger, deleteTrigger] =>
    return {
      id := ← Decoder.required (Decoder.nat 64) id
      schemaId := ← Decoder.required (Decoder.nat 64) schemaId
      schemaName := ← Decoder.required Decoder.text schemaName
      name := ← Decoder.required Decoder.text name
      columns := ← Decoder.required (Decoder.list Column.ofJson?) columns
      base := ← Decoder.optional ViewBase.ofJson? base
      insertTrigger := ← Decoder.required Decoder.bool insertTrigger
      updateTrigger := ← Decoder.required Decoder.bool updateTrigger
      deleteTrigger := ← Decoder.required Decoder.bool deleteTrigger }
  | _ => none

def View.toJson (v : View) : Json :=
  .object [("id", .ofNat v.id), ("namespace", .ofNat v.schemaId),
    ("namespace_name", .text v.schemaName), ("name", .text v.name),
    ("columns", .ofList Column.toJson v.columns), ("base", .ofOption ViewBase.toJson v.base),
    ("trigger_insertable", .bool v.insertTrigger), ("trigger_updatable", .bool v.updateTrigger),
    ("trigger_deletable", .bool v.deleteTrigger)]

/-! ## Routines -/

def ParameterMode.exchangeNames : List (String × ParameterMode) :=
  [("In", .input), ("Out", .output), ("InOut", .both)]

def RoutineKind.exchangeNames : List (String × RoutineKind) :=
  [("Procedure", .procedure), ("Function", .function)]

def RoutineParameter.ofJson? : Decoder RoutineParameter := fun json => do
  match ← Decoder.record ["name", "data_type", "mode"] false json with
  | [name, type, mode] =>
    return {
      name := ← Decoder.required Decoder.text name
      type := ← Decoder.required SqlType.ofJson? type
      mode := ← Decoder.required (Decoder.choice ParameterMode.exchangeNames) mode }
  | _ => none

def RoutineParameter.toJson (p : RoutineParameter) : Json :=
  .object [("name", .text p.name), ("data_type", p.type.toJson),
    ("mode", nameIn ParameterMode.exchangeNames p.mode)]

def Routine.ofJson? : Decoder Routine := fun json => do
  let names := ["id", "namespace", "namespace_name", "name", "kind", "parameters", "returns"]
  match ← Decoder.record names false json with
  | [id, schemaId, schemaName, name, kind, parameters, returns] =>
    return {
      id := ← Decoder.required (Decoder.nat 64) id
      schemaId := ← Decoder.required (Decoder.nat 64) schemaId
      schemaName := ← Decoder.required Decoder.text schemaName
      name := ← Decoder.required Decoder.text name
      kind := ← Decoder.required (Decoder.choice RoutineKind.exchangeNames) kind
      parameters := ← Decoder.required (Decoder.list RoutineParameter.ofJson?) parameters
      returns := ← Decoder.optional SqlType.ofJson? returns }
  | _ => none

def Routine.toJson (r : Routine) : Json :=
  .object [("id", .ofNat r.id), ("namespace", .ofNat r.schemaId),
    ("namespace_name", .text r.schemaName), ("name", .text r.name),
    ("kind", nameIn RoutineKind.exchangeNames r.kind),
    ("parameters", .ofList RoutineParameter.toJson r.parameters),
    ("returns", .ofOption SqlType.toJson r.returns)]

end DataChange
