import DataChange.Json.Basic

/-!
# From JSON to data

A decoder takes a value apart or refuses it. A record is written as an object, whose unknown
fields are ignored and whose known ones stand at most once, or as the array of its fields. A
variant is written as its name, or as an object with the name as its one field.
-/

namespace DataChange

/-- A partial reading of JSON values. -/
abbrev Decoder (α : Type) := Json → Option α

namespace Decoder

/-! ## Values -/

def bool : Decoder Bool
  | .bool b => some b
  | _ => none

def text : Decoder String
  | .text s => some s
  | _ => none

/-- An integer from `low` to `high`. -/
def intBetween (low high : Int) : Decoder Int
  | .number n => n.toInt?.filter fun value => low ≤ value && value ≤ high
  | _ => none

/-- A natural number of at most `bits` bits. -/
def nat (bits : Nat) : Decoder Nat := fun json =>
  (intBetween 0 (Decimal.twoTo bits - 1) json).map Int.toNat

def int64 : Decoder Int64 := fun json =>
  (intBetween Int64.minValue.toInt Int64.maxValue.toInt json).map Int64.ofInt

def double : Decoder Float
  | .number n => n.toDouble?
  | _ => none

def list {α : Type} (item : Decoder α) : Decoder (List α)
  | .array items => items.mapM item
  | _ => none

/-- Null, or a value. -/
def nullable {α : Type} (value : Decoder α) : Decoder (Option α)
  | .null => some none
  | json => (value json).map some

/-! ## Records -/

/-- The values under a name. -/
def occurrences (fields : List (String × Json)) (name : String) : List Json :=
  (fields.filter fun f => f.1 == name).map (·.2)

/-- The value of a field of an object; a repeated field is refused. -/
def fieldOf (fields : List (String × Json)) (name : String) : Option (Option Json) :=
  match occurrences fields name with
  | [] => some none
  | [value] => some (some value)
  | _ => none

/-- The values of the named fields of a record, in order. An array may leave out its last fields
only if `partialArray` holds. -/
def record (names : List String) (partialArray : Bool) : Decoder (List (Option Json))
  | .object fields => names.mapM (fieldOf fields)
  | .array items =>
    if items.length = names.length || (partialArray && items.length < names.length) then
      some (items.map some ++ List.replicate (names.length - items.length) none)
    else none
  | _ => none

/-- A field that must be there. -/
def required {α : Type} (value : Decoder α) : Option Json → Option α
  | some json => value json
  | none => none

/-- A field that may be missing or null. -/
def optional {α : Type} (value : Decoder α) : Option Json → Option (Option α)
  | some json => nullable value json
  | none => some none

/-- A field that may be missing. -/
def defaulted {α : Type} (value : Decoder α) (default : α) : Option Json → Option α
  | some json => value json
  | none => some default

/-! ## Variants -/

/-- The name of a variant and what it holds. -/
def variant : Decoder (String × Option Json)
  | .text name => some (name, none)
  | .object [(name, content)] => some (name, some content)
  | _ => none

/-- A variant that holds nothing, looked up by its name. -/
def choice {α : Type} (names : List (String × α)) : Decoder α := fun json =>
  match variant json with
  | some (name, none) => names.lookup name
  | some (name, some .null) => names.lookup name
  | _ => none

end Decoder

end DataChange
