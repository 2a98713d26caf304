import DataChange.Config
import DataChange.Json.Decode
import DataChange.Json.Reading

/-!
# Settings as JSON

Every field may be left out and then has its usual value.
-/

namespace DataChange

def Dialect.ofJson? : Decoder Dialect := fun json => do
  match ← Decoder.record ["mysql", "oracle"] true json with
  | [mysql, oracle] =>
    return {
      mysql := ← Decoder.defaulted Decoder.bool false mysql
      oracle := ← Decoder.defaulted Decoder.bool false oracle }
  | _ => none

def Config.ofJson? : Decoder Config := fun json => do
  let names := ["default_namespace", "dialect", "strict_procedure_call"]
  match ← Decoder.record names true json with
  | [defaultSchema, dialect, strictCalls] =>
    return {
      defaultSchema := ← Decoder.defaulted Decoder.text "public" defaultSchema
      dialect := ← Decoder.defaulted Dialect.ofJson? {} dialect
      strictCalls := ← Decoder.defaulted Decoder.bool false strictCalls }
  | _ => none

/-- The settings that a text spells. -/
def Config.read? (text : String) : Option Config :=
  (Json.read? text).bind Config.ofJson?

end DataChange
