import DataChange.Diagnostic
import DataChange.Json.Decode
import DataChange.Value

/-!
# Values, fragments and diagnostics as JSON

The exchange form of what a compilation reports.
-/

namespace DataChange

def Value.ofJson? : Decoder Value := fun json =>
  match Decoder.variant json with
  | some ("Undefined", none) => some .null
  | some ("Undefined", some .null) => some .null
  | some ("Boolean", some content) => (Decoder.bool content).map .boolean
  | some ("Int8", some content) => (Decoder.int64 content).map .bigint
  | some ("Float8", some content) => (Decoder.double content).map .double
  | some ("Utf8", some content) => (Decoder.text content).map .varchar
  | _ => none

def Value.toJson : Value → Json
  | .null => .text "Undefined"
  | .boolean b => .object [("Boolean", .bool b)]
  | .bigint n => .object [("Int8", .number (.ofInt n.toInt))]
  | .double x => .object [("Float8", .ofDouble x)]
  | .varchar s => .object [("Utf8", .text s)]

def Fragment.ofJson? : Decoder Fragment := fun json => do
  match ← Decoder.variant json with
  | ("None", none) => some .absent
  | ("None", some .null) => some .absent
  | ("Statement", some content) =>
    match ← Decoder.record ["text", "line", "column"] false content with
    | [text, line, column] =>
      return .written (← Decoder.required Decoder.text text)
        (← Decoder.required (Decoder.nat 32) line) (← Decoder.required (Decoder.nat 32) column)
    | _ => none
  | ("Internal", some content) =>
    match ← Decoder.record ["text"] false content with
    | [text] => return .synthetic (← Decoder.required Decoder.text text)
    | _ => none
  | _ => none

def Fragment.toJson : Fragment → Json
  | .absent => .text "None"
  | .written text line column =>
    .object [("Statement", .object [("text", .text text), ("line", .ofNat line),
      ("column", .ofNat column)])]
  | .synthetic text => .object [("Internal", .object [("text", .text text)])]

/-- A diagnostic whose causes go at most `depth` deep. -/
def Diagnostic.ofJsonWithin : Nat → Decoder Diagnostic
  | 0, _ => none
  | depth + 1, json => do
    let names := ["code", "statement", "message", "fragment", "label", "help", "notes", "cause"]
    match ← Decoder.record names false json with
    | [code, statement, message, fragment, label, help, notes, cause] =>
      return {
        code := ← Decoder.required Decoder.text code
        statement := ← Decoder.optional Decoder.text statement
        message := ← Decoder.required Decoder.text message
        fragment := ← Decoder.required Fragment.ofJson? fragment
        label := ← Decoder.optional Decoder.text label
        help := ← Decoder.optional Decoder.text help
        notes := ← Decoder.required (Decoder.list Decoder.text) notes
        cause := ← Decoder.optional (ofJsonWithin depth) cause }
    | _ => none

/-- The depth to which a value is nested. -/
def Json.depth : Json → Nat
  | .array items => depthOfItems items + 1
  | .object fields => depthOfFields fields + 1
  | _ => 0
where
  depthOfItems : List Json → Nat
    | [] => 0
    | item :: items => max (depth item) (depthOfItems items)
  depthOfFields : List (String × Json) → Nat
    | [] => 0
    | (_, value) :: fields => max (depth value) (depthOfFields fields)

def Diagnostic.ofJson? : Decoder Diagnostic := fun json =>
  ofJsonWithin (json.depth + 1) json

mutual

def Diagnostic.toJson : Diagnostic → Json
  | ⟨code, statement, message, fragment, label, help, notes, cause⟩ =>
    .object [("code", .text code), ("statement", .ofOption .text statement),
      ("message", .text message), ("fragment", fragment.toJson), ("label", .ofOption .text label),
      ("help", .ofOption .text help), ("notes", .ofList .text notes),
      ("cause", Diagnostic.causeToJson cause)]

def Diagnostic.causeToJson : Option Diagnostic → Json
  | none => .null
  | some cause => Diagnostic.toJson cause

end

end DataChange
