import DataChange.Json.Basic

/-!
# Reading JSON

The whole text must be one value, with blanks around its marks. A string may hold any character
but the control characters, and escapes for those; two escapes of surrogates make one character.
-/

namespace DataChange.Json

/-! ## Strings -/

/-- A character of a string, or half of a pair of surrogates. -/
inductive TextUnit where
  | char (c : Char)
  | surrogate (n : Nat)

/-- The value of four hexadecimal digits. -/
def hexValue? (digits : List Char) : Option Nat :=
  digits.foldlM (fun n c =>
    if c.isDigit then some (n * 16 + (c.toNat - '0'.toNat))
    else if 'a' ≤ c && c ≤ 'f' then some (n * 16 + (c.toNat - 'a'.toNat + 10))
    else if 'A' ≤ c && c ≤ 'F' then some (n * 16 + (c.toNat - 'A'.toNat + 10))
    else none) 0

/-- The unit with a code. -/
def TextUnit.ofCode (n : Nat) : TextUnit :=
  if 0xd800 ≤ n && n < 0xe000 then surrogate n else char (Char.ofNat n)

/-- The character of a one-letter escape. -/
def escaped? : Char → Option Char
  | '"' => some '"'
  | '\\' => some '\\'
  | '/' => some '/'
  | 'b' => some '\x08'
  | 'f' => some '\x0c'
  | 'n' => some '\n'
  | 'r' => some '\r'
  | 't' => some '\t'
  | _ => none

/-- The units of a string up to its closing quote, and what follows. -/
def readUnits : List Char → Option (List TextUnit × List Char)
  | [] => none
  | '"' :: cs => some ([], cs)
  | '\\' :: 'u' :: a :: b :: c :: d :: cs =>
    match hexValue? [a, b, c, d], readUnits cs with
    | some n, some (units, rest) => some (.ofCode n :: units, rest)
    | _, _ => none
  | '\\' :: c :: cs =>
    match escaped? c, readUnits cs with
    | some e, some (units, rest) => some (.char e :: units, rest)
    | _, _ => none
  | c :: cs =>
    if c.toNat < 0x20 || c = '\\' then none
    else (readUnits cs).map fun (units, rest) => (.char c :: units, rest)

/-- The characters of some units; a surrogate needs its other half. -/
def joinUnits : List TextUnit → Option (List Char)
  | [] => some []
  | .char c :: units => (joinUnits units).map (c :: ·)
  | .surrogate high :: .surrogate low :: units =>
    if high < 0xdc00 && 0xdc00 ≤ low then
      (joinUnits units).map (Char.ofNat (0x10000 + (high - 0xd800) * 0x400 + (low - 0xdc00)) :: ·)
    else none
  | .surrogate _ :: _ => none

/-- A string after its opening quote. -/
def readText (cs : List Char) : Option (Json × List Char) :=
  (readUnits cs).map fun (units, rest) =>
    match joinUnits units with
    | some chars => (.text (String.ofList chars), rest)
    | none => (.unreadable, rest)

/-! ## Numbers -/

/-- The digits before the point: a zero alone, or a number without leading zeros. -/
def readWhole : List Char → Option (List Char × List Char)
  | '0' :: cs => some (['0'], cs)
  | cs =>
    let digits := cs.takeWhile Char.isDigit
    if digits.isEmpty then none else some (digits, cs.dropWhile Char.isDigit)

/-- The digits after the point, if there is one. -/
def readFraction : List Char → Option (List Char × List Char)
  | '.' :: cs =>
    let digits := cs.takeWhile Char.isDigit
    if digits.isEmpty then none else some (digits, cs.dropWhile Char.isDigit)
  | cs => some ([], cs)

/-- The exponent, if there is one. -/
def readExponent : List Char → Option (Option Int × List Char)
  | c :: cs =>
    if c = 'e' || c = 'E' then
      let (negative, ds) := Decimal.splitSign cs
      let digits := ds.takeWhile Char.isDigit
      let value : Int := Decimal.digitsValue digits
      if digits.isEmpty then none
      else some (some (if negative then -value else value), ds.dropWhile Char.isDigit)
    else some (none, c :: cs)
  | [] => some (none, [])

def readNumber (cs : List Char) : Option (Json × List Char) :=
  let (negative, unsigned) := match cs with
    | '-' :: rest => (true, rest)
    | _ => (false, cs)
  match readWhole unsigned with
  | none => none
  | some (whole, rest) =>
    match readFraction rest with
    | none => none
    | some (fraction, rest) =>
      (readExponent rest).map fun (exponent, rest) =>
        (.number ⟨negative, whole, fraction, exponent⟩, rest)

/-! ## Values -/

def isBlank (c : Char) : Bool :=
  c = ' ' || c = '\n' || c = '\t' || c = '\r'

def skipBlanks (cs : List Char) : List Char :=
  cs.dropWhile isBlank

/-- A field before others, if its name has a text. -/
def addField (name value : Json) (fields : Option (List (String × Json))) :
    Option (List (String × Json)) :=
  match name, fields with
  | .text name, some fields => some ((name, value) :: fields)
  | _, _ => none

/-- The object with some fields. -/
def ofFields : Option (List (String × Json)) → Json
  | some fields => object fields
  | none => unreadable

mutual

/-- The value at the head of at most `bound` characters, and what follows. -/
def valueWithin : Nat → List Char → Option (Json × List Char)
  | 0, _ => none
  | bound + 1, cs =>
    match skipBlanks cs with
    | 'n' :: 'u' :: 'l' :: 'l' :: rest => some (null, rest)
    | 't' :: 'r' :: 'u' :: 'e' :: rest => some (bool true, rest)
    | 'f' :: 'a' :: 'l' :: 's' :: 'e' :: rest => some (bool false, rest)
    | '"' :: rest => readText rest
    | '[' :: rest =>
      match skipBlanks rest with
      | ']' :: rest => some (array [], rest)
      | _ => (itemsWithin bound rest).map fun (items, rest) => (array items, rest)
    | '\x7b' :: rest =>
      match skipBlanks rest with
      | '\x7d' :: rest => some (object [], rest)
      | _ => (fieldsWithin bound rest).map fun (fields, rest) => (ofFields fields, rest)
    | rest => readNumber rest

/-- Items up to the closing bracket. -/
def itemsWithin : Nat → List Char → Option (List Json × List Char)
  | 0, _ => none
  | bound + 1, cs =>
    match valueWithin bound cs with
    | none => none
    | some (item, rest) =>
      match skipBlanks rest with
      | ']' :: rest => some ([item], rest)
      | ',' :: rest => (itemsWithin bound rest).map fun (items, rest) => (item :: items, rest)
      | _ => none

/-- Fields up to the closing brace; none if a name among them has no text. -/
def fieldsWithin : Nat → List Char → Option (Option (List (String × Json)) × List Char)
  | 0, _ => none
  | bound + 1, cs =>
    match skipBlanks cs with
    | '"' :: rest =>
      match readText rest with
      | none => none
      | some (name, rest) =>
        match skipBlanks rest with
        | ':' :: rest =>
          match valueWithin bound rest with
          | none => none
          | some (value, rest) =>
            match skipBlanks rest with
            | '\x7d' :: rest => some (addField name value (some []), rest)
            | ',' :: rest =>
              (fieldsWithin bound rest).map fun (fields, rest) => (addField name value fields, rest)
            | _ => none
        | _ => none
    | _ => none

end

/-- The value that a whole text spells. -/
def read? (s : String) : Option Json :=
  let cs := s.toList
  match valueWithin (2 * cs.length + 1) cs with
  | some (value, rest) => if (skipBlanks rest).isEmpty then some value else none
  | none => none

end DataChange.Json
