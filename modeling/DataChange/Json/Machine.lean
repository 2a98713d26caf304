import DataChange.Json.Basic

/-!
# JSON values in machine numbers

Once it is loaded, a value holds its numbers as a machine does: a whole number of 64 bits stays
exact, signed or unsigned, and any other number becomes the double it stands for. Of the fields of
one name the last is kept.
-/

namespace DataChange

/-- Whether the number is a whole number of 64 bits, signed or unsigned. -/
def JsonNumber.isWord (n : JsonNumber) : Bool :=
  match n.toInt? with
  | some value => Int64.minValue.toInt ≤ value && value < Decimal.twoTo 64
  | none => false

/-- The number as a machine holds it, in the digits of its double. A number beyond the range of
doubles is left as it is. -/
def JsonNumber.toMachine (n : JsonNumber) : JsonNumber :=
  if n.isWord then n else (n.toDouble?.bind ofDouble?).getD n

/-- Whole numbers of 64 bits are kept exactly. -/
theorem JsonNumber.toMachine_of_isWord {n : JsonNumber} (h : n.isWord = true) :
    n.toMachine = n := by
  simp [toMachine, h]

namespace Json

/-- Of the fields of one name the last. -/
def lastFields : List (String × Json) → List (String × Json)
  | [] => []
  | (name, value) :: fields =>
    if fields.any (·.1 == name) then lastFields fields else (name, value) :: lastFields fields

theorem mem_of_mem_lastFields {fields : List (String × Json)} {f : String × Json}
    (h : f ∈ lastFields fields) : f ∈ fields := by
  induction fields with
  | nil => exact h
  | cons g fields ih =>
    rw [lastFields] at h
    split at h
    · exact .tail _ (ih h)
    · rcases List.mem_cons.1 h with rfl | h
      · exact .head _
      · exact .tail _ (ih h)

/-- No name is left twice. -/
theorem nodup_lastFields (fields : List (String × Json)) :
    ((lastFields fields).map (·.1)).Nodup := by
  induction fields with
  | nil => exact .nil
  | cons g fields ih =>
    rw [lastFields]
    split
    · exact ih
    · rename_i h
      refine List.nodup_cons.2 ⟨fun hm => h ?_, ih⟩
      obtain ⟨f, hf, hn⟩ := List.mem_map.1 hm
      exact List.any_eq_true.2 ⟨f, mem_of_mem_lastFields hf, beq_iff_eq.2 hn⟩

mutual

/-- The value as a machine holds it. -/
def toMachine : Json → Json
  | null => null
  | bool b => bool b
  | number n => number n.toMachine
  | text s => text s
  | unreadable => unreadable
  | array items => array (itemsToMachine items)
  | object fields => object (lastFields (fieldsToMachine fields))

def itemsToMachine : List Json → List Json
  | [] => []
  | item :: items => toMachine item :: itemsToMachine items

def fieldsToMachine : List (String × Json) → List (String × Json)
  | [] => []
  | (name, value) :: fields => (name, toMachine value) :: fieldsToMachine fields

end

end Json

end DataChange
