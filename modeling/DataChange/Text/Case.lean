/-!
# Letter case

Names and keywords are matched without regard to the case of ASCII letters; every other
character stands for itself alone. `foldCase` gives the common spelling, `sameName` compares.
-/

namespace DataChange.Text

/-- The text with its ASCII capitals made small. -/
def foldCase (s : String) : String :=
  s.map Char.toLower

/-- The text with its small ASCII letters made capitals. -/
def upperCase (s : String) : String :=
  s.map Char.toUpper

/-- Whether two texts name the same thing. -/
def sameName (a b : String) : Bool :=
  foldCase a == foldCase b

theorem sameName_iff {a b : String} : sameName a b = true ↔ foldCase a = foldCase b := by
  simp [sameName]

@[simp] theorem sameName_refl (a : String) : sameName a a = true := by
  simp [sameName]

end DataChange.Text
