import DataChange.Proofs.Spelling.Statements
import DataChange.Proofs.Token.Layout

/-!
# Where errors are

An error that points into a text points to the first character of a lexeme of the statement, or to
the character at which the text cannot be read on. The exception are the filters of views, which are
texts of their own: an error in the filter of a view that the statement passes points into that
filter (`Statement.error_starts`).
-/

namespace DataChange

/-! ## The pieces of a text -/

/-- Whether a text is read on after a piece. -/
def Piece.isSound : Piece → Bool
  | .gap | .lexeme .. => true
  | .unclosed .. | .stray _ => false

/-- A text is read piece by piece: these of its characters are read, and those are left. -/
inductive ReadUpTo (text : List Char) : List Char → List Char → Prop
  | start : ReadUpTo text [] text
  | piece {before cs rest : List Char} {c : Char} (h : ReadUpTo text before (c :: cs))
      (hsound : (Piece.read c cs).piece.isSound = true)
      (hrest : (Piece.read c cs).chars ++ rest = c :: cs) :
      ReadUpTo text (before ++ (Piece.read c cs).chars) rest

/-- A lexeme of a text starts at a place, or the character is there at which the text cannot be read
on: one that starts nothing, or a quote that is not closed. -/
def StartsAt (text : String) (place : Place) : Prop :=
  ∃ before c cs, ReadUpTo text.toList before (c :: cs) ∧ (Piece.read c cs).piece ≠ .gap ∧
    place = .following before

theorem ReadUpTo.append_eq {text before rest : List Char} (h : ReadUpTo text before rest) :
    before ++ rest = text := by
  induction h with
  | start => rfl
  | piece _ _ hrest ih => rw [List.append_assoc, hrest, ih]

/-- What starts at a place has as many characters before it as the place says, or more. -/
theorem StartsAt.le {text : String} {place : Place} (h : StartsAt text place) :
    place.line ≤ text.length ∧ place.column ≤ text.length := by
  obtain ⟨before, c, cs, hread, -, rfl⟩ := h
  have hlength := congrArg List.length hread.append_eq
  have hle := Place.following_le before
  rw [List.length_append, List.length_cons, String.length_toList] at hlength
  omega

section

variable {P : Places}

theorem tokensWithin_concur {text : String}
    (hP : ∀ line column, StartsAt text ⟨line, column⟩ → P line column) :
    ∀ {bound : Nat} {before cs : List Char}, ReadUpTo text.toList before cs →
      Concur P.likeness (List.Forall₂ (Token.Respelled P.likeness))
        (tokensWithin bound (.following before) cs)
        (tokensWithin bound (.following before) cs)
  | 0, _, _, _ => .ok .nil
  | _ + 1, _, [], _ => .ok .nil
  -- the text before the lexeme has been read, so a failure here starts at the lexeme itself
  | bound + 1, before, c :: cs, hread => by
    obtain ⟨rest, hrest⟩ := (Piece.takes_read c cs).taken
    have hdrop : (c :: cs).drop (Piece.read c cs).chars.length = rest := by
      rw [← hrest, List.drop_left]
    have hstart : (Piece.read c cs).piece ≠ .gap → ∀ text : String,
        ((Place.following before).fragment text).SpelledAt P
          ((Place.following before).fragment text) :=
      fun hpiece _ => .written rfl (hP _ _ ⟨before, c, cs, hread, hpiece, rfl⟩)
    have hlater : (Piece.read c cs).piece.isSound = true → Concur P.likeness
        (List.Forall₂ (Token.Respelled P.likeness))
        (tokensWithin bound (.following (before ++ (Piece.read c cs).chars)) rest)
        (tokensWithin bound (.following (before ++ (Piece.read c cs).chars)) rest) :=
      fun hsound => tokensWithin_concur hP (.piece hread hsound hrest)
    simp only [tokensWithin, hdrop, Place.advance_following]
    split
    · next hpiece => exact hlater (by rw [hpiece]; rfl)
    · next kind word spelled hpiece =>
      have hfirst := hstart (by simp [hpiece]) word
      have hlater := hlater (by rw [hpiece]; rfl)
      split
      · next hts =>
        rw [hts] at hlater
        cases hlater with
        | ok hlater => exact .ok (.cons (.at_place rfl hfirst fun _ => rfl) hlater)
      · next hts =>
        rw [hts] at hlater
        cases hlater with
        | error he => exact .error he
    · next hpiece => exact .error (hstart (by simp [hpiece]) _)
    · next hpiece => exact .error (hstart (by simp [hpiece]) _)

theorem holds_of_startsAt {text : String}
    (hP : ∀ line column, StartsAt text ⟨line, column⟩ → P line column) : P.likeness.Holds text :=
  tokensWithin_concur hP .start

end

/-! ## Errors -/

namespace Statement

/-- The places of a text, and of the filters of the views that the statement in it passes. -/
def ErrorPlaces (env : Environment) (text : String) : Places := fun line column =>
  StartsAt text ⟨line, column⟩ ∨
    ∃ tokens operation name filter, tokenize text = .ok tokens ∧
      writtenName? env.config.dialect.mysql tokens = some (operation, name) ∧
      env.Filters operation name filter ∧ StartsAt filter ⟨line, column⟩

variable {env : Environment} {text : String} {s t : CompilerState}

/-- The cursor around a statement has no part in its failures. -/
theorem compileTokens_error {tokens : List Token} {failure : Failure}
    (h : compileTokens env tokens s = .error failure t) (c : Cursor) :
    ∃ u, compileTokens env tokens { s with cursor := c } = .error failure u := by
  unfold compileTokens Compiler.onTokens at h ⊢
  split at h
  · cases h
  · next heq =>
    cases h
    simp only [heq]
    exact ⟨_, rfl⟩

/-- What is at fault is a place of the statement, or of a filter. -/
theorem respelled_of_rejected {e : Error} (h : compile env text s = .error (.rejected e) t) :
    e.fragment.SpelledAt (ErrorPlaces env text) e.fragment := by
  have hholds : (ErrorPlaces env text).likeness.Holds text := holds_of_startsAt fun _ _ => .inl
  unfold Likeness.Holds at hholds
  cases htokens : tokenize text with
  | error e' =>
    rw [htokens] at hholds
    rw [compile, htokens] at h
    cases h
    cases hholds with
    | error he => exact he
  | ok tokens =>
    rw [htokens] at hholds
    rw [compile_of_tokenize htokens] at h
    cases hholds with
    | ok hall =>
      have hfilters : FiltersFrom (ErrorPlaces env text).likeness env tokens :=
        fun operation name filter hname hfilter => holds_of_startsAt fun _ _ hstart =>
          .inr ⟨tokens, operation, name, filter, htokens, hname, hfilter, hstart⟩
      obtain ⟨u, hu⟩ := compileTokens_error h (.ofTokens [])
      have hs : CompilerState.Respelled (ErrorPlaces env text).likeness { s with cursor := .ofTokens [] }
          { s with cursor := .ofTokens [] } :=
        ⟨⟨.ofTokens .nil, rfl⟩, rfl, rfl, rfl⟩
      have hends := compileTokens_ends hall hfilters hs
      rw [hu] at hends
      cases hends with
      | error he =>
        cases he with
        | rejected he => exact he

/-- An error that points into a text points to the start of a lexeme of the statement, or to where
it cannot be read on. The exception are the filters of the views that the statement passes: an error
in such a filter points into the filter. -/
theorem error_starts {e : Error} {near : String} {line column : Nat}
    (h : compile env text s = .error (.rejected e) t)
    (hfragment : e.fragment = .written near line column) :
    StartsAt text ⟨line, column⟩ ∨
      ∃ tokens operation name filter, tokenize text = .ok tokens ∧
        writtenName? env.config.dialect.mysql tokens = some (operation, name) ∧
        env.Filters operation name filter ∧ StartsAt filter ⟨line, column⟩ := by
  have he := respelled_of_rejected h
  rw [hfragment] at he
  cases he with
  | written _ hplace => exact hplace

/-! ## A filter at fault -/

/-- The bank with a view over the ledger whose filter asks for a column that the ledger lacks. -/
def openBills : Environment where
  catalog := Catalog.Banking.catalog.setView
    (Catalog.Banking.view 6 "open_bills" (Catalog.Banking.integerColumns ["id", "amount"])
      (Catalog.Banking.baseOver "ledger" [0, 1]
        (some "amount > 0 AND memo IS NOT NULL AND paid = FALSE")))
  config := {}

def deleteOpenBills : String :=
  "DELETE FROM open_bills"

set_option maxRecDepth 10000 in
theorem deleteOpenBills_rejected : ∃ t, compile openBills deleteOpenBills .initial =
    .error (.rejected ⟨.unresolvedReference ["paid"], .written "paid" 1 37⟩) t :=
  exists_failure _ _ _ rfl (by decide +kernel)

/-- No column of so short a statement has that number. -/
theorem not_startsAt_deleteOpenBills : ¬ StartsAt deleteOpenBills ⟨1, 37⟩ := fun h =>
  absurd h.le.2 (by decide)

theorem error_starts_filter :
    ∃ t e, compile openBills deleteOpenBills .initial = .error (.rejected e) t ∧
      e.fragment = .written "paid" 1 37 ∧
      ∃ tokens operation name filter, tokenize deleteOpenBills = .ok tokens ∧
        writtenName? openBills.config.dialect.mysql tokens = some (operation, name) ∧
        openBills.Filters operation name filter ∧ StartsAt filter ⟨1, 37⟩ := by
  obtain ⟨t, h⟩ := deleteOpenBills_rejected
  exact ⟨t, _, h, rfl, (error_starts h rfl).resolve_left not_startsAt_deleteOpenBills⟩

/-- The error points to a column that the statement does not have. -/
theorem filter_error_outside :
    ∃ t e, compile openBills deleteOpenBills .initial = .error (.rejected e) t ∧
      e.fragment = .written "paid" 1 37 ∧ ¬ StartsAt deleteOpenBills ⟨1, 37⟩ := by
  obtain ⟨t, h⟩ := deleteOpenBills_rejected
  exact ⟨t, _, h, rfl, not_startsAt_deleteOpenBills⟩

end Statement

end DataChange
