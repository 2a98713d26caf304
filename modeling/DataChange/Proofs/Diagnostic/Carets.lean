import DataChange.Error.Diagnostic
import DataChange.Proofs.Catalog
import DataChange.Proofs.Statement.CompileRuns
import DataChange.Proofs.Text.Lines
import DataChange.Proofs.Token.Layout

/-!
# Carets

A diagnostic with a statement prints the line of its fragment and carets under it. `MarkedLine`
says of two printed lines that the first is the line of a character of the statement, and how far
the first caret in the second stands from that character. For every token of the statement that
distance is one, at every depth of causes (`render_marks`): columns are counted from one where
tokens are read, and as a number of blanks where carets are printed.
-/

namespace DataChange

/-- The first character of a lexeme ends no line. -/
theorem Token.Admitted.exists_lexeme {t : Token} (h : t.Admitted) :
    ∃ c cs, t.lexeme = c :: cs ∧ c ≠ '\n' ∧ c ≠ '\r' := by
  have hnil : Piece.Separated [] := fun c hc => by cases hc
  obtain ⟨c, cs, spelled, hlexeme, hread⟩ := Piece.read_admitted h hnil
  rw [List.append_nil] at hlexeme
  have hblank : ¬ Text.isBlank c = true := fun hblank => by
    have hgap : (Piece.read c cs).piece = .gap := by rw [Piece.read, if_pos hblank]
    rw [hread] at hgap
    cases hgap
  refine ⟨c, cs, hlexeme, ?_, ?_⟩ <;> rintro rfl <;> exact hblank (by decide)

namespace Diagnostic

/-- A diagnostic among the causes of another, at its depth. -/
inductive CauseAt : Diagnostic → Nat → Diagnostic → Prop
  | self {d : Diagnostic} : CauseAt d 0 d
  | further {d e f : Diagnostic} {depth : Nat} (hcause : d.cause = some e)
      (h : CauseAt e depth f) : CauseAt d (depth + 1) f

/-- What stands before a line of the statement and before the carets under it. -/
def margin (depth : Nat) : String :=
  repeated ' ' (2 * depth) ++ "   | "

/-- Two printed lines: the line of a text that holds the character at a position of it, and one
whose first caret stands `shift` characters to the right of that character. -/
inductive MarkedLine (text : List Char) (position depth shift : Nat) : String → String → Prop
  | intro {above line below blanks more : List Char} {offset : Nat} {marked : String}
      (htext : text = above ++ line ++ below) (hline : Text.IsLine above line below)
      (hposition : position = above.length + offset) (hoffset : offset < line.length)
      (hmarked : marked.toList = blanks ++ '^' :: more) (hblanks : '^' ∉ blanks)
      (hshift : blanks.length = (margin depth).length + offset + shift) :
      MarkedLine text position depth shift (margin depth ++ String.ofList line) marked

theorem linesAt_eq (depth : Nat) (d : Diagnostic) :
    linesAt depth d = d.ownLines.map (repeated ' ' (2 * depth) ++ ·) ++ causeLinesAt depth d.cause := by
  cases d
  rw [linesAt]
  rfl

/-- The lines of a cause are the last ones. -/
theorem CauseAt.linesAt_suffix {d e : Diagnostic} {depth : Nat} (h : d.CauseAt depth e)
    (start : Nat) : linesAt (start + depth) e <:+ linesAt start d := by
  induction h generalizing start with
  | self => exact List.suffix_refl _
  | @further d e f depth hcause _ ih =>
    rw [linesAt_eq start d, hcause, causeLinesAt, ← Nat.add_assoc, Nat.add_right_comm]
    exact (ih (start + 1)).trans ((List.suffix_cons _ _).trans (List.suffix_append _ _))

@[simp] theorem length_repeated (c : Char) (n : Nat) : (repeated c n).length = n := by
  simp [repeated]

@[simp] theorem toList_repeated (c : Char) (n : Nat) : (repeated c n).toList = List.replicate n c := by
  simp [repeated]

/-- The carets under a fragment start after as many blanks as its column says. -/
theorem exists_underline (text : String) (column depth : Nat) (label : Option String) :
    ∃ blanks more, (repeated ' ' (2 * depth) ++ underline text column label).toList =
      blanks ++ '^' :: more ∧ '^' ∉ blanks ∧ blanks.length = (margin depth).length + column := by
  obtain ⟨n, hn⟩ : ∃ n, max text.length 1 = n + 1 := ⟨max text.length 1 - 1, by omega⟩
  refine ⟨(margin depth).toList ++ List.replicate column ' ', ?_⟩
  cases label with
  | none =>
    exact ⟨List.replicate n '^', by simp [underline, margin, hn, List.replicate_succ], by
      simp [margin], by simp [String.length_toList]⟩
  | some label =>
    refine ⟨List.replicate n '^' ++ ' ' :: label.toList, ?_, by simp [margin],
      by simp [String.length_toList]⟩
    simp [underline, margin, hn, List.replicate_succ]

/-- What a diagnostic prints of a text with a place in it and with the statement at hand. -/
theorem ownLines_written {d : Diagnostic} {text statement source : String} {line column : Nat}
    (hfragment : d.fragment = .written text line column) (hstatement : d.statement = some statement)
    (hsource : (Text.lines statement)[line - 1]? = some source) : ∃ advice, d.ownLines =
      ["Error " ++ d.code ++ ": " ++ d.message,
        "  --> line " ++ toString line ++ ", column " ++ toString column, "   | " ++ source,
        underline text column d.label] ++ advice := by
  refine ⟨(d.help.map ("help: " ++ ·)).toList ++ d.notes.map ("note: " ++ ·), ?_⟩
  simp [ownLines, locationLines, hfragment, hstatement, hsource]

/-- For a token of a text, a diagnostic with its fragment and the text as the statement prints, at
every depth of causes, the line that holds the first character of the token, and carets under it of
which the first stands one character to the right of that character. In a text of fewer than
`UInt32.size` characters the place of the token, which the carets go by, is in numbers of 32 bits. -/
theorem render_marks {text : String} {earlier later : List Token} {t : Token}
    {outermost d : Diagnostic} {depth : Nat} (h : tokenize text = .ok (earlier ++ t :: later))
    (hcause : outermost.CauseAt depth d) (hfragment : d.fragment = t.fragment)
    (hstatement : d.statement = some text) :
    (text.length < UInt32.size →
      t.fragment.line < UInt32.size ∧ t.fragment.column < UInt32.size) ∧
    ∃ before after, text.toList = before ++ (t.lexeme ++ after) ∧ Laid [] before earlier ∧
      Laid (before ++ t.lexeme) after later ∧
      ∃ printed marked, MarkedLine text.toList before.length depth 1 printed marked ∧
        ∃ above below, outermost.render = String.join ((above ++
          [repeated ' ' (2 * depth) ++ ("Error " ++ d.code ++ ": " ++ d.message),
            repeated ' ' (2 * depth) ++ ("  --> line " ++ toString t.fragment.line ++ ", column " ++
              toString t.fragment.column), printed, marked] ++ below).map (· ++ "\n")) := by
  have hlaid := laid_of_tokenize h
  refine ⟨fun hlength => hlaid.place_lt hlength (by simp), ?_⟩
  obtain ⟨before, after, htext, hadmitted, hplace, hearlier, hlater⟩ := hlaid.split
  rw [List.nil_append] at hplace hlater
  refine ⟨before, after, htext, hearlier, hlater, ?_⟩
  -- the lexeme begins with a character that ends no line, so it begins within one
  obtain ⟨c, cs, hlexeme, hfeed, hreturn⟩ := hadmitted.exists_lexeme
  rw [hlexeme, List.cons_append] at htext
  obtain ⟨above, tail, below, habove, htail, hline, hsource⟩ := Text.lines_at hfeed hreturn htext
  have hplaced : d.fragment = .written t.text (before.count '\n' + 1)
      ((Text.lineStart before).length + 1) := by
    rw [hfragment, hplace, Place.following, Place.fragment, Nat.add_comm, Nat.add_comm 1,
      Text.lineStart, List.length_reverse]
  obtain ⟨advice, hown⟩ := ownLines_written hplaced hstatement hsource
  obtain ⟨blanks, more, hmarked, hblanks, hlength⟩ :=
    exists_underline t.text ((Text.lineStart before).length + 1) depth d.label
  have hwhole : text.toList = above ++ (Text.lineStart before ++ c :: tail) ++ below := by
    rw [htext, htail]
    conv_lhs => rw [habove]
    simp
  have hposition : before.length = above.length + (Text.lineStart before).length := by
    conv_lhs => rw [habove, List.length_append]
  refine ⟨_, _, .intro hwhole hline hposition (by simp) hmarked hblanks hlength, ?_⟩
  · obtain ⟨others, hlines⟩ := hcause.linesAt_suffix 0
    refine ⟨others, advice.map (repeated ' ' (2 * depth) ++ ·) ++ causeLinesAt depth d.cause, ?_⟩
    rw [Nat.zero_add, linesAt_eq, hown] at hlines
    rw [render, ← hlines, hplace, Place.following, Place.fragment]
    simp [Fragment.line, Fragment.column, margin, Text.lineStart, Nat.add_comm, String.append_assoc]

/-- A text with a quoted text of two lines. -/
def brokenQuote : String :=
  "CALL 'one\ntwo' || zz\r\n, 1"

/-- A failure of that text. -/
def ofBrokenQuote (fragment : Fragment) (cause : Option Diagnostic) : Diagnostic where
  code := "DML_013"
  statement := some brokenQuote
  message := "routine 'zz' not found"
  fragment := fragment
  label := some "unknown routine"
  help := none
  notes := []
  cause := cause

theorem render_marks_cause : ∃ earlier t later, tokenize brokenQuote = .ok (earlier ++ t :: later) ∧
    t.text = "zz" ∧ ∃ before printed marked, MarkedLine brokenQuote.toList before 1 1 printed marked ∧
      ∃ above below, (ofBrokenQuote .absent (some (ofBrokenQuote t.fragment none))).render =
        String.join ((above ++ [printed, marked] ++ below).map (· ++ "\n")) := by
  have hread : (tokenize brokenQuote).toOption.map (List.map Token.text) =
      some ["CALL", "one\ntwo", "||", "zz", ",", "1"] :=
    tokenize_map rfl (by decide +kernel)
  obtain ⟨tokens, htokens, htexts, -⟩ := exists_tokenize (P := fun _ => True) hread
    fun _ _ => trivial
  obtain ⟨earlier, rest, rfl, -, hrest⟩ := List.map_eq_append_iff.1
    (show tokens.map Token.text = ["CALL", "one\ntwo", "||"] ++ ["zz", ",", "1"] from htexts)
  obtain ⟨t, later, rfl, ht, -⟩ := List.map_eq_cons_iff.1 hrest
  obtain ⟨-, before, -, -, -, -, printed, marked, hmarked, above, below, hrender⟩ :=
    render_marks htokens (.further (d := ofBrokenQuote .absent (some (ofBrokenQuote t.fragment none)))
      rfl .self) rfl rfl
  exact ⟨earlier, t, later, htokens, ht, before.length, printed, marked, hmarked,
    above ++ [_, _], below, by rw [hrender, List.append_assoc above [_, _]]; rfl⟩

/-- The character that stands `shift` to the left of the first caret is the one that is marked. -/
theorem MarkedLine.getElem?_printed {text : List Char} {position depth shift : Nat}
    {printed marked : String} (h : MarkedLine text position depth shift printed marked) :
    '^' ∈ marked.toList ∧
      printed.toList[marked.toList.idxOf '^' - shift]? = text[position]? := by
  obtain ⟨rfl, -, rfl, hoffset, hmarked, hblanks, hshift⟩ := h
  refine ⟨by simp [hmarked], ?_⟩
  rw [hmarked, List.idxOf_append_of_notMem hblanks, List.idxOf_cons_self, Nat.add_zero, hshift,
    Nat.add_sub_cancel, String.toList_append, String.toList_ofList, List.append_assoc,
    List.getElem?_append_right (by simp [String.length_toList]), String.length_toList,
    List.getElem?_append_right (Nat.le_add_right _ _), List.getElem?_append_left (by omega)]
  simp

/-- A text whose condition names a column that its table does not have. -/
def unknownColumn : String :=
  "DELETE FROM t WHERE x = 1"

/-- Why it does not compile. -/
def unknownColumnError : Error where
  cause := .unresolvedReference ["x"]
  fragment := .written "x" 1 21

set_option maxRecDepth 10000 in
/-- The caret does not stand under the column. -/
theorem caret_right_of_column : ∃ tokens t, tokenize unknownColumn = .ok tokens ∧
    (tokens[4]?).map Token.fragment = some unknownColumnError.fragment ∧
    unknownColumn.toList.idxOf 'x' = 20 ∧
    Statement.compile .bank unknownColumn .initial = .error (.rejected unknownColumnError) t ∧
    ∀ pair ∈ (linesAt 0 (unknownColumnError.diagnostic.withStatement unknownColumn)).zip
        (linesAt 0 (unknownColumnError.diagnostic.withStatement unknownColumn)).tail,
      ¬ MarkedLine unknownColumn.toList 20 0 0 pair.1 pair.2 := by
  obtain ⟨t, hcompile⟩ := Statement.exists_failure .bank unknownColumn
    (.rejected unknownColumnError) rfl (by decide +kernel)
  have hread : (tokenize unknownColumn).toOption.map (fun tokens => (tokens[4]?).map Token.fragment) =
      some (some unknownColumnError.fragment) :=
    tokenize_map rfl (by decide +kernel)
  obtain ⟨tokens, htokens, hfragment, -⟩ := exists_tokenize (P := fun _ => True) hread
    fun _ _ => trivial
  refine ⟨tokens, t, htokens, hfragment, by decide +kernel, hcompile, fun pair hpair hmarked => ?_⟩
  have hnone : ∀ pair ∈ (linesAt 0 (unknownColumnError.diagnostic.withStatement unknownColumn)).zip
      (linesAt 0 (unknownColumnError.diagnostic.withStatement unknownColumn)).tail,
      ¬ ('^' ∈ pair.2.toList ∧
        pair.1.toList[pair.2.toList.idxOf '^' - 0]? = unknownColumn.toList[20]?) := by
    decide +kernel
  exact hnone pair hpair hmarked.getElem?_printed

end Diagnostic

end DataChange
