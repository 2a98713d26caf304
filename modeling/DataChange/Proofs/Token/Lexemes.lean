import DataChange.Proofs.Token.Places
import Mathlib.Data.List.Infix

/-!
# Lexemes

The characters that a token is written with are its lexeme: its text, which a quoted token has
between quotes and with each quote in it doubled. `TokenKind.Admits` says which texts the tokens of
a kind have. What is read as a token is a lexeme of it (`Piece.takes_read`), and a lexeme is read
as its token again where it ends the text or a space follows (`Piece.read_admitted`).
-/

namespace DataChange

/-- A text with each quote in it doubled. -/
def doubled (quote : Char) : List Char → List Char
  | [] => []
  | c :: cs => if c = quote then quote :: quote :: doubled quote cs else c :: doubled quote cs

namespace Text

/-- What is checked of the code points of a span holds of its characters. -/
theorem holds_in_span (p : Char → Bool) (first count : Nat)
    (h : (List.range' first count).all (fun code => p (Char.ofNat code)) = true) {c : Char}
    (hc : first ≤ c.toNat ∧ c.toNat < first + count) : p c = true := by
  simpa using List.all_eq_true.1 h c.toNat (List.mem_range'_1.2 hc)

/-- No letter is blank. -/
theorem isBlank_of_isLetter {c : Char} (h : isLetter c = true) : isBlank c = false := by
  have hdisjoint : blankRanges.all (fun r =>
      (List.range' r.1 (r.2 + 1 - r.1)).all fun code => !isLetter (Char.ofNat code)) = true := by
    decide +kernel
  rw [← Bool.not_eq_true]
  intro hblank
  obtain ⟨r, hr, hfirst, hlast⟩ := inRanges_iff.1 hblank
  have hletter := holds_in_span (fun c => !isLetter c) r.1 (r.2 + 1 - r.1)
    (List.all_eq_true.1 hdisjoint r hr) (c := c) (by omega)
  simp [h] at hletter

theorem isBlank_of_isDigit {c : Char} (h : c.isDigit = true) : isBlank c = false := by
  have hc : 48 ≤ c.toNat ∧ c.toNat ≤ 57 := Char.isDigit_iff_toNat.1 h
  simpa using holds_in_span (fun c => !isBlank c) 48 10 (by decide) (c := c) (by omega)

theorem isLetter_of_isDigit {c : Char} (h : c.isDigit = true) : isLetter c = false := by
  have hc : 48 ≤ c.toNat ∧ c.toNat ≤ 57 := Char.isDigit_iff_toNat.1 h
  simpa using holds_in_span (fun c => !isLetter c) 48 10 (by decide) (c := c) (by omega)

end Text

namespace TokenKind

/-- The quote around the tokens of a kind. -/
def quote? : TokenKind → Option Char
  | .string => some '\x27'
  | .quotedIdentifier => some '"'
  | _ => none

/-- The characters of a token of a kind with a text. -/
def lexeme (kind : TokenKind) (text : List Char) : List Char :=
  match kind.quote? with
  | some quote => quote :: (doubled quote text ++ [quote])
  | none => text

/-- The texts that tokens of a kind have. -/
inductive Admits : TokenKind → List Char → Prop
  | parameter : Admits .parameter ['?']
  | single {c : Char} {s : Symbol} (h : Symbol.single? c = some s) : Admits (.symbol s) [c]
  | double {c d : Char} {s : Symbol} (h : Symbol.double? c d = some s) : Admits (.symbol s) [c, d]
  | quoted {kind : TokenKind} {quote : Char} (h : kind.quote? = some quote) (text : List Char) :
      Admits kind text
  | integer {digits : List Char} (hne : digits ≠ []) (h : ∀ c ∈ digits, c.isDigit = true) :
      Admits .integer digits
  | decimal {whole fraction : List Char} (hwhole : whole ≠ [])
      (hw : ∀ c ∈ whole, c.isDigit = true) (hfraction : fraction ≠ [])
      (hf : ∀ c ∈ fraction, c.isDigit = true) : Admits .decimal (whole ++ '.' :: fraction)
  | word {c : Char} {cs : List Char} (hc : Piece.startsWord c = true)
      (hcs : ∀ d ∈ cs, Piece.continuesWord d = true) :
      Admits (Piece.wordKind (String.ofList (c :: cs))) (c :: cs)

@[simp] theorem quote?_wordKind (word : String) : (Piece.wordKind word).quote? = none := by
  unfold Piece.wordKind
  split <;> rfl

theorem lexeme_quoted {kind : TokenKind} {quote : Char} (h : kind.quote? = some quote)
    (text : List Char) : kind.lexeme text = quote :: (doubled quote text ++ [quote]) := by
  simp only [lexeme, h]

theorem lexeme_verbatim {kind : TokenKind} (h : kind.quote? = none) (text : List Char) :
    kind.lexeme text = text := by
  simp only [lexeme, h]

theorem quote?_eq_some {kind : TokenKind} {quote : Char} (h : kind.quote? = some quote) :
    (quote = '\x27' ∨ quote = '"') ∧ Piece.quotedKind quote = kind := by
  cases kind <;> simp only [quote?, reduceCtorEq, Option.some.injEq] at h <;> subst h <;>
    exact ⟨by simp, rfl⟩

theorem quote?_quotedKind {quote : Char} (h : quote = '\x27' ∨ quote = '"') :
    (Piece.quotedKind quote).quote? = some quote := by
  rcases h with rfl | rfl <;> rfl

theorem Admits.lexeme_ne_nil {kind : TokenKind} {text : List Char} (h : kind.Admits text) :
    kind.lexeme text ≠ [] := by
  cases h with
  | quoted h => simp [lexeme_quoted h]
  | integer hne => exact hne
  | word => simp [lexeme_verbatim]
  | _ => simp [lexeme, quote?]

end TokenKind

/-- The characters that a token is written with. -/
def Token.lexeme (t : Token) : List Char :=
  t.kind.lexeme t.text.toList

/-- The text is one that the kind of the token has. -/
def Token.Admitted (t : Token) : Prop :=
  t.kind.Admits t.text.toList

/-- What is read at the head of some characters: the first of them, and for a token its lexeme. -/
structure ReadPiece.Takes (r : ReadPiece) (cs : List Char) : Prop where
  taken : r.chars <+: cs
  lexeme : ∀ kind text spelled, r.piece = .lexeme kind text spelled →
    kind.Admits text.toList ∧ r.chars = kind.lexeme text.toList

namespace Piece

/-! ## What is read is a lexeme -/

theorem takes_verbatim {kind : TokenKind} {chars cs : List Char}
    {spelled : kind.isSpelledBy (String.ofList chars) = true} (h : kind.Admits chars)
    (hquote : kind.quote? = none) (hcs : chars <+: cs) :
    (verbatim kind chars spelled).Takes cs := by
  refine ⟨hcs, fun kind' text' spelled' hp => ?_⟩
  obtain ⟨rfl, rfl⟩ := Piece.lexeme.inj hp
  rw [String.toList_ofList, TokenKind.lexeme_verbatim hquote]
  exact ⟨h, rfl⟩

theorem takes_readSymbol {c : Char} {cs : List Char} {r : ReadPiece}
    (h : readSymbol? c cs = some r) : r.Takes (c :: cs) := by
  have hsingle : ∀ {cs'}, (Symbol.single? c).map (fun s => verbatim (.symbol s) [c] rfl) = some r →
      r.Takes (c :: cs') := by
    intro cs' h
    obtain ⟨s, hs, rfl⟩ := Option.map_eq_some_iff.1 h
    exact takes_verbatim (.single hs) rfl ⟨cs', rfl⟩
  unfold readSymbol? at h
  split at h
  · next d ds =>
    split at h
    · next s hs =>
      cases h
      exact takes_verbatim (.double hs) rfl ⟨ds, rfl⟩
    · exact hsingle h
  · exact hsingle h

/-- The text between quotes is doubled where it is read. -/
theorem quotedBody_closed {quote : Char} {cs text : List Char} {n : Nat}
    (h : quotedBody quote cs = (true, text, n)) :
    ∃ rest, cs = doubled quote text ++ quote :: rest ∧ n = (doubled quote text).length + 1 := by
  fun_induction quotedBody quote cs generalizing text n with
  | case1 => cases h
  | case2 =>
    cases h
    exact ⟨[], rfl, rfl⟩
  | case3 => cases h
  | case4 cs closed text' n' hrec ih =>
    obtain ⟨rfl, rfl, rfl⟩ : closed = true ∧ quote :: text' = text ∧ n' + 2 = n := by simpa using h
    obtain ⟨rest, rfl, rfl⟩ := ih hrec
    exact ⟨rest, by simp [doubled], by simp [doubled]⟩
  | case5 d cs hd =>
    cases h
    exact ⟨d :: cs, rfl, rfl⟩
  | case6 c d cs hc closed text' n' hrec ih =>
    obtain ⟨rfl, rfl, rfl⟩ : closed = true ∧ c :: text' = text ∧ n' + 1 = n := by simpa using h
    obtain ⟨rest, hrest, rfl⟩ := ih hrec
    exact ⟨rest, by simp [doubled, hc, hrest], by simp [doubled, hc]⟩

theorem takes_readQuoted {quote : Char} {cs : List Char} (hquote : quote = '\x27' ∨ quote = '"') :
    (readQuoted quote cs).Takes (quote :: cs) := by
  refine ⟨?_, fun kind text spelled hp => ?_⟩
  · exact (List.prefix_cons_inj quote).2 (List.take_prefix _ _)
  · rcases hbody : quotedBody quote cs with ⟨closed, body, n⟩
    simp only [readQuoted, hbody] at hp ⊢
    cases closed with
    | false => cases hp
    | true =>
      obtain ⟨rfl, rfl⟩ := Piece.lexeme.inj hp
      obtain ⟨rest, rfl, rfl⟩ := quotedBody_closed hbody
      have hkind := TokenKind.quote?_quotedKind hquote
      refine ⟨.quoted hkind _, ?_⟩
      rw [TokenKind.lexeme_quoted hkind, String.toList_ofList, List.take_length_add_append]
      rfl

theorem takes_readNumber {cs : List Char} (h : cs.takeWhile Char.isDigit ≠ []) :
    (readNumber cs).Takes cs := by
  have hdigits : ∀ {cs : List Char}, ∀ c ∈ cs.takeWhile Char.isDigit, c.isDigit = true :=
    fun {cs} => List.all_eq_true.1 List.all_takeWhile
  have hinteger : (verbatim .integer (cs.takeWhile Char.isDigit)
      (integer_isSpelledBy_digits cs)).Takes cs :=
    takes_verbatim (.integer h hdigits) rfl (List.takeWhile_prefix _)
  unfold readNumber
  dsimp only
  split
  · next rest hrest =>
    split
    · exact hinteger
    · next hfraction =>
      refine takes_verbatim (.decimal h hdigits (by simpa using hfraction) hdigits) rfl ?_
      · refine ⟨rest.dropWhile Char.isDigit, ?_⟩
        conv => rhs; rw [← List.takeWhile_append_dropWhile (p := Char.isDigit) (l := cs), hrest]
        simp
  · exact hinteger

theorem takes_readWord {c : Char} {cs : List Char} (h : startsWord c = true) :
    (readWord (c :: cs)).Takes (c :: cs) := by
  have hword : (c :: cs).takeWhile continuesWord = c :: cs.takeWhile continuesWord :=
    List.takeWhile_cons_of_pos (continuesWord_of_startsWord h)
  refine takes_verbatim ?_ (by simp) (List.takeWhile_prefix _)
  rw [hword]
  exact .word h (List.all_eq_true.1 List.all_takeWhile)

theorem takes_readLexeme (c : Char) (cs : List Char) : (readLexeme c cs).Takes (c :: cs) := by
  unfold readLexeme
  split
  · next h => exact takes_readSymbol h
  split
  · next h =>
    subst h
    exact takes_verbatim .parameter rfl ⟨cs, rfl⟩
  split
  · next h => exact takes_readQuoted (by simpa using h)
  split
  · next h => exact takes_readNumber (by simp [List.takeWhile_cons_of_pos h])
  split
  · next h => exact takes_readWord h
  · exact ⟨⟨cs, rfl⟩, fun _ _ _ hp => by cases hp⟩

/-- What is read is at the head of the text, and a token is read from its lexeme. -/
theorem takes_read (c : Char) (cs : List Char) : (read c cs).Takes (c :: cs) := by
  unfold read
  split
  · exact ⟨⟨cs, rfl⟩, fun _ _ _ hp => by cases hp⟩
  · cases hcomment : readComment? c cs with
    | none => exact takes_readLexeme c cs
    | some r =>
      unfold readComment? at hcomment
      split at hcomment
      · next cs =>
        cases hcomment
        refine ⟨(List.prefix_cons_inj _).2 (List.takeWhile_prefix _), fun _ _ _ hp => by cases hp⟩
      · next rest =>
        cases hcomment
        refine ⟨?_, fun _ _ _ hp => by cases hp⟩
        exact (List.prefix_cons_inj _).2 ((List.prefix_cons_inj _).2 (List.take_prefix _ _))
      · cases hcomment

/-! ## Readings before a space -/

/-- Nothing, or characters after a space. -/
def Separated (rest : List Char) : Prop :=
  ∀ c ∈ rest.head?, c = ' '

/-- The characters that have a meaning of their own where a piece starts. -/
def marks : List Char :=
  ['*', ',', '.', ';', '(', ')', '+', '-', '/', '%', '=', '<', '>', '|', '!', '?', '\x27', '"']

theorem not_mem_marks {p : Char → Bool} (hp : marks.all (fun c => !p c) = true) {c : Char}
    (h : p c = true) : c ∉ marks := by
  intro hc
  simpa [h] using List.all_eq_true.1 hp c hc

/-- A character that is neither blank nor a mark starts a number or a word. -/
theorem read_unmarked {c : Char} {cs : List Char} (hmark : c ∉ marks)
    (hblank : Text.isBlank c = false) :
    read c cs = if c.isDigit then readNumber (c :: cs)
      else if startsWord c then readWord (c :: cs) else ⟨.stray c, [c]⟩ := by
  have hcomment : readComment? c cs = none := by
    unfold readComment?
    split
    · simp [marks] at hmark
    · simp [marks] at hmark
    · rfl
  have hsingle : Symbol.single? c = none := by
    unfold Symbol.single?
    split <;> first | rfl | simp [marks] at hmark
  have hdouble : ∀ d, Symbol.double? c d = none := by
    intro d
    unfold Symbol.double?
    split <;> first | rfl | simp [marks] at hmark
  have hsymbol : readSymbol? c cs = none := by
    cases cs <;> simp [readSymbol?, hsingle, hdouble]
  have hparameter : c ≠ '?' := by rintro rfl; simp [marks] at hmark
  have hquote : ¬ (c = '\x27' ∨ c = '"') := by rintro (rfl | rfl) <;> simp [marks] at hmark
  simp only [read, hblank, Bool.false_eq_true, ↓reduceIte, hcomment, Option.getD_none, readLexeme,
    hsymbol, hparameter, Bool.or_eq_true, decide_eq_true_eq, hquote]

theorem takeWhile_separated {p : Char → Bool} {cs rest : List Char} (h : ∀ c ∈ cs, p c = true)
    (hp : p ' ' = false) (hrest : Separated rest) :
    (cs ++ rest).takeWhile p = cs ∧ (cs ++ rest).dropWhile p = rest := by
  rw [List.takeWhile_append_of_pos h, List.dropWhile_append_of_pos h]
  rcases rest with _ | ⟨c, rest⟩
  · simp
  · obtain rfl := hrest c rfl
    simp [hp]

theorem readNumber_integer {digits rest : List Char} (h : ∀ c ∈ digits, c.isDigit = true)
    (hrest : Separated rest) : ∃ spelled, readNumber (digits ++ rest) =
      ⟨.lexeme .integer (String.ofList digits) spelled, digits⟩ := by
  obtain ⟨htake, hdrop⟩ := takeWhile_separated h rfl hrest
  have hspelled : TokenKind.integer.isSpelledBy (String.ofList digits) = true := by
    simpa [TokenKind.isSpelledBy] using h
  refine ⟨hspelled, ?_⟩
  rcases rest with _ | ⟨c, cs⟩
  · simp only [readNumber, htake, hdrop, verbatim]
  · obtain rfl := hrest c rfl
    simp only [readNumber, htake, hdrop, verbatim]
    rfl

theorem readNumber_decimal {whole fraction rest : List Char}
    (hw : ∀ c ∈ whole, c.isDigit = true) (hfraction : fraction ≠ [])
    (hf : ∀ c ∈ fraction, c.isDigit = true) (hrest : Separated rest) :
    readNumber (whole ++ '.' :: fraction ++ rest) =
      ⟨.lexeme .decimal (String.ofList (whole ++ '.' :: fraction)) rfl,
        whole ++ '.' :: fraction⟩ := by
  obtain ⟨htake, -⟩ := takeWhile_separated hf rfl hrest
  have hwhole : (whole ++ '.' :: (fraction ++ rest)).takeWhile Char.isDigit = whole := by
    rw [List.takeWhile_append_of_pos hw]
    simp [Char.isDigit]
  have hpoint : (whole ++ '.' :: (fraction ++ rest)).dropWhile Char.isDigit =
      '.' :: (fraction ++ rest) := by
    rw [List.dropWhile_append_of_pos hw]
    simp [Char.isDigit]
  rw [List.append_assoc, List.cons_append]
  simp [readNumber, hwhole, hpoint, htake, hfraction, verbatim]

/-- The end of a quoted text is a quote that no other one follows. -/
theorem quotedBody_doubled {quote : Char} {rest : List Char} (hrest : rest.head? ≠ some quote)
    (text : List Char) : quotedBody quote (doubled quote text ++ quote :: rest) =
      (true, text, (doubled quote text).length + 1) := by
  induction text with
  | nil =>
    rcases rest with _ | ⟨c, rest⟩
    · simp [doubled, quotedBody]
    · have hc : c ≠ quote := by simpa using hrest
      simp [doubled, quotedBody, hc]
  | cons c text ih =>
    by_cases hc : c = quote
    · subst hc
      simp [doubled, quotedBody, ih]
    · obtain ⟨d, ds, hd⟩ : ∃ d ds, doubled quote text ++ quote :: rest = d :: ds :=
        List.exists_cons_of_ne_nil (by simp)
      rw [hd] at ih
      simp [doubled, hc, hd, quotedBody, ih]

/-! ## A lexeme is read again -/

theorem read_digit {c : Char} {cs : List Char} (h : c.isDigit = true) :
    read c cs = readNumber (c :: cs) := by
  rw [read_unmarked (not_mem_marks (by decide) h) (Text.isBlank_of_isDigit h), if_pos h]

theorem read_letter {c : Char} {cs : List Char} (h : startsWord c = true) :
    read c cs = readWord (c :: cs) := by
  have hblank : Text.isBlank c = false := by
    rcases Bool.or_eq_true _ _ ▸ h with hletter | hc
    · exact Text.isBlank_of_isLetter hletter
    · obtain rfl := of_decide_eq_true hc
      decide
  have hdigit : c.isDigit ≠ true := by
    intro hdigit
    have hletter := Text.isLetter_of_isDigit hdigit
    obtain rfl : c = '_' := by simpa [startsWord, hletter] using h
    cases hdigit
  rw [read_unmarked (not_mem_marks (by decide) h) hblank, if_neg hdigit, if_pos h]

theorem read_quote {quote : Char} (hquote : quote = '\x27' ∨ quote = '"') (cs : List Char) :
    read quote cs = readQuoted quote cs := by
  rcases hquote with rfl | rfl <;> rcases cs with _ | ⟨c, cs⟩ <;> rfl

/-- A lexeme is read as its token where nothing or a space follows. -/
theorem read_admitted {kind : TokenKind} {text rest : List Char} (h : kind.Admits text)
    (hrest : Separated rest) : ∃ c cs spelled, kind.lexeme text ++ rest = c :: cs ∧
      read c cs = ⟨.lexeme kind (String.ofList text) spelled, kind.lexeme text⟩ := by
  -- a lexeme is followed by a blank or by nothing, which no lexeme of any kind can go on with
  have hend : rest = [] ∨ ∃ cs, rest = ' ' :: cs := by
    rcases rest with _ | ⟨c, cs⟩
    · exact .inl rfl
    · exact .inr ⟨cs, by rw [hrest c rfl]⟩
  cases h with
  | parameter => rcases hend with rfl | ⟨cs, rfl⟩ <;> exact ⟨_, _, rfl, rfl, rfl⟩
  | @single c s hs =>
    refine ⟨c, rest, rfl, rfl, ?_⟩
    unfold Symbol.single? at hs
    split at hs <;> cases hs <;> rcases hend with rfl | ⟨cs, rfl⟩ <;> rfl
  | @double c d s hs =>
    refine ⟨c, d :: rest, rfl, rfl, ?_⟩
    unfold Symbol.double? at hs
    split at hs <;> cases hs <;> rfl
  | @quoted _ quote hkind text =>
    obtain ⟨hquote, rfl⟩ := TokenKind.quote?_eq_some hkind
    have hclosed : rest.head? ≠ some quote := by
      rcases hend with rfl | ⟨cs, rfl⟩ <;> rcases hquote with rfl | rfl <;> simp
    refine ⟨quote, doubled quote text ++ quote :: rest, isSpelledBy_quotedKind _ _, ?_, ?_⟩
    · simp [TokenKind.lexeme_quoted hkind]
    · rw [read_quote hquote, TokenKind.lexeme_quoted hkind]
      simp only [readQuoted, quotedBody_doubled hclosed, ↓reduceIte, List.take_length_add_append]
      rfl
  | integer hne hdigits =>
    obtain ⟨c, cs, rfl⟩ := List.exists_cons_of_ne_nil hne
    obtain ⟨hspelled, hread⟩ := readNumber_integer hdigits hrest
    exact ⟨c, cs ++ rest, hspelled, rfl, (read_digit (hdigits c (by simp))).trans hread⟩
  | decimal hne hw hfraction hf =>
    obtain ⟨c, cs, rfl⟩ := List.exists_cons_of_ne_nil hne
    exact ⟨c, _, rfl, rfl, (read_digit (hw c (by simp))).trans
      (readNumber_decimal hw hfraction hf hrest)⟩
  | @word c cs hc hcs =>
    refine ⟨c, cs ++ rest, isSpelledBy_wordKind _ _, ?_, ?_⟩
    · rw [TokenKind.lexeme_verbatim (by simp), List.cons_append]
    · have hall : ∀ d ∈ c :: cs, continuesWord d = true := by
        simpa using ⟨continuesWord_of_startsWord hc, hcs⟩
      have htake := (takeWhile_separated hall (by decide) hrest).1
      rw [read_letter hc, TokenKind.lexeme_verbatim (by simp)]
      rw [List.cons_append] at htake
      simp only [readWord, htake, verbatim]

end Piece

/-! ## Texts -/

/-- A text that starts with a lexeme has its token first. -/
theorem tokensWithin_lexeme {bound : Nat} {place : Place} {c : Char} {cs lexeme rest : List Char}
    {kind : TokenKind} {text : String} {spelled : kind.isSpelledBy text = true} {ts : List Token}
    (hcs : lexeme ++ rest = c :: cs)
    (hread : Piece.read c cs = ⟨.lexeme kind text spelled, lexeme⟩)
    (h : tokensWithin bound (place.advance lexeme) rest = .ok ts) :
    tokensWithin (bound + 1) place (lexeme ++ rest) =
      .ok (⟨kind, place.fragment text, spelled⟩ :: ts) := by
  have hdrop : (c :: cs).drop lexeme.length = rest := by rw [← hcs, List.drop_left]
  rw [hcs]
  simp only [tokensWithin, hread, hdrop, h]

/-! ## Scanning

To tell the kind of a word, `tokenize` folds the case of all keywords, character by character of
their texts. For a given text, whose characters are known, `scan` finds the same tokens by comparing
letters, so that evaluating it takes little. -/

namespace Keyword

/-- The letters of a keyword. -/
def letters (k : Keyword) : { cs : List Char // k.text = String.ofList cs } := by
  cases k <;> exact ⟨_, rfl⟩

/-- The keyword that some characters spell. -/
def ofLetters? (word : List Char) : Option Keyword :=
  all.find? fun k => word.map Char.toLower = k.letters.1.map Char.toLower

theorem toList_foldCase_text (k : Keyword) :
    (Text.foldCase k.text).toList = k.letters.1.map Char.toLower := by
  have htext : k.text.toList = k.letters.1 :=
    (congrArg String.toList k.letters.2).trans String.toList_ofList
  rw [Text.foldCase, String.toList_map, htext]

theorem ofText?_ofList (word : List Char) : ofText? (String.ofList word) = ofLetters? word := by
  have hsame : ∀ k : Keyword, (Text.foldCase (String.ofList word) == Text.foldCase k.text) =
      decide (word.map Char.toLower = k.letters.1.map Char.toLower) := by
    intro k
    rw [Bool.eq_iff_iff, beq_iff_eq, decide_eq_true_iff, ← String.toList_inj,
      toList_foldCase_text, Text.foldCase, String.toList_map, String.toList_ofList]
  have hlookup : ∀ ks : List Keyword,
      (ks.map fun k => (Text.foldCase k.text, k)).lookup (Text.foldCase (String.ofList word)) =
        ks.find? fun k => word.map Char.toLower = k.letters.1.map Char.toLower := by
    intro ks
    induction ks with
    | nil => rfl
    | cons k ks ih => simp only [List.map_cons, List.lookup_cons, List.find?_cons, hsame, ih]
  exact hlookup all

end Keyword

namespace Piece

/-- The kind of a word, told by its letters. -/
def letterKind (word : List Char) : TokenKind :=
  match Keyword.ofLetters? word with
  | some k => .keyword k
  | none => .identifier

theorem wordKind_ofList (word : List Char) : wordKind (String.ofList word) = letterKind word := by
  rw [wordKind, Keyword.ofText?_ofList]
  rfl

theorem isSpelledBy_letterKind (word : List Char) (text : String) :
    (letterKind word).isSpelledBy text = true :=
  wordKind_ofList word ▸ isSpelledBy_wordKind _ text

/-- The piece at the head of a text. -/
def scan (c : Char) (cs : List Char) : ReadPiece :=
  if startsWord c then
    let word := (c :: cs).takeWhile continuesWord
    verbatim (letterKind word) word (isSpelledBy_letterKind ..)
  else read c cs

theorem scan_eq (c : Char) (cs : List Char) : scan c cs = read c cs := by
  unfold scan
  split
  · next hc => simp only [read_letter hc, readWord, verbatim, wordKind_ofList]
  · rfl

end Piece

/-- The tokens of at most `bound` characters from a place on. -/
def scanWithin : Nat → Place → List Char → Except Error (List Token)
  | bound + 1, place, c :: cs =>
    let { piece, chars } := Piece.scan c cs
    let rest := (c :: cs).drop chars.length
    match piece with
    | .gap => scanWithin bound (place.advance chars) rest
    | .lexeme kind text spelled =>
      match scanWithin bound (place.advance chars) rest with
      | .ok tokens => .ok (⟨kind, place.fragment text, spelled⟩ :: tokens)
      | .error e => .error e
    | .unclosed quote text => .error ⟨.unexpectedEnd (.closing quote), place.fragment text⟩
    | .stray c => .error (.unexpected .validToken (place.fragment c.toString))
  | _, _, _ => .ok []

theorem scanWithin_eq (bound : Nat) (place : Place) (cs : List Char) :
    scanWithin bound place cs = tokensWithin bound place cs := by
  induction bound generalizing place cs with
  | zero => rfl
  | succ bound ih =>
    cases cs with
    | nil => rfl
    | cons c cs =>
      simp only [scanWithin, Piece.scan_eq, ih]
      rfl

/-- The tokens of some characters. -/
def scan (chars : List Char) : Except Error (List Token) :=
  scanWithin chars.length .start chars

theorem tokenize_eq_scan {text : String} {chars : List Char} (htext : text = String.ofList chars) :
    tokenize text = scan chars := by
  rw [htext, scan, scanWithin_eq, tokenize, String.toList_ofList]

theorem append_eq_ofList {s t : String} {cs ds : List Char} (hs : s = String.ofList cs)
    (ht : t = String.ofList ds) : s ++ t = String.ofList (cs ++ ds) := by
  rw [hs, ht, String.ofList_append]

/-- What is computed of the tokens of some characters is computed of those of the text. -/
theorem tokenize_map {α : Type} {text : String} {chars : List Char} {f : List Token → α} {a : α}
    (htext : text = String.ofList chars) (h : (scan chars).toOption.map f = some a) :
    (tokenize text).toOption.map f = some a := by
  rw [tokenize_eq_scan htext, h]

/-- A text whose tokens are computed, and what holds of them besides. -/
theorem exists_tokenize {α : Type} {text : String} {f : List Token → α} {a : α}
    {P : List Token → Prop} (h : (tokenize text).toOption.map f = some a)
    (hP : ∀ tokens, tokenize text = .ok tokens → P tokens) :
    ∃ tokens, tokenize text = .ok tokens ∧ f tokens = a ∧ P tokens := by
  cases htokens : tokenize text with
  | error e => simp [htokens, Except.toOption] at h
  | ok tokens =>
    rw [htokens] at h
    exact ⟨tokens, rfl, Option.some.inj h, hP tokens htokens⟩

end DataChange
