import DataChange.Proofs.Token.Lexemes

/-!
# The layout of a text

A text that is read into tokens is made of their lexemes and of gaps around them, and of nothing
else (`Laid`). Gaps are blanks and comments. The place of a token is counted in the characters
before its lexeme: the line feeds among them give its line, and those after the last line feed give
its column (`Place.following`). Any tokens can be written in one line, each by its lexeme and with a
space before the next one, and the line is read into tokens of the same kinds and texts
(`tokenize_spaced`).
-/

namespace DataChange

/-! ## Places -/

namespace Place

/-- The place after some characters of a text. -/
def following (before : List Char) : Place :=
  ⟨1 + before.count '\n', 1 + (before.reverse.takeWhile (· != '\n')).length⟩

theorem after_following (before : List Char) (c : Char) :
    (following before).after c = following (before ++ [c]) := by
  unfold after following
  split
  · next h => simp [h, Nat.add_assoc]
  · next h => simp [h, Nat.add_comm]

theorem advance_following (before cs : List Char) :
    (following before).advance cs = following (before ++ cs) := by
  induction cs generalizing before with
  | nil => simp [advance]
  | cons c cs ih =>
    show ((following before).after c).advance cs = _
    rw [after_following, ih, List.append_assoc]
    rfl

/-- Neither number is above that of the characters before. -/
theorem following_le (before : List Char) :
    (following before).line ≤ before.length + 1 ∧
      (following before).column ≤ before.length + 1 := by
  have hline := List.count_le_length (a := '\n') (l := before)
  have hcolumn := (List.takeWhile_prefix (l := before.reverse) (· != '\n')).length_le
  rw [List.length_reverse] at hcolumn
  simp only [following]
  omega

end Place

/-! ## Gaps -/

/-- A blank or a comment, before other characters. A comment of a line runs up to the end of the
line or of the text, and one between marks up to the first closing mark or to the end of the
text. -/
inductive Skipped : List Char → List Char → Prop
  | blank {c : Char} {rest : List Char} (h : Text.isBlank c = true) : Skipped [c] rest
  | line {body rest : List Char} (hbody : '\n' ∉ body) (hend : ∀ c ∈ rest.head?, c = '\n') :
      Skipped ('-' :: '-' :: body) rest
  | closed {body rest : List Char} (hbody : ¬ ['*', '/'] <:+: body) :
      Skipped ('/' :: '*' :: (body ++ ['*', '/'])) rest
  | unclosed {body : List Char} (hbody : ¬ ['*', '/'] <:+: body) : Skipped ('/' :: '*' :: body) []

/-- Blanks and comments, before other characters. -/
inductive Gap : List Char → List Char → Prop
  | empty {rest : List Char} : Gap [] rest
  | more {piece gap rest : List Char} (hpiece : Skipped piece (gap ++ rest)) (hgap : Gap gap rest) :
      Gap (piece ++ gap) rest

/-- A gap is one too where less of the text follows. -/
theorem Skipped.shorten {piece rest more : List Char} (h : Skipped piece (rest ++ more)) :
    Skipped piece rest := by
  generalize hfollowing : rest ++ more = following at h
  cases h with
  | blank h => exact .blank h
  | line hbody hend =>
    refine .line hbody fun c hc => hend c ?_
    cases rest with
    | nil => simp at hc
    | cons d rest => simpa [← hfollowing] using hc
  | closed hbody => exact .closed hbody
  | unclosed hbody =>
    obtain ⟨rfl, -⟩ := List.append_eq_nil_iff.1 hfollowing
    exact .unclosed hbody

theorem Gap.shorten {gap rest more : List Char} (h : Gap gap (rest ++ more)) : Gap gap rest := by
  generalize hfollowing : rest ++ more = following at h
  induction h with
  | empty => exact .empty
  | more hpiece _ ih =>
    rw [← hfollowing, ← List.append_assoc] at hpiece
    exact .more hpiece.shorten (ih hfollowing)

theorem Skipped.ne_nil {piece rest : List Char} (h : Skipped piece rest) : piece ≠ [] := by
  cases h <;> simp

namespace Piece

/-- A comment between marks ends with the first closing mark, or with the text. -/
theorem blockLength_eq (cs : List Char) :
    (∃ body rest, cs = body ++ '*' :: '/' :: rest ∧ ¬ ['*', '/'] <:+: body ∧
      blockLength cs = body.length + 2) ∨
    (¬ ['*', '/'] <:+: cs ∧ blockLength cs = cs.length) := by
  fun_induction blockLength cs with
  | case1 rest => exact .inl ⟨[], rest, rfl, by simp, rfl⟩
  | case2 => exact .inr ⟨by simp, rfl⟩
  | case3 c cs hstart ih =>
    -- a mark that starts at `c` would have ended the comment there
    have hhead : ∀ {body rest}, cs = body ++ rest → ¬ ['*', '/'] <+: c :: body := by
      rintro body rest rfl ⟨more, hmore⟩
      obtain ⟨rfl, rfl⟩ : '*' = c ∧ '/' :: more = body := by simpa using hmore
      exact hstart (more ++ rest) rfl rfl
    rcases ih with ⟨body, rest, hcs, hbody, hlength⟩ | ⟨hbody, hlength⟩
    · refine .inl ⟨c :: body, rest, by rw [hcs]; rfl, ?_, by simp [hlength]⟩
      rw [List.infix_cons_iff, not_or]
      exact ⟨hhead hcs, hbody⟩
    · refine .inr ⟨?_, by simp [hlength]⟩
      rw [List.infix_cons_iff, not_or]
      exact ⟨hhead (List.append_nil cs).symm, hbody⟩

theorem readLexeme_ne_gap (c : Char) (cs : List Char) : (readLexeme c cs).piece ≠ .gap := by
  have hsingle : ∀ {r}, (Symbol.single? c).map (fun s => verbatim (.symbol s) [c] rfl) = some r →
      r.piece ≠ .gap := by
    intro r h
    obtain ⟨s, -, rfl⟩ := Option.map_eq_some_iff.1 h
    exact Piece.noConfusion
  unfold readLexeme
  split
  · next r h =>
    unfold readSymbol? at h
    split at h
    · split at h
      · cases h
        exact Piece.noConfusion
      · exact hsingle h
    · exact hsingle h
  split
  · exact Piece.noConfusion
  split
  · simp only [readQuoted]
    split <;> exact Piece.noConfusion
  split
  · unfold readNumber
    dsimp only
    split
    · split <;> exact Piece.noConfusion
    · exact Piece.noConfusion
  split <;> exact Piece.noConfusion

/-- What is read as a comment is one. -/
theorem skipped_comment {c : Char} {cs rest : List Char} {r : ReadPiece}
    (h : readComment? c cs = some r) (hrest : r.chars ++ rest = c :: cs) :
    Skipped r.chars rest := by
  unfold readComment? at h
  split at h
  · next cs =>
    cases h
    have hline : ('-' :: cs).takeWhile (· != '\n') = '-' :: cs.takeWhile (· != '\n') := rfl
    -- the two hyphens are no line feed, so the comment goes on to the next one
    have hsplit : cs.takeWhile (· != '\n') ++ rest = cs := by simpa [hline] using hrest
    have hafter : rest = cs.dropWhile (· != '\n') :=
      List.append_cancel_left (hsplit.trans List.takeWhile_append_dropWhile.symm)
    rw [hline]
    refine .line (fun hmem => ?_) fun d hd => ?_
    · simpa using List.all_eq_true.1 List.all_takeWhile _ hmem
    · have hhead := List.head?_dropWhile_not (· != '\n') cs
      rw [← hafter, hd] at hhead
      simpa using hhead
  · next cs =>
    cases h
    rcases blockLength_eq cs with ⟨body, after, rfl, hbody, hlength⟩ | ⟨hbody, hlength⟩
    · have htake : (body ++ '*' :: '/' :: after).take (blockLength (body ++ '*' :: '/' :: after)) =
          body ++ ['*', '/'] := by
        rw [hlength, List.take_length_add_append]
        rfl
      simp only [htake]
      exact .closed hbody
    -- without a closing mark the comment is the rest of the text
    · rw [hlength, List.take_length] at hrest
      obtain rfl : rest = [] := by simpa using hrest
      rw [hlength, List.take_length]
      exact .unclosed hbody
  · cases h

/-- What is read as a gap is a blank or a comment. -/
theorem skipped_read {c : Char} {cs rest : List Char} (h : (read c cs).piece = .gap)
    (hrest : (read c cs).chars ++ rest = c :: cs) : Skipped (read c cs).chars rest := by
  unfold read at h hrest ⊢
  split
  · next hblank => exact .blank hblank
  · next hblank =>
    rw [if_neg hblank] at h hrest
    cases hcomment : readComment? c cs with
    | none =>
      rw [hcomment] at h
      exact (readLexeme_ne_gap c cs h).elim
    | some r =>
      rw [hcomment] at hrest
      exact skipped_comment hcomment hrest

end Piece

/-! ## Texts -/

/-- The characters after others of a text are gaps and the lexemes of tokens, which are at the
places where their lexemes start. -/
inductive Laid : List Char → List Char → List Token → Prop
  | ended {before gap : List Char} (hgap : Gap gap []) : Laid before gap []
  | token {before gap rest : List Char} {t : Token} {ts : List Token}
      (hgap : Gap gap (t.lexeme ++ rest)) (hadmitted : t.Admitted)
      (hplace : t.fragment = (Place.following (before ++ gap)).fragment t.text)
      (hrest : Laid (before ++ gap ++ t.lexeme) rest ts) :
      Laid before (gap ++ (t.lexeme ++ rest)) (t :: ts)

namespace Laid

variable {before cs : List Char} {ts : List Token}

/-- A blank or a comment before the first gap belongs to it. -/
theorem skip {piece : List Char} (hpiece : Skipped piece cs) (h : Laid (before ++ piece) cs ts) :
    Laid before (piece ++ cs) ts := by
  cases h with
  | ended hgap => exact .ended (.more (by simpa using hpiece) hgap)
  | @token _ gap rest t ts hgap hadmitted hplace hrest =>
    rw [← List.append_assoc]
    exact .token (.more hpiece hgap) hadmitted (by simpa using hplace) (by simpa using hrest)

/-- A lexeme with no gap before it. -/
theorem cons {t : Token} {rest : List Char} (hadmitted : t.Admitted)
    (hplace : t.fragment = (Place.following before).fragment t.text)
    (h : Laid (before ++ t.lexeme) rest ts) : Laid before (t.lexeme ++ rest) (t :: ts) :=
  @token before [] rest t ts .empty hadmitted (by simpa using hplace) (by simpa using h)

theorem admitted (h : Laid before cs ts) : ∀ t ∈ ts, t.Admitted := by
  induction h with
  | ended => simp
  | token _ hadmitted _ _ ih => simpa using ⟨hadmitted, ih⟩

/-- A token of a text divides it into its lexeme and what stands around that. -/
theorem split {earlier later : List Token} {t : Token} (h : Laid before cs (earlier ++ t :: later)) :
    ∃ between rest, cs = between ++ (t.lexeme ++ rest) ∧ t.Admitted ∧
      t.fragment = (Place.following (before ++ between)).fragment t.text ∧
      Laid before between earlier ∧ Laid (before ++ between ++ t.lexeme) rest later := by
  induction earlier generalizing before cs with
  | nil =>
    cases h with
    | token hgap hadmitted hplace hrest =>
      exact ⟨_, _, rfl, hadmitted, hplace, .ended (Gap.shorten hgap), hrest⟩
  | cons u earlier ih =>
    cases h with
    | @token _ gap _ _ _ hgap hadmitted hplace hrest =>
      obtain ⟨between, rest, rfl, ht, htplace, hearlier, hlater⟩ := ih hrest
      rw [← List.append_assoc] at hgap
      exact ⟨gap ++ (u.lexeme ++ between), rest, by simp, ht, by simpa using htplace,
        .token hgap.shorten hadmitted hplace hearlier, by simpa using hlater⟩

/-- The numbers of a place fit as many bits as the length of the text. -/
theorem within (h : Laid before cs ts) :
    ∀ t ∈ ts, t.fragment.line ≤ (before ++ cs).length ∧
      t.fragment.column ≤ (before ++ cs).length := by
  induction h with
  | ended => simp
  | @token before gap rest t ts _ hadmitted hplace _ ih =>
    intro u hu
    rcases List.mem_cons.1 hu with rfl | hu
    · obtain ⟨hline, hcolumn⟩ := Place.following_le (before ++ gap)
      have hlexeme := List.length_pos_iff.2 hadmitted.lexeme_ne_nil
      rw [hplace]
      simp only [Place.fragment, Fragment.line, Fragment.column, List.length_append,
        Token.lexeme] at *
      omega
    · simpa using ih u hu

end Laid

theorem tokensWithin_laid : ∀ {bound : Nat} {before cs : List Char} {tokens : List Token},
    cs.length ≤ bound → tokensWithin bound (.following before) cs = .ok tokens →
      Laid before cs tokens
  | _, before, [], tokens, _, h => by
    obtain rfl : [] = tokens := by simpa [tokensWithin] using h
    exact .ended .empty
  | bound + 1, before, c :: cs, tokens, hbound, h => by
    obtain ⟨rest, hrest⟩ := (Piece.takes_read c cs).taken
    have hdrop : (c :: cs).drop (Piece.read c cs).chars.length = rest := by
      rw [← hrest, List.drop_left]
    have hlength := congrArg List.length hrest
    simp only [List.length_append, List.length_cons] at hlength hbound
    simp only [tokensWithin, hdrop, Place.advance_following] at h
    rw [← hrest]
    split at h
    · next hpiece =>
      have hskipped := Piece.skipped_read hpiece hrest
      have hne := List.length_pos_iff.2 hskipped.ne_nil
      exact .skip hskipped (tokensWithin_laid (by omega) h)
    · next kind text spelled hpiece =>
      obtain ⟨hadmitted, hchars⟩ := (Piece.takes_read c cs).lexeme kind text spelled hpiece
      have hne := List.length_pos_iff.2 (hadmitted.lexeme_ne_nil)
      rw [hchars] at h hlength ⊢
      split at h
      · next ts hts =>
        cases h
        have hlaid := tokensWithin_laid (by omega) hts
        exact @Laid.cons before ts ⟨kind, (Place.following before).fragment text, spelled⟩ rest
          hadmitted rfl hlaid
      · cases h
    · cases h
    · cases h

theorem laid_of_tokenize {text : String} {tokens : List Token} (h : tokenize text = .ok tokens) :
    Laid [] text.toList tokens :=
  tokensWithin_laid (Nat.le_refl _) h

/-- In a text of fewer than `UInt32.size` characters, places are numbers of 32 bits. -/
theorem Laid.place_lt {text : String} {tokens : List Token} (h : Laid [] text.toList tokens)
    (hlength : text.length < UInt32.size) {t : Token} (ht : t ∈ tokens) :
    t.fragment.line < UInt32.size ∧ t.fragment.column < UInt32.size := by
  obtain ⟨hline, hcolumn⟩ := h.within t ht
  rw [List.nil_append, String.length_toList] at hline hcolumn
  omega

/-- A text that is read into tokens consists of their lexemes, with blanks and comments around
them, and each token is at the line and the column where its lexeme starts. The places of a text of
fewer than `UInt32.size` characters are numbers of 32 bits. -/
theorem tokenize_laid {text : String} {tokens : List Token} (h : tokenize text = .ok tokens) :
    Laid [] text.toList tokens ∧ (text.length < UInt32.size →
      ∀ t ∈ tokens, t.fragment.line < UInt32.size ∧ t.fragment.column < UInt32.size) := by
  have hlaid := laid_of_tokenize h
  exact ⟨hlaid, fun hlength _ ht => hlaid.place_lt hlength ht⟩

/-- A text with comments of both forms, the last one open, and with quoted texts that hold quotes,
the start of a comment and a line feed. -/
def scattered : String :=
  "-- the day's rest\nid/* over\n two *//'it''s\n--'<> \"a\"\"b\"/**/- -5.5,\t1.x/* open"

theorem tokenize_laid_scattered : ∃ tokens, tokenize scattered = .ok tokens ∧
    tokens.map (fun t => (t.text, t.fragment.line, t.fragment.column)) =
      [("id", 2, 1), ("/", 3, 8), ("it's\n--", 3, 9), ("<>", 4, 4), ("a\"b", 4, 7), ("-", 4, 17),
        ("-", 4, 19), ("5.5", 4, 20), (",", 4, 23), ("1", 4, 25), (".", 4, 26), ("x", 4, 27)] ∧
    Laid [] scattered.toList tokens ∧
      ∀ t ∈ tokens, t.fragment.line < UInt32.size ∧ t.fragment.column < UInt32.size := by
  refine exists_tokenize (tokenize_map rfl (by decide +kernel)) fun tokens h => ?_
  obtain ⟨hlaid, hwithin⟩ := tokenize_laid h
  exact ⟨hlaid, hwithin (by decide +kernel)⟩

/-! ## Tokens with spaces between them -/

/-- Tokens with a space between each two of them. -/
def spaced (ts : List Token) : List Char :=
  [' '].intercalate (ts.map Token.lexeme)

/-- What follows the first of some spaced tokens. -/
theorem spaced_cons (t : Token) (ts : List Token) :
    ∃ rest, spaced (t :: ts) = t.lexeme ++ rest ∧ Piece.Separated rest ∧
      (rest = [] ∧ ts = [] ∨ rest = ' ' :: spaced ts) := by
  cases ts with
  | nil => exact ⟨[], by simp [spaced], by simp [Piece.Separated], .inl ⟨rfl, rfl⟩⟩
  | cons u us =>
    refine ⟨' ' :: spaced (u :: us), ?_, by simp [Piece.Separated], .inr rfl⟩
    simp [spaced, List.intercalate_cons_cons]

theorem tokensWithin_spaced {ts : List Token} (h : ∀ t ∈ ts, t.Admitted) {bound : Nat}
    (hbound : (spaced ts).length ≤ bound) (place : Place) :
    ∃ us, tokensWithin bound place (spaced ts) = .ok us ∧
      us.map (fun t => (t.kind, t.text)) = ts.map fun t => (t.kind, t.text) := by
  induction ts generalizing bound place with
  | nil => exact ⟨[], by cases bound <;> rfl, rfl⟩
  | cons t ts ih =>
    obtain ⟨rest, hspaced, hseparated, hrest⟩ := spaced_cons t ts
    obtain ⟨c, cs, spelled, hcs, hread⟩ := Piece.read_admitted (h t (by simp)) hseparated
    have hlexeme := List.length_pos_iff.2 (h t (by simp)).lexeme_ne_nil
    rw [hspaced] at hbound ⊢
    rw [List.length_append] at hbound
    obtain ⟨bound, rfl⟩ : ∃ n, bound = n + 1 :=
      ⟨bound - 1, by simp only [Token.lexeme] at *; omega⟩
    -- the lexeme is the last one, or one blank stands between it and the next
    have hlater : ∃ us, tokensWithin bound (place.advance t.lexeme) rest = .ok us ∧
        us.map (fun t => (t.kind, t.text)) = ts.map fun t => (t.kind, t.text) := by
      rcases hrest with ⟨rfl, rfl⟩ | rfl
      · exact ⟨[], by cases bound <;> rfl, rfl⟩
      · obtain ⟨n, rfl⟩ : ∃ n, bound = n + 1 :=
          ⟨bound - 1, by simp only [Token.lexeme, List.length_cons] at *; omega⟩
        exact ih (fun t ht => h t (by simp [ht]))
          (by simp only [Token.lexeme, List.length_cons] at *; omega) _
    obtain ⟨us, hus, hsame⟩ := hlater
    refine ⟨_, tokensWithin_lexeme hcs hread hus, ?_⟩
    rw [List.map_cons, List.map_cons, hsame]
    simp only [Token.text, Place.fragment, Fragment.text, String.ofList_toList]

/-- The tokens of a text, written with spaces between them, are read again. -/
theorem tokenize_spaced {text : String} {tokens : List Token} (h : tokenize text = .ok tokens) :
    ∃ again, tokenize (String.ofList (spaced tokens)) = .ok again ∧
      again.map (fun t => (t.kind, t.text)) = tokens.map fun t => (t.kind, t.text) := by
  have hlaid : Laid [] text.toList tokens := tokensWithin_laid (Nat.le_refl _) h
  simp only [tokenize, String.toList_ofList]
  exact tokensWithin_spaced hlaid.admitted (Nat.le_refl _) .start

theorem tokenize_spaced_adjacent : ∃ tokens,
    tokenize "a--5\n.1.5'it''s\n/*'\"--\"\"\"<>1.e!=?*/" = .ok tokens ∧
      tokens.map (fun t => (t.kind, t.text)) =
        [(.identifier, "a"), (.symbol .dot, "."), (.decimal, "1.5"), (.string, "it's\n/*"),
          (.quotedIdentifier, "--\""), (.symbol .notEqual, "<>"), (.integer, "1"),
          (.symbol .dot, "."), (.identifier, "e"), (.symbol .notEqual, "!="), (.parameter, "?"),
          (.symbol .asterisk, "*"), (.symbol .slash, "/")] ∧
      ∃ again, tokenize (String.ofList (spaced tokens)) = .ok again ∧
        again.map (fun t => (t.kind, t.text)) = tokens.map fun t => (t.kind, t.text) :=
  exists_tokenize (tokenize_map rfl (by decide +kernel)) fun _ h => tokenize_spaced h

end DataChange
