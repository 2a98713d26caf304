import DataChange.Token.Lexer

/-!
# Places of tokens

The tokens of a text stand one after the other, so no two of them have the same fragment. What
was read from a token can therefore be told by its fragment.
-/

namespace DataChange

namespace Place

/-- Whether a place comes before another. -/
def Before (p q : Place) : Prop :=
  p.line < q.line ∨ p.line = q.line ∧ p.column < q.column

theorem Before.trans {p q r : Place} (h : p.Before q) (k : q.Before r) : p.Before r := by
  unfold Before at *
  omega

theorem before_after (p : Place) (c : Char) : p.Before (p.after c) := by
  unfold after Before
  split <;> simp

theorem eq_or_before_advance (p : Place) (cs : List Char) :
    p.advance cs = p ∨ p.Before (p.advance cs) := by
  induction cs generalizing p with
  | nil => exact .inl rfl
  | cons c cs ih =>
    rcases ih (p.after c) with h | h
    · exact .inr (h.symm ▸ p.before_after c)
    · exact .inr ((p.before_after c).trans h)

theorem before_advance (p : Place) {cs : List Char} (h : cs ≠ []) : p.Before (p.advance cs) := by
  cases cs with
  | nil => exact absurd rfl h
  | cons c cs =>
    rcases (p.after c).eq_or_before_advance cs with h | h
    · exact h.symm ▸ p.before_after c
    · exact (p.before_after c).trans h

theorem Before.fragment_ne {p q : Place} (h : p.Before q) (s t : String) :
    p.fragment s ≠ q.fragment t := by
  unfold Before at h
  intro he
  obtain ⟨-, hl, hc⟩ := Fragment.written.inj he
  omega

end Place

namespace Piece

/-! ## Pieces are not empty -/

theorem chars_readNumber {cs : List Char} {c : Char} (h : c.isDigit = true) :
    (readNumber (c :: cs)).chars ≠ [] := by
  have hwhole : (c :: cs).takeWhile Char.isDigit ≠ [] := by
    rw [List.takeWhile_cons_of_pos h]
    simp
  unfold readNumber
  dsimp only
  split
  · split
    · exact hwhole
    · simp [verbatim]
  · exact hwhole

theorem continuesWord_of_startsWord {c : Char} (h : startsWord c = true) :
    continuesWord c = true := by
  simp only [startsWord, continuesWord, Text.isLetterOrNumeral, Bool.or_eq_true] at h ⊢
  rcases h with h | h <;> simp [h]

theorem chars_readLexeme (c : Char) (cs : List Char) : (readLexeme c cs).chars ≠ [] := by
  unfold readLexeme
  split
  · rename_i piece h
    unfold readSymbol? at h
    split at h
    · split at h
      · cases h
        simp [verbatim]
      · obtain ⟨_, -, rfl⟩ := Option.map_eq_some_iff.1 h
        simp [verbatim]
    · obtain ⟨_, -, rfl⟩ := Option.map_eq_some_iff.1 h
      simp [verbatim]
  · split
    · simp [verbatim]
    · split
      · simp [readQuoted]
      · split
        · rename_i h
          exact chars_readNumber h
        · split
          · rename_i h
            simp [readWord, verbatim, List.takeWhile_cons_of_pos (continuesWord_of_startsWord h)]
          · simp

/-- What is read as a token has characters. -/
theorem chars_read_lexeme {c : Char} {cs : List Char} {kind : TokenKind} {text : String}
    {spelled : kind.isSpelledBy text = true} (h : (read c cs).piece = .lexeme kind text spelled) :
    (read c cs).chars ≠ [] := by
  unfold read at h ⊢
  split at h
  · cases h
  · rename_i hb
    rw [if_neg hb]
    cases hc : readComment? c cs with
    | none => exact chars_readLexeme c cs
    | some piece =>
      have hgap : piece.piece = .gap := by
        unfold readComment? at hc
        split at hc <;> cases hc <;> rfl
      rw [hc, Option.getD_some, hgap] at h
      cases h

end Piece

/-! ## Tokens in order -/

/-- Where the tokens of a text stand: from its start on, each after the one before it. -/
theorem tokensWithin_places : ∀ {bound : Nat} {p : Place} {cs : List Char} {tokens : List Token},
    tokensWithin bound p cs = .ok tokens →
      (∀ t ∈ tokens, ∃ q text, (q = p ∨ p.Before q) ∧ t.fragment = q.fragment text) ∧
        tokens.Pairwise fun t u => t.fragment ≠ u.fragment
  | 0, _, _, _, h => by
    cases h
    simp
  | bound + 1, _, [], _, h => by
    cases h
    simp
  | bound + 1, p, c :: cs, tokens, h => by
    simp only [tokensWithin] at h
    split at h
    · obtain ⟨hall, hpair⟩ := tokensWithin_places h
      refine ⟨fun t ht => ?_, hpair⟩
      obtain ⟨q, text, hq, hf⟩ := hall t ht
      refine ⟨q, text, ?_, hf⟩
      rcases p.eq_or_before_advance (Piece.read c cs).chars with hp | hp
      · exact hp ▸ hq
      · exact .inr (hq.elim (· ▸ hp) hp.trans)
    · rename_i kind text spelled hpiece
      have hp := p.before_advance (Piece.chars_read_lexeme hpiece)
      split at h
      · rename_i rest hrest
        cases h
        obtain ⟨hall, hpair⟩ := tokensWithin_places hrest
        have hlater : ∀ t ∈ rest, ∃ q text, p.Before q ∧ t.fragment = q.fragment text := by
          intro t ht
          obtain ⟨q, text, hq, hf⟩ := hall t ht
          exact ⟨q, text, hq.elim (· ▸ hp) hp.trans, hf⟩
        refine ⟨?_, List.pairwise_cons.2 ⟨?_, hpair⟩⟩
        · intro t ht
          rcases List.mem_cons.1 ht with rfl | ht
          · exact ⟨p, text, .inl rfl, rfl⟩
          · obtain ⟨q, text, hq, hf⟩ := hlater t ht
            exact ⟨q, text, .inr hq, hf⟩
        · intro t ht
          obtain ⟨q, text', hq, hf⟩ := hlater t ht
          rw [hf]
          exact hq.fragment_ne text text'
      · cases h
    · cases h
    · cases h

/-- No two tokens of a text have the same fragment. -/
theorem tokenize_fragments {text : String} {tokens : List Token} (h : tokenize text = .ok tokens) :
    tokens.Pairwise fun t u => t.fragment ≠ u.fragment :=
  (tokensWithin_places h).2

theorem eq_of_fragment_eq {tokens : List Token}
    (h : tokens.Pairwise fun t u => t.fragment ≠ u.fragment) {t u : Token} (ht : t ∈ tokens)
    (hu : u ∈ tokens) (hf : t.fragment = u.fragment) : t = u := by
  induction h with
  | nil => cases ht
  | cons hne _ ih =>
    rcases List.mem_cons.1 ht with rfl | ht' <;> rcases List.mem_cons.1 hu with rfl | hu'
    · rfl
    · exact absurd hf (hne u hu')
    · exact absurd hf.symm (hne t ht')
    · exact ih ht' hu'

end DataChange
