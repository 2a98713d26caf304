import DataChange.Proofs.Spelling.Steps
import DataChange.Range.Reading

/-!
# Reading respelled tokens

Readers ask for the kinds of tokens and hand on their texts, so they read spellings of the same
tokens alike.
-/

namespace DataChange

variable {P : Likeness}

namespace Cursor.Respelled

variable {c c' : Cursor}

/-- The last of some tokens stands near the last of their spellings. -/
theorem lastRead_append {ts ts' : List Token} (hlast : c.lastRead.Respelled P c'.lastRead)
    (hts : List.Forall₂ (Token.Respelled P) ts ts') :
    (Cursor.lastRead ⟨ts ++ c.past, []⟩).Respelled P (Cursor.lastRead ⟨ts' ++ c'.past, []⟩) := by
  cases hts with
  | nil => exact hlast
  | cons ht _ => exact ht.fragment

theorem advance (h : c.Respelled P c') (n : Nat) : (c.advance n).Respelled P (c'.advance n) :=
  ⟨lastRead_append h.behind (List.rel_reverse (List.forall₂_take n h.rest)),
    List.forall₂_drop n h.rest⟩

theorem fragment (h : c.Respelled P c') : c.fragment.Respelled P c'.fragment := by
  obtain ⟨past, rest⟩ := c
  obtain ⟨past', rest'⟩ := c'
  obtain ⟨hbehind, hrest⟩ := h
  cases hrest with
  | cons ht _ => exact ht.fragment
  | nil => exact hbehind

theorem peek? (h : c.Respelled P c') : Option.Rel (Token.Respelled P) c.peek? c'.peek? :=
  h.rest.head?

theorem isKeyword (h : c.Respelled P c') (k : Keyword) : c'.isKeyword k = c.isKeyword k :=
  h.peek?.any_eq fun _ _ ht => ht.isKeyword k

theorem isSymbol (h : c.Respelled P c') (s : Symbol) : c'.isSymbol s = c.isSymbol s :=
  h.peek?.any_eq fun _ _ ht => ht.isSymbol s

theorem isIdentifier (h : c.Respelled P c') : c'.isIdentifier = c.isIdentifier :=
  h.peek?.any_eq fun _ _ ht => ht.isIdentifier

theorem startsQuery (h : c.Respelled P c') : c'.startsQuery = c.startsQuery := by
  simp only [Cursor.startsQuery, h.isKeyword]

theorem openParens (h : c.Respelled P c') :
    List.Forall₂ (Token.Respelled P) (c.rest.takeWhile (·.isSymbol .openParen))
      (c'.rest.takeWhile (·.isSymbol .openParen)) :=
  h.rest.takeWhile fun _ _ ht => ht.isSymbol _

end Cursor.Respelled

theorem splitClosing_rel {ts ts' : List Token} (h : List.Forall₂ (Token.Respelled P) ts ts')
    (depth : Nat) :
    Option.Rel (fun r r' => List.Forall₂ (Token.Respelled P) r.1 r'.1) (splitClosing depth ts)
      (splitClosing depth ts') := by
  induction h generalizing depth with
  | nil => exact .none
  | @cons t t' ts ts' ht _ ih =>
    -- whatever the depth is, the token is put in front of what is found behind it
    have hmore : ∀ depth, Option.Rel (fun r r' => List.Forall₂ (Token.Respelled P) r.1 r'.1)
        ((splitClosing depth ts).map fun r => (t :: r.1, r.2))
        ((splitClosing depth ts').map fun r => (t' :: r.1, r.2)) := by
      intro depth
      have hrest := ih depth
      generalize splitClosing depth ts = r at hrest
      generalize splitClosing depth ts' = r' at hrest
      cases hrest with
      | none => exact .none
      | some hbody => exact .some (.cons ht hbody)
    simp only [splitClosing, ht.isSymbol]
    split
    · exact hmore _
    · split
      · cases depth with
        | zero => exact .some .nil
        | succ depth => exact hmore _
      · exact hmore _

/-! ## Readers -/

namespace Reader

theorem current_tracks : Tracks (.cursors P) (Token.Respelled P) current current := by
  refine .get fun ⟨_, _⟩ ⟨_, _⟩ hc => ?_
  have hfragment := hc.fragment
  obtain ⟨hpast, hrest⟩ := hc
  cases hrest with
  | nil => exact .throw hfragment
  | cons ht _ => exact .pure ht

theorem advance_tracks (n : Nat) :
    Tracks (.cursors P) (fun _ _ => True) (modify (·.advance n) : Reader PUnit)
      (modify (·.advance n)) :=
  .modified fun _ _ (hc : Cursor.Respelled P _ _) => hc.advance n

theorem next_tracks : Tracks (.cursors P) (Token.Respelled P) next next :=
  current_tracks.bind fun _ _ ht => (advance_tracks 1).bind fun _ _ _ => .pure ht

theorem ofKind_tracks (kind : TokenKind) (expected : Expected) :
    Tracks (.cursors P) (Token.Respelled P) (ofKind kind expected) (ofKind kind expected) := by
  refine .get fun ⟨_, _⟩ ⟨_, _⟩ hc => ?_
  have hfragment := hc.fragment
  obtain ⟨hpast, hrest⟩ := hc
  cases hrest with
  | nil => exact .throw hfragment
  | cons ht _ => exact .ite (by rw [ht.kind]) next_tracks (.throw ht.fragment)

theorem keyword_tracks (k : Keyword) :
    Tracks (.cursors P) (Token.Respelled P) (keyword k) (keyword k) :=
  ofKind_tracks _ _

theorem symbol_tracks (s : Symbol) :
    Tracks (.cursors P) (Token.Respelled P) (symbol s) (symbol s) :=
  ofKind_tracks _ _

theorem ofKind?_tracks (kind : TokenKind) :
    Tracks (.cursors P) (Option.Rel (Token.Respelled P)) (ofKind? kind) (ofKind? kind) := by
  refine .get fun ⟨_, _⟩ ⟨_, _⟩ hc => ?_
  have hnext := hc.advance 1
  obtain ⟨hpast, hrest⟩ := hc
  cases hrest with
  | nil => exact .pure .none
  | cons ht _ =>
    exact .ite (by rw [ht.kind]) ((Tracks.set hnext).bind fun _ _ _ => .pure (.some ht))
      (.pure .none)

theorem keyword?_tracks (k : Keyword) :
    Tracks (.cursors P) (Option.Rel (Token.Respelled P)) (keyword? k) (keyword? k) :=
  ofKind?_tracks _

theorem symbol?_tracks (s : Symbol) :
    Tracks (.cursors P) (Option.Rel (Token.Respelled P)) (symbol? s) (symbol? s) :=
  ofKind?_tracks _

theorem skipKeyword_tracks (k : Keyword) :
    Tracks (.cursors P) (· = ·) (skipKeyword k) (skipKeyword k) :=
  (keyword?_tracks k).bind fun _ _ h => .pure h.isSome_eq

theorem skipSymbol_tracks (s : Symbol) :
    Tracks (.cursors P) (· = ·) (skipSymbol s) (skipSymbol s) :=
  (symbol?_tracks s).bind fun _ _ h => .pure h.isSome_eq

theorem remaining_tracks : Tracks (.cursors P) (· = ·) remaining remaining :=
  .get fun _ _ hc => .pure hc.rest.length_eq

theorem identifier_tracks : Tracks (.cursors P) (Token.Respelled P) identifier identifier :=
  current_tracks.bind fun _ _ ht => .ite (by rw [ht.isIdentifier]) next_tracks (.throw ht.fragment)

theorem openParens_tracks : Tracks (.cursors P) (· = ·) openParens openParens := by
  refine .get fun c c' hc => ?_
  dsimp only
  rw [hc.openParens.length_eq]
  exact (Tracks.set (hc.advance _)).bind fun _ _ _ => .pure rfl

theorem closeParens_tracks (n : Nat) :
    Tracks (.cursors P) (fun _ _ => True) (closeParens n) (closeParens n) := by
  induction n with
  | zero => exact .pure trivial
  | succ n ih => exact (symbol_tracks _).bind fun _ _ _ => ih

theorem finish_tracks : Tracks (.cursors P) (fun _ _ => True) finish finish := by
  refine (symbol?_tracks _).bind fun _ _ _ => .get fun ⟨_, _⟩ ⟨_, _⟩ hc => ?_
  obtain ⟨hpast, hrest⟩ := hc
  cases hrest with
  | nil => exact .pure trivial
  | cons ht _ => exact .throw ht.fragment

theorem parenthesised_tracks :
    Tracks (.cursors P) (List.Forall₂ (Token.Respelled P)) parenthesised parenthesised := by
  refine .get fun c c' hc => ?_
  have hsplit := splitClosing_rel hc.rest 0
  generalize splitClosing 0 c.rest = r at hsplit
  generalize splitClosing 0 c'.rest = r' at hsplit
  cases hsplit with
  | none =>
    rw [hc.rest.length_eq]
    have hend := hc.advance c'.rest.length
    exact (Tracks.set hend).bind fun _ _ _ => .throw hend.fragment
  | some hbody =>
    dsimp only
    rw [hbody.length_eq]
    exact (Tracks.set (hc.advance _)).bind fun _ _ _ => .pure hbody

end Reader

/-- Two spellings of a name and of its fragment. -/
def NamedAt (P : Likeness) (n n' : QualifiedName × Fragment) : Prop :=
  n.1.foldCase = n'.1.foldCase ∧ n.2.Respelled P n'.2

/-- Two spellings of a name that may be missing. -/
def SameName? (P : Likeness) (n n' : Option String) : Prop :=
  n.map P.fold = n'.map P.fold

namespace Reader

theorem qualifiedName_tracks :
    Tracks (.cursors P) (NamedAt P) qualifiedName qualifiedName := by
  refine identifier_tracks.bind fun first first' hfirst => .get fun ⟨_, _⟩ ⟨_, _⟩ hc => ?_
  obtain ⟨hpast, hrest⟩ := hc
  have hplain : NamedAt P (.unqualified first.text, first.fragment)
      (.unqualified first'.text, first'.fragment) :=
    ⟨by simp [QualifiedName.unqualified, QualifiedName.foldCase, P.foldCase_eq hfirst.text],
      hfirst.fragment⟩
  cases hrest with
  | nil => exact .pure hplain
  | cons hdot hrest =>
    cases hrest with
    | nil => exact .pure hplain
    | cons hsecond hrest =>
      refine .ite (by rw [hdot.isSymbol, hsecond.isIdentifier]) ?_ (.pure hplain)
      refine (advance_tracks 2).bind fun _ _ _ => .pure ⟨?_, ?_⟩
      · simp [QualifiedName.foldCase, P.foldCase_eq hfirst.text, P.foldCase_eq hsecond.text]
      · exact hfirst.fragment.withText
          (P.fold_append (P.fold_append hfirst.text rfl) hsecond.text)

theorem asName?_tracks : Tracks (.cursors P) (SameName? P) asName? asName? := by
  refine (skipKeyword_tracks _).whether ?_ (.get fun ⟨_, _⟩ ⟨_, _⟩ hc => ?_)
  · exact identifier_tracks.bind fun _ _ ht => .pure (congrArg some ht.text)
  obtain ⟨hpast, hrest⟩ := hc
  cases hrest with
  | nil => exact .pure rfl
  | cons ht _ =>
    refine .ite (by rw [ht.kind]) ?_ (.pure rfl)
    exact next_tracks.bind fun _ _ ht => .pure (congrArg some ht.text)

end Reader

/-! ## Lists -/

theorem seesCommas_cursors : (Tracking.cursors P).SeesCommas :=
  ⟨Reader.skipSymbol_tracks _, Reader.remaining_tracks⟩

theorem seesCommas_readings : (Tracking.readings P).SeesCommas :=
  ⟨.lift_reader (Reader.skipSymbol_tracks _), .lift_reader Reader.remaining_tracks⟩

theorem seesCommas_states : (Tracking.states P).SeesCommas :=
  ⟨.lift_tokens (Reader.skipSymbol_tracks _), .lift_tokens Reader.remaining_tracks⟩

end DataChange
