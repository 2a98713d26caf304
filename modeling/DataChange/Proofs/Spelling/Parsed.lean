import DataChange.Proofs.Spelling.Tokens

/-!
# Parsing respelled tokens

Spellings of the same tokens are read as spellings of the same expression.
-/

namespace DataChange

variable {P : Likeness}

namespace Expr

/-- Items that are read alike from spellings of the same tokens. -/
def ListTracks (P : Likeness) (expressions : Parser (List Expr)) : Prop :=
  Tracks (.readings P) (List.Forall₂ (Expr.Respelled P)) expressions expressions

/-- Operands that are read alike from spellings of the same tokens. -/
def LevelTracks (P : Likeness) (parse : Level → Parser Expr) : Prop :=
  ∀ level, Tracks (.readings P) (Expr.Respelled P) (parse level) (parse level)

theorem nextMarker_tracks :
    Tracks (.readings P) (fun m n => P.number m = P.number n) nextMarker nextMarker := by
  intro s s' hs
  exact .ok hs.parameters.symm ⟨hs.cursor, P.number_succ hs.parameters⟩

theorem negated_tracks {operand operand' : Expr} (h : operand.Respelled P operand')
    {minus minus' : Fragment} (hminus : minus.Respelled P minus') :
    Tracks (.readings P) (Expr.Respelled P) (negated operand minus) (negated operand' minus') := by
  have hkept := h
  obtain ⟨hkind, -⟩ := h
  cases hkind with
  | constant value =>
    cases value with
    | bigint n =>
      exact .ite Iff.rfl (.throw .outOfRange) (.pure (.literal _ (hminus.withText rfl)))
    | double x => exact .pure (.literal _ (hminus.withText rfl))
    | _ => exact .pure (.untyped (.unary _ hkept) hminus)
  | _ => exact .pure (.untyped (.unary _ hkept) hminus)

theorem named_tracks {expressions : Parser (List Expr)} (hexpressions : ListTracks P expressions)
    {name name' : Token} (hname : name.Respelled P name') :
    Tracks (.readings P) (Expr.Respelled P) (named expressions name) (named expressions name') := by
  have hclose : ∀ arguments arguments', List.Forall₂ (Expr.Respelled P) arguments arguments' →
      Tracks (.readings P) (Expr.Respelled P)
        (do
          let _ ← Reader.symbol .closeParen
          return untyped (.call name.text none arguments) name.fragment : Parser Expr)
        (do
          let _ ← Reader.symbol .closeParen
          return untyped (.call name'.text none arguments') name'.fragment) :=
    fun _ _ h => (Tracks.lift_reader (Reader.symbol_tracks _)).bind fun _ _ _ =>
      .pure (.untyped (.call hname.text none h) hname.fragment)
  have hcolumn : (untyped (.column ⟨none, name.text, none⟩) name.fragment).Respelled P
      (untyped (.column ⟨none, name'.text, none⟩) name'.fragment) :=
    .untyped (.column (by simp [Likeness.foldRef, hname.text])) hname.fragment
  refine (Tracks.lift_reader (Reader.skipSymbol_tracks _)).whether ?_ ?_
  · refine .get fun s s' hs => .ite (by rw [hs.cursor.isSymbol]) ?_ ?_
    · exact hclose [] [] .nil
    · exact hexpressions.bind hclose
  · refine .get ?_
    -- what a name stands for is decided by the two tokens that follow it
    rintro ⟨⟨_, _⟩, _⟩ ⟨⟨_, _⟩, _⟩ ⟨⟨hpast, hrest⟩, hparameters⟩
    cases hrest with
    | nil => exact .pure hcolumn
    | cons hdot hrest =>
      cases hrest with
      | nil => exact .pure hcolumn
      | cons hsecond hrest =>
        refine .ite (by rw [hdot.isSymbol, hsecond.isIdentifier]) ?_ (.pure hcolumn)
        refine (Tracks.modified ?_).bind fun _ _ _ => .pure (.untyped (.column ?_) hsecond.fragment)
        · exact fun _ _ (hs : Reading.Respelled P _ _) => ⟨hs.cursor.advance 2, hs.parameters⟩
        · simp [Likeness.foldRef, hname.text, hsecond.text]

theorem rowItems_tracks {expressions : Parser (List Expr)} (h : ListTracks P expressions) :
    Tracks (.readings P) (Expr.Respelled P) (rowItems expressions) (rowItems expressions) := by
  refine .get fun s s' hs => h.bind fun items items' hitems => ?_
  have hrow := Expr.Respelled.untyped (.row hitems) hs.cursor.fragment
  cases hitems with
  | nil => exact .pure hrow
  | cons hitem hitems =>
    cases hitems with
    | nil => exact .pure hitem
    | cons => exact .pure hrow

theorem inBrackets_tracks {expressions : Parser (List Expr)} (h : ListTracks P expressions)
    {fragment fragment' : Fragment} (hf : fragment.Respelled P fragment') :
    Tracks (.readings P) (Expr.Respelled P) (inBrackets expressions fragment)
      (inBrackets expressions fragment') := by
  refine .get fun s s' hs => .ite (by rw [hs.cursor.startsQuery]) ?_ ?_
  · exact (Tracks.lift_reader Reader.parenthesised_tracks).bind fun _ _ hbody =>
      .pure (.untyped (.pending _ hbody) hf)
  · exact (rowItems_tracks h).bind fun _ _ hrow =>
      (Tracks.lift_reader (Reader.symbol_tracks _)).bind fun _ _ _ => .pure hrow

theorem primary_tracks {expressions : Parser (List Expr)} (h : ListTracks P expressions) :
    Tracks (.readings P) (Expr.Respelled P) (primary expressions) (primary expressions) := by
  refine (Tracks.lift_reader Reader.next_tracks).bind fun t t' ht => ?_
  have hf := ht.fragment
  have hnamed : Tracks (.readings P) (Expr.Respelled P)
      (if t.isIdentifier then named expressions t
        else reject (.unexpected .expression t.fragment) : Parser Expr)
      (if t'.isIdentifier then named expressions t'
        else reject (.unexpected .expression t'.fragment)) :=
    .ite (by rw [ht.isIdentifier]) (named_tracks h ht) (.reject hf)
  -- a number is spelled with the same digits in both texts, so its value is the same
  have hexact := ht.exact
  dsimp only
  rw [ht.kind]
  split
  · next hkind =>
    rw [hexact (by rw [hkind]; rfl)]
    split
    · exact .pure (.literal _ hf)
    · exact .reject hf
  · next hkind =>
    rw [hexact (by rw [hkind]; rfl)]
    split
    · exact .pure (.literal _ hf)
    · exact .reject hf
  · next hkind =>
    rw [hexact (by rw [hkind]; rfl)]
    exact .pure (.literal _ hf)
  · exact .pure (.literal _ hf)
  · exact .pure (.literal _ hf)
  · exact .pure (.literal _ hf)
  · exact .pure (.untyped .defaultMarker hf)
  · refine nextMarker_tracks.bind fun m n hmn => .pure (.untyped (.parameter ?_) hf)
    simp only [Likeness.foldMarker, hmn]
  · refine (Tracks.lift_reader (Reader.symbol_tracks _)).bind fun _ _ _ => h.bind fun _ _ hitems => ?_
    exact (Tracks.lift_reader (Reader.symbol_tracks _)).bind fun _ _ _ =>
      .pure (.untyped (.row hitems) hf)
  · exact inBrackets_tracks h hf
  · exact hnamed

theorem operand_tracks {parse : Level → Parser Expr} (h : LevelTracks P parse) :
    Tracks (.readings P) (Expr.Respelled P) (operand parse) (operand parse) := by
  refine (Tracks.lift_reader Reader.current_tracks).bind fun t t' ht => ?_
  rw [ht.kind]
  split
  · exact (Tracks.lift_reader Reader.next_tracks).bind fun _ _ _ => (h _).bind fun _ _ hoperand =>
      .pure (.untyped (.unary _ hoperand) ht.fragment)
  · exact (Tracks.lift_reader Reader.next_tracks).bind fun _ _ _ => (h _).bind fun _ _ hoperand =>
      negated_tracks hoperand ht.fragment
  · exact (Tracks.lift_reader Reader.next_tracks).bind fun _ _ _ => (h _).bind fun _ _ hoperand =>
      .pure (.untyped (.unary _ hoperand) ht.fragment)
  · exact primary_tracks (.commaSeparated seesCommas_readings (h _))

theorem levelOf_eq {t t' : Token} (h : t.Respelled P t') : levelOf t' = levelOf t := by
  simp only [levelOf, h.kind]

theorem operatorOf?_eq {t t' : Token} (h : t.Respelled P t') : operatorOf? t' = operatorOf? t := by
  simp only [operatorOf?, h.kind]

theorem operation_tracks {parse : Level → Parser Expr} (h : LevelTracks P parse)
    {left left' : Expr} (hleft : left.Respelled P left') :
    Tracks (.readings P) (Expr.Respelled P) (operation parse left) (operation parse left') := by
  refine (Tracks.lift_reader Reader.next_tracks).bind fun t t' ht => .ite (by rw [ht.isKeyword]) ?_ ?_
  · exact (Tracks.lift_reader (Reader.skipKeyword_tracks _)).bindSame fun _ =>
      (Tracks.lift_reader (Reader.keyword_tracks _)).bind fun _ _ _ =>
        .pure (.untyped (.isNull hleft _) ht.fragment)
  · rw [operatorOf?_eq ht]
    split
    · exact (h _).bind fun _ _ hright => .pure (.untyped (.binary _ hleft hright) ht.fragment)
    · exact .reject ht.fragment

theorem extendWithin_tracks {parse : Level → Parser Expr} (h : LevelTracks P parse) (level : Level) :
    ∀ (bound : Nat) {left left' : Expr}, left.Respelled P left' →
      Tracks (.readings P) (Expr.Respelled P) (extendWithin parse level bound left)
        (extendWithin parse level bound left')
  | 0, _, _, hleft => .pure hleft
  | bound + 1, _, _, hleft => by
    refine .get fun ⟨⟨_, _⟩, _⟩ ⟨⟨_, _⟩, _⟩ hs => ?_
    obtain ⟨⟨hpast, hrest⟩, hparameters⟩ := hs
    cases hrest with
    | nil => exact .pure hleft
    | cons ht hrest =>
      refine .ite (by rw [levelOf_eq ht]) (.pure hleft) ?_
      exact (operation_tracks h hleft).bind fun _ _ hwhole =>
        extendWithin_tracks h level bound hwhole

theorem parseWithin_tracks : ∀ bound : Nat, LevelTracks P (parseWithin bound)
  | 0, _ => .get fun _ _ hs => .reject hs.cursor.fragment
  | bound + 1, level =>
    (operand_tracks (parseWithin_tracks bound)).bind fun _ _ hleft =>
      (Tracks.lift_reader Reader.remaining_tracks).bindSame fun _ =>
        extendWithin_tracks (parseWithin_tracks bound) level _ hleft

theorem parseAt_tracks : LevelTracks P parseAt :=
  fun level => (Tracks.lift_reader Reader.remaining_tracks).bindSame fun _ =>
    parseWithin_tracks _ level

theorem parse_tracks : Tracks (.readings P) (Expr.Respelled P) parse parse :=
  parseAt_tracks _

theorem parseList_tracks : ListTracks P parseList :=
  .commaSeparated seesCommas_readings parse_tracks

theorem parseRow_tracks : Tracks (.readings P) (Expr.Respelled P) parseRow parseRow :=
  rowItems_tracks parseList_tracks

end Expr

end DataChange
