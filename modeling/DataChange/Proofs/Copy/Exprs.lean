import DataChange.Proofs.Copy.Tokens
import DataChange.Proofs.Expr.Grammar

/-!
# Expressions read from copied tokens

The parser never looks at where a token stands, so from a copy of some tokens it reads a copy of
their expression (`parse_mirrors`): the same tree, which in an exact copy is also at the same places
and has the same question marks. What comes after the tokens does not matter, as long as no
expression goes on with it (`Ending`).
-/

namespace DataChange

/-! ## Copied expressions -/

mutual

/-- An expression and its copy: the very same, or one without subqueries that stands elsewhere. -/
inductive Expr.Copied (exact : Bool) : Expr → Expr → Prop
  | intro {kind kind' : ExprKind} {fragment fragment' : Fragment} {type : Option SqlType}
      (hkind : ExprKind.Copied exact kind kind') (hplace : exact = true → fragment' = fragment) :
      Expr.Copied exact ⟨kind, fragment, type⟩ ⟨kind', fragment', type⟩

/-- A node and its copy. -/
inductive ExprKind.Copied (exact : Bool) : ExprKind → ExprKind → Prop
  | constant (value : Value) : ExprKind.Copied exact (.constant value) (.constant value)
  | parameter {m m' : Marker} (hcolumn : m'.asColumn = m.asColumn)
      (hwriteable : m'.writeable = m.writeable) (hindex : exact = true → m'.index = m.index) :
      ExprKind.Copied exact (.parameter m) (.parameter m')
  | column (ref : ColumnRef) : ExprKind.Copied exact (.column ref) (.column ref)
  | defaultMarker : ExprKind.Copied exact .defaultMarker .defaultMarker
  | row {items items' : List Expr} (h : List.Forall₂ (Expr.Copied exact) items items') :
      ExprKind.Copied exact (.row items) (.row items')
  | values {rows rows' : List Expr} (h : List.Forall₂ (Expr.Copied exact) rows rows') :
      ExprKind.Copied exact (.values rows) (.values rows')
  | pending (hexact : exact = true) (shape : QueryShape) (body : List Token) :
      ExprKind.Copied exact (.pending shape body) (.pending shape body)
  | query (hexact : exact = true) (shape : QueryShape) (plan : Plan) :
      ExprKind.Copied exact (.query shape plan) (.query shape plan)
  | diagnostics (item : DiagnosticsItem) :
      ExprKind.Copied exact (.diagnostics item) (.diagnostics item)
  | unary (op : UnaryOp) {operand operand' : Expr} (h : Expr.Copied exact operand operand') :
      ExprKind.Copied exact (.unary op operand) (.unary op operand')
  | binary (op : BinaryOp) {left left' right right' : Expr} (hl : Expr.Copied exact left left')
      (hr : Expr.Copied exact right right') :
      ExprKind.Copied exact (.binary op left right) (.binary op left' right')
  | isNull {operand operand' : Expr} (h : Expr.Copied exact operand operand') (negated : Bool) :
      ExprKind.Copied exact (.isNull operand negated) (.isNull operand' negated)
  | call (name : String) (builtin : Option Builtin) {arguments arguments' : List Expr}
      (h : List.Forall₂ (Expr.Copied exact) arguments arguments') :
      ExprKind.Copied exact (.call name builtin arguments) (.call name builtin arguments')

end

namespace Expr.Copied

variable {exact : Bool} {e e' : Expr}

theorem shape (h : e.Copied exact e') : e'.shape = e.shape := by
  obtain ⟨hkind, -⟩ := h
  cases hkind with
  | row h => simp only [Expr.shape, h.length_eq]
  | _ => rfl

theorem isRow (h : e.Copied exact e') : e'.isRow = e.isRow :=
  Bool.eq_iff_iff.2 (by simp only [isRow_iff, h.shape])

theorem isDefault (h : e.Copied exact e') : e'.isDefault = e.isDefault :=
  Bool.eq_iff_iff.2 (by simp only [isDefault_iff, h.shape])

theorem degree (h : e.Copied exact e') : e'.degree = e.degree := by
  rw [degree_eq, degree_eq, h.shape]

theorem type (h : e.Copied exact e') : e'.type? = e.type? := by
  obtain ⟨-, -⟩ := h
  rfl

end Expr.Copied

/-- Readings paired over a copy: an exact one has as many question marks before it. -/
def Pairing.readings (exact : Bool) (more : List Token) : Pairing Reading where
  Paired s s' :=
    s.cursor.Copied exact more s'.cursor ∧ (exact = true → s'.parameters = s.parameters)
  left s := s.cursor.rest.length

section

variable {exact : Bool} {more : List Token} {α β : Type} {R : α → β → Prop} {k : Nat}

theorem Mirrors.lift {x : Reader α} {y : Reader β} (h : Mirrors (.cursors exact more) k R x y) :
    Mirrors (.readings exact more) k R (liftM x : Parser α) (liftM y : Parser β) := by
  intro s s' a t hs hx
  obtain ⟨c, hc, rfl⟩ := lift_reader_ok.1 hx
  obtain ⟨b, c', hc', hab, hcc', hk⟩ := h hs.1 hc
  exact ⟨b, _, lift_reader_run hc', hab, ⟨hcc', hs.2⟩, hk⟩

/-- Computations that depend on where they are; they read a token, so an exact copy is at the same
place. -/
theorem Mirrors.located {x : Reading → Parser α} {y : Reading → Parser β}
    (h : ∀ c c', (exact = true → c'.cursor.fragment = c.cursor.fragment) →
      Mirrors (.readings exact more) 1 R (x c) (y c')) :
    Mirrors (.readings exact more) 1 R (MonadState.get >>= x) (MonadState.get >>= y) := by
  intro s s' a t hs hx
  obtain ⟨_, _, hget, hx⟩ := bind_ok.1 hx
  obtain ⟨rfl, rfl⟩ := get_ok.1 hget
  obtain ⟨_, _, -, -, -, hleft⟩ := h s s (fun _ => rfl) hs hx
  have hplace := hs.1.place (Nat.lt_of_lt_of_le (Nat.succ_pos _) hleft)
  obtain ⟨b, t', hb, hrest⟩ := h s s' hplace hs hx
  exact ⟨b, t', bind_ok.2 ⟨s', s', get_ok.2 ⟨rfl, rfl⟩, hb⟩, hrest⟩

theorem Reading.seesCommas : (Pairing.readings exact more).SeesCommas Failure := by
  have hcursors : (Pairing.cursors exact more).SeesCommas Error := Reader.seesCommas
  refine ⟨fun {s s' found t} hs hleft h => ?_, fun {s} hs => ?_, fun {s s'} hs => ?_⟩
  · obtain ⟨c, hc, rfl⟩ := lift_reader_ok.1 h
    obtain ⟨c', hc', hcc', hle⟩ := hcursors.comma hs.1 hleft hc
    exact ⟨_, lift_reader_run hc', ⟨hcc', hs.2⟩, hle⟩
  · exact lift_reader_run (hcursors.ended hs)
  · obtain ⟨m, hm, hm', hle⟩ := hcursors.counted hs.1
    exact ⟨m, lift_reader_run hm, lift_reader_run hm', hle⟩

theorem Reading.endsLists (hmore : Lacks (.symbol .comma) more) :
    (Pairing.readings exact more).EndsLists Failure :=
  fun hs hleft => lift_reader_run (Reader.endsLists hmore hs.1 hleft)

/-- What stands before a closing bracket stops before the end. -/
theorem MirrorsInside.closed {γ δ : Type} {S : γ → δ → Prop} {x : Parser α} {y : Parser β}
    {f : α → Parser γ} {g : β → Parser δ} (hx : MirrorsInside (.readings exact more) k R x y)
    (hf : ∀ a b, R a b → Mirrors (.readings exact more) 0 S (f a) (g b)) :
    Mirrors (.readings exact more) k S
      (do
        let a ← x
        let _ ← Reader.symbol .closeParen
        f a)
      (do
        let b ← y
        let _ ← Reader.symbol .closeParen
        g b) := by
  intro s s' c v hs h
  obtain ⟨a, t, ha, h⟩ := bind_ok.1 h
  obtain ⟨close, u, hclose, hc⟩ := bind_ok.1 h
  have hinside : 0 < t.cursor.rest.length := by
    obtain ⟨_, hcursor, rfl⟩ := lift_reader_ok.1 hclose
    simp [(Reader.symbol_ok hcursor).2]
  obtain ⟨b, t', hb, hab, ht, hk⟩ := hx hs ha hinside
  obtain ⟨close', u', hclose', -, hu, hshort⟩ := (Reader.symbol_mirrors _).lift ht hclose
  obtain ⟨d, v', hd, hcd, hv, hle⟩ := hf a b hab hu hc
  exact ⟨d, v', bind_ok.2 ⟨b, t', hb, bind_ok.2 ⟨close', u', hclose', hd⟩⟩, hcd, hv, by omega⟩

end

namespace Expr

variable {exact : Bool} {more : List Token}

/-! ## Operands -/

theorem nextMarker_mirrors : Mirrors (.readings exact more) 0
    (fun n n' => exact = true → n' = n) nextMarker nextMarker := by
  intro s s' n t hs h
  simp only [nextMarker, bind_ok, get_ok, set_ok, pure_ok] at h
  obtain ⟨_, _, ⟨rfl, rfl⟩, _, _, rfl, rfl, rfl⟩ := h
  refine ⟨s'.parameters, _, rfl, hs.2, ⟨hs.1, fun he => ?_⟩, Nat.le_refl _⟩
  exact congrArg (· + 1) (hs.2 he)

theorem negated_mirrors {operand operand' : Expr} {minus minus' : Fragment}
    (h : operand.Copied exact operand') (hplace : exact = true → minus' = minus) :
    Mirrors (.readings exact more) 0 (Copied exact) (negated operand minus)
      (negated operand' minus') := by
  obtain ⟨hkind, hf⟩ := id h
  unfold negated
  cases hkind with
  | constant value =>
    cases value with
    | bigint n =>
      dsimp only
      split
      · exact .throw _
      · exact .pure (.intro (.constant _) fun he => by rw [hplace he])
    | double x => exact .pure (.intro (.constant _) fun he => by rw [hplace he])
    | _ => exact .pure (.intro (.unary _ h) hplace)
  | _ => exact .pure (.intro (.unary _ h) hplace)

/-- What follows a name without brackets: a qualified column or nothing. -/
def afterName (name : Token) : Parser Expr := do
  match (← get).cursor.rest with
  | dot :: column :: _ =>
    if dot.isSymbol .dot && column.isIdentifier then
      modify fun s => { s with cursor := s.cursor.advance 2 }
      return untyped (.column ⟨some name.text, column.text, none⟩) column.fragment
    else return untyped (.column ⟨none, name.text, none⟩) name.fragment
  | _ => return untyped (.column ⟨none, name.text, none⟩) name.fragment

/-- The column that a name before some tokens qualifies. -/
def qualified? : List Token → Option Token
  | dot :: column :: _ => if dot.isSymbol .dot && column.isIdentifier then some column else none
  | _ => none

theorem afterName_some {name column : Token} {s : Reading}
    (h : qualified? s.cursor.rest = some column) :
    afterName name s = .ok (untyped (.column ⟨some name.text, column.text, none⟩) column.fragment)
      { s with cursor := s.cursor.advance 2 } := by
  obtain ⟨⟨past, rest⟩, parameters⟩ := s
  rcases rest with _ | ⟨dot, _ | ⟨column', ts⟩⟩
  · cases h
  · cases h
  · simp only [qualified?] at h
    split at h
    · next hq =>
      obtain rfl := Option.some.inj h
      simp only [afterName, bind_ok, get_ok]
      exact ⟨_, _, ⟨rfl, rfl⟩, by simp only [hq, ↓reduceIte]; rfl⟩
    · cases h

theorem afterName_none {name : Token} {s : Reading} (h : qualified? s.cursor.rest = none) :
    afterName name s = .ok (untyped (.column ⟨none, name.text, none⟩) name.fragment) s := by
  obtain ⟨⟨past, rest⟩, parameters⟩ := s
  rcases rest with _ | ⟨dot, _ | ⟨column', ts⟩⟩
  · rfl
  · rfl
  · simp only [qualified?] at h
    split at h
    · cases h
    · next hq =>
      simp only [afterName, bind_ok, get_ok]
      exact ⟨_, _, ⟨rfl, rfl⟩, by simp only [hq, Bool.false_eq_true, ↓reduceIte]; rfl⟩

theorem isIdentifier_of_ending {t : Token} (h : t.kind ∈ endings) : t.isIdentifier = false := by
  simp only [endings, List.mem_cons, List.not_mem_nil, or_false] at h
  unfold Token.isIdentifier
  rcases h with h | h | h | h | h | h | h | h | h <;> simp [h, Keyword.isReserved]

/-- Nothing qualifies a column that does not end among the copied tokens. -/
theorem qualified?_copied (hmore : Ending more) {c c' : Cursor} (h : c.Copied exact more c') :
    Option.Rel (Token.Copied exact) (qualified? c.rest) (qualified? c'.rest) ∧
      ((qualified? c.rest).isSome = true →
        Cursor.Copied exact more (c.advance 2) (c'.advance 2)) := by
  rcases hrest : c.rest with _ | ⟨dot, _ | ⟨column, ts⟩⟩
  · refine ⟨?_, fun hq => by cases hq⟩
    -- the copied tokens end here, and what follows them begins with no dot
    rw [h.nil hrest]
    rcases more with _ | ⟨x, _ | ⟨y, ys⟩⟩
    · exact .none
    · exact .none
    · have hdot : x.kind ≠ .symbol .dot := hmore.lacks (by decide) x rfl
      simp only [qualified?, Token.isSymbol, hdot, decide_false, Bool.false_and, Bool.false_eq_true,
        ↓reduceIte]
      exact .none
  · refine ⟨?_, fun hq => by cases hq⟩
    obtain ⟨dot', ts', hrest', hdot, hts⟩ := h.cons hrest
    obtain rfl : ts' = more := (hts [] []).nil rfl
    rw [hrest']
    -- the dot is the last of the copied tokens, and what follows it is no name
    rcases ts' with _ | ⟨x, xs⟩
    · exact .none
    · have hx : x.isIdentifier = false := isIdentifier_of_ending (hmore x rfl)
      simp only [qualified?, hx, Bool.and_false, Bool.false_eq_true, ↓reduceIte]
      exact .none
  · obtain ⟨dot', ts', hrest', hdot, hts⟩ := h.cons hrest
    obtain ⟨column', us', hts', hcolumn, hus⟩ := (hts [] []).cons rfl
    obtain rfl : ts' = column' :: us' := hts'
    rw [hrest']
    refine ⟨?_, fun _ => ?_⟩
    · simp only [qualified?, hdot.isSymbol, hcolumn.isIdentifier]
      split
      · exact .some hcolumn
      · exact .none
    · simpa [Cursor.advance, hrest, hrest'] using hus _ _

theorem afterName_mirrors (hmore : Ending more) {t t' : Token} (ht : t.Copied exact t') :
    Mirrors (.readings exact more) 0 (Copied exact) (afterName t) (afterName t') := by
  intro s s' e u hs h
  obtain ⟨hcopied, hadvance⟩ := qualified?_copied hmore hs.1
  generalize hq : qualified? s.cursor.rest = q at hcopied hadvance
  generalize hq' : qualified? s'.cursor.rest = q' at hcopied
  cases hcopied with
  | none =>
    rw [afterName_none hq] at h
    cases h
    refine ⟨_, _, afterName_none hq', ?_, hs, Nat.le_refl _⟩
    rw [ht.text]
    exact .intro (.column _) ht.place
  | some hcolumn =>
    rw [afterName_some hq] at h
    cases h
    refine ⟨_, _, afterName_some hq', ?_, ⟨hadvance rfl, hs.2⟩, ?_⟩
    · rw [ht.text, hcolumn.text]
      exact .intro (.column _) hcolumn.place
    · simp [Pairing.readings, Cursor.advance]

/-- The arguments before the closing bracket of a call. -/
def arguments (items : Parser (List Expr)) : Parser (List Expr) := do
  if (← get).cursor.isSymbol .closeParen then pure [] else items

theorem arguments_bind (items : Parser (List Expr)) (f : List Expr → Parser Expr) :
    (do if (← get).cursor.isSymbol .closeParen then f [] else items >>= f) =
      (do f (← arguments items)) := by
  rw [arguments, bind_assoc]
  congr 1
  funext s
  split <;> rfl

theorem arguments_inside {items items' : Parser (List Expr)}
    (hitems : MirrorsInside (.readings exact more) 1 (List.Forall₂ (Copied exact)) items items') :
    MirrorsInside (.readings exact more) 0 (List.Forall₂ (Copied exact)) (arguments items)
      (arguments items') := by
  intro s s' es t hs h hinside
  obtain ⟨_, _, hget, h⟩ := bind_ok.1 h
  obtain ⟨rfl, rfl⟩ := get_ok.1 hget
  -- at the end of the tokens there would be no items before the closing bracket
  have hrest : s.cursor.rest ≠ [] := by
    intro hend
    have hsymbol : s.cursor.isSymbol .closeParen = false := by
      simp [Cursor.isSymbol, Cursor.peek?, hend]
    rw [hsymbol] at h
    obtain ⟨_, _, -, -, -, hle⟩ := hitems hs h hinside
    simp [Pairing.readings, hend] at hle
  have hsymbol := hs.1.isSymbol hrest .closeParen
  cases hclose : s.cursor.isSymbol .closeParen with
  | true =>
    rw [hclose] at h hsymbol
    obtain ⟨rfl, rfl⟩ := pure_ok.1 h
    exact ⟨[], s', bind_ok.2 ⟨s', s', get_ok.2 ⟨rfl, rfl⟩, by rw [hsymbol]; rfl⟩, .nil, hs,
      Nat.le_refl _⟩
  | false =>
    rw [hclose] at h hsymbol
    obtain ⟨es', t', hes', hees', ht, hle⟩ := hitems hs h hinside
    exact ⟨es', t', bind_ok.2 ⟨s', s', get_ok.2 ⟨rfl, rfl⟩, by rw [hsymbol]; exact hes'⟩, hees', ht,
      Nat.le_of_succ_le hle⟩

theorem named_mirrors (hmore : Ending more) {items items' : Parser (List Expr)}
    (hitems : MirrorsInside (.readings exact more) 1 (List.Forall₂ (Copied exact)) items items')
    {t t' : Token} (ht : t.Copied exact t') :
    Mirrors (.readings exact more) 0 (Copied exact) (named items t) (named items' t') := by
  unfold named
  refine (Reader.skipSymbol_mirrors (hmore.lacks (by decide))).lift.after fun found _ hfound => ?_
  subst hfound
  cases found with
  | true =>
    refine (congrArg₂ (Mirrors _ _ _) (arguments_bind items _) (arguments_bind items' _)).mpr ?_
    refine (arguments_inside hitems).closed fun arguments arguments' harguments => .pure ?_
    rw [ht.text]
    exact .intro (.call _ _ harguments) ht.place
  | false => exact afterName_mirrors hmore ht

theorem ofItems_copied {f f' : Fragment} (hplace : exact = true → f' = f) {es es' : List Expr}
    (h : List.Forall₂ (Copied exact) es es') : (ofItems f es).Copied exact (ofItems f' es') := by
  rcases h with _ | ⟨he, _ | ⟨he', hes⟩⟩
  · exact .intro (.row .nil) hplace
  · exact he
  · exact .intro (.row (.cons he (.cons he' hes))) hplace

theorem rowItems_run {items : Parser (List Expr)} {s t : Reading} {es : List Expr}
    (h : items s = .ok es t) : rowItems items s = .ok (ofItems s.cursor.fragment es) t := by
  refine bind_ok.2 ⟨s, s, get_ok.2 ⟨rfl, rfl⟩, bind_ok.2 ⟨es, t, h, ?_⟩⟩
  rcases es with _ | ⟨e, _ | ⟨e', es⟩⟩ <;> rfl

theorem rowItems_inside {items items' : Parser (List Expr)}
    (hitems : MirrorsInside (.readings exact more) 1 (List.Forall₂ (Copied exact)) items items') :
    MirrorsInside (.readings exact more) 1 (Copied exact) (rowItems items) (rowItems items') := by
  intro s s' row t hs h hinside
  obtain ⟨_, _, hget, hread⟩ := bind_ok.1 h
  obtain ⟨rfl, rfl⟩ := get_ok.1 hget
  obtain ⟨es, u, hes, -⟩ := bind_ok.1 hread
  cases (rowItems_run hes).symm.trans h
  obtain ⟨es', t', hes', hees', ht, hle⟩ := hitems hs hes hinside
  have hplace := hs.1.place (Nat.lt_of_lt_of_le (Nat.succ_pos _) hle)
  exact ⟨_, t', rowItems_run hes', ofItems_copied hplace hees', ht, hle⟩

theorem inBrackets_mirrors (hmore : Ending more) {items items' : Parser (List Expr)}
    (hitems : MirrorsInside (.readings exact more) 1 (List.Forall₂ (Copied exact)) items items')
    {f f' : Fragment} (hplace : exact = true → f' = f) :
    Mirrors (.readings exact more) 1 (Copied exact) (inBrackets items f)
      (inBrackets items' f') := by
  unfold inBrackets
  refine Mirrors.get fun s s' hs => ?_
  rw [hs.1.startsQuery hmore]
  split
  · next hquery =>
    cases exact with
    | false => simp [hs.1.not_startsQuery] at hquery
    | true =>
      refine Reader.parenthesised_mirrors.lift.bind fun body _ hbody => ?_
      subst hbody
      exact .pure (.intro (.pending rfl _ _) hplace)
  · exact (rowItems_inside hitems).closed fun row row' hrow => .pure hrow

theorem primary_mirrors (hmore : Ending more) {items items' : Parser (List Expr)}
    (hitems : MirrorsInside (.readings exact more) 1 (List.Forall₂ (Copied exact)) items items') :
    Mirrors (.readings exact more) 1 (Copied exact) (primary items) (primary items') := by
  refine Reader.next_mirrors.lift.bind fun t t' ht => ?_
  have hplace := ht.place
  have hname := ht.isIdentifier
  dsimp only
  rw [ht.kind, ht.text]
  split
  · split
    · exact .pure (.intro (.constant _) hplace)
    · exact .reject _
  · split
    · exact .pure (.intro (.constant _) hplace)
    · exact .reject _
  iterate 4 exact .pure (.intro (.constant _) hplace)
  · exact .pure (.intro .defaultMarker hplace)
  · exact nextMarker_mirrors.after fun n n' hn => .pure (.intro (.parameter rfl rfl hn) hplace)
  · refine (Reader.symbol_mirrors _).lift.after fun _ _ _ => Mirrors.mono ?_ (Nat.zero_le 1)
    exact hitems.closed fun es es' hes => .pure (.intro (.row hes) hplace)
  · exact (inBrackets_mirrors hmore hitems hplace).mono (Nat.zero_le _)
  · rw [hname]
    split
    · exact named_mirrors hmore hitems ht
    · exact .reject _

theorem operand_mirrors (hmore : Ending more) {parse parse' : Level → Parser Expr}
    (hparse : ∀ level, Mirrors (.readings exact more) 1 (Copied exact) (parse level)
      (parse' level)) :
    Mirrors (.readings exact more) 1 (Copied exact) (operand parse) (operand parse') := by
  refine Reader.current_mirrors.lift.after fun t t' ht => ?_
  have hplace := ht.place
  rw [ht.kind]
  split
  · refine Reader.next_mirrors.lift.bind fun _ _ _ => ?_
    exact (hparse _).after fun e e' he => .pure (.intro (.unary _ he) hplace)
  · refine Reader.next_mirrors.lift.bind fun _ _ _ => ?_
    exact (hparse _).after fun e e' he => negated_mirrors he hplace
  · refine Reader.next_mirrors.lift.bind fun _ _ _ => ?_
    exact (hparse _).after fun e e' he => .pure (.intro (.unary _ he) hplace)
  · exact primary_mirrors hmore (commaSeparated_inside Reading.seesCommas (hparse _))

/-! ## Operators -/

theorem levelOf_copied {t t' : Token} (h : t.Copied exact t') : levelOf t' = levelOf t := by
  simp only [levelOf, h.kind]

theorem operation_mirrors (hmore : Ending more) {parse parse' : Level → Parser Expr}
    (hparse : ∀ level, Mirrors (.readings exact more) 1 (Copied exact) (parse level)
      (parse' level)) {left left' : Expr} (hleft : left.Copied exact left') :
    Mirrors (.readings exact more) 1 (Copied exact) (operation parse left)
      (operation parse' left') := by
  refine Reader.next_mirrors.lift.bind fun t t' ht => ?_
  have hplace := ht.place
  have hoperator : operatorOf? t' = operatorOf? t := by simp only [operatorOf?, ht.kind]
  rw [ht.isKeyword, hoperator]
  split
  · refine (Reader.skipKeyword_mirrors (hmore.lacks (by decide))).lift.after fun negated _ hnegated => ?_
    subst hnegated
    exact (Reader.keyword_mirrors _).lift.after fun _ _ _ => .pure (.intro (.isNull hleft _) hplace)
  · split
    · exact (hparse _).after fun e e' he => .pure (.intro (.binary _ hleft he) hplace)
    · exact .reject _

theorem extendWithin_cons {parse : Level → Parser Expr} {level : Level} {bound : Nat} {left : Expr}
    {s : Reading} {x : Token} {xs : List Token} (h : s.cursor.rest = x :: xs) :
    extendWithin parse level (bound + 1) left s =
      if level.rank ≥ (levelOf x).rank then .ok left s
      else (operation parse left >>= extendWithin parse level bound) s := by
  obtain ⟨⟨past, rest⟩, parameters⟩ := s
  obtain rfl : rest = x :: xs := h
  show (if level.rank ≥ (levelOf x).rank then pure left
    else operation parse left >>= extendWithin parse level bound : Parser Expr) _ = _
  split <;> rfl

theorem levelOf_of_ending {t : Token} (h : t.kind ∈ endings) : levelOf t = .lowest := by
  simp only [endings, List.mem_cons, List.not_mem_nil, or_false] at h
  unfold levelOf
  rcases h with h | h | h | h | h | h | h | h | h <;> simp [h, BinaryOp.ofSymbol?]

/-- No operator follows where the copied tokens end. -/
theorem extendWithin_ended (hmore : Ending more) {parse : Level → Parser Expr} {level : Level}
    {bound : Nat} {left : Expr} {s : Reading} (h : s.cursor.rest = more) :
    extendWithin parse level bound left s = .ok left s := by
  cases bound with
  | zero => rfl
  | succ bound =>
    simp only [extendWithin, bind_ok, get_ok]
    refine ⟨_, _, ⟨rfl, rfl⟩, ?_⟩
    rw [h]
    cases more with
    | nil => rfl
    | cons x xs =>
      simp [levelOf_of_ending (hmore x rfl), Level.rank, pure_ok]

/-- Operators after an operand; the copy may look further, as there may be more after it. -/
theorem extendWithin_mirrors (hmore : Ending more) {parse parse' : Level → Parser Expr}
    (hparse : ∀ level, Mirrors (.readings exact more) 1 (Copied exact) (parse level)
      (parse' level)) (level : Level) (n m : Nat) {left left' e : Expr} {s s' t : Reading}
    (hleft : left.Copied exact left') (hs : (Pairing.readings exact more).Paired s s')
    (hcount : s.cursor.rest.length ≤ n) (hle : n ≤ m)
    (h : extendWithin parse level n left s = .ok e t) :
    ∃ e' t', extendWithin parse' level m left' s' = .ok e' t' ∧ e.Copied exact e' ∧
      (Pairing.readings exact more).Paired t t' ∧ t.cursor.rest.length ≤ s.cursor.rest.length := by
  -- the copy may have more fuel, since tokens may go on after the copied ones
  induction n generalizing m left left' s s' with
  | zero =>
    obtain ⟨rfl, rfl⟩ := pure_ok.1 h
    refine ⟨left', s', ?_, hleft, hs, Nat.le_refl _⟩
    exact extendWithin_ended hmore (hs.1.nil (List.length_eq_zero_iff.1 (Nat.le_zero.1 hcount)))
  | succ n ih =>
    cases hrest : s.cursor.rest with
    | nil =>
      simp only [extendWithin, bind_ok, get_ok] at h
      obtain ⟨_, _, ⟨rfl, rfl⟩, h⟩ := h
      simp only [hrest] at h
      obtain ⟨rfl, rfl⟩ := pure_ok.1 h
      refine ⟨left', s', extendWithin_ended hmore (hs.1.nil hrest), hleft, hs, ?_⟩
      exact Nat.le_of_eq (congrArg List.length hrest)
    | cons x xs =>
      obtain ⟨x', xs', hrest', hx, -⟩ := hs.1.cons hrest
      cases m with
      | zero => omega
      | succ m =>
        rw [extendWithin_cons hrest] at h
        rw [extendWithin_cons hrest', levelOf_copied hx]
        split at h
        · next hlevel =>
          cases h
          exact ⟨left', s', if_pos hlevel, hleft, hs, Nat.le_of_eq (congrArg List.length hrest)⟩
        · next hlevel =>
          obtain ⟨mid, u, hmid, h⟩ := bind_ok.1 h
          obtain ⟨mid', u', hmid', hcopied, hu, hshort⟩ :=
            operation_mirrors hmore hparse hleft hs hmid
          simp only [Pairing.readings, hrest, List.length_cons] at hshort hcount
          obtain ⟨e', t', he', hee', ht, hfinal⟩ := ih m hcopied hu (by omega) (by omega) h
          refine ⟨e', t', ?_, hee', ht, ?_⟩
          · rw [if_neg hlevel]
            exact bind_ok.2 ⟨mid', u', hmid', he'⟩
          · simp only [List.length_cons]
            omega

theorem parseWithin_mirrors (hmore : Ending more) {n m : Nat} (hle : n ≤ m) (level : Level) :
    Mirrors (.readings exact more) 1 (Copied exact) (parseWithin n level)
      (parseWithin m level) := by
  induction n generalizing m level with
  | zero => exact Mirrors.get fun s s' hs => .reject _
  | succ n ih =>
    cases m with
    | zero => omega
    | succ m =>
      have hparse := fun level => ih (Nat.le_of_succ_le_succ hle) level
      refine (operand_mirrors hmore hparse).bind fun left left' hleft => ?_
      intro s s' e t hs h
      obtain ⟨k, hk, hk', hkle⟩ := Reading.seesCommas.counted hs
      obtain ⟨_, _, hcount, h⟩ := bind_ok.1 h
      cases hk.symm.trans hcount
      obtain ⟨e', t', he', hee', ht, hfinal⟩ :=
        extendWithin_mirrors hmore hparse level _ k hleft hs (Nat.le_refl _) hkle h
      exact ⟨e', t', bind_ok.2 ⟨k, s', hk', he'⟩, hee', ht, hfinal⟩

theorem parseAt_mirrors (hmore : Ending more) (level : Level) :
    Mirrors (.readings exact more) 1 (Copied exact) (parseAt level) (parseAt level) := by
  intro s s' e t hs h
  obtain ⟨k, hk, hk', hkle⟩ := Reading.seesCommas.counted hs
  obtain ⟨_, _, hcount, h⟩ := bind_ok.1 h
  cases hk.symm.trans hcount
  obtain ⟨e', t', he', hrest⟩ := parseWithin_mirrors hmore (Nat.succ_le_succ hkle) level hs h
  exact ⟨e', t', bind_ok.2 ⟨k, s', hk', he'⟩, hrest⟩

theorem parse_mirrors (hmore : Ending more) :
    Mirrors (.readings exact more) 1 (Copied exact) parse parse :=
  parseAt_mirrors hmore _

theorem parseList_inside (hmore : Ending more) :
    MirrorsInside (.readings exact more) 1 (List.Forall₂ (Copied exact)) parseList parseList :=
  commaSeparated_inside Reading.seesCommas (parse_mirrors hmore)

theorem parseRow_inside (hmore : Ending more) :
    MirrorsInside (.readings exact more) 1 (Copied exact) parseRow parseRow :=
  rowItems_inside (parseList_inside hmore)

end Expr

end DataChange
