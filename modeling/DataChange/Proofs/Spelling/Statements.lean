import DataChange.Proofs.Catalog
import DataChange.Proofs.Spelling.Changes
import DataChange.Proofs.Statement.CompileRuns
import DataChange.Proofs.Token.Lexemes

/-!
# Respelled statements

Names and keywords are matched without regard to case, everywhere: spellings of the same tokens
compile alike (`Statement.compileTokens_foldCase`).
-/

namespace DataChange

variable {P : Likeness} {Q : Places} {env : Environment}

/-! ## TRUNCATE -/

namespace Truncate

theorem readTable_tracks (env : Environment) :
    Tracks (.states P) (· = ·) (readTable env) (readTable env) := by
  refine (Range.readTarget_tracks env .truncate).bind fun range range' hrange => ?_
  rw [hrange.relation?]
  split
  · exact .pure rfl
  · exact .reject hrange.fragment

theorem readSchema_tracks (env : Environment) :
    Tracks (.states P) (· = ·) (readSchema env) (readSchema env) := by
  refine (Tracks.lift_tokens Reader.identifier_tracks).bind fun t t' ht => ?_
  rw [env.catalog.namespace?_congr (P.foldCase_eq ht.text)]
  split
  · exact .pure rfl
  · exact .reject ht.fragment

theorem readTarget_tracks (env : Environment) :
    Tracks (.states P) (· = ·) (readTarget env) (readTarget env) :=
  (Tracks.lift_tokens (Reader.skipKeyword_tracks _)).whether (readTable_tracks env) <|
    (Tracks.lift_tokens (Reader.skipKeyword_tracks _)).whether (readSchema_tracks env) <|
      .get fun _ _ hs => .reject hs.cursor.fragment

theorem readRestart_tracks : Tracks (.cursors P) (· = ·) readRestart readRestart :=
  (Reader.skipKeyword_tracks _).whether ((Reader.keyword_tracks _).bind fun _ _ _ => .pure rfl) <|
    (Reader.skipKeyword_tracks _).whether ((Reader.keyword_tracks _).bind fun _ _ _ => .pure rfl)
      (.pure rfl)

theorem readForm_tracks (target : TruncateTarget) :
    Tracks (.cursors P) (· = ·) (readForm target) (readForm target) := by
  refine (Reader.skipKeyword_tracks _).whether ?_ ?_
  · exact (Reader.keyword_tracks _).bind fun _ _ _ =>
      (Reader.skipKeyword_tracks _).whether ((Reader.keyword_tracks _).bind fun _ _ _ => .pure rfl)
        (.pure rfl)
  · cases target with
    | table => exact .pure rfl
    | schema => exact .get fun _ _ hc => .throw hc.fragment

theorem compile_tracks (env : Environment) :
    Tracks (.states P) (· = ·) (compile env) (compile env) :=
  (Tracks.lift_tokens (Reader.keyword_tracks _)).bind fun _ _ _ =>
    (readTarget_tracks env).bindSame fun (target, _) =>
      (Tracks.lift_tokens readRestart_tracks).bindSame fun _ =>
        (Tracks.lift_tokens (readForm_tracks target)).bindSame fun _ => .pure rfl

end Truncate

/-! ## CALL -/

namespace Call

theorem findRoutines_congr (env : Environment) {n n' : QualifiedName}
    (h : n.foldCase = n'.foldCase) : findRoutines env n = findRoutines env n' := by
  have hname : Text.foldCase n.name = Text.foldCase n'.name := congrArg QualifiedName.name h
  have hnone : n.schema.isNone = n'.schema.isNone := by
    simpa [QualifiedName.foldCase] using congrArg (fun n => n.schema.isNone) h
  have hroutines : env.catalog.routines? (n.schemaOr env.config.defaultSchema) n.name =
      env.catalog.routines? (n'.schemaOr env.config.defaultSchema) n'.name := by
    simp only [Catalog.routines?, Catalog.routinesIn, NameKey.of, hname,
      env.catalog.namespace?_congr (n.schemaOr_congr h env.config.defaultSchema)]
  have hsynonym : env.catalog.synonym? env.config.defaultSchema n.name =
      env.catalog.synonym? env.config.defaultSchema n'.name := by
    simp only [Catalog.synonym?, Catalog.synonymIn?, NameKey.of, hname]
  unfold findRoutines
  dsimp only
  rw [hroutines, hsynonym, hnone]

theorem readArguments_tracks (oracle : Bool) :
    Tracks (.readings P) (List.Forall₂ (Expr.Respelled P)) (readArguments oracle)
      (readArguments oracle) := by
  refine (Tracks.lift_reader (Reader.skipSymbol_tracks _)).whether ?_ ?_
  · refine (Tracks.lift_reader (Reader.skipSymbol_tracks _)).whether (.pure .nil) ?_
    exact Expr.parseList_tracks.bind fun _ _ h =>
      (Tracks.lift_reader (Reader.symbol_tracks _)).bind fun _ _ _ => .pure h
  · exact .ite Iff.rfl (.pure .nil) (.get fun _ _ hs => .reject hs.cursor.fragment)

theorem checkArgument_concur (routine : Routine) (parameter : RoutineParameter) (position : Nat)
    {argument argument' : Expr} (h : argument.Respelled P argument') :
    Concur P (Expr.Respelled P) (checkArgument routine parameter position argument)
      (checkArgument routine parameter position argument') := by
  unfold checkArgument
  dsimp only
  rw [h.isVariable, h.isParameter, h.isUntypedParameter, h.type]
  split
  · exact .error h.fragment
  · split
    · exact .ok (h.asColumn _ _)
    · split
      · exact .ok h
      · split
        · exact .ok h
        · exact .error h.fragment

theorem bindArguments_tracks (env : Environment) (routine : Routine) {scope scope' : Scope}
    (hscope : scope.Respelled P scope') (position : Nat) {arguments arguments' : List Expr}
    (h : List.Forall₂ (Expr.Respelled P) arguments arguments') (parameters : List RoutineParameter) :
    Tracks (.states P) (List.Forall₂ (Expr.Respelled P))
      (bindArguments env routine scope position arguments parameters)
      (bindArguments env routine scope' position arguments' parameters) := by
  induction h generalizing position parameters with
  | nil => exact .pure .nil
  | cons hargument hrest ih =>
    cases parameters with
    | nil => exact .pure (.cons hargument hrest)
    | cons parameter parameters =>
      refine (Expr.resolve_tracks env hscope hargument).bind fun _ _ hargument => ?_
      refine (Tracks.except (checkArgument_concur routine parameter position hargument)).bind
        fun _ _ hargument => ?_
      exact (ih _ _).bind fun _ _ hrest => .pure (.cons hargument hrest)

theorem noteCall_tracks (routine : Routine) :
    Tracks (.states P) (fun _ _ => True) (noteCall routine) (noteCall routine) :=
  .modified fun _ _ (hs : CompilerState.Respelled P _ _) =>
    ⟨hs.reading, hs.outer, congrArg (· ++ [routine]) hs.calls, hs.nextRange⟩

theorem compileRoutine_tracks (env : Environment) {n n' : QualifiedName × Fragment}
    (h : NamedAt Q.likeness n n') (routines : List Routine) :
    Tracks (.states Q.likeness) (fun s s' => s.foldCase = s'.foldCase)
      (compileRoutine env n.1 n.2 routines) (compileRoutine env n'.1 n'.2 routines) := by
  refine (Tracks.lift_parsing (readArguments_tracks _)).bind fun _ _ harguments => ?_
  rw [harguments.length_eq]
  split
  · exact .reject h.2
  · refine Tracks.outerGroups.bind fun _ _ houter => ?_
    refine (bindArguments_tracks env _ (.outerOnly houter) 1 harguments _).bind fun _ _ h => ?_
    refine (noteCall_tracks _).bind fun _ _ _ => .pure ?_
    exact congrArg (fun arguments => CallStatement.mk (.routine _ arguments) [])
      (Expr.Respelled.map_foldCase h)

theorem fragment_asRoutineError (e : Error) : (asRoutineError e).fragment = e.fragment := by
  unfold asRoutineError
  split <;> rfl

theorem reword_tracks {α β : Type} {R : α → β → Prop} {x : Compiler α} {y : Compiler β}
    (h : Tracks (.states P) R x y) :
    Tracks (.states P) R (reword asRoutineError x) (reword asRoutineError y) := by
  intro s s' hs
  have hends := h hs
  unfold reword
  generalize x s = r at hends
  generalize y s' = r' at hends
  cases hends with
  | ok hab ht => exact .ok hab ht
  | error he =>
    cases he with
    | rejected he => exact .error (.rejected (by simpa only [fragment_asRoutineError] using he))
    | outOfRange => exact .error .outOfRange
    | viewCycle => exact .error .viewCycle

theorem compileExpression_tracks (env : Environment) :
    Tracks (.states Q.likeness) (fun s s' => s.foldCase = s'.foldCase) (compileExpression env)
      (compileExpression env) := by
  refine (Tracks.lift_parsing Expr.parse_tracks).bind fun _ _ he => ?_
  refine Tracks.outerGroups.bind fun _ _ houter => ?_
  exact (reword_tracks (Expr.resolve_tracks env (.outerOnly houter) he)).bind fun _ _ he =>
    .pure (congrArg (fun e => CallStatement.mk (.expression e) []) he.foldCase_eq)

theorem readName?_tracks :
    Tracks (.cursors P) (Option.Rel (NamedAt P)) readName? readName? :=
  .get fun _ _ hc => .ite (by rw [hc.isIdentifier])
    (Reader.qualifiedName_tracks.bind fun _ _ hn => .pure (.some hn)) (.pure .none)

theorem compile_tracks (env : Environment) :
    Tracks (.states Q.likeness) (fun s s' => s.foldCase = s'.foldCase) (compile env)
      (compile env) := by
  refine (Tracks.lift_tokens (Reader.keyword_tracks _)).bind fun _ _ _ => .get fun s s' hs => ?_
  have hstart := hs.cursor
  have hexpression : Tracks (.states Q.likeness) (fun s s' => s.foldCase = s'.foldCase)
      (do
        modify fun t => { t with cursor := s.cursor }
        compileExpression env : Compiler CallStatement)
      (do
        modify fun t => { t with cursor := s'.cursor }
        compileExpression env) := by
    refine (Tracks.modified ?_).bind fun _ _ _ => compileExpression_tracks env
    exact fun _ _ (ht : CompilerState.Respelled Q.likeness _ _) => ht.withCursor hstart
  refine (Tracks.lift_tokens readName?_tracks).bind fun name name' hname => ?_
  -- without a name, or a routine of the name, the statement calls an expression or is refused
  cases hname with
  | none => exact .ite Iff.rfl (.get fun _ _ hs => .reject hs.cursor.fragment) hexpression
  | @some n n' hn =>
    dsimp only [Option.map_some, Option.getD_some]
    rw [findRoutines_congr env hn.1]
    cases findRoutines env n'.1 with
    | nil => exact .ite Iff.rfl (.reject hn.2) hexpression
    | cons routine others => exact compileRoutine_tracks env hn _

end Call

/-! ## All statements -/

namespace Statement

/-- Statements that are the same in the common spelling. -/
def Alike (s s' : Statement) : Prop :=
  s.foldCase = s'.foldCase

theorem compileHead_ends {s s' : CompilerState} (hs : s.Respelled Q.likeness s')
    (hfilters : FiltersFrom Q.likeness env s.cursor.rest) :
    (Tracking.states Q.likeness).Ends Alike (compileHead env s) (compileHead env s') := by
  -- one run for each kind of statement; the first token decides which of them it is
  have hinsert := (Insert.compile_ends hs hfilters).bind
    (f := fun s => pure (.insert s)) (g := fun s => pure (.insert s)) (S := Alike)
    fun _ _ _ _ _ h ht => .ok (congrArg Statement.insert h) ht
  have hupdate := (Update.compile_ends hs hfilters).bind
    (f := fun s => pure (.update s)) (g := fun s => pure (.update s)) (S := Alike)
    fun _ _ _ _ _ h ht => .ok (congrArg Statement.update h) ht
  have hdelete := (Delete.compile_ends hs hfilters).bind
    (f := fun s => pure (.delete s)) (g := fun s => pure (.delete s)) (S := Alike)
    fun _ _ _ _ _ h ht => .ok (congrArg Statement.delete h) ht
  have hmerge := (Merge.compile_ends hs hfilters).bind
    (f := fun s => pure (.merge s)) (g := fun s => pure (.merge s)) (S := Alike)
    fun _ _ _ _ _ h ht => .ok (congrArg Statement.merge h) ht
  have htruncate := ((Truncate.compile_tracks env).run hs).bind
    (f := fun s => pure (.truncate s)) (g := fun s => pure (.truncate s)) (S := Alike)
    fun _ _ _ _ _ h ht => .ok (congrArg Statement.truncate h) ht
  have hcall := ((Call.compile_tracks env).run hs).bind
    (f := fun s => pure (.call s)) (g := fun s => pure (.call s)) (S := Alike)
    fun _ _ _ _ _ h ht => .ok (congrArg Statement.call h) ht
  have hend := hs.cursor.fragment
  have hrest := hs.cursor.rest
  refine Tracking.Ends.get ?_
  dsimp only
  generalize s.cursor.rest = ts at hrest ⊢
  generalize s'.cursor.rest = ts' at hrest ⊢
  cases hrest with
  | nil => exact Tracks.reject (by exact hend) hs
  | cons ht _ =>
    dsimp only
    rw [ht.kind]
    split
    · exact hinsert
    · exact hupdate
    · exact hdelete
    · exact hmerge
    · exact htruncate
    · exact hcall
    · split
      · exact hinsert
      · exact (Tracks.reject ht.fragment).run hs
    · exact (Tracks.reject ht.fragment).run hs

/-- Spellings of the tokens of a statement go along, if the filters on its way have their places in
`P`. -/
theorem compileTokens_ends {tokens tokens' : List Token}
    (htokens : List.Forall₂ (Token.Respelled Q.likeness) tokens tokens')
    (hfilters : FiltersFrom Q.likeness env tokens) {s s' : CompilerState}
    (hs : s.Respelled Q.likeness s') :
    (Tracking.states Q.likeness).Ends Alike (compileTokens env tokens s)
      (compileTokens env tokens' s') := by
  refine Tracking.Ends.onTokens hs.cursor ?_
  refine (compileHead_ends (hs.withCursor (.ofTokens htokens)) hfilters).bind
    fun _ _ _ _ _ h ht => Tracks.run ?_ ht
  exact (Tracks.lift_tokens Reader.finish_tracks).bind fun _ _ _ => .pure h

/-! ## All spellings -/

theorem respelled_of_foldCase_eq {tokens tokens' : List Token}
    (h : tokens.map Token.foldCase = tokens'.map Token.foldCase) :
    List.Forall₂ (Token.Respelled Places.all.likeness) tokens tokens' := by
  rw [← List.forall₂_eq_eq_eq, List.forall₂_map_left_iff, List.forall₂_map_right_iff] at h
  exact h.imp fun _ _ => .of_foldCase_eq

/-- All places are among all places. -/
theorem filtersFrom_all (env : Environment) (tokens : List Token) :
    FiltersFrom Places.all.likeness env tokens := by
  intro _ _ text _ _
  unfold Likeness.Holds
  cases tokenize text with
  | error e => exact .error (Fragment.SpelledAt.of_foldCase_eq rfl)
  | ok tokens => exact .ok (respelled_of_foldCase_eq rfl)

theorem respelled_self (s : CompilerState) : s.Respelled Places.all.likeness s :=
  ⟨⟨⟨Fragment.SpelledAt.of_foldCase_eq rfl, respelled_of_foldCase_eq rfl⟩, rfl⟩, rfl, rfl, rfl⟩

/-- Names and keywords are matched without regard to case: of two spellings of the same tokens, one
compiles if the other does, and what they are compiled to differs in spelling only. -/
theorem compileTokens_foldCase (env : Environment) {tokens tokens' : List Token}
    (h : tokens.map Token.foldCase = tokens'.map Token.foldCase) (s : CompilerState) :
    ((∃ statement t, compileTokens env tokens s = .ok statement t) ↔
      ∃ statement t, compileTokens env tokens' s = .ok statement t) ∧
    ∀ statement statement' t t', compileTokens env tokens s = .ok statement t →
      compileTokens env tokens' s = .ok statement' t' →
        statement.foldCase = statement'.foldCase ∧
          statement.writeTables = statement'.writeTables ∧ t.parameters = t'.parameters ∧
            t.calls = t'.calls := by
  have hends := compileTokens_ends (respelled_of_foldCase_eq h) (filtersFrom_all env tokens)
    (respelled_self s)
  generalize compileTokens env tokens s = r at hends ⊢
  generalize compileTokens env tokens' s = r' at hends ⊢
  cases hends with
  | error => exact ⟨by simp, fun _ _ _ _ h => by cases h⟩
  | @ok a b t t' hab ht =>
    refine ⟨⟨fun _ => ⟨b, t', rfl⟩, fun _ => ⟨a, t, rfl⟩⟩, ?_⟩
    rintro _ _ _ _ ⟨⟩ ⟨⟩
    refine ⟨hab, ?_, ht.reading.parameters.symm, ht.calls.symm⟩
    rw [← writeTables_foldCase a, ← writeTables_foldCase b, hab]

/-- An UPDATE through a view. -/
def renameRich : String :=
  "UPDATE rich_active AS v SET name = UPPER(v.name) WHERE v.id = 1"

set_option maxRecDepth 10000 in
theorem compileTokens_foldCase_update :
    ∃ tokens statement t statement' t', tokenize renameRich = .ok tokens ∧
      tokens.map Token.foldCase ≠ tokens ∧ compileTokens .bank tokens .initial = .ok statement t ∧
      compileTokens .bank (tokens.map Token.foldCase) .initial = .ok statement' t' ∧
      statement.foldCase = statement'.foldCase := by
  obtain ⟨statement, t, hcompile, -⟩ := exists_compile .bank renameRich (fun _ => true)
    rfl (by decide +kernel)
  have hhead : (tokenize renameRich).toOption.map (fun tokens =>
      (tokens.head?.map Token.text, tokens.head?.map fun t => t.foldCase.text)) =
        some (some "UPDATE", some "update") :=
    tokenize_map rfl (by decide +kernel)
  obtain ⟨tokens, htokens, hhead, -⟩ := exists_tokenize (P := fun _ => True) hhead
    fun _ _ => trivial
  obtain ⟨hcapital, hsmall⟩ := Prod.mk.inj hhead
  rw [compile_of_tokenize htokens] at hcompile
  have hfold : tokens.map Token.foldCase = (tokens.map Token.foldCase).map Token.foldCase := by
    simp
  have halike := compileTokens_foldCase .bank hfold CompilerState.initial
  obtain ⟨statement', t', hcompile'⟩ := halike.1.1 ⟨statement, t, hcompile⟩
  refine ⟨tokens, statement, t, statement', t', htokens, fun hsame => ?_, hcompile, hcompile',
    (halike.2 _ _ _ _ hcompile hcompile').1⟩
  have hsmall' : (tokens.map Token.foldCase).head?.map Token.text = some "update" := by
    simpa [Function.comp_def] using hsmall
  rw [hsame, hcapital] at hsmall'
  exact absurd hsmall' (by decide)

end Statement

end DataChange
