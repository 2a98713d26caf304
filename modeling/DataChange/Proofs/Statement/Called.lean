import DataChange.Proofs.Catalog.History
import DataChange.Proofs.Expr.Lookup
import DataChange.Proofs.Statement.Landing
import DataChange.Proofs.Statement.Stored

/-!
# The routine that a CALL calls

A CALL names routines by the name that is written, or through a synonym if the name has no namespace
and no routine (`Catalog.Means`). Among the routines that are named the one with the smallest id is
called of those with as many parameters as there are arguments (`Catalog.FirstOverload`), and every
argument fits its parameter (`Honours`): what the routine writes to is a question mark or a variable,
a question mark takes the type of the parameter, and any other value has a type that can be passed in
the direction of the parameter (`call_honours`).
-/

namespace DataChange

/-! ## Overloads -/

namespace Catalog

/-- A routine is stored under a name in a namespace. -/
structure IsOverload (c : Catalog) (schema name : String) (r : Routine) : Prop where
  holds : c.routines.Holds r
  schema : ∃ n, c.namespace? schema = some n ∧ r.schemaId = n.id
  name : Text.foldCase r.name = Text.foldCase name
  id_le : r.id ≤ maxId

/-- The routine of a name and a number of parameters with the smallest id. -/
structure FirstOverload (c : Catalog) (schema name : String) (n : Nat) (r : Routine) : Prop where
  overload : c.IsOverload schema name r
  arity : r.arity = n
  least : ∀ q, c.IsOverload schema name q → q.arity = n → r.id ≤ q.id

/-- The name under which routines are sought: the one that is written, or else, if this has no
namespace and names no routine of the default one, what a synonym stands for. -/
inductive Means (c : Catalog) (default : String) (name : QualifiedName) : String → String → Prop
  | own {r : Routine} (h : c.IsOverload (name.schemaOr default) name.name r) :
      Means c default name (name.schemaOr default) name.name
  | synonym {target : QualifiedName} (hschema : name.schema = none)
      (hnone : ∀ r, ¬ c.IsOverload default name.name r)
      (htarget : c.synonym? default name.name = some target) :
      Means c default name (target.schemaOr default) target.name

variable {c : Catalog} {schema name : String} {r : Routine}

theorem mem_routines? (h : c.Consistent) : r ∈ c.routines? schema name ↔ c.IsOverload schema name r := by
  unfold routines?
  constructor
  · intro hr
    split at hr
    · next n hn =>
      obtain ⟨hholds, hschema, hname, hid⟩ := (mem_routinesIn h).1 hr
      exact ⟨hholds, ⟨n, hn, hschema⟩, hname, hid⟩
    · cases hr
  · rintro ⟨hholds, ⟨n, hn, hschema⟩, hname, hid⟩
    rw [hn]
    exact (mem_routinesIn h).2 ⟨hholds, hschema, hname, hid⟩

theorem pairwise_routines? (h : c.Consistent) (schema name : String) :
    (c.routines? schema name).Pairwise fun a b => a.id < b.id := by
  unfold routines?
  split
  · exact pairwise_routinesIn h _ _
  · exact .nil

/-- As the routines of a name are found in the order of their ids, the first with an arity is the
one with the smallest id. -/
theorem firstOverload_of_find? (h : c.Consistent) {arity : Nat}
    (hfound : (c.routines? schema name).find? (fun r => r.arity = arity) = some r) :
    c.FirstOverload schema name arity r := by
  obtain ⟨harity, before, after, hsplit, hbefore⟩ := List.find?_eq_some_iff_append.1 hfound
  have hsorted := pairwise_routines? h schema name
  rw [hsplit, List.pairwise_append, List.pairwise_cons] at hsorted
  refine ⟨(mem_routines? h).1 (List.mem_of_find?_eq_some hfound), by simpa using harity,
    fun q hq hqarity => ?_⟩
  have hmem := (mem_routines? h).2 hq
  rw [hsplit, List.mem_append, List.mem_cons] at hmem
  rcases hmem with hmem | rfl | hmem
  · simpa [hqarity] using hbefore q hmem
  · exact Nat.le_refl _
  · exact Nat.le_of_lt (hsorted.2.1.1 q hmem)

end Catalog

namespace Call

/-- What is found under the name of a CALL is found under a name that this one means. -/
theorem findRoutines_means {env : Environment} {name : QualifiedName} {arity : Nat} {r : Routine}
    (hcatalog : env.catalog.Consistent)
    (h : (findRoutines env name).find? (fun r => r.arity = arity) = some r) :
    ∃ schema title, env.catalog.Means env.config.defaultSchema name schema title ∧
      env.catalog.FirstOverload schema title arity r := by
  unfold findRoutines at h
  dsimp only at h
  split at h
  · next hempty =>
    obtain ⟨hempty, hschema⟩ := Bool.and_eq_true _ _ ▸ hempty
    rw [Option.isNone_iff_eq_none] at hschema
    have hnone : ∀ q, ¬ env.catalog.IsOverload env.config.defaultSchema name.name q := by
      intro q hq
      have hmem := (Catalog.mem_routines? hcatalog).2 hq
      rw [QualifiedName.schemaOr, hschema, Option.getD_none, List.isEmpty_iff] at hempty
      rw [hempty] at hmem
      cases hmem
    split at h
    · next target htarget =>
      exact ⟨_, _, .synonym hschema hnone htarget, Catalog.firstOverload_of_find? hcatalog h⟩
    · cases h
  · have hfirst := Catalog.firstOverload_of_find? hcatalog h
    exact ⟨_, _, .own hfirst.overload, hfirst⟩

end Call

/-! ## Arguments -/

namespace Expr

/-- An expression that is a variable of a routine: the innermost of the enclosing groups that has
the column has it in one range, which holds variables. -/
inductive IsRoutineVariable (outer : List RangeGroup) : Expr → Prop
  | intro {ref : ColumnRef} {b : Binding} {r : Range} {fragment : Fragment} {type : Option SqlType}
      (hbinding : ref.binding = some b) (hone : (Scope.outerOnly outer).candidates ref = [r])
      (hgives : r.Gives ref b) (hvariables : r.isVariables = true) :
      IsRoutineVariable outer ⟨.column ref, fragment, type⟩

/-- No type is known of a question mark where it is written. -/
def MarkerUntyped (e : Expr) : Prop :=
  ∀ marker, e.kind = .parameter marker → e.type? = none

theorem markerUntyped_negated {e e' : Expr} {fragment : Fragment} {s t : Reading}
    (h : e.negated fragment s = .ok e' t) : e'.MarkerUntyped := by
  obtain ⟨kind, f, type⟩ := e
  unfold negated at h
  obtain ⟨m, hm, h⟩ := run_eq h
  split at hm
  · split at hm <;> subst hm
    · exact (throw_ok.1 h).elim
    · obtain ⟨rfl, rfl⟩ := pure_ok.1 h
      exact fun marker hk => by cases hk
  · subst hm
    obtain ⟨rfl, rfl⟩ := pure_ok.1 h
    exact fun marker hk => by cases hk
  · subst hm
    obtain ⟨rfl, rfl⟩ := pure_ok.1 h
    exact fun marker hk => by cases hk

theorem markerUntyped_ofItems {fragment : Fragment} {items : List Expr}
    (h : ∀ item ∈ items, item.MarkerUntyped) : (ofItems fragment items).MarkerUntyped := by
  rcases items with _ | ⟨item, _ | ⟨second, more⟩⟩
  · exact fun marker hk => by cases hk
  · exact h item (by simp)
  · exact fun marker hk => by cases hk

mutual

theorem Reads.markerUntyped : ∀ {s t : Reading} {e : Expr}, Reads s e t → e.MarkerUntyped
  | _, _, _, .literal .. => fun _ hk => by cases hk
  | _, _, _, .defaultMarker .. => fun _ _ => rfl
  | _, _, _, .marker .. => fun _ _ => rfl
  | _, _, _, .column .. => fun _ _ => rfl
  | _, _, _, .qualified .. => fun _ _ => rfl
  | _, _, _, .emptyCall .. => fun _ _ => rfl
  | _, _, _, .call .. => fun _ _ => rfl
  | _, _, _, .row .. => fun _ _ => rfl
  | _, _, _, .bracket _ _ hi _ _ => markerUntyped_ofItems hi.markerUntyped
  | _, _, _, .query .. => fun _ _ => rfl
  | _, _, _, .not .. => fun _ _ => rfl
  | _, _, _, .minus _ _ _ hn => markerUntyped_negated hn
  | _, _, _, .plus .. => fun _ _ => rfl
  | _, _, _, .isNull .. => fun _ _ => rfl
  | _, _, _, .isNotNull .. => fun _ _ => rfl
  | _, _, _, .binary .. => fun _ _ => rfl

theorem ReadsList.markerUntyped : ∀ {s t : Reading} {es : List Expr}, ReadsList s es t →
    ∀ e ∈ es, e.MarkerUntyped
  | _, _, _, .single he => by simpa using he.markerUntyped
  | _, _, _, .more hes _ _ he => by
    intro e h
    rcases List.mem_append.1 h with h | h
    · exact hes.markerUntyped e h
    · exact List.mem_singleton.1 h ▸ he.markerUntyped

end

variable {compile : QueryCompiler} {scope : Scope} {s t : CompilerState} {e e' : Expr}

/-- What a free reference is bound to. -/
theorem bindColumn_gives {ref ref' : ColumnRef} {fragment : Fragment} (hfree : ref.binding = none)
    (h : bindColumn scope ref fragment = .ok (ref', [])) :
    ∃ r b, scope.candidates ref' = [r] ∧ r.Gives ref' b ∧ ref'.binding = some b := by
  unfold bindColumn at h
  rw [hfree] at h
  dsimp only at h
  have hfound := scope.lookup_found ref fragment
  generalize scope.lookup ref fragment = result at h hfound
  generalize hcandidates : scope.candidates ref = candidates at hfound
  cases hfound with
  | nowhere => cases h
  | once hgives =>
    cases h
    exact ⟨_, _, hcandidates, ⟨hgives.range, hgives.column, hgives.type, hgives.isVariable⟩, rfl⟩
  | again => cases h

/-- A question mark is left as it is. -/
theorem resolveWith_marker (h : resolveWith compile scope e s = .ok e' t) {marker : Marker}
    (hk : e'.kind = .parameter marker) : e.kind = .parameter marker ∧ e'.type? = e.type? := by
  have hkeeps : ∀ {kind : ExprKind} {cs : List Expr}, kind.withChildren cs = .parameter marker →
      kind = .parameter marker := by
    intro kind cs h
    cases kind <;> rcases cs with _ | ⟨c, _ | ⟨d, _ | ⟨x, xs⟩⟩⟩ <;> first | exact h | cases h
  obtain ⟨b, hb, hi⟩ := resolveWith_ok h
  have hi := infer_ok hi
  have hkind : b.kind = .parameter marker := hkeeps (hi.kind.symm.trans hk)
  have htype : e'.type? = b.type? := by
    have hnode := hi.node
    unfold NodeTyped at hnode
    rwa [hkind] at hnode
  cases bindIn_ok hb with
  | column | pending | call => cases hkind
  | node => exact ⟨hkeeps hkind, htype⟩

/-- A variable is a reference that the scope has. -/
theorem resolveWith_isVariable {outer : List RangeGroup} (hraw : Raw e)
    (h : resolveWith compile (.outerOnly outer) e s = .ok e' t) (hvariable : e'.isVariable = true) :
    e'.IsRoutineVariable outer := by
  obtain ⟨b, hb, hi⟩ := resolveWith_ok h
  have hi := infer_ok hi
  obtain ⟨kind, fragment, type⟩ := e'
  cases kind with
  | column ref =>
    have hkind : b.kind = .column ref := (withChildren_eq_column ..).1 hi.kind.symm
    cases bindIn_ok hb with
    | column hbind =>
      cases hkind
      have hnode := hraw.node
      simp only [isRaw, Option.isNone_iff_eq_none] at hnode
      obtain ⟨r, binding, hone, hgives, hbinding⟩ := bindColumn_gives hnode hbind
      refine .intro hbinding hone ⟨hgives.range, hgives.column, hgives.type, hgives.isVariable⟩ ?_
      rw [← hgives.isVariable]
      simpa [isVariable, binding?, hbinding] using hvariable
    | pending | call => cases hkind
    | node _ cs hbound =>
      have hkind := (withChildren_eq_column ..).1 hkind
      simp [isBound, hkind] at hbound
  | _ => simp [isVariable, binding?] at hvariable

end Expr

/-- An argument fits its parameter. -/
structure Honours (outer : List RangeGroup) (parameter : RoutineParameter) (argument : Expr) :
    Prop where
  writeable : parameter.mode ≠ .input →
    argument.isParameter = true ∨ argument.IsRoutineVariable outer
  marker : ∀ m, argument.kind = .parameter m → argument.type? = some parameter.type ∧
    m.asColumn = true ∧ (m.writeable = true ↔ parameter.mode ≠ .input)
  input : argument.isParameter = false → parameter.mode ≠ .output →
    ∀ t, argument.type? = some t → parameter.type.assignableFrom t = true
  output : argument.isParameter = false → parameter.mode ≠ .input →
    ∀ t, argument.type? = some t → t.assignableFrom parameter.type = true

namespace Call

variable {env : Environment} {s t : CompilerState}

theorem isWriteable_iff (mode : ParameterMode) : mode.isWriteable = true ↔ mode ≠ .input := by
  cases mode <;> decide

theorem accepts_ok {mode : ParameterMode} {parameter argument : SqlType}
    (h : accepts mode parameter argument = true) :
    (mode ≠ .output → parameter.assignableFrom argument = true) ∧
      (mode ≠ .input → argument.assignableFrom parameter = true) := by
  cases mode with
  | input => exact ⟨fun _ => h, fun hm => absurd rfl hm⟩
  | output => exact ⟨fun hm => absurd rfl hm, fun _ => h⟩
  | both =>
    obtain ⟨hin, hout⟩ := Bool.and_eq_true _ _ ▸ h
    exact ⟨fun _ => hin, fun _ => hout⟩

/-- An argument that passes the check of its parameter fits it, if no question mark had a type. -/
theorem checkArgument_honours {outer : List RangeGroup} {routine : Routine}
    {parameter : RoutineParameter} {position : Nat} {e e' : Expr} (huntyped : e.MarkerUntyped)
    (hvariable : e.isVariable = true → e.IsRoutineVariable outer)
    (h : checkArgument routine parameter position e = .ok e') : Honours outer parameter e' := by
  unfold checkArgument at h
  dsimp only at h
  split at h
  · cases h
  · next hwriteable =>
    have hwriteable : parameter.mode ≠ .input →
        e.isParameter = true ∨ e.IsRoutineVariable outer := by
      rw [← isWriteable_iff]
      intro hmode
      by_cases hparameter : e.isParameter = true
      · exact .inl hparameter
      · exact .inr (hvariable (by simpa [hmode, hparameter] using hwriteable))
    split at h
    · next hmarker =>
      cases h
      obtain ⟨kind, fragment, type⟩ := e
      cases kind with
      | parameter m =>
        refine ⟨fun _ => .inl rfl, fun m' hk => ?_, by simp [Expr.isParameter, Expr.asColumn],
          by simp [Expr.isParameter, Expr.asColumn]⟩
        cases hk
        exact ⟨rfl, rfl, isWriteable_iff _⟩
      | _ => cases hmarker
    · next hmarker =>
      -- a parameter has no type yet, and was given that of the routine in the case before
      have hother : e.isParameter = false := by
        rw [Bool.eq_false_iff]
        intro hparameter
        obtain ⟨kind, fragment, type⟩ := e
        cases kind with
        | parameter m =>
          obtain rfl : type = none := huntyped m rfl
          exact hmarker rfl
        | _ => cases hparameter
      have hnomarker : ∀ m, e.kind ≠ .parameter m := by
        intro m hk
        simp [Expr.isParameter, hk] at hother
      split at h
      · next hnone =>
        cases h
        exact ⟨hwriteable, fun m hk => absurd hk (hnomarker m), by simp [hnone], by simp [hnone]⟩
      · next actual htype =>
        split at h
        · next haccepts =>
          cases h
          obtain ⟨hin, hout⟩ := accepts_ok haccepts
          exact ⟨hwriteable, fun m hk => absurd hk (hnomarker m), by simpa [htype] using fun _ => hin,
            by simpa [htype] using fun _ => hout⟩
        · cases h

theorem readArguments_markerUntyped {oracle : Bool} {arguments : List Expr} {r u : Reading}
    (h : readArguments oracle r = .ok arguments u) : ∀ e ∈ arguments, e.MarkerUntyped := by
  rcases readArguments_ok h with rfl | ⟨_, _, hitems⟩
  · simp
  · exact (Expr.parseList_reads _ _ _ hitems).markerUntyped

theorem compile_honours {r : Routine} {arguments : List Expr} {tables : WriteSet}
    (hcatalog : env.catalog.Consistent)
    (h : Call.compile env s = .ok ⟨.routine r arguments, tables⟩ t) :
    ∃ call rest name schema title, s.cursor.rest = call :: rest ∧ call.kind = .keyword .CALL ∧
      leadingName? rest = some name ∧
      env.catalog.Means env.config.defaultSchema name schema title ∧
      env.catalog.FirstOverload schema title arguments.length r ∧
      List.Forall₂ (Honours s.outer) r.parameters arguments := by
  cases compile_ok h with
  | @routine s₁ s₂ s₃ _ call name _ written _ hcall hname hread hfound hbind =>
    obtain ⟨c, hc, rfl⟩ := lift_reader_compiler_ok.1 hcall
    obtain ⟨d, hd, rfl⟩ := lift_reader_compiler_ok.1 hname
    obtain ⟨u, hu, rfl⟩ := lift_parser_ok.1 hread
    obtain ⟨hk, hrest⟩ := Reader.keyword_ok hc
    obtain ⟨schema, title, hmeans, hfirst⟩ := findRoutines_means hcatalog hfound
    have harguments := bindArguments_forall₂ (R := Honours s.outer) (arity_of_found hfound) hbind
      fun e he parameter position resolved e' _ _ hresolve hcheck => by
        refine checkArgument_honours (fun m hk => ?_) (fun hvariable => ?_) hcheck
        · obtain ⟨hmarker, htype⟩ := Expr.resolveWith_marker hresolve hk
          rw [htype]
          exact readArguments_markerUntyped hu e he m hmarker
        · exact Expr.resolveWith_isVariable (readArguments_plain hu e he).raw hresolve hvariable
    have hlength : arguments.length = written.length :=
      harguments.length_eq.symm.trans (arity_of_found hfound)
    exact ⟨call, c.rest, name.1, schema, title, hrest, hk, leadingName?_of_read hd, hmeans,
      hlength ▸ hfirst, harguments⟩

end Call

namespace Statement

/-- A CALL that compiles to a routine calls, of the routines that its name means, the one with the
smallest id that has as many parameters as there are arguments, and each argument fits. -/
theorem call_honours {history : List Catalog.Change} {config : Config} {text : String}
    {r : Routine} {arguments : List Expr} {tables : WriteSet} {s t : CompilerState}
    (h : compile ⟨.after history, config⟩ text s = .ok (.call ⟨.routine r arguments, tables⟩) t) :
    ∃ call rest name schema title, tokenize text = .ok (call :: rest) ∧
      call.kind = .keyword .CALL ∧ leadingName? rest = some name ∧
      (Catalog.after history).Means config.defaultSchema name schema title ∧
      (Catalog.after history).FirstOverload schema title arguments.length r ∧
      List.Forall₂ (Honours s.outer) r.parameters arguments := by
  obtain ⟨tokens, u, c, htokens, hhead, -, -⟩ := compile_ok h
  obtain ⟨x, rest, -, hrun⟩ := compileHead_ok hhead
  cases hrun with
  | call _ hcompile =>
    obtain ⟨call, rest, name, schema, title, hrest, hcall⟩ :=
      Call.compile_honours (Catalog.consistent_after history) hcompile
    have hrest : tokens = call :: rest := hrest
    exact ⟨call, rest, name, schema, title, hrest ▸ htokens, hcall⟩

/-- A routine that has changed its name and its parameters, and a synonym for the new name. -/
def renamedRoutine : List Catalog.Change :=
  [.setNamespace ⟨1, "public"⟩, .setSynonym 1 "remark" ⟨none, "note"⟩,
    .setRoutine (Catalog.Banking.procedure 4 "remark" [⟨"text", .varchar, .input⟩]),
    .setRoutine (Catalog.Banking.procedure 4 "note"
      [⟨"text", .varchar, .input⟩, ⟨"id", .bigint, .both⟩])]

/-- The environment in which the routine has its new name. -/
def renamedEnvironment : Environment :=
  ⟨.after renamedRoutine, {}⟩

def remarkCall : String :=
  "CALL remark('x', ?)"

/-- The routine of a call and its arguments. -/
def calledRoutine? : Statement → Option (Routine × List Expr)
  | call ⟨.routine r arguments, _⟩ => some (r, arguments)
  | _ => none

theorem calledRoutine?_ok {statement : Statement} {r : Routine} {arguments : List Expr}
    (h : statement.calledRoutine? = some (r, arguments)) :
    ∃ tables, statement = .call ⟨.routine r arguments, tables⟩ := by
  cases statement with
  | call c =>
    obtain ⟨target, tables⟩ := c
    cases target with
    | routine => simpa [calledRoutine?] using h
    | expression => cases h
  | _ => cases h

set_option maxRecDepth 10000 in
theorem call_honours_synonym : ∃ r arguments tables t,
    compile ⟨.after renamedRoutine, {}⟩ remarkCall .initial =
      .ok (.call ⟨.routine r arguments, tables⟩) t ∧ r.id = 4 ∧
    ∃ call rest name schema title, tokenize remarkCall = .ok (call :: rest) ∧
      call.kind = .keyword .CALL ∧ leadingName? rest = some name ∧
      (Catalog.after renamedRoutine).Means "public" name schema title ∧
      (Catalog.after renamedRoutine).FirstOverload schema title arguments.length r ∧
      List.Forall₂ (Honours []) r.parameters arguments := by
  obtain ⟨statement, t, hcompile, hcheck⟩ := exists_compile renamedEnvironment remarkCall
    (fun statement => statement.calledRoutine?.any fun x => x.1.id = 4) rfl (by decide +kernel)
  obtain ⟨⟨r, arguments⟩, hcalled, hid⟩ := (Option.any_eq_true _ _).1 hcheck
  obtain ⟨tables, rfl⟩ := calledRoutine?_ok hcalled
  exact ⟨r, arguments, tables, t, hcompile, by simpa using hid, call_honours hcompile⟩

end Statement

end DataChange
