import DataChange.Proofs.Statement.InsertRuns
import DataChange.Proofs.Statement.Truncated
import DataChange.Proofs.View.Descent

/-!
# Where a statement lands

A statement names a relation. If this is a view without a trigger for the operation, the statement is
about its base, and so on: `Catalog.Passes` is this chain, and `Catalog.Passes.join` says that there
is only one. What is changed is the first relation on the chain that handles the operation
(`ViewTarget.resolve_passes`), and its name is all that the statement writes
(`writeTables_landing`). `writtenName?` finds the name among the tokens.
-/

namespace DataChange

/-! ## Chains of views -/

/-- A relation that is changed itself: a table, or a view with a trigger for the operation. -/
def Relation.Handles (operation : Operation) : Relation → Prop
  | .table _ => True
  | .view v => operation.hasTrigger v = true

namespace Catalog

/-- The relation of a name; a table hides a view. -/
inductive Names (c : Catalog) (schema name : String) : Relation → Prop
  | table {t : Table} (h : c.table? schema name = some t) : Names c schema name (.table t)
  | view {v : View} (hnone : c.table? schema name = none) (h : c.view? schema name = some v) :
      Names c schema name (.view v)

/-- The base of a view. A name without a namespace is looked up in that of the view. -/
inductive BaseOf (c : Catalog) (v : View) (r : Relation) : Prop
  | intro {base : ViewBase} (hbase : v.base = some base)
      (h : c.Names (base.relation.schemaOr v.schemaName) base.relation.name r)

/-- Passing views that do not handle an operation leads from one relation to another. -/
inductive Passes (c : Catalog) (operation : Operation) : Relation → Relation → Prop
  | refl {r : Relation} : Passes c operation r r
  | step {v : View} {r target : Relation} (hview : operation.hasTrigger v = false)
      (hbase : c.BaseOf v r) (hrest : Passes c operation r target) :
      Passes c operation (.view v) target

/-- A view that does not handle an operation, and has no base or one that names no relation. -/
def DeadEnd (c : Catalog) (operation : Operation) (v : View) : Prop :=
  operation.hasTrigger v = false ∧ (v.base = none ∨ ∃ base, v.base = some base ∧
    ∀ r, ¬ c.Names (base.relation.schemaOr v.schemaName) base.relation.name r)

variable {c : Catalog} {schema name : String} {operation : Operation} {v : View}
  {r r' target : Relation}

theorem relation?_eq_some_iff : c.relation? schema name = some r ↔ c.Names schema name r := by
  unfold relation?
  constructor
  · intro h
    split at h
    · next t ht =>
      obtain rfl := Option.some.inj h
      exact .table ht
    · next hnone =>
      obtain ⟨v, hv, rfl⟩ := Option.map_eq_some_iff.1 h
      exact .view hnone hv
  · rintro (ht | ⟨hnone, hv⟩)
    · rw [ht]
    · rw [hnone, hv]
      rfl

theorem Names.unique (h : c.Names schema name r) (h' : c.Names schema name r') : r = r' :=
  Option.some.inj ((relation?_eq_some_iff.2 h).symm.trans (relation?_eq_some_iff.2 h'))

theorem BaseOf.unique (h : c.BaseOf v r) (h' : c.BaseOf v r') : r = r' := by
  obtain ⟨hbase, hr⟩ := h
  obtain ⟨hbase', hr'⟩ := h'
  obtain rfl := Option.some.inj (hbase.symm.trans hbase')
  exact hr.unique hr'

/-- What is on the chain comes before the relation that handles the operation. -/
theorem Passes.join (h : c.Passes operation r r') (htarget : c.Passes operation r target)
    (hhandles : target.Handles operation) : c.Passes operation r' target := by
  induction h with
  | refl => exact htarget
  | step hview hbase _ ih =>
    cases htarget with
    | refl => simp [Relation.Handles, hview] at hhandles
    | step _ hbase' hrest => exact ih (hbase.unique hbase' ▸ hrest)

/-- A chain that ends where the operation is handled has no dead end. -/
theorem Passes.not_deadEnd (h : c.Passes operation r (.view v))
    (htarget : c.Passes operation r target) (hhandles : target.Handles operation) :
    ¬ c.DeadEnd operation v := by
  rintro ⟨hview, hend⟩
  cases h.join htarget hhandles with
  | refl => simp [Relation.Handles, hview] at hhandles
  | step _ hbase _ =>
    obtain ⟨hbase, hr⟩ := hbase
    rcases hend with hnone | ⟨base, hsome, hunknown⟩
    · rw [hnone] at hbase
      cases hbase
    · obtain rfl := Option.some.inj (hbase.symm.trans hsome)
      exact hunknown _ hr

end Catalog

theorem Environment.names_of_relation {env : Environment} {name : QualifiedName}
    {fragment : Fragment} {r : Relation} (h : env.relation name fragment = .ok r) :
    env.catalog.Names (name.schemaOr env.config.defaultSchema) name.name r := by
  unfold relation at h
  split at h
  · next found hfound =>
    obtain rfl : found = r := by simpa using h
    exact Catalog.relation?_eq_some_iff.1 hfound
  · cases h

namespace ViewTarget

variable {env : Environment} {operation : Operation} {s t : CompilerState}

/-- A view that is not passed handles the operation. -/
theorem handles_of_viewToPass? {range : Range} {r : Relation}
    (hsource : range.source = .relation r) (h : viewToPass? operation range = none) :
    r.Handles operation := by
  cases r with
  | table t => trivial
  | view v => simpa [viewToPass?, hsource, Relation.Handles] using h

theorem Descends.passes {state state' : Descent} {layers : List Layer} {r : Relation}
    (h : Descends env operation state s layers state' t)
    (hsource : state.range.source = .relation r) :
    ∃ target, state'.range.source = .relation target ∧ env.catalog.Passes operation r target ∧
      target.Handles operation := by
  induction h generalizing r with
  | done hnone => exact ⟨r, hsource, .refl, handles_of_viewToPass? hsource hnone⟩
  | pass hview hbase hrelation hrange _ _ _ _ ih =>
    obtain ⟨hsource', hnotrigger⟩ := viewToPass?_some hview
    obtain rfl : Relation.view _ = r := by simpa [hsource'] using hsource
    obtain ⟨target, htarget, hpasses, hhandles⟩ := ih (by rw [hrange]; rfl)
    exact ⟨target, htarget,
      .step hnotrigger ⟨hbase, Environment.names_of_relation hrelation⟩ hpasses, hhandles⟩

theorem resolve_passes {written : Range} {target : ViewTarget} {r : Relation}
    (h : resolve env written operation s = .ok target t)
    (hsource : written.source = .relation r) :
    env.catalog.Passes operation r target.relation ∧ target.relation.Handles operation := by
  obtain ⟨bound, range, columnMap, filter, relation, hfollow, hrelation, rfl⟩ := resolve_ok h
  obtain ⟨layers, hlayers⟩ := followWithin_descends bound hfollow
  obtain ⟨found, hfound, hpasses, hhandles⟩ := hlayers.passes hsource
  have hfound : range.source = .relation found := hfound
  obtain rfl : found = relation := by simpa [Range.relation?, hfound] using hrelation
  exact ⟨hpasses, hhandles⟩

end ViewTarget

/-! ## The written name -/

/-- The name that tokens begin with: two identifiers with a dot between them, or else one. -/
def leadingName? : List Token → Option QualifiedName
  | [] => none
  | first :: rest =>
    if first.isIdentifier then
      match rest with
      | dot :: second :: _ =>
        if dot.isSymbol .dot && second.isIdentifier then some ⟨some first.text, second.text⟩
        else some (.unqualified first.text)
      | _ => some (.unqualified first.text)
    else none

/-- The operation of a statement and the name of the relation that it writes. -/
def writtenName? (mysql : Bool) (tokens : List Token) : Option (Operation × QualifiedName) := do
  let (operation, xs) ← targetTokens? mysql tokens
  return (operation, ← leadingName? xs)

section

variable {c c' : Cursor}

theorem leadingName?_of_read {name : QualifiedName} {fragment : Fragment}
    (h : Reader.qualifiedName c = .ok (name, fragment) c') : leadingName? c.rest = some name := by
  simp only [Reader.qualifiedName, bind_ok, get_ok] at h
  obtain ⟨first, d, hfirst, _, _, ⟨rfl, rfl⟩, h⟩ := h
  obtain ⟨hidentifier, hrest⟩ := Reader.identifier_ok hfirst
  rw [hrest]
  simp only [leadingName?, hidentifier, ↓reduceIte]
  cases hd : d.rest with
  | nil =>
    simp only [hd] at h
    rw [(Prod.mk.inj (pure_ok.1 h).1).1]
  | cons dot rest =>
    cases rest with
    | nil =>
      simp only [hd] at h
      rw [(Prod.mk.inj (pure_ok.1 h).1).1]
    | cons second rest =>
      simp only [hd] at h
      -- the second name counts only behind a dot
      dsimp only
      obtain ⟨m, hm, h⟩ := run_eq h
      split at hm
      · next hdot =>
        subst hm
        simp only [bind_ok, modify_ok, pure_ok] at h
        obtain ⟨_, _, rfl, hname, -⟩ := h
        rw [if_pos hdot, (Prod.mk.inj hname).1]
      · next hdot =>
        subst hm
        rw [if_neg hdot, (Prod.mk.inj (pure_ok.1 h).1).1]

end

/-! ## Statements -/

variable {env : Environment} {s t : CompilerState}

/-- A statement that names a relation changes another one, which is the first to handle the operation
on the chain of bases from the named one; there is no dead end on this chain. -/
def Environment.Lands (env : Environment) (operation : Operation) (name : QualifiedName)
    (target : Relation) : Prop :=
  ∃ written, env.catalog.Names (name.schemaOr env.config.defaultSchema) name.name written ∧
    env.catalog.Passes operation written target ∧ target.Handles operation ∧
    ∀ v, env.catalog.Passes operation written (.view v) → ¬ env.catalog.DeadEnd operation v

theorem Range.readTarget_leading {operation : Operation} {range : Range}
    (h : readTarget env operation s = .ok range t) :
    ∃ name r, leadingName? s.cursor.rest = some name ∧
      env.catalog.Names (name.schemaOr env.config.defaultSchema) name.name r ∧
      range.source = .relation r := by
  obtain ⟨name, fragment, s₁, asName, s₂, r, hname, -, hr, rfl, -⟩ := readTarget_ok h
  obtain ⟨c, hc, -⟩ := lift_reader_compiler_ok.1 hname
  exact ⟨name, r, leadingName?_of_read hc, Environment.names_of_relation hr, rfl⟩

theorem writtenName?_eq {mysql : Bool} {tokens xs : List Token} {operation : Operation}
    {name : QualifiedName} (htokens : targetTokens? mysql tokens = some (operation, xs))
    (hname : leadingName? xs = some name) :
    writtenName? mysql tokens = some (operation, name) := by
  simp [writtenName?, htokens, hname]

theorem Targets.names {tokens after : List Token} {operation : Operation} {written : Range}
    (h : Targets env tokens operation written after) :
    ∃ name r, writtenName? env.config.dialect.mysql tokens = some (operation, name) ∧
      env.catalog.Names (name.schemaOr env.config.defaultSchema) name.name r ∧
      written.source = .relation r := by
  obtain ⟨htokens, hread, -⟩ := h
  obtain ⟨name, r, hname, hr⟩ := Range.readTarget_leading hread
  exact ⟨name, r, writtenName?_eq htokens hname, hr⟩

theorem ViewTarget.resolve_lands {tokens after : List Token} {operation : Operation}
    {written : Range} {target : ViewTarget} (htargets : Targets env tokens operation written after)
    (h : resolve env written operation s = .ok target t) :
    ∃ name, writtenName? env.config.dialect.mysql tokens = some (operation, name) ∧
      env.Lands operation name target.relation := by
  obtain ⟨name, r, hname, hr, hsource⟩ := htargets.names
  obtain ⟨hpasses, hhandles⟩ := resolve_passes h hsource
  exact ⟨name, hname, r, hr, hpasses, hhandles, fun v hv => hv.not_deadEnd hpasses hhandles⟩

namespace Statement

/-- What a statement does to the rows of a relation, and to which. -/
def change? : Statement → Option (Operation × Relation)
  | insert i => some (.insert, i.target)
  | update u => some (.update, u.target)
  | delete d => some (.delete, d.target)
  | merge m => some (.merge, m.target)
  | truncate _ | call _ => none

variable {statement : Statement}

theorem compileHead_lands {operation : Operation} {target : Relation}
    (h : compileHead env s = .ok statement t) (hchange : statement.change? = some (operation, target)) :
    statement.writeTables = [target.qualifiedName] ∧
      ∃ name, writtenName? env.config.dialect.mysql s.cursor.rest = some (operation, name) ∧
        env.Lands operation name target := by
  obtain ⟨x, rest, -, hrun⟩ := compileHead_ok h
  cases hrun with
  | insert _ hcompile =>
    obtain ⟨run⟩ := Insert.compile_ok hcompile
    obtain ⟨rfl, rfl⟩ := Prod.mk.inj (Option.some.inj hchange)
    obtain ⟨name, hname, hlands⟩ := ViewTarget.resolve_lands run.targets run.target_ok
    exact ⟨run.writes, name, hname, run.relation ▸ hlands⟩
  | update _ hcompile =>
    obtain ⟨run⟩ := Update.compile_ok hcompile
    obtain ⟨rfl, rfl⟩ := Prod.mk.inj (Option.some.inj hchange)
    obtain ⟨name, hname, hlands⟩ := ViewTarget.resolve_lands run.targets run.target_ok
    exact ⟨run.writes, name, hname, run.relation ▸ hlands⟩
  | delete _ hcompile =>
    obtain ⟨run⟩ := Delete.compile_ok hcompile
    obtain ⟨rfl, rfl⟩ := Prod.mk.inj (Option.some.inj hchange)
    obtain ⟨name, hname, hlands⟩ := ViewTarget.resolve_lands run.targets run.target_ok
    exact ⟨run.writes, name, hname, run.relation ▸ hlands⟩
  | merge _ hcompile =>
    obtain ⟨run⟩ := Merge.compile_ok hcompile
    obtain ⟨rfl, rfl⟩ := Prod.mk.inj (Option.some.inj hchange)
    obtain ⟨name, hname, hlands⟩ := ViewTarget.resolve_lands run.targets run.target_ok
    exact ⟨run.writes, name, hname, run.relation ▸ hlands⟩
  | truncate | call => cases hchange

/-- The table that a TRUNCATE names is the one that it writes. -/
theorem compileHead_truncates {r : TruncateStatement} {table : Table}
    (h : compileHead env s = .ok (.truncate r) t) (htarget : r.target = .table table) :
    r.writeTables = [table.qualifiedName] ∧
      ∃ name, writtenName? env.config.dialect.mysql s.cursor.rest = some (.truncate, name) ∧
        env.catalog.table? (name.schemaOr env.config.defaultSchema) name.name = some table := by
  obtain ⟨x, rest, hx, hrun⟩ := compileHead_ok h
  cases hrun with
  | truncate hk hcompile =>
    have hruns := Truncate.compile_ok hcompile
    rw [htarget] at hruns
    generalize r.writeTables = tables at hruns ⊢
    cases hruns with
    | table htokens hkeyword hread htable =>
      obtain ⟨rfl, -⟩ := List.cons.inj (hx.symm.trans htokens)
      obtain ⟨name, relation, hname, hnames, hsource⟩ := Range.readTarget_leading hread
      obtain rfl : relation = .table table := by simpa [Range.relation?, hsource] using htable
      refine ⟨rfl, name, writtenName?_eq ?_ hname, ?_⟩
      · simp [targetTokens?, htokens, hk, afterKeyword?_of_kind hkeyword]
      · cases hnames with
        | table h => exact h

/-- A statement writes the one relation in which the chain of bases from the name that it writes
ends; a TRUNCATE of a table writes this table, and a CALL nothing. -/
theorem writeTables_landing {text : String} (h : compile env text s = .ok statement t) :
    ∃ tokens, tokenize text = .ok tokens ∧
      (∀ operation target, statement.change? = some (operation, target) →
        statement.writeTables = [target.qualifiedName] ∧
        ∃ name, writtenName? env.config.dialect.mysql tokens = some (operation, name) ∧
          env.Lands operation name target) ∧
      (∀ r table, statement = .truncate r → r.target = .table table →
        statement.writeTables = [table.qualifiedName] ∧
        ∃ name, writtenName? env.config.dialect.mysql tokens = some (.truncate, name) ∧
          env.catalog.table? (name.schemaOr env.config.defaultSchema) name.name = some table) ∧
      (∀ c, statement = .call c → statement.writeTables = []) := by
  obtain ⟨tokens, u, c, htokens, hhead, -⟩ := compile_ok h
  refine ⟨tokens, htokens, fun operation target hchange => compileHead_lands hhead hchange, ?_, ?_⟩
  · rintro r table rfl htarget
    exact compileHead_truncates hhead htarget
  · rintro c rfl
    obtain ⟨x, rest, -, hrun⟩ := compileHead_ok hhead
    cases hrun with
    | call _ hcompile => exact (Call.compile_ok hcompile).writes

/-- The bank with a view of archived rows that handles inserts, whose base is named without its
namespace, and a view over it. -/
def layered : Environment where
  catalog := (Catalog.Banking.catalog.setView
    { Catalog.Banking.view 6 "recent" (Catalog.Banking.integerColumns ["id", "a"])
        (some ⟨.unqualified "t", [0, 1], none⟩) with
      schemaId := 2, schemaName := "archive", insertTrigger := true }).setView
    (Catalog.Banking.view 7 "latest" (Catalog.Banking.integerColumns ["id", "a"])
      (some ⟨⟨some "archive", "recent"⟩, [0, 1], none⟩))
  config := {}

set_option maxRecDepth 10000 in
theorem writeTables_landing_layered :
    ∃ statement t target tokens name,
      compile layered "UPDATE latest SET a = 1" .initial = .ok statement t ∧
      statement.change? = some (.update, target) ∧ target.qualifiedName = ⟨some "archive", "t"⟩ ∧
      tokenize "UPDATE latest SET a = 1" = .ok tokens ∧
      writtenName? false tokens = some (.update, name) ∧ layered.Lands .update name target ∧
      statement.writeTables = [⟨some "archive", "t"⟩] := by
  obtain ⟨statement, t, hcompile, hcheck⟩ := exists_compile layered "UPDATE latest SET a = 1"
    (fun statement => statement.change?.any fun (operation, target) =>
      operation = .update && target.qualifiedName = ⟨some "archive", "t"⟩) rfl (by decide +kernel)
  obtain ⟨⟨operation, target⟩, hchange, hchecked⟩ := (Option.any_eq_true _ _).1 hcheck
  simp only [Bool.and_eq_true, decide_eq_true_eq] at hchecked
  obtain ⟨rfl, hname⟩ := hchecked
  obtain ⟨tokens, htokens, hchanges, -⟩ := writeTables_landing hcompile
  obtain ⟨hwrite, name, hwritten, hlands⟩ := hchanges _ _ hchange
  exact ⟨statement, t, target, tokens, name, hcompile, hchange, hname, htokens, hwritten, hlands,
    hname ▸ hwrite⟩

end Statement

end DataChange
