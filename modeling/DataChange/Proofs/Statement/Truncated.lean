import DataChange.Proofs.Catalog.History
import DataChange.Proofs.Statement.BaseTable

/-!
# What TRUNCATE writes

A table is in the namespace with its namespace id, and it also carries a copy of a namespace name.
`TRUNCATE SCHEMA` resolves a namespace and writes the tables that carry its name (`mem_tablesOf`), in
order and each once (`pairwise_tablesOf`). These are the tables of the namespace exactly if the
copies agree with the ids (`Catalog.NamesAgree`, `truncate_schema_writes`). They do as long as tables
are set with the name of their namespace and no namespace is renamed (`namesAgree_after`); they no
longer do once a namespace has been renamed (`renamed_schema_kept`).
-/

namespace DataChange

/-! ## Copies of namespace names -/

namespace Catalog

/-- A stored table of a namespace has a name. -/
def HasTable (c : Catalog) (n : Namespace) (q : QualifiedName) : Prop :=
  ∃ t, c.tables.Holds t ∧ t.schemaId = n.id ∧ t.qualifiedName = q

/-- A stored table that carries the name of a namespace has a name. -/
def HasNamesake (c : Catalog) (n : Namespace) (q : QualifiedName) : Prop :=
  ∃ t, c.tables.Holds t ∧ t.schemaName = n.name ∧ t.qualifiedName = q

/-- The tables of a namespace carry its name, and where another table carries it the namespace has a
table with the name of that one. -/
structure NamesAgree (c : Catalog) (n : Namespace) : Prop where
  carried : ∀ t, c.tables.Holds t → t.schemaId = n.id → t.schemaName = n.name
  matched : ∀ t, c.tables.Holds t → t.schemaName = n.name →
    ∃ t', c.tables.Holds t' ∧ t'.schemaId = n.id ∧ t'.name = t.name

/-- The names are those of the tables of the namespace exactly if the copies agree with the ids. -/
theorem hasNamesake_iff_hasTable {c : Catalog} {n : Namespace} :
    (∀ q, c.HasNamesake n q ↔ c.HasTable n q) ↔ c.NamesAgree n := by
  constructor
  · intro h
    refine ⟨fun t ht hid => ?_, fun t ht hname => ?_⟩
    · obtain ⟨t', -, hname, hq⟩ := (h t.qualifiedName).2 ⟨t, ht, hid, rfl⟩
      exact (Option.some.inj (congrArg QualifiedName.schema hq)).symm.trans hname
    · obtain ⟨t', ht', hid, hq⟩ := (h t.qualifiedName).1 ⟨t, ht, hname, rfl⟩
      exact ⟨t', ht', hid, congrArg QualifiedName.name hq⟩
  · rintro h q
    constructor
    · rintro ⟨t, ht, hname, rfl⟩
      obtain ⟨t', ht', hid, hsame⟩ := h.matched t ht hname
      have hcopy : t'.schemaName = t.schemaName := (h.carried t' ht' hid).trans hname.symm
      exact ⟨t', ht', hid, by rw [Table.qualifiedName, hcopy, hsame, Table.qualifiedName]⟩
    · rintro ⟨t, ht, hid, rfl⟩
      exact ⟨t, ht, h.carried t ht hid, rfl⟩

/-! ### Histories without renamed namespaces -/

/-- A change that sets a table with the name that its namespace has, and gives no namespace another
name. -/
def Change.Copies (c : Catalog) : Change → Prop
  | setNamespace n => ∀ m, c.namespaces.get? n.id = some m → m.name = n.name
  | setTable t => c.namespaces.get? t.schemaId = some ⟨t.schemaId, t.schemaName⟩
  | _ => True

instance (c : Catalog) (change : Change) : Decidable (change.Copies c) :=
  match change with
  | .setNamespace n =>
    match h : c.namespaces.get? n.id with
    | some m => decidable_of_iff (m.name = n.name) (by simp [Change.Copies, h])
    | none => isTrue (by simp [Change.Copies, h])
  | .setTable t => inferInstanceAs (Decidable (c.namespaces.get? t.schemaId = _))
  | .removeTable _ | .setView _ | .setRoutine _ | .setSynonym .. =>
    inferInstanceAs (Decidable True)

/-- Every table carries the name that the namespace with its namespace id has. -/
def Copied (c : Catalog) : Prop :=
  ∀ t, c.tables.Holds t → c.namespaces.get? t.schemaId = some ⟨t.schemaId, t.schemaName⟩

theorem Copied.apply {c : Catalog} {change : Change} (h : c.Copied) (hcopies : change.Copies c) :
    (change.apply c).Copied := by
  intro t ht
  cases change with
  | setNamespace n =>
    have hstored := h t ht
    show (c.namespaces.insert n).get? _ = _
    rw [Directory.get?_insert]
    split
    · next hid =>
      -- the namespace of the table is set again, under the name it has
      have hname : t.schemaName = n.name := hcopies _ (hid ▸ hstored)
      rw [hid, hname]
      rfl
    · exact hstored
  | setTable t' =>
    have ht : (c.tables.insert t').get? _ = _ := ht
    rw [Directory.get?_insert] at ht
    split at ht
    · obtain rfl := Option.some.inj ht
      exact hcopies
    · exact h t ht
  | removeTable id =>
    have ht : (c.tables.erase id).get? _ = _ := ht
    rw [Directory.get?_erase] at ht
    split at ht
    · cases ht
    · exact h t ht
  | setView v => exact h t ht
  | setRoutine r => exact h t ht
  | setSynonym schemaId name target => exact h t ht

theorem copied_after {history : List Change}
    (h : Throughout (fun c change => change.Copies c) history) : (after history).Copied := by
  induction history using List.reverseRecOn with
  | nil =>
    rintro t ⟨⟩
  | append_singleton history change ih =>
    obtain ⟨hhistory, hstep⟩ := throughout_append h
    rw [after_append]
    exact (ih hhistory).apply hstep

/-- Where namespaces are not renamed and have names of their own, the copies agree. -/
theorem namesAgree_after {history : List Change} (huntaken : Untaken history)
    (hcopies : Throughout (fun c change => change.Copies c) history) {n : Namespace}
    (hn : (after history).namespaces.Holds n) : (after history).NamesAgree n := by
  have hcopied := copied_after hcopies
  refine ⟨fun t ht hid => ?_, fun t ht hname => ?_⟩
  · have hstored := hcopied t ht
    rw [hid] at hstored
    exact congrArg Namespace.name (Option.some.inj (hstored.symm.trans hn))
  · have hsame : (⟨t.schemaId, t.schemaName⟩ : Namespace) = n :=
      (complete_after huntaken).namespaces.eq_of_key (hcopied t ht) hn
        (congrArg Text.foldCase hname)
    exact ⟨t, ht, congrArg Namespace.id hsame, rfl⟩

theorem mem_baseTables {c : Catalog} {q : QualifiedName} (h : c.Consistent) :
    q ∈ c.baseTables ↔ ∃ t, c.tables.Holds t ∧ t.qualifiedName = q := by
  simp only [baseTables, Directory.sorted, List.mem_map, List.mem_mergeSort, h.tables.mem_values_iff]

end Catalog

/-! ## The names of the written tables -/

/-- What is in order and has no repetitions goes up strictly. -/
theorem pairwise_eraseDups {α : Type} [BEq α] [LawfulBEq α] {R : α → α → Prop} :
    ∀ {as : List α}, as.Pairwise R → as.eraseDups.Pairwise fun a b => R a b ∧ a ≠ b
  | [], _ => by simp
  | a :: as, h => by
    rw [List.eraseDups_cons, List.pairwise_cons]
    refine ⟨fun b hb => ?_, pairwise_eraseDups (h.of_cons.filter _)⟩
    obtain ⟨hmem, hne⟩ := List.mem_filter.1 (List.mem_eraseDups.1 hb)
    exact ⟨List.rel_of_pairwise_cons h hmem, Ne.symm (by simpa using hne)⟩
termination_by as => as.length
decreasing_by exact Nat.lt_succ_of_le (List.length_filter_le _ _)

namespace Truncate

variable {c : Catalog} {n : Namespace} {q : QualifiedName}

theorem mem_tablesOf (h : c.Consistent) : q ∈ tablesOf c n ↔ c.HasNamesake n q := by
  simp only [tablesOf, List.mem_eraseDups, List.mem_mergeSort, List.mem_filter, beq_iff_eq,
    Catalog.mem_baseTables h]
  constructor
  · rintro ⟨⟨t, ht, rfl⟩, hschema⟩
    exact ⟨t, ht, Option.some.inj hschema, rfl⟩
  · rintro ⟨t, ht, hschema, rfl⟩
    exact ⟨⟨t, ht, rfl⟩, congrArg some hschema⟩

/-- All names are in one namespace, and go up in it. -/
theorem pairwise_tablesOf :
    (tablesOf c n).Pairwise fun a b => a.schema = b.schema ∧ a.name < b.name := by
  have hsorted : ((c.baseTables.filter fun name => name.schema == some n.name).mergeSort
      fun a b => a.name ≤ b.name).Pairwise fun a b => decide (a.name ≤ b.name) = true := by
    refine List.pairwise_mergeSort (fun a b d hab hbd => ?_) (fun a b => ?_) _
    · exact decide_eq_true (String.le_trans (of_decide_eq_true hab) (of_decide_eq_true hbd))
    · simpa using String.le_total a.name b.name
  have hschema : ∀ q ∈ tablesOf c n, q.schema = some n.name := by
    intro q hq
    simpa using (List.mem_filter.1 (List.mem_mergeSort.1 (List.mem_eraseDups.1 hq))).2
  refine (pairwise_eraseDups hsorted).imp_of_mem fun {a b} ha hb hab => ?_
  obtain ⟨hle, hne⟩ := hab
  have hsame : a.schema = b.schema := (hschema a ha).trans (hschema b hb).symm
  refine ⟨hsame, Std.lt_of_le_of_ne (of_decide_eq_true hle) fun hname => hne ?_⟩
  obtain ⟨schema, name⟩ := a
  obtain ⟨schema', name'⟩ := b
  exact congrArg₂ QualifiedName.mk hsame hname

/-! ## Statements -/

section

variable {env : Environment} {s t : CompilerState} {statement : TruncateStatement}

/-- The steps of a TRUNCATE that compiles, up to its target, and the tables that it writes. -/
inductive Runs (env : Environment) (s : CompilerState) : TruncateTarget → WriteSet → Prop
  | table {s₁ s₂ : CompilerState} {truncate keyword : Token} {range : Range} {t : Table}
      (htokens : s.cursor.rest = truncate :: keyword :: s₁.cursor.rest)
      (hkeyword : keyword.kind = .keyword .TABLE)
      (hread : Range.readTarget env .truncate s₁ = .ok range s₂)
      (htable : range.relation? = some (.table t)) : Runs env s (.table t) [t.qualifiedName]
  | schema {truncate keyword name : Token} {rest : List Token} {n : Namespace}
      (htokens : s.cursor.rest = truncate :: keyword :: name :: rest)
      (hkeyword : keyword.kind = .keyword .SCHEMA)
      (hn : env.catalog.namespace? name.text = some n) :
      Runs env s (.schema n) (tablesOf env.catalog n)

theorem readTable_ok {written : TruncateTarget × WriteSet} (h : readTable env s = .ok written t) :
    ∃ range table, Range.readTarget env .truncate s = .ok range t ∧
      range.relation? = some (.table table) ∧ written = (.table table, [table.qualifiedName]) := by
  simp only [readTable, bind_ok] at h
  obtain ⟨range, u, hread, h⟩ := h
  obtain ⟨m, hm, h⟩ := run_eq h
  split at hm
  · next table htable =>
    subst hm
    obtain ⟨rfl, rfl⟩ := pure_ok.1 h
    exact ⟨range, table, hread, htable, rfl⟩
  · subst hm
    exact (reject_ok.1 h).elim

theorem readSchema_ok {written : TruncateTarget × WriteSet} (h : readSchema env s = .ok written t) :
    ∃ name n, s.cursor.rest = name :: t.cursor.rest ∧ env.catalog.namespace? name.text = some n ∧
      written = (.schema n, tablesOf env.catalog n) := by
  simp only [readSchema, bind_ok] at h
  obtain ⟨name, u, hname, h⟩ := h
  obtain ⟨c, hc, rfl⟩ := lift_reader_compiler_ok.1 hname
  obtain ⟨m, hm, h⟩ := run_eq h
  split at hm
  · next n hn =>
    subst hm
    obtain ⟨rfl, rfl⟩ := pure_ok.1 h
    exact ⟨name, n, (Reader.identifier_ok hc).2, hn, rfl⟩
  · subst hm
    exact (reject_ok.1 h).elim

theorem compile_ok (h : compile env s = .ok statement t) :
    Runs env s statement.target statement.writeTables := by
  simp only [compile, readTarget, bind_ok, pure_ok] at h
  obtain ⟨truncate, u, htruncate, ⟨target, tables⟩, v, ⟨isTable, w, htable, h⟩, restart, _, -, form,
    _, -, rfl, -⟩ := h
  obtain ⟨c, hc, rfl⟩ := lift_reader_compiler_ok.1 htruncate
  obtain ⟨-, htokens⟩ := Reader.keyword_ok hc
  obtain ⟨d, hd, rfl⟩ := lift_reader_compiler_ok.1 htable
  cases isTable with
  | true =>
    simp only [↓reduceIte] at h
    obtain ⟨keyword, hkeyword, hrest⟩ := Reader.skipKeyword_true hd
    obtain ⟨range, table, hread, hrelation, hwritten⟩ := readTable_ok h
    obtain ⟨rfl, rfl⟩ := Prod.mk.inj hwritten
    exact .table (by rw [htokens, hrest]) hkeyword hread hrelation
  | false =>
    simp only [Bool.false_eq_true, ↓reduceIte, bind_ok] at h
    obtain ⟨rfl, -⟩ := Reader.skipKeyword_false hd
    obtain ⟨isSchema, x, hschema, h⟩ := h
    obtain ⟨e, he, rfl⟩ := lift_reader_compiler_ok.1 hschema
    cases isSchema with
    | true =>
      simp only [↓reduceIte] at h
      obtain ⟨keyword, hkeyword, hrest⟩ := Reader.skipKeyword_true he
      obtain ⟨name, n, hname, hn, hwritten⟩ := readSchema_ok h
      obtain ⟨rfl, rfl⟩ := Prod.mk.inj hwritten
      exact .schema (by rw [htokens, hrest, hname]) hkeyword hn
    | false =>
      simp only [Bool.false_eq_true, ↓reduceIte, bind_ok, get_ok, reject_ok, and_false,
        exists_false] at h

end

end Truncate

namespace Statement

open Catalog

/-- A text that begins with `TRUNCATE SCHEMA` and a name is compiled to a statement that writes the
tables which carry the name of the namespace, whatever the history of the catalog is. -/
theorem writeTables_truncate_schema {env : Environment} {text : String}
    {truncate schema name : Token} {rest : List Token} {n : Namespace} {s t : CompilerState}
    {statement : Statement} (htokens : tokenize text = .ok (truncate :: schema :: name :: rest))
    (htruncate : truncate.kind = .keyword .TRUNCATE) (hschema : schema.kind = .keyword .SCHEMA)
    (hn : env.catalog.namespace? name.text = some n) (h : compile env text s = .ok statement t) :
    statement.writeTables = Truncate.tablesOf env.catalog n := by
  obtain ⟨tokens, u, c, htokens', hhead, -⟩ := compile_ok h
  obtain rfl : truncate :: schema :: name :: rest = tokens := by simpa using htokens.symm.trans htokens'
  obtain ⟨x, _, hx, hrun⟩ := compileHead_ok hhead
  obtain ⟨rfl, rfl⟩ := List.cons.inj hx
  cases hrun with
  | @truncate r _ hcompile =>
    have hruns := Truncate.compile_ok hcompile
    obtain ⟨target, restart, form, tables⟩ := r
    cases hruns with
    | table htokens hkeyword =>
      obtain ⟨-, hx⟩ := List.cons.inj htokens
      obtain ⟨rfl, -⟩ := List.cons.inj hx
      rw [hschema] at hkeyword
      cases hkeyword
    | schema htokens hkeyword hn' =>
      obtain ⟨-, hx⟩ := List.cons.inj htokens
      obtain ⟨-, hx⟩ := List.cons.inj hx
      obtain ⟨rfl, -⟩ := List.cons.inj hx
      obtain rfl := Option.some.inj (hn.symm.trans hn')
      rfl
  | insert hk => simp [htruncate] at hk
  | update hk => simp [htruncate] at hk
  | delete hk => simp [htruncate] at hk
  | merge hk => simp [htruncate] at hk
  | call hk => simp [htruncate] at hk

/-- Truncating a schema writes the tables that carry its name, in order and each once. These are its
own tables exactly if the names that tables carry agree with their namespace ids, as they do when no
namespace was renamed. -/
theorem truncate_schema_writes (history : List Change) (config : Config) {text : String}
    {truncate schema name : Token} {rest : List Token} {n : Namespace} {s t : CompilerState}
    {statement : Statement} (htokens : tokenize text = .ok (truncate :: schema :: name :: rest))
    (htruncate : truncate.kind = .keyword .TRUNCATE) (hschema : schema.kind = .keyword .SCHEMA)
    (hn : (after history).namespace? name.text = some n)
    (h : compile ⟨after history, config⟩ text s = .ok statement t) :
    statement.writeTables.Pairwise (fun a b => a.schema = b.schema ∧ a.name < b.name) ∧
      (∀ q, q ∈ statement.writeTables ↔ (after history).HasNamesake n q) ∧
      ((∀ q, q ∈ statement.writeTables ↔ (after history).HasTable n q) ↔
        (after history).NamesAgree n) ∧
      (Untaken history → Throughout (fun c change => change.Copies c) history →
        ∀ q, q ∈ statement.writeTables ↔ (after history).HasTable n q) := by
  have hconsistent := consistent_after history
  have hmem : ∀ q, q ∈ statement.writeTables ↔ (after history).HasNamesake n q := by
    intro q
    rw [writeTables_truncate_schema htokens htruncate hschema hn h]
    exact Truncate.mem_tablesOf hconsistent
  have hexact : (∀ q, q ∈ statement.writeTables ↔ (after history).HasTable n q) ↔
      (after history).NamesAgree n := by
    simp only [hmem]
    exact hasNamesake_iff_hasTable
  refine ⟨?_, hmem, hexact, fun huntaken hcopies => ?_⟩
  · rw [writeTables_truncate_schema htokens htruncate hschema hn h]
    exact Truncate.pairwise_tablesOf
  · have hholds : (after history).namespaces.Holds n := (hconsistent.namespaces.of_find? hn).1
    exact hexact.2 (namesAgree_after huntaken hcopies hholds)

/-- Two namespaces, of which one is set again, with tables that come and go. -/
def stocked : List Change :=
  let sales : Namespace := ⟨1, "sales"⟩
  let archive : Namespace := ⟨2, "archive"⟩
  [.setNamespace sales, .setNamespace archive, .setTable (Banking.table 1 sales "orders" []),
    .setTable (Banking.table 2 archive "orders" []), .setTable (Banking.table 3 sales "drafts" []),
    .setTable (Banking.table 4 sales "bills" []), .removeTable 3, .setNamespace sales]

def truncateSales : String :=
  "TRUNCATE SCHEMA sales RESTART IDENTITY AND COMMIT"

set_option maxRecDepth 10000 in
theorem truncate_schema_writes_stocked :
    ∃ statement t, compile ⟨after stocked, {}⟩ truncateSales .initial = .ok statement t ∧
      (∀ q, q ∈ statement.writeTables ↔ (after stocked).HasTable ⟨1, "sales"⟩ q) ∧
      ⟨some "sales", "bills"⟩ ∈ statement.writeTables := by
  obtain ⟨statement, t, hcompile, -⟩ := exists_compile ⟨after stocked, {}⟩ truncateSales
    (fun _ => true) rfl (by decide +kernel)
  have htokens : tokenize truncateSales = .ok (⟨.keyword .TRUNCATE, .written "TRUNCATE" 1 1, rfl⟩ ::
      ⟨.keyword .SCHEMA, .written "SCHEMA" 1 10, rfl⟩ ::
      ⟨.identifier, .written "sales" 1 17, rfl⟩ :: (scanned truncateSales rfl).drop 3) :=
    tokenize_eq rfl (by decide +kernel)
  have hn : (after stocked).namespace? "sales" = some ⟨1, "sales"⟩ := by
    decide +kernel
  obtain ⟨-, -, -, hcopies⟩ := truncate_schema_writes stocked {} htokens rfl rfl hn hcompile
  have hexact := hcopies (by decide +kernel) (by decide +kernel)
  have hbills : (after stocked).tables.Holds (Banking.table 4 ⟨1, "sales"⟩ "bills" []) := by
    show (after stocked).tables.get? 4 = _
    decide +kernel
  exact ⟨statement, t, hcompile, hexact, (hexact _).2 ⟨_, hbills, rfl, rfl⟩⟩

/-- A namespace that is renamed once it has a table. -/
def renamed : List Change :=
  [.setNamespace ⟨1, "sales"⟩, .setTable (Banking.table 1 ⟨1, "sales"⟩ "orders" []),
    .setNamespace ⟨1, "trade"⟩]

set_option maxRecDepth 10000 in
/-- The table of a truncated schema is not written. -/
theorem renamed_schema_kept :
    (after renamed).namespace? "trade" = some ⟨1, "trade"⟩ ∧
      (after renamed).HasTable ⟨1, "trade"⟩ ⟨some "sales", "orders"⟩ ∧
      ∃ statement t, compile ⟨after renamed, {}⟩ "TRUNCATE SCHEMA trade AND COMMIT" .initial =
        .ok statement t ∧ statement.writeTables = [] := by
  refine ⟨by decide +kernel, ⟨Banking.table 1 ⟨1, "sales"⟩ "orders" [], ?_, rfl, rfl⟩, ?_⟩
  · show (after renamed).tables.get? 1 = _
    decide +kernel
  · obtain ⟨statement, t, hcompile, hcheck⟩ := exists_compile ⟨after renamed, {}⟩
      "TRUNCATE SCHEMA trade AND COMMIT" (fun statement => statement.writeTables.isEmpty)
      rfl (by decide +kernel)
    exact ⟨statement, t, hcompile, List.isEmpty_iff.1 hcheck⟩

end Statement

end DataChange
