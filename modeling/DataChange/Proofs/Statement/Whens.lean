import DataChange.Proofs.Catalog
import DataChange.Proofs.Copy.Clauses
import DataChange.Proofs.Token.Pieces
import DataChange.Proofs.Token.Yields
import DataChange.Statement.Merge
import Mathlib.Data.List.Induction

/-!
# WHEN clauses

The clauses of a MERGE are read one after the other, each of them as it would be read alone, since
none of its parts goes on with a THEN or a WHEN (`SpellsClause.readBranch_run`). So reading them is
adding one branch after the other, where a second one of a kind is refused
(`readBranchesWithin_run`), and what is stored is told by the list of the clauses alone
(`readBranches_outcome`).
-/

namespace DataChange

/-- Alone, a parser reads all of some tokens; `n` question marks come before and `m` are read
then. -/
def ReadsWhole {α : Type} (x : Parser α) (tokens : List Token) (n : Nat) (a : α) (m : Nat) : Prop :=
  ∃ s, x ⟨.ofTokens tokens, n⟩ = .ok a s ∧ s.cursor.rest = [] ∧ s.parameters = m

/-- What is read alone is read where more tokens follow. -/
theorem ReadsWhole.run {α : Type} {R : α → α → Prop} {x : Parser α} {tokens more : List Token}
    {a : α} {k n m : Nat} (h : ReadsWhole x tokens n a m)
    (hx : Mirrors (.readings true more) k R x x) (heq : ∀ a', R a a' → a' = a)
    (past : List Token) : ∃ past', x ⟨⟨past, tokens ++ more⟩, n⟩ = .ok a ⟨⟨past', more⟩, m⟩ := by
  obtain ⟨s, hread, hend, rfl⟩ := h
  have hpaired : (Pairing.readings true more).Paired ⟨.ofTokens tokens, n⟩
      ⟨⟨past, tokens ++ more⟩, n⟩ := ⟨Cursor.Copied.exact_iff.2 rfl, fun _ => rfl⟩
  obtain ⟨a', ⟨⟨past', rest⟩, l⟩, hread', ha, ht, -⟩ := hx hpaired hread
  obtain rfl := heq a' ha
  obtain rfl : l = s.parameters := ht.2 rfl
  have hrest : rest = s.cursor.rest ++ more := Cursor.Copied.exact_iff.1 ht.1
  rw [hend, List.nil_append] at hrest
  exact ⟨past', hrest ▸ hread'⟩

/-- A result before some tokens after some question marks, or a refusal. -/
inductive Ends {α : Type} (rest : List Token) (m : Nat) :
    Except Error α → EStateM.Result Failure Reading α → Prop
  | ok {a : α} {s : Reading} (hrest : s.cursor.rest = rest) (hm : s.parameters = m) :
      Ends rest m (.ok a) (.ok a s)
  | error (e : Error) (s : Reading) : Ends rest m (.error e) (.error (.rejected e) s)

theorem Ends.bind {α β : Type} {rest more : List Token} {l m : Nat} {r : Except Error α}
    {g : α → Except Error β} {x : Parser α} {f : α → Parser β} {s : Reading}
    (hx : Ends rest l r (x s))
    (hf : ∀ a past, Ends more m (g a) (f a ⟨⟨past, rest⟩, l⟩)) :
    Ends more m (r >>= g) ((x >>= f) s) := by
  generalize hr : x s = result at hx
  cases hx with
  | @ok a t hrest hm =>
    obtain ⟨⟨past, ts⟩, k⟩ := t
    obtain rfl : ts = rest := hrest
    obtain rfl : k = l := hm
    rw [bind_run hr]
    exact hf a past
  | error e t =>
    rw [bind_fail hr]
    exact .error e t

namespace Merge

/-! ## Clauses as they are written -/

/-- What a WHEN clause does. -/
inductive WhenAction
  | update (clause : SetClause)
  | delete
  | insert (columnMap : ColumnMap) (row : Expr)

/-- A WHEN clause, with its first word. -/
structure WhenClause where
  word : Token
  guard : Option Expr
  action : WhenAction

namespace WhenClause

def kind (c : WhenClause) : MergeBranch :=
  match c.action with
  | .update _ => .update
  | .delete => .delete
  | .insert .. => .insert

/-- The branch of an updating clause. -/
def update? (c : WhenClause) : Option UpdateBranch :=
  match c.action with
  | .update clause => some ⟨c.guard, clause⟩
  | _ => none

/-- The guard of a deleting clause. -/
def delete? (c : WhenClause) : Option (Option Expr) :=
  match c.action with
  | .delete => some c.guard
  | _ => none

/-- The branch of an inserting clause. -/
def insert? (c : WhenClause) : Option InsertBranch :=
  match c.action with
  | .insert columnMap row => some ⟨c.guard, columnMap, row⟩
  | _ => none

end WhenClause

/-- The guard before THEN, if there is one. -/
inductive SpellsGuard : List Token → Nat → Option Expr → Nat → Prop
  | absent (n : Nat) : SpellsGuard [] n none n
  | present {word : Token} {tokens : List Token} {e : Expr} {n m : Nat}
      (hword : word.kind = .keyword .AND) (h : ReadsWhole Expr.parse tokens n e m) :
      SpellsGuard (word :: tokens) n (some e) m

/-- The columns between INSERT and VALUES: a list of them, or all if there is none. -/
inductive SpellsColumns (env : Environment) (target : Range) : List Token → ColumnMap → Prop
  | all : SpellsColumns env target [] (.all target.columns.length)
  | list {tokens : List Token} {map : ColumnMap} {c : Cursor}
      (h : ColumnMap.read target env.config.dialect.oracle (.ofTokens tokens) = .ok map c)
      (hend : c.rest = []) : SpellsColumns env target tokens map

/-- The tokens of a clause after its first word. Its guard, its assignments, its columns and its row
are read alone. -/
inductive SpellsClause (env : Environment) (target : Range) :
    List Token → Nat → WhenClause → Nat → Prop
  | update {word matched then' update set : Token} {guard body : List Token} {e : Option Expr}
      {clause : SetClause} {n l m : Nat} (hhead : Spells [.MATCHED] [matched])
      (hguard : SpellsGuard guard n e l)
      (hverb : Spells [.THEN, .UPDATE, .SET] [then', update, set])
      (hbody : ReadsWhole (SetClause.read env.config.dialect.mysql target) body l clause m) :
      SpellsClause env target (matched :: (guard ++ then' :: update :: set :: body)) n
        ⟨word, e, .update clause⟩ m
  | delete {word matched then' delete : Token} {guard : List Token} {e : Option Expr} {n m : Nat}
      (hhead : Spells [.MATCHED] [matched]) (hguard : SpellsGuard guard n e m)
      (hverb : Spells [.THEN, .DELETE] [then', delete]) :
      SpellsClause env target (matched :: (guard ++ [then', delete])) n ⟨word, e, .delete⟩ m
  | insert {word not matched then' insert values : Token} {guard columns body : List Token}
      {e : Option Expr} {map : ColumnMap} {row : Expr} {n l m : Nat}
      (hhead : Spells [.NOT, .MATCHED] [not, matched]) (hguard : SpellsGuard guard n e l)
      (hverb : Spells [.THEN, .INSERT] [then', insert])
      (hcolumns : SpellsColumns env target columns map) (hvalues : Spells [.VALUES] [values])
      (hbody : ReadsWhole (readInsertRow map.length) body l row m) :
      SpellsClause env target
        (not :: matched :: (guard ++ then' :: insert :: (columns ++ values :: body))) n
        ⟨word, e, .insert map row⟩ m

/-- The tokens of some clauses, one after the other. -/
inductive SpellsClauses (env : Environment) (target : Range) :
    List Token → Nat → List WhenClause → Nat → Prop
  | nil (n : Nat) : SpellsClauses env target [] n [] n
  | cons {c : WhenClause} {cs : List WhenClause} {tokens later : List Token} {n l m : Nat}
      (hword : c.word.kind = .keyword .WHEN) (h : SpellsClause env target tokens n c l)
      (hlater : SpellsClauses env target later l cs m) :
      SpellsClauses env target (c.word :: (tokens ++ later)) n (c :: cs) m

/-! ## Branches that clauses make -/

namespace Branches

/-- Whether there is a branch of a kind. -/
def has (b : Branches) : MergeBranch → Bool
  | .update => b.update.isSome
  | .delete => b.delete.isSome
  | .insert => b.insert.isSome

theorem isEmpty_of_has {b : Branches} {k : MergeBranch} (h : b.has k = true) :
    b.isEmpty = false := by
  rw [Bool.eq_false_iff]
  intro hempty
  simp only [isEmpty, Bool.and_eq_true, Option.isNone_iff_eq_none] at hempty
  obtain ⟨⟨hupdate, hdelete⟩, hinsert⟩ := hempty
  cases k <;> simp [has, hupdate, hdelete, hinsert] at h

/-- Puts the branch of a clause. -/
def put (b : Branches) (c : WhenClause) : Branches :=
  match c.action with
  | .update clause => { b with update := some ⟨c.guard, clause⟩ }
  | .delete => { b with delete := some c.guard, deleteLeads := b.update.isNone }
  | .insert columnMap row => { b with insert := some ⟨c.guard, columnMap, row⟩ }

/-- Adds the branch of a clause, if there is none of its kind yet. -/
def add (b : Branches) (c : WhenClause) : Except Error Branches :=
  if b.has c.kind then .error ⟨.duplicateMergeBranch c.kind, c.word.fragment⟩ else .ok (b.put c)

end Branches

/-! ## Reading a clause -/

variable {env : Environment} {target : Range} {c : WhenClause} {more : List Token} {n m : Nat}

theorem SpellsGuard.run {guard : List Token} {e : Option Expr} (h : SpellsGuard guard n e m)
    {then' : Token} (hthen : then'.kind = .keyword .THEN) (ts past : List Token) :
    ∃ past', readGuard ⟨⟨past, guard ++ then' :: ts⟩, n⟩ = .ok e ⟨⟨past', then' :: ts⟩, m⟩ := by
  unfold readGuard
  cases h with
  | absent =>
    refine ⟨past, ?_⟩
    rw [List.nil_append, bind_run (lift_reader_run (Reader.skipKeyword_other hthen (by decide)))]
    rfl
  | @present word tokens e _ _ hword h =>
    have hending : Ending (then' :: ts) := .cons (by simp [hthen, endings])
    obtain ⟨past', hparse⟩ :=
      h.run (Expr.parse_mirrors hending) (fun _ he => he.eq) (word :: past)
    refine ⟨past', ?_⟩
    rw [List.cons_append, bind_run (lift_reader_run (Reader.skipKeyword_present hword))]
    exact bind_run hparse

/-- Every clause is read alike up to its THEN. -/
theorem SpellsGuard.head_ends {guard : List Token} {e : Option Expr} (h : SpellsGuard guard n e m)
    {matched then' : Token} (hmatched : matched.kind = .keyword .MATCHED)
    (hthen : then'.kind = .keyword .THEN) {ts past : List Token} {k : Nat}
    {r : Except Error Branches} {f : Option Expr → Parser Branches}
    (hf : ∀ past', Ends more k r (f e ⟨⟨past', ts⟩, m⟩)) :
    Ends more k r
      ((do
        let _ ← Reader.keyword .MATCHED
        let guard ← readGuard
        let _ ← Reader.keyword .THEN
        f guard : Parser Branches) ⟨⟨past, matched :: (guard ++ then' :: ts)⟩, n⟩) := by
  obtain ⟨past', hguard⟩ := h.run hthen ts (matched :: past)
  rw [bind_run (lift_reader_run (Reader.keyword_present hmatched)), bind_run hguard,
    bind_run (lift_reader_run (Reader.keyword_present hthen))]
  exact hf _

theorem readInsertRow_mirrors (hmore : Closing more) (degree : Nat) :
    Mirrors (.readings true more) 1 (Expr.Copied true) (readInsertRow degree)
      (readInsertRow degree) := by
  refine (Rows.read_mirrors hmore degree).bind fun r r' hr => ?_
  obtain ⟨rows, f⟩ := r
  obtain ⟨rows', f'⟩ := r'
  obtain ⟨hrows, -⟩ := hr
  rcases hrows with _ | ⟨hrow, _ | ⟨_, _⟩⟩
  · exact .reject _
  · exact .pure hrow
  · exact .reject _

/-- The columns of an insert are read before its VALUES. -/
theorem SpellsColumns.ends {columns : List Token} {map : ColumnMap}
    (h : SpellsColumns env target columns map) {values : Token}
    (hvalues : values.kind = .keyword .VALUES) {ts past : List Token} {k : Nat}
    {r : Except Error Branches} {f : ColumnMap → Parser Branches}
    (hf : ∀ past', Ends more k r (f map ⟨⟨past', values :: ts⟩, n⟩)) :
    Ends more k r
      ((do
        let columnMap ←
          if (← get).cursor.isSymbol .openParen then
            ColumnMap.read target env.config.dialect.oracle
          else pure (ColumnMap.all target.columns.length)
        f columnMap : Parser Branches) ⟨⟨past, columns ++ values :: ts⟩, n⟩) := by
  cases h with
  | all =>
    rw [bind_run (get_ok.2 ⟨rfl, rfl⟩)]
    -- VALUES follows at once, so there is no bracket and every column is listed
    simpa [Cursor.isSymbol, Cursor.peek?, Token.isSymbol, hvalues] using hf past
  | @list _ _ c hread hend =>
    have hmirrors : Mirrors (.cursors true (values :: ts)) 1 (· = ·)
        (ColumnMap.read target env.config.dialect.oracle)
        (ColumnMap.read target env.config.dialect.oracle) :=
      ColumnMap.read_mirrors (.cons (by simp [hvalues])) (.cons (by simp [hvalues])) _ _
    have hpaired : (Pairing.cursors true (values :: ts)).Paired (.ofTokens columns)
        ⟨past, columns ++ values :: ts⟩ := Cursor.Copied.exact_iff.2 rfl
    obtain ⟨_, ⟨past', rest⟩, hread', rfl, ht, -⟩ := hmirrors hpaired hread
    obtain rfl : rest = c.rest ++ values :: ts := Cursor.Copied.exact_iff.1 ht
    obtain ⟨opening, d, hopening, -⟩ := bind_ok.1 hread
    obtain ⟨hk, hopens⟩ := Reader.symbol_ok hopening
    obtain rfl : columns = opening :: d.rest := hopens
    rw [bind_run (get_ok.2 ⟨rfl, rfl⟩)]
    simp only [Cursor.isSymbol, Cursor.peek?, List.cons_append, List.head?_cons, Option.any_some,
      Token.isSymbol, hk, decide_true, ↓reduceIte]
    rw [bind_run (lift_reader_run hread'), hend]
    exact hf past'

/-- A second branch of a kind is refused before anything more is read. -/
theorem checkNew_ends {isThere : Bool} {branch : MergeBranch} {clause : Token} {b : Branches}
    {rest : List Token} {x : Parser Branches} {s : Reading} (h : Ends rest m (.ok b) (x s)) :
    Ends rest m
      (if isThere then .error ⟨.duplicateMergeBranch branch, clause.fragment⟩ else .ok b)
      ((do checkNew isThere branch clause; x) s) := by
  cases isThere with
  | true => exact .error _ _
  | false => exact h

/-- Reads a clause after its first word. -/
def readBranch (env : Environment) (target : Range) (word : Token) (b : Branches) :
    Parser Branches := do
  if ← Reader.skipKeyword .NOT then readInsert env target word b
  else readMatched env target word b

/-- A clause adds its branch, whatever follows it. -/
theorem SpellsClause.readBranch_run {tokens : List Token}
    (h : SpellsClause env target tokens n c m) (hmore : Closing more) (b : Branches)
    (past : List Token) :
    Ends more m (b.add c) (readBranch env target c.word b ⟨⟨past, tokens ++ more⟩, n⟩) := by
  cases h with
  | @update word matched then' update set guard body e clause _ l _ hhead hguard hverb hbody =>
    simp only [Spells, List.map_cons, List.map_nil, List.cons.injEq, and_true] at hhead hverb
    obtain ⟨hthen, hupdate, hset⟩ := hverb
    simp only [readBranch, List.cons_append, List.append_assoc]
    rw [bind_run (lift_reader_run (Reader.skipKeyword_other hhead (by decide)))]
    refine hguard.head_ends hhead hthen fun past₁ => ?_
    rw [bind_run (lift_reader_run (Reader.skipKeyword_present hupdate))]
    refine checkNew_ends ?_
    obtain ⟨past₂, hbody⟩ := hbody.run (SetClause.read_mirrors hmore _ _) (fun _ hc => hc.eq)
      (set :: update :: past₁)
    rw [bind_run (lift_reader_run (Reader.keyword_present hset)), bind_run hbody]
    exact .ok rfl rfl
  | @delete word matched then' delete guard e _ _ hhead hguard hverb =>
    simp only [Spells, List.map_cons, List.map_nil, List.cons.injEq, and_true] at hhead hverb
    obtain ⟨hthen, hdelete⟩ := hverb
    simp only [readBranch, List.cons_append, List.append_assoc, List.nil_append]
    rw [bind_run (lift_reader_run (Reader.skipKeyword_other hhead (by decide)))]
    refine hguard.head_ends hhead hthen fun past₁ => ?_
    rw [bind_run (lift_reader_run (Reader.skipKeyword_other hdelete (by decide)))]
    simp only [Bool.false_eq_true, ↓reduceIte]
    rw [bind_run (lift_reader_run (Reader.skipKeyword_present hdelete))]
    exact checkNew_ends (.ok rfl rfl)
  | @insert word not matched then' insert values guard columns body e map row _ l _ hhead hguard
      hverb hcolumns hvalues hbody =>
    simp only [Spells, List.map_cons, List.map_nil, List.cons.injEq, and_true] at hhead hverb hvalues
    obtain ⟨hnot, hmatched⟩ := hhead
    obtain ⟨hthen, hinsert⟩ := hverb
    simp only [readBranch, List.cons_append, List.append_assoc]
    rw [bind_run (lift_reader_run (Reader.skipKeyword_present hnot))]
    refine hguard.head_ends hmatched hthen fun past₁ => ?_
    rw [bind_run (lift_reader_run (Reader.keyword_present hinsert))]
    refine checkNew_ends ?_
    refine hcolumns.ends hvalues fun past₂ => ?_
    obtain ⟨past₃, hbody⟩ := hbody.run (readInsertRow_mirrors hmore _) (fun _ hrow => hrow.eq)
      (values :: past₂)
    rw [bind_run (lift_reader_run (Reader.keyword_present hvalues)), bind_run hbody]
    exact .ok rfl rfl

/-! ## Reading all clauses -/

/-- What comes after a clause. -/
theorem SpellsClauses.closing {cs : List WhenClause} {tokens : List Token}
    (h : SpellsClauses env target tokens n cs m) (hmore : Closing more) :
    Closing (tokens ++ more) := by
  cases h with
  | nil => exact hmore
  | cons hword => exact .cons (by simp [hword, closings])

theorem readBranchesWithin_succ (bound : Nat) (b : Branches) :
    readBranchesWithin env target (bound + 1) b =
      (do
        match ← Reader.keyword? .WHEN with
        | none => return b
        | some word => readBranch env target word b >>= readBranchesWithin env target bound) := by
  rw [readBranchesWithin]
  congr 1
  funext word
  cases word with
  | none => rfl
  | some word =>
    simp only [readBranch, bind_assoc]
    congr 1
    funext found
    cases found <;> rfl

/-- Reading clauses is adding their branches one after the other. -/
theorem readBranchesWithin_run {cs : List WhenClause} {tokens : List Token}
    (h : SpellsClauses env target tokens n cs m) (hmore : Closing more)
    (hwhen : Lacks (.keyword .WHEN) more) {bound : Nat}
    (hbound : (tokens ++ more).length ≤ bound) (b : Branches) (past : List Token) :
    Ends more m (cs.foldlM Branches.add b)
      (readBranchesWithin env target bound b ⟨⟨past, tokens ++ more⟩, n⟩) := by
  induction h generalizing bound b past with
  | nil n =>
    cases bound with
    | zero => exact .ok rfl rfl
    | succ bound =>
      have habsent : Reader.keyword? .WHEN ⟨past, more⟩ = .ok none ⟨past, more⟩ :=
        Reader.ofKind?_absent fun t _ ht => hwhen t (congrArg List.head? ht)
      rw [readBranchesWithin_succ, List.nil_append, bind_run (lift_reader_run habsent)]
      exact .ok rfl rfl
  | @cons c cs tokens later n l m hword h hlater ih =>
    obtain ⟨bound, rfl⟩ : ∃ k, bound = k + 1 := ⟨bound - 1, by simp at hbound; omega⟩
    have hlength : (later ++ more).length ≤ bound := by simp at hbound ⊢; omega
    rw [readBranchesWithin_succ, List.cons_append, List.append_assoc,
      bind_run (lift_reader_run (Reader.ofKind?_present hword)), List.foldlM_cons]
    have hbranch := h.readBranch_run (hlater.closing hmore) b (c.word :: past)
    exact hbranch.bind fun b' past' => ih hlength b' past'

/-! ## What is stored -/

/-- The branches are those of some clauses. -/
structure MadeOf (b : Branches) (cs : List WhenClause) : Prop where
  update : b.update.toList = cs.filterMap WhenClause.update?
  delete : b.delete.toList = cs.filterMap WhenClause.delete?
  insert : b.insert.toList = cs.filterMap WhenClause.insert?
  leads : b.deleteLeads = true ↔ ∃ before d after, cs = before ++ d :: after ∧ d.kind = .delete ∧
    .update ∉ before.map WhenClause.kind

/-- A deleting clause is asked before an updating one: there is none of these, or it comes later, or
it has no guard. -/
def DeletesFirst (cs : List WhenClause) : Prop :=
  ∃ before d after, cs = before ++ d :: after ∧ d.kind = .delete ∧
    (.update ∉ cs.map WhenClause.kind ∨ .update ∈ after.map WhenClause.kind ∨
      ∀ u ∈ cs, u.kind = .update → u.guard = none)

namespace WhenClause

theorem isSome_update? : c.update?.isSome = true ↔ c.kind = .update := by
  cases h : c.action <;> simp [update?, kind, h]

theorem isSome_delete? : c.delete?.isSome = true ↔ c.kind = .delete := by
  cases h : c.action <;> simp [delete?, kind, h]

theorem isSome_insert? : c.insert?.isSome = true ↔ c.kind = .insert := by
  cases h : c.action <;> simp [insert?, kind, h]

/-- A kind of clause stands in a list if what is kept of that kind is not empty. -/
theorem mem_kinds {α : Type} {part : WhenClause → Option α} {k : MergeBranch}
    (hpart : ∀ {c : WhenClause}, (part c).isSome = true ↔ c.kind = k) {o : Option α}
    {cs : List WhenClause} (ho : o.toList = cs.filterMap part) :
    o.isSome = true ↔ k ∈ cs.map kind := by
  have hmem : o.isSome = true ↔ ∃ a, a ∈ o.toList := by cases o <;> simp
  rw [hmem, ho]
  simp only [List.mem_filterMap, List.mem_map, ← hpart, Option.isSome_iff_exists]
  exact ⟨fun ⟨a, c, hc, ha⟩ => ⟨c, hc, a, ha⟩, fun ⟨c, hc, a, ha⟩ => ⟨a, c, hc, ha⟩⟩

end WhenClause

namespace MadeOf

variable {b b' : Branches} {cs : List WhenClause}

theorem empty : MadeOf {} [] :=
  ⟨rfl, rfl, rfl, by simp⟩

theorem has_iff (h : MadeOf b cs) (k : MergeBranch) :
    b.has k = true ↔ k ∈ cs.map WhenClause.kind := by
  cases k with
  | update => exact WhenClause.mem_kinds WhenClause.isSome_update? h.update
  | delete => exact WhenClause.mem_kinds WhenClause.isSome_delete? h.delete
  | insert => exact WhenClause.mem_kinds WhenClause.isSome_insert? h.insert

/-- A clause among some and a last one is the last or one of the others. -/
theorem split_last {before after : List WhenClause} {d : WhenClause}
    (h : cs ++ [c] = before ++ d :: after) :
    (cs = before ∧ c = d) ∨ ∃ after', cs = before ++ d :: after' := by
  rcases List.eq_nil_or_concat after with rfl | ⟨after, last, rfl⟩
  · obtain ⟨hbefore, hlast⟩ := List.append_inj' h rfl
    exact .inl ⟨hbefore, by simpa using hlast⟩
  · rw [List.concat_eq_append, ← List.cons_append, ← List.append_assoc] at h
    exact .inr ⟨after, (List.append_inj' h rfl).1⟩

/-- A further clause that does not delete keeps the order of those before it. -/
theorem leads_append (h : MadeOf b cs) (hc : c.kind ≠ .delete) :
    b.deleteLeads = true ↔ ∃ before d after, cs ++ [c] = before ++ d :: after ∧
      d.kind = .delete ∧ .update ∉ before.map WhenClause.kind := by
  rw [h.leads]
  constructor
  · rintro ⟨before, d, after, rfl, hd, hbefore⟩
    exact ⟨before, d, after ++ [c], by simp, hd, hbefore⟩
  · rintro ⟨before, d, after, hsplit, hd, hbefore⟩
    rcases split_last hsplit with ⟨-, rfl⟩ | ⟨after', hsplit⟩
    · exact absurd hd hc
    · exact ⟨before, d, after', hsplit, hd, hbefore⟩

/-- The first clause that deletes leads unless there was an updating one. -/
theorem leads_delete (h : MadeOf b cs) (hnew : b.has .delete = false) (hc : c.kind = .delete) :
    b.update.isNone = true ↔ ∃ before d after, cs ++ [c] = before ++ d :: after ∧
      d.kind = .delete ∧ .update ∉ before.map WhenClause.kind := by
  have hupdate : b.update.isNone = true ↔ .update ∉ cs.map WhenClause.kind := by
    rw [← h.has_iff .update]
    simp [Branches.has]
  rw [hupdate]
  constructor
  · exact fun hnone => ⟨cs, c, [], rfl, hc, hnone⟩
  · rintro ⟨before, d, after, hsplit, hd, hbefore⟩
    rcases split_last hsplit with ⟨rfl, -⟩ | ⟨after', rfl⟩
    · exact hbefore
    · have hthere : b.has .delete = true := (h.has_iff .delete).2 (by simp [hd])
      simp [hnew] at hthere

theorem put (h : MadeOf b cs) (hnew : b.has c.kind = false) : MadeOf (b.put c) (cs ++ [c]) := by
  obtain ⟨word, guard, action⟩ := c
  cases action with
  | update clause =>
    -- a clause of a new kind finds its place empty, and the other two places stay as they are
    have hnone : b.update.toList = [] := by simpa [Branches.has, WhenClause.kind] using hnew
    refine ⟨?_, ?_, ?_, h.leads_append (by simp [WhenClause.kind])⟩
    · rw [List.filterMap_append, ← h.update, hnone]
      rfl
    · exact h.delete.trans (by simp [WhenClause.delete?])
    · exact h.insert.trans (by simp [WhenClause.insert?])
  | delete =>
    have hnone : b.delete.toList = [] := by simpa [Branches.has, WhenClause.kind] using hnew
    refine ⟨?_, ?_, ?_, h.leads_delete hnew rfl⟩
    · exact h.update.trans (by simp [WhenClause.update?])
    · rw [List.filterMap_append, ← h.delete, hnone]
      rfl
    · exact h.insert.trans (by simp [WhenClause.insert?])
  | insert columnMap row =>
    have hnone : b.insert.toList = [] := by simpa [Branches.has, WhenClause.kind] using hnew
    refine ⟨?_, ?_, ?_, h.leads_append (by simp [WhenClause.kind])⟩
    · exact h.update.trans (by simp [WhenClause.update?])
    · exact h.delete.trans (by simp [WhenClause.delete?])
    · rw [List.filterMap_append, ← h.insert, hnone]
      rfl

/-- Clauses of different kinds are added to branches without these kinds. -/
theorem addAll (h : MadeOf b cs) {later : List WhenClause}
    (hnodup : (later.map WhenClause.kind).Nodup)
    (hnew : ∀ c ∈ later, c.kind ∉ cs.map WhenClause.kind) :
    ∃ b', later.foldlM Branches.add b = .ok b' ∧ MadeOf b' (cs ++ later) := by
  induction later generalizing b cs with
  | nil => exact ⟨b, rfl, by rwa [List.append_nil]⟩
  | cons c later ih =>
    have hc : b.has c.kind = false := by
      rw [Bool.eq_false_iff, ne_eq, h.has_iff]
      exact hnew c (by simp)
    obtain ⟨hfirst, hnodup⟩ := List.nodup_cons.1 hnodup
    have hlater : ∀ d ∈ later, d.kind ∉ (cs ++ [c]).map WhenClause.kind := by
      intro d hd hmem
      simp only [List.map_append, List.mem_append, List.map_cons, List.map_nil,
        List.mem_singleton] at hmem
      rcases hmem with hmem | heq
      · exact hnew d (by simp [hd]) hmem
      · exact hfirst (heq ▸ List.mem_map_of_mem hd)
    obtain ⟨b', hb', hmade⟩ := ih (h.put hc) hnodup hlater
    refine ⟨b', ?_, by simpa using hmade⟩
    rw [List.foldlM_cons, Branches.add, hc]
    exact hb'

/-- A clause of a kind that was there is refused. -/
theorem add_refused (h : MadeOf b cs) (hc : c.kind ∈ cs.map WhenClause.kind) :
    b.add c = .error ⟨.duplicateMergeBranch c.kind, c.word.fragment⟩ := by
  rw [Branches.add, (h.has_iff c.kind).2 hc]
  rfl

/-- The updating branch has a guard if the updating clause has one. -/
theorem guard_iff (h : MadeOf b cs) : b.update.all (·.guard.isNone) = true ↔
    ∀ u ∈ cs, u.kind = .update → u.guard = none := by
  have hmem : ∀ branch, branch ∈ b.update ↔ ∃ u ∈ cs, u.update? = some branch := by
    intro branch
    rw [← List.mem_filterMap, ← h.update, Option.mem_toList, Option.mem_def]
  have hguard : ∀ {u : WhenClause} {branch : UpdateBranch}, u.update? = some branch →
      branch.guard = u.guard := by
    intro u branch hu
    unfold WhenClause.update? at hu
    split at hu <;> cases hu
    rfl
  rw [Option.all_eq_true]
  constructor
  · intro hall u hu hkind
    obtain ⟨branch, hbranch⟩ := Option.isSome_iff_exists.1 (WhenClause.isSome_update?.2 hkind)
    simpa [hguard hbranch] using hall branch ((hmem branch).2 ⟨u, hu, hbranch⟩)
  · intro hall branch hbranch
    obtain ⟨u, hu, hu'⟩ := (hmem branch).1 hbranch
    have hkind : u.kind = .update := WhenClause.isSome_update?.1 (by simp [hu'])
    simp [hguard hu', hall u hu hkind]

/-- Whether the deleting clause is asked first is told by the clauses. -/
theorem deleteFirst_iff (h : MadeOf b cs) (hnodup : (cs.map WhenClause.kind).Nodup) :
    b.deleteFirst = true ↔ DeletesFirst cs := by
  have hdelete : b.delete.isSome = true ↔ .delete ∈ cs.map WhenClause.kind := h.has_iff .delete
  rw [Branches.deleteFirst, Bool.and_eq_true, Bool.or_eq_true, hdelete, h.leads, h.guard_iff]
  constructor
  · rintro ⟨hmem, ⟨before, d, after, rfl, hd, hbefore⟩ | hguard⟩
    · refine ⟨before, d, after, rfl, hd, ?_⟩
      by_cases hafter : .update ∈ after.map WhenClause.kind
      · exact .inr (.inl hafter)
      · exact .inl (by simp [hd, hafter, hbefore])
    · obtain ⟨d, hmem, hd⟩ := List.mem_map.1 hmem
      obtain ⟨before, after, rfl⟩ := List.append_of_mem hmem
      exact ⟨before, d, after, rfl, hd, .inr (.inr hguard)⟩
  · rintro ⟨before, d, after, rfl, hd, horder⟩
    refine ⟨List.mem_map.2 ⟨d, by simp, hd⟩, ?_⟩
    rcases horder with hnone | hafter | hguard
    · exact .inl ⟨before, d, after, rfl, hd, fun hbefore => hnone (by simp [hbefore])⟩
    · refine .inl ⟨before, d, after, rfl, hd, fun hbefore => ?_⟩
      rw [List.map_append, List.nodup_append] at hnodup
      exact hnodup.2.2 _ hbefore _ (List.mem_cons_of_mem _ hafter) rfl
    · exact .inr hguard

end MadeOf

/-! ## All clauses -/

/-- Where kinds stand twice there is a first clause that repeats one. -/
theorem exists_repeated {cs : List WhenClause} (h : ¬ (cs.map WhenClause.kind).Nodup) :
    ∃ before c after, cs = before ++ c :: after ∧ (before.map WhenClause.kind).Nodup ∧
      c.kind ∈ before.map WhenClause.kind := by
  induction cs using List.reverseRecOn with
  | nil => simp at h
  | append_singleton cs c ih =>
    by_cases hnodup : (cs.map WhenClause.kind).Nodup
    · refine ⟨cs, c, [], rfl, hnodup, by_contra fun hc => h ?_⟩
      rw [List.map_append]
      refine List.nodup_append.2 ⟨hnodup, by simp, fun k hk k' hk' heq => hc ?_⟩
      rwa [← List.mem_singleton.1 hk', ← heq]
    · obtain ⟨before, d, after, rfl, hbefore⟩ := ih hnodup
      exact ⟨before, d, after ++ [c], by simp, hbefore⟩

theorem remaining_run (s : Reading) :
    (liftM remaining : Parser Nat) s = .ok s.cursor.rest.length s := rfl

/-- Without a clause nothing is read and WHEN is wanted. -/
theorem readBranches_none {s : Reading} (h : Lacks (.keyword .WHEN) s.cursor.rest) :
    readBranches env target s =
      .error (.rejected (.unexpected (.keyword .WHEN) s.cursor.fragment)) s := by
  have habsent : Reader.keyword? .WHEN s.cursor = .ok none s.cursor :=
    Reader.ofKind?_absent fun t _ ht => h t (congrArg List.head? ht)
  have hloop : ∀ bound, readBranchesWithin env target bound {} s = .ok {} s := by
    intro bound
    cases bound with
    | zero => rfl
    | succ bound =>
      rw [readBranchesWithin, bind_run (lift_reader_run habsent)]
      rfl
  rw [readBranches, bind_run (remaining_run _), bind_run (hloop _)]
  rfl

section

variable {cs : List WhenClause} {tokens rest : List Token} {s : Reading}

/-- Clauses of different kinds make branches. -/
theorem readBranches_made (hspelled : SpellsClauses env target tokens s.parameters cs m)
    (hrest : Closing rest) (hwhen : Lacks (.keyword .WHEN) rest)
    (hs : s.cursor.rest = tokens ++ rest) (hsome : cs ≠ [])
    (hnodup : (cs.map WhenClause.kind).Nodup) :
    ∃ b t, readBranches env target s = .ok b t ∧ t.cursor.rest = rest ∧ t.parameters = m ∧
      MadeOf b cs := by
  obtain ⟨⟨past, ts⟩, n⟩ := s
  obtain rfl : ts = tokens ++ rest := hs
  obtain ⟨b, hfold, hmade⟩ := MadeOf.empty.addAll hnodup fun c _ => List.not_mem_nil
  rw [List.nil_append] at hmade
  have hloop := readBranchesWithin_run hspelled hrest hwhen (Nat.le_refl _) {} past
  rw [hfold] at hloop
  generalize hread : readBranchesWithin env target _ {} _ = result at hloop
  cases hloop with
  | @ok _ t ht hm =>
    obtain ⟨c, hc⟩ := List.exists_mem_of_ne_nil _ hsome
    have hthere : b.has c.kind = true := (hmade.has_iff c.kind).2 (List.mem_map_of_mem hc)
    refine ⟨b, t, ?_, ht, hm, hmade⟩
    rw [readBranches, bind_run (remaining_run _), bind_run hread, Branches.isEmpty_of_has hthere]
    rfl

/-- A clause of a kind that was there is refused, whatever follows it. -/
theorem readBranches_repeated (hspelled : SpellsClauses env target tokens s.parameters cs m)
    (hrest : Closing rest) (hwhen : Lacks (.keyword .WHEN) rest)
    (hs : s.cursor.rest = tokens ++ rest) {before after : List WhenClause}
    (hcs : cs = before ++ c :: after) (hnodup : (before.map WhenClause.kind).Nodup)
    (hc : c.kind ∈ before.map WhenClause.kind) : ∃ t, readBranches env target s =
      .error (.rejected ⟨.duplicateMergeBranch c.kind, c.word.fragment⟩) t := by
  obtain ⟨⟨past, ts⟩, n⟩ := s
  obtain rfl : ts = tokens ++ rest := hs
  obtain ⟨b, hfold, hmade⟩ := MadeOf.empty.addAll hnodup fun c _ => List.not_mem_nil
  have hrefused : cs.foldlM Branches.add {} =
      .error ⟨.duplicateMergeBranch c.kind, c.word.fragment⟩ := by
    rw [hcs, List.foldlM_append, hfold]
    show (b.add c >>= fun b => after.foldlM Branches.add b) = _
    rw [hmade.add_refused hc]
    rfl
  have hloop := readBranchesWithin_run hspelled hrest hwhen (Nat.le_refl _) {} past
  rw [hrefused] at hloop
  generalize hread : readBranchesWithin env target _ {} _ = result at hloop
  cases hloop with
  | error _ t =>
    refine ⟨t, ?_⟩
    rw [readBranches, bind_run (remaining_run _)]
    exact bind_fail hread

/-- What reading WHEN clauses comes to is told by the clauses alone: there is at least one of them
and no kind stands twice, or else the failure is at the end or at the first clause of a kind that was
there. -/
theorem readBranches_outcome (hspelled : SpellsClauses env target tokens s.parameters cs m)
    (hrest : Closing rest) (hwhen : Lacks (.keyword .WHEN) rest)
    (hs : s.cursor.rest = tokens ++ rest) :
    ((∃ b t, readBranches env target s = .ok b t) ↔
      cs ≠ [] ∧ (cs.map WhenClause.kind).Nodup) ∧
    (∀ b t, readBranches env target s = .ok b t →
      t.cursor.rest = rest ∧ t.parameters = m ∧
      b.update.toList = cs.filterMap WhenClause.update? ∧
      b.delete.toList = cs.filterMap WhenClause.delete? ∧
      b.insert.toList = cs.filterMap WhenClause.insert? ∧
      (b.deleteFirst = true ↔ DeletesFirst cs)) ∧
    (cs = [] → ∃ t, readBranches env target s =
      .error (.rejected (.unexpected (.keyword .WHEN) s.cursor.fragment)) t) ∧
    (¬ (cs.map WhenClause.kind).Nodup → ∃ before c after t, cs = before ++ c :: after ∧
      (before.map WhenClause.kind).Nodup ∧ c.kind ∈ before.map WhenClause.kind ∧
      readBranches env target s =
        .error (.rejected ⟨.duplicateMergeBranch c.kind, c.word.fragment⟩) t) := by
  have hnone : cs = [] → readBranches env target s =
      .error (.rejected (.unexpected (.keyword .WHEN) s.cursor.fragment)) s := by
    rintro rfl
    cases hspelled
    exact readBranches_none (hs ▸ hwhen)
  have hrepeated : ¬ (cs.map WhenClause.kind).Nodup → ∃ before c after t,
      cs = before ++ c :: after ∧ (before.map WhenClause.kind).Nodup ∧
      c.kind ∈ before.map WhenClause.kind ∧ readBranches env target s =
        .error (.rejected ⟨.duplicateMergeBranch c.kind, c.word.fragment⟩) t := by
    intro hnodup
    obtain ⟨before, c, after, hcs, hbefore, hc⟩ := exists_repeated hnodup
    obtain ⟨t, ht⟩ := readBranches_repeated hspelled hrest hwhen hs hcs hbefore hc
    exact ⟨before, c, after, t, hcs, hbefore, hc, ht⟩
  -- either fault of the clauses has an error of its own, so a run without one has neither
  have hvalid : ∀ b t, readBranches env target s = .ok b t →
      cs ≠ [] ∧ (cs.map WhenClause.kind).Nodup := by
    intro b t hread
    refine ⟨fun hcs => ?_, by_contra fun hnodup => ?_⟩
    · cases (hnone hcs).symm.trans hread
    · obtain ⟨_, _, _, _, -, -, -, ht⟩ := hrepeated hnodup
      cases ht.symm.trans hread
  refine ⟨⟨fun ⟨b, t, hread⟩ => hvalid b t hread, fun ⟨hsome, hnodup⟩ => ?_⟩, ?_,
    fun hcs => ⟨s, hnone hcs⟩, hrepeated⟩
  · obtain ⟨b, t, hread, -⟩ := readBranches_made hspelled hrest hwhen hs hsome hnodup
    exact ⟨b, t, hread⟩
  · intro b t hread
    obtain ⟨hsome, hnodup⟩ := hvalid b t hread
    obtain ⟨b', t', hread', ht, hm, hmade⟩ :=
      readBranches_made hspelled hrest hwhen hs hsome hnodup
    cases hread'.symm.trans hread
    exact ⟨ht, hm, hmade.update, hmade.delete, hmade.insert, hmade.deleteFirst_iff hnodup⟩

end

/-! A clause that deletes, before a guarded one that updates. -/

/-- A table with the columns `id`, `a` and `b`. -/
def mergedRange : Range :=
  .ofRelation 0 (.table (Catalog.Banking.table 2 Catalog.Banking.publicSchema "t"
    (Catalog.Banking.integerColumns ["id", "a", "b"]))) none .absent

def guardTokens : List Token :=
  [⟨.parameter, .written "?" 1 43, rfl⟩]

def assignmentTokens : List Token :=
  [⟨.identifier, .written "a" 1 61, rfl⟩, ⟨.symbol .equal, .written "=" 1 63, rfl⟩,
    ⟨.parameter, .written "?" 1 65, rfl⟩]

def deletingTokens : List Token :=
  [⟨.keyword .MATCHED, .written "MATCHED" 1 6, rfl⟩, ⟨.keyword .THEN, .written "THEN" 1 14, rfl⟩,
    ⟨.keyword .DELETE, .written "DELETE" 1 19, rfl⟩]

def updatingTokens : List Token :=
  ⟨.keyword .MATCHED, .written "MATCHED" 1 31, rfl⟩ ::
    (⟨.keyword .AND, .written "AND" 1 39, rfl⟩ :: guardTokens ++
      ⟨.keyword .THEN, .written "THEN" 1 45, rfl⟩ ::
        ⟨.keyword .UPDATE, .written "UPDATE" 1 50, rfl⟩ ::
          ⟨.keyword .SET, .written "SET" 1 57, rfl⟩ :: assignmentTokens)

/-- `WHEN MATCHED THEN DELETE WHEN MATCHED AND ? THEN UPDATE SET a = ?`. -/
def whenTokens : List Token :=
  ⟨.keyword .WHEN, .written "WHEN" 1 1, rfl⟩ :: (deletingTokens ++
    ⟨.keyword .WHEN, .written "WHEN" 1 26, rfl⟩ :: (updatingTokens ++ []))

def deletingClause : WhenClause :=
  ⟨⟨.keyword .WHEN, .written "WHEN" 1 1, rfl⟩, none, .delete⟩

def updatingClause (guard : Expr) (clause : SetClause) : WhenClause :=
  ⟨⟨.keyword .WHEN, .written "WHEN" 1 26, rfl⟩, some guard, .update clause⟩

/-- Whether a parser reads all of some tokens can be computed. -/
theorem exists_readsWhole {α : Type} {x : Parser α} {tokens : List Token}
    (h : (match x ⟨.ofTokens tokens, n⟩ with
      | .ok _ s => s.cursor.rest.isEmpty && s.parameters == m
      | .error _ _ => false) = true) : ∃ a, ReadsWhole x tokens n a m := by
  split at h
  · next a s hread =>
    rw [Bool.and_eq_true, List.isEmpty_iff, beq_iff_eq] at h
    exact ⟨a, s, hread, h.1, h.2⟩
  · cases h

theorem exists_whenClauses : ∃ guard clause, SpellsClauses .bank mergedRange whenTokens 0
    [deletingClause, updatingClause guard clause] 2 := by
  obtain ⟨guard, hguard⟩ : ∃ e, ReadsWhole Expr.parse guardTokens 0 e 1 :=
    exists_readsWhole (by decide +kernel)
  obtain ⟨clause, hbody⟩ : ∃ clause,
      ReadsWhole (SetClause.read false mergedRange) assignmentTokens 1 clause 2 :=
    exists_readsWhole (by decide +kernel)
  have hdelete : SpellsClause .bank mergedRange deletingTokens 0 deletingClause 0 :=
    .delete (by decide) (.absent 0) (by decide)
  have hupdate : SpellsClause .bank mergedRange updatingTokens 0 (updatingClause guard clause) 2 :=
    .update (by decide) (.present rfl hguard) (by decide) hbody
  exact ⟨guard, clause, .cons rfl hdelete (.cons rfl hupdate (.nil 2))⟩

/-- The branches of both are there, and the guard of the first is asked first. -/
theorem readBranches_outcome_deletes : Closing [] ∧ Lacks (.keyword .WHEN) [] ∧
    ∃ b t, readBranches .bank mergedRange ⟨.ofTokens whenTokens, 0⟩ = .ok b t ∧
      t.parameters = 2 ∧ b.deleteFirst = true := by
  obtain ⟨guard, clause, hspelled⟩ := exists_whenClauses
  obtain ⟨hreads, hstored, -⟩ := readBranches_outcome (s := ⟨.ofTokens whenTokens, 0⟩) hspelled
    closing_nil lacks_nil (List.append_nil _).symm
  obtain ⟨b, t, hread⟩ := hreads.2 ⟨by simp, by simp [deletingClause, updatingClause, WhenClause.kind]⟩
  obtain ⟨-, ht, -, -, -, hfirst⟩ := hstored b t hread
  refine ⟨closing_nil, lacks_nil, b, t, hread, ht, hfirst.2 ?_⟩
  exact ⟨[], deletingClause, [updatingClause guard clause], rfl, rfl,
    .inr (.inl (.head _))⟩

end Merge

end DataChange
