import DataChange.Proofs.Marker.Parsed
import DataChange.Proofs.Statement.BaseTable
import DataChange.Proofs.Wider.Steps

/-!
# Clauses under settings that accept more

Each clause that asks for a dialect reads with the dialect what it reads without. Where the dialect
lets a keyword be skipped, no clause of the standard goes on with that keyword: INTO follows INSERT,
and no value of a SET clause begins with VALUES (`Expr.Reads.beforeValue`). Elsewhere the dialect
only lets pass what is refused without it.
-/

namespace DataChange

section

variable {ε σ α : Type} {P : α → σ → Prop}

/-- A switch that may be turned on matters only where it is. -/
theorem PersistsIf.switch {x : Bool → EStateM ε σ α} {b b' : Bool} (hb : b = true → b' = true)
    (h : PersistsIf P Eq (x false) (x true)) : PersistsIf P Eq (x b) (x b') := by
  cases b with
  | true =>
    rw [hb rfl]
    exact (PersistsIf.same _).when _
  | false =>
    cases b' with
    | true => exact h
    | false => exact (PersistsIf.same _).when _

end

/-! ## Columns -/

namespace TargetColumn

theorem checkQualifier_mono {range : Range} {qualifier : Option Token} {name : Token}
    (h : checkQualifier range false qualifier name = .ok ()) :
    checkQualifier range true qualifier name = .ok () := by
  cases qualifier with
  | none => rfl
  | some q => cases h

theorem read_persists (range : Range) : Persists Eq (read range false) (read range true) := by
  refine (PersistsIf.same _).bind fun (qualifier, name) => ?_
  dsimp only
  cases h : checkQualifier range false qualifier name with
  | error e => exact .throw _
  | ok _ =>
    simp only [checkQualifier_mono h]
    exact .same _

end TargetColumn

theorem ColumnMap.read_persists (range : Range) {oracle oracle' : Bool}
    (h : oracle = true → oracle' = true) :
    Persists Eq (ColumnMap.read range oracle) (ColumnMap.read range oracle') := by
  refine .switch h ((PersistsIf.same _).bind fun _ => .bind ?_ fun _ => .same _)
  exact .commaSteps (fun _ => .same _)
    (fun _ => (TargetColumn.read_persists range).bind fun _ => .same _) _

theorem Insert.readColumns_persists (range : Range) {oracle oracle' : Bool}
    (h : oracle = true → oracle' = true) :
    Persists Eq (Insert.readColumns oracle range) (Insert.readColumns oracle' range) :=
  (PersistsIf.same _).bind fun _ => .ite (ColumnMap.read_persists range h) (.same _)

/-! ## INSERT -/

namespace Reader

variable {c d : Cursor} {t : Token} {k : Keyword}

/-- A keyword that is wanted is found where it may be missing. -/
theorem keyword?_of_keyword (h : keyword k c = .ok t d) : keyword? k c = .ok (some t) d := by
  obtain ⟨hkind, hrest⟩ := keyword_ok h
  obtain ⟨past, rest⟩ := c
  obtain rfl : rest = t :: d.rest := hrest
  obtain ⟨-, hd⟩ := EStateM.Result.ok.inj ((keyword_present hkind).symm.trans h)
  exact (ofKind?_present hkind).trans (by rw [hd])

/-- A keyword that is wanted is not another one. -/
theorem skipKeyword_of_keyword {k' : Keyword} (h : keyword k c = .ok t d) (hk : k ≠ k') :
    skipKeyword k' c = .ok false c := by
  obtain ⟨hkind, hrest⟩ := keyword_ok h
  refine skipKeyword_absent fun x xs hx => ?_
  obtain ⟨rfl, -⟩ := List.cons.inj (hrest.symm.trans hx)
  simpa [hkind] using hk

end Reader

namespace Insert

theorem readInto_persists (mode : InsertMode) :
    Persists Eq (do let _ ← Reader.keyword .INTO; return mode : Reader InsertMode)
      (do let _ ← Reader.keyword? .INTO; return mode) := by
  rintro c _ a d rfl h -
  obtain ⟨into, d, hinto, h⟩ := bind_ok.1 h
  exact ⟨_, bind_ok.2 ⟨some into, d, Reader.keyword?_of_keyword hinto, h⟩, rfl⟩

theorem readMode_persists {mysql mysql' : Bool} (h : mysql = true → mysql' = true) :
    Persists Eq (readMode mysql) (readMode mysql') := by
  refine .switch h ((PersistsIf.same _).bind fun replaced => ?_)
  cases replaced with
  | true => exact (PersistsIf.same _).bind readInto_persists
  | false =>
    refine (PersistsIf.same _).bind fun _ => ?_
    rintro c _ a d rfl h -
    obtain ⟨_, _, hplain, h⟩ := bind_ok.1 h
    obtain ⟨rfl, rfl⟩ := pure_ok.1 hplain
    obtain ⟨d', hd', rfl⟩ := readInto_persists _ rfl h trivial
    obtain ⟨into, _, hinto, -⟩ := bind_ok.1 h
    exact ⟨_, bind_ok.2 ⟨false, c, Reader.skipKeyword_of_keyword hinto (by decide), hd'⟩, rfl⟩

/-- Where the rows or a query follow, VALUE is not skipped in the place of VALUES. -/
theorem skipValues_persists {mysql mysql' : Bool} (h : mysql = true → mysql' = true) :
    PersistsIf (fun found c => found = true ∨ isQueryStart c = true) Eq (skipValues mysql)
      (skipValues mysql') := by
  refine .switch h (.bind (.same _) fun found => .ite (.pure _) ?_)
  rintro c _ found d rfl hfound hrest
  obtain ⟨rfl, rfl⟩ := pure_ok.1 hfound
  have hquery : isQueryStart c = true := hrest.resolve_left Bool.false_ne_true
  refine ⟨c, Reader.skipKeyword_absent fun x xs hx hvalue => ?_, rfl⟩
  simp [isQueryStart, Cursor.isSymbol, Cursor.isKeyword, Cursor.peek?, Token.isSymbol,
    Token.isKeyword, hx, hvalue] at hquery

end Insert

/-! ## SET -/

namespace Expr

variable {s t : Reading} {x : Token}

/-- The state does not stand at VALUES. -/
def BeforeValue (s : Reading) : Prop :=
  ∀ x xs, s.cursor.rest = x :: xs → x.kind ≠ .keyword .VALUES

theorem BeforeValue.of_takes (hx : s.Takes x t) (hk : x.kind ≠ .keyword .VALUES) :
    BeforeValue s := by
  intro y ys hy
  obtain ⟨rfl, -⟩ := List.cons.inj (hx.rest.symm.trans hy)
  exact hk

/-- No expression begins with VALUES, as it would start a query. -/
theorem Reads.beforeValue {e : Expr} (h : Reads s e t) : BeforeValue s := by
  intro y ys hy hvalues
  obtain ⟨xs, ⟨z, rest, rfl, hz⟩, hscan⟩ := h.scan
  obtain ⟨rfl, -⟩ := List.cons.inj (hscan.rest.symm.trans hy)
  simp [Token.startsQuery, Token.isKeyword, hvalues] at hz

end Expr

namespace SetClause

theorem readRow_beforeValue {degree : Nat} {s t : Reading} {e : Expr}
    (h : readRow degree s = .ok e t) : Expr.BeforeValue s := by
  obtain ⟨opening, u, hopening, -⟩ := bind_ok.1 h
  obtain ⟨htakes, hkind⟩ := Reading.symbol_takes hopening
  exact .of_takes htakes (by simp [hkind])

/-- A value that is no query, where there is no VALUES to skip. -/
theorem readScalars_persists (degree : Nat) :
    Persists Eq (if degree > 1 then readRow degree else Expr.parse)
      (do
        if ← Reader.skipKeyword .VALUES then return (← readRow degree).qualifyFree newRowName
        else if degree > 1 then readRow degree
        else Expr.parse) := by
  rintro s _ e t rfl h -
  have hfirst : Expr.BeforeValue s := by
    split at h
    · exact readRow_beforeValue h
    · exact (Expr.parse_reads _ _ _ h).beforeValue
  have hskip : (liftM (Reader.skipKeyword .VALUES) : Parser Bool) s = .ok false s :=
    lift_reader_run (Reader.skipKeyword_absent hfirst)
  exact ⟨t, bind_ok.2 ⟨false, s, hskip, h⟩, rfl⟩

theorem readValue_persists (group : Bool) (degree : Nat) :
    Persists Eq (readValue false group degree) (readValue true group degree) := by
  refine (PersistsIf.same _).bind fun s => ?_
  dsimp only
  split
  · exact .same _
  · exact readScalars_persists degree

theorem addAssignment_persists (range : Range) (clause : SetClause) :
    Persists Eq (addAssignment false range clause) (addAssignment true range clause) :=
  (PersistsIf.same _).bind fun (_, _) => (PersistsIf.same _).bind fun _ =>
    (readValue_persists _ _).bind fun _ => .same _

theorem read_persists (range : Range) {mysql mysql' : Bool} (h : mysql = true → mysql' = true) :
    Persists Eq (read mysql range) (read mysql' range) :=
  .switch (x := (read · range)) h (.commaSteps (fun _ => .same _) (addAssignment_persists range) _)

end SetClause

/-! ## MERGE -/

namespace Merge

variable {env env' : Environment}

theorem readInsert_persists (henv : env.Extends env') (target : Range) (clause : Token)
    (branches : Branches) :
    Persists Eq (readInsert env target clause branches) (readInsert env' target clause branches) := by
  refine (PersistsIf.same _).bind fun _ => (PersistsIf.same _).bind fun _ =>
    (PersistsIf.same _).bind fun _ => (PersistsIf.same _).bind fun _ =>
      (PersistsIf.same _).bind fun _ => (PersistsIf.same _).bind fun s => .ite ?_ (.same _)
  exact (ColumnMap.read_persists target henv.config.oracle).lift_reader.bind fun _ => .same _

theorem readMatched_persists (henv : env.Extends env') (target : Range) (clause : Token)
    (branches : Branches) :
    Persists Eq (readMatched env target clause branches)
      (readMatched env' target clause branches) := by
  refine (PersistsIf.same _).bind fun _ => (PersistsIf.same _).bind fun _ =>
    (PersistsIf.same _).bind fun _ => (PersistsIf.same _).bind fun _ => .ite ?_ (.same _)
  refine (PersistsIf.same _).bind fun _ => (PersistsIf.same _).bind fun _ => ?_
  exact (SetClause.read_persists target henv.config.mysql).bind fun _ => .same _

theorem readBranchesWithin_persists (henv : env.Extends env') (target : Range) :
    ∀ (bound : Nat) (branches : Branches),
      Persists Eq (readBranchesWithin env target bound branches)
        (readBranchesWithin env' target bound branches)
  | 0, _ => .same _
  | bound + 1, branches => by
    refine (PersistsIf.same _).bind fun clause => ?_
    cases clause with
    | none => exact .same _
    | some clause =>
      refine (PersistsIf.same _).bind fun _ => .ite ?_ ?_
      · exact (readInsert_persists henv target clause branches).bind fun _ =>
          readBranchesWithin_persists henv target bound _
      · exact (readMatched_persists henv target clause branches).bind fun _ =>
          readBranchesWithin_persists henv target bound _

theorem readBranches_persists (henv : env.Extends env') (target : Range) :
    Persists Eq (readBranches env target) (readBranches env' target) :=
  (PersistsIf.same _).bind fun _ => (readBranchesWithin_persists henv target _ _).bind fun _ =>
    .same _

end Merge

/-! ## CALL -/

namespace Call

theorem readArguments_persists {oracle oracle' : Bool} (h : oracle = true → oracle' = true) :
    Persists Eq (readArguments oracle) (readArguments oracle') := by
  refine .switch h ((PersistsIf.same _).bind fun _ => .ite (.same _) ?_)
  -- without brackets the call is refused
  rintro s _ arguments t - h -
  obtain ⟨_, _, -, h⟩ := bind_ok.1 h
  exact (reject_ok.1 h).elim

end Call

end DataChange
