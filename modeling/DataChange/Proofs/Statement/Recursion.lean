import DataChange.Proofs.Query.Recursion
import DataChange.Proofs.Marker.Merges
import DataChange.Proofs.Token.Places

/-!
# The loops of statements come to an end

A text is read piece by piece, and no piece is empty (`tokensFrom_comesTo`). Lists are read item by
item while a comma follows, and none of the items gives tokens back (`ListEnds`); the branches of a
MERGE are read while a WHEN follows (`branches_comesTo`).
-/

namespace DataChange

/-! ## Texts -/

/-- No piece of a text is empty. -/
theorem Piece.chars_read (c : Char) (cs : List Char) : (read c cs).chars ≠ [] := by
  unfold read
  split
  · simp
  · cases hcomment : readComment? c cs with
    | none => exact chars_readLexeme c cs
    | some piece =>
      unfold readComment? at hcomment
      split at hcomment <;> cases hcomment <;> simp

/-- The step of reading a text: the piece at its head. -/
def tokensStep (tokens : Place → List Char → Except Error (List Token)) (place : Place) :
    List Char → Except Error (List Token)
  | [] => .ok []
  | c :: cs =>
    let { piece, chars } := Piece.read c cs
    let rest := (c :: cs).drop chars.length
    match piece with
    | .gap => tokens (place.advance chars) rest
    | .lexeme kind text spelled =>
      match tokens (place.advance chars) rest with
      | .ok tokens => .ok (⟨kind, place.fragment text, spelled⟩ :: tokens)
      | .error e => .error e
    | .unclosed quote text => .error ⟨.unexpectedEnd (.closing quote), place.fragment text⟩
    | .stray c => .error (.unexpected .validToken (place.fragment c.toString))

/-- The loop over the pieces of a text. -/
def tokensFrom (place : Place) (cs : List Char) : Except Error (List Token) :=
  tokensWithin cs.length place cs

theorem tokenize_eq (text : String) : tokenize text = tokensFrom .start text.toList := rfl

/-- Reading a text comes to an end, since every piece takes characters. -/
theorem tokensFrom_comesTo : ComesTo tokensStep tokensFrom fun _ cs => cs.length + 1 := by
  have hdescending : Descending (fun (_ : Place) cs => cs.length) tokensStep tokensWithin := by
    refine ⟨fun b => ?_, fun n b tokens h place cs hlt => ?_⟩
    · funext place cs
      cases cs <;> rfl
    · cases cs with
      | nil => rfl
      | cons c cs =>
        have hrest : ((c :: cs).drop (Piece.read c cs).chars.length).length < n := by
          have := List.length_pos_iff.2 (Piece.chars_read c cs)
          simp only [List.length_drop, List.length_cons] at hlt ⊢
          omega
        simp only [tokensStep, h _ _ hrest]
  refine hdescending.comesTo_of_last (fun place cs hcs => ?_) fun _ _ => rfl
  obtain rfl := List.length_eq_zero_iff.1 hcs
  rfl

/-! ## Lists -/

theorem Cursor.Passes.toCome_le {commas : Bool} {c d : Cursor} (h : Cursor.Passes commas c d) :
    d.toCome ≤ c.toCome :=
  (h.scan (s := ⟨c, 0⟩)).choose_spec.consumes.toCome_le

theorem Scans.toCome_le {s t : Reading} {es : List Expr} (h : Scans s t es) :
    t.toCome ≤ s.toCome := by
  obtain ⟨-, xs, hscan⟩ := h
  exact hscan.consumes.toCome_le

section

variable (env : Environment) (range : Range)

theorem items_end : ListEnds CompilerState.toCome (addItem Query.readItem) := by
  refine listEnds countsTokens_state (Stays.addItem fun s item t h => ?_)
  obtain ⟨-, xs, hscan⟩ := Query.readItem_scan h
  exact hscan.consumes.toCome_le

theorem relations_end : ListEnds CompilerState.toCome (addItem (Range.readRelation env)) := by
  refine listEnds countsTokens_state (Stays.addItem fun s r t h => ?_)
  obtain ⟨-, xs, hscan⟩ := Range.readRelation_scan h
  exact hscan.consumes.toCome_le

theorem keys_end (scope : Scope) :
    ListEnds CompilerState.toCome (addItem (SortKey.read env scope)) := by
  refine listEnds countsTokens_state (Stays.addItem fun s key t h => ?_)
  obtain ⟨-, xs, hread⟩ := Slice.key_inOrder h
  exact List.IsSuffix.length_le ⟨xs, hread.rest.symm⟩

theorem rows_end (degree : Nat) : ListEnds Reading.toCome (addItem (Rows.readRow degree)) :=
  listEnds countsTokens_reading (Stays.addItem fun _ _ _ h => (Rows.readRow_scans h).1.toCome_le)

theorem columns_end (qualified : Bool) : ListEnds Cursor.toCome
    (fun map => do (← TargetColumn.read range qualified).addTo map) := by
  refine listEnds countsTokens_cursor fun map => Stays.bind (fun c column d h => ?_)
    fun column c map' d h => ?_
  · exact (TargetColumn.read_passes h).1.toCome_le
  · exact Nat.le_of_eq (congrArg _ (TargetColumn.addTo_stays h))

theorem targets_end : ListEnds Cursor.toCome (SetClause.addTarget range) :=
  listEnds countsTokens_cursor fun _ _ _ _ h =>
    (SetClause.addTarget_passes h).1.toCome_le

theorem assignments_end (mysql : Bool) :
    ListEnds Reading.toCome (SetClause.addAssignment mysql range) := by
  refine listEnds countsTokens_reading fun _ s _ t h => ?_
  obtain ⟨value, -, hscans⟩ := SetClause.addAssignment_scans h
  exact hscans.toCome_le

/-- The loops over the lists of a statement come to an end. -/
structure ListsEnd (env : Environment) : Prop where
  expressions : ListEnds Reading.toCome (addItem Expr.parse)
  items : ListEnds CompilerState.toCome (addItem Query.readItem)
  relations : ListEnds CompilerState.toCome (addItem (Range.readRelation env))
  keys : ∀ scope, ListEnds CompilerState.toCome (addItem (SortKey.read env scope))
  rows : ∀ degree, ListEnds Reading.toCome (addItem (Rows.readRow degree))
  columns : ∀ range qualified, ListEnds Cursor.toCome
    (fun map => do (← TargetColumn.read range qualified).addTo map)
  targets : ∀ range, ListEnds Cursor.toCome (SetClause.addTarget range)
  assignments : ∀ range mysql, ListEnds Reading.toCome (SetClause.addAssignment mysql range)

theorem lists_end : ListsEnd env :=
  ⟨Expr.parseList_ends, items_end, relations_end env, keys_end env, rows_end, columns_end,
    targets_end, assignments_end⟩

end

/-! ## Branches -/

namespace Merge

variable {env : Environment} {target : Range}

/-- The step of reading branches: WHEN leads to another branch. -/
def branchStep (env : Environment) (target : Range) (read : Branches → Parser Branches)
    (branches : Branches) : Parser Branches := do
  match ← Reader.keyword? .WHEN with
  | none => return branches
  | some clause =>
    let branches ←
      if ← Reader.skipKeyword .NOT then readInsert env target clause branches
      else readMatched env target clause branches
    read branches

/-- The loop over branches. -/
def branchLoop (env : Environment) (target : Range) (branches : Branches) : Parser Branches := do
  readBranchesWithin env target (← remaining) branches

theorem ReadsBranch.toCome_le {s t : Reading} {b b' : Branches} (h : ReadsBranch s t b b') :
    t.toCome ≤ s.toCome :=
  ((h.after.suffix.trans h.then_takes.suffix).trans h.before.suffix).length_le

theorem branchStep_agrees {n : Nat} {read read' : Branches → Parser Branches}
    (h : ∀ branches, Agrees Reading.toCome n (read branches) (read' branches))
    (branches : Branches) : Agrees Reading.toCome (n + 1) (branchStep env target read branches)
      (branchStep env target read' branches) := by
  intro s hs
  refine bind_congr_ok fun clause s₁ hwhen => ?_
  obtain ⟨c, hc, rfl⟩ := lift_reader_ok.1 hwhen
  cases clause with
  | none => rfl
  | some clause =>
    -- WHEN is one token, so fewer are left when the branch and those after it are read
    have hlt : c.toCome < n := by
      obtain ⟨-, hrest⟩ := Reader.ofKind?_some hc
      simp only [Reading.toCome, Cursor.toCome, hrest, List.length_cons] at hs ⊢
      omega
    refine bind_congr_ok fun found s₂ hskip => ?_
    have hle := Expr.skipKeyword_stays _ _ _ _ hskip
    cases found with
    | true =>
      refine bind_congr_ok fun b t hb => h b t ?_
      obtain ⟨hread⟩ := readInsert_scans hb
      exact Nat.lt_of_le_of_lt (Nat.le_trans hread.toCome_le hle) hlt
    | false =>
      refine bind_congr_ok fun b t hb => h b t ?_
      obtain ⟨hread⟩ := readMatched_scans hb
      exact Nat.lt_of_le_of_lt (Nat.le_trans hread.toCome_le hle) hlt

/-- Reading branches comes to an end, since each takes its WHEN. -/
theorem branches_comesTo (env : Environment) (target : Range) :
    ComesTo (branchStep env target) (branchLoop env target) fun _ s => s.toCome + 1 := by
  have hdescending : Descending (fun _ s => Reading.toCome s) (branchStep env target)
      (readBranchesWithin env target) :=
    ⟨fun _ => rfl, fun n b read h => branchStep_agrees h⟩
  refine hdescending.comesTo_of_last (fun branches s hs => ?_) fun branches s => ?_
  · have hwhen : (liftM (Reader.keyword? .WHEN) : Parser (Option Token)) s = .ok none s := by
      obtain ⟨⟨past, rest⟩, parameters⟩ := s
      obtain rfl : rest = [] := List.length_eq_zero_iff.1 hs
      rfl
    show _ = branchStep env target (readBranchesWithin env target 0) branches s
    rw [branchStep, bind_run hwhen]
    rfl
  · exact bind_run (countsTokens_reading.remaining s)

end Merge

end DataChange
