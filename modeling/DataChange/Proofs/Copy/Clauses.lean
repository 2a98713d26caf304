import DataChange.Proofs.Copy.References
import DataChange.Statement.Insert
import DataChange.Target.Assignment

/-!
# Clauses read from copied tokens

Rows after VALUES and a SET clause are read alike whatever comes after them (`Rows.read_mirrors`,
`SetClause.read_mirrors`). A SET clause without subqueries is read alike wherever it stands: with
the same targets and with copies of the same values.
-/

namespace DataChange

/-! ## Rows -/

namespace Rows

variable {exact : Bool} {more : List Token}

theorem readRow_mirrors (hmore : Closing more) (degree : Nat) :
    Mirrors (.readings exact more) 1 (Expr.Copied exact) (readRow degree) (readRow degree) := by
  refine .located fun s s' hplace => ?_
  have hrow : ∀ es es', List.Forall₂ (Expr.Copied exact) es es' →
      Mirrors (.readings exact more) 0 (Expr.Copied exact)
        (if es.length = degree then pure (.untyped (.row es) s.cursor.fragment)
          else reject (.degree degree es.length s.cursor.fragment) : Parser Expr)
        (if es'.length = degree then pure (.untyped (.row es') s'.cursor.fragment)
          else reject (.degree degree es'.length s'.cursor.fragment) : Parser Expr) := by
    intro es es' hes
    rw [hes.length_eq]
    split
    · exact .pure (.intro (.row hes) hplace)
    · exact .reject _
  refine (Reader.skipSymbol_mirrors (hmore.lacks (by decide))).lift.after fun found _ hfound => ?_
  subst hfound
  split
  · exact (Expr.parseList_inside hmore.ending).closed hrow
  · refine (Expr.parse_mirrors hmore.ending).bind fun e e' he => ?_
    exact (Mirrors.pure (.cons he .nil)).after hrow

theorem read_mirrors (hmore : Closing more) (degree : Nat) :
    Mirrors (.readings exact more) 1 (fun rows rows' =>
      List.Forall₂ (Expr.Copied exact) rows.1 rows'.1 ∧ (exact = true → rows'.2 = rows.2))
      (read degree) (read degree) := by
  refine .located fun s s' hplace => ?_
  refine (commaSeparated_mirrors Reading.seesCommas (Reading.endsLists (hmore.lacks (by decide)))
    (readRow_mirrors hmore degree)).bind ?_
  exact fun rows rows' hrows => .pure ⟨hrows, hplace⟩

end Rows

/-! ## Targets -/

namespace TargetColumn

variable {exact : Bool} {more : List Token}

theorem readName_mirrors (hdot : Lacks (.symbol .dot) more) :
    Mirrors (.cursors exact more) 1 (fun n n' => Option.Rel (Token.Copied exact) n.1 n'.1 ∧
      n.2.Copied exact n'.2) readName readName := by
  refine Reader.identifier_mirrors.bind fun first first' hfirst => ?_
  refine (Reader.skipSymbol_mirrors hdot).after fun found _ hfound => ?_
  subst hfound
  split
  · refine (Reader.identifier_mirrors.mono (Nat.zero_le _)).bind fun second second' hsecond => ?_
    exact .pure ⟨.some hfirst, hsecond⟩
  · exact .pure ⟨.none, hfirst⟩

/-- A target column and its copy: the very same, or one that is named elsewhere. -/
structure Copied (exact : Bool) (c c' : TargetColumn) : Prop where
  ordinal : c'.ordinal = c.ordinal
  same : exact = true → c' = c

theorem checkQualifier_copied {range : Range} {allowed : Bool} {qualifier qualifier' : Option Token}
    {name name' : Token} (hq : Option.Rel (Token.Copied exact) qualifier qualifier')
    (h : checkQualifier range allowed qualifier name = .ok ()) :
    checkQualifier range allowed qualifier' name' = .ok () := by
  cases hq with
  | none => rfl
  | some hq =>
    unfold checkQualifier at h ⊢
    dsimp only at h ⊢
    split at h
    · cases h
    · next hallowed =>
      split at h
      · next hqualifies =>
        rw [if_neg hallowed, hq.text, if_pos hqualifies]
      · cases h

/-- The column with a name is found by any copy of the name. -/
theorem find_copied {range : Range} {qualifier qualifier' : Option Token} {name name' : Token}
    {column : TargetColumn} (hqualifier : Option.Rel (Token.Copied exact) qualifier qualifier')
    (hname : name.Copied exact name') (h : find range qualifier name = .ok column) :
    ∃ column', find range qualifier' name' = .ok column' ∧ column.Copied exact column' := by
  unfold find at h ⊢
  rw [hname.text]
  split at h
  · cases h
    refine ⟨_, rfl, rfl, fun hexact => ?_⟩
    obtain rfl := hname.same hexact
    cases hqualifier with
    | none => rfl
    | some hq => rw [hq.same hexact]
  · cases h

theorem read_mirrors (hdot : Lacks (.symbol .dot) more) (range : Range) (qualified : Bool) :
    Mirrors (.cursors exact more) 1 (Copied exact) (read range qualified)
      (read range qualified) := by
  refine (readName_mirrors hdot).bind fun n n' hn => ?_
  obtain ⟨qualifier, name⟩ := n
  obtain ⟨qualifier', name'⟩ := n'
  dsimp only
  split
  · exact .throw _
  · next hcheck =>
    rw [checkQualifier_copied hn.1 hcheck]
    dsimp only
    split
    · next hfind =>
      obtain ⟨column', hcolumn', hcopied⟩ := find_copied hn.1 hn.2 hfind
      rw [hcolumn']
      exact .pure hcopied
    · exact .throw _

theorem read_fragment (range : Range) (f : Fragment) (qualified : Bool) :
    read { range with fragment := f } qualified = read range qualified := by
  have hfind : find { range with fragment := f } = find range := by
    funext qualifier name
    cases h : range.columnIndex? name.text with
    | none =>
      have h' : Range.columnIndex? { range with fragment := f } name.text = none := h
      simp only [find, h, h']
    | some ordinal =>
      have h' : Range.columnIndex? { range with fragment := f } name.text = some ordinal := h
      simp only [find, h, h']
  simp only [read, hfind]
  rfl

theorem addTo_mirrors {column column' : TargetColumn} (hordinal : column'.ordinal = column.ordinal)
    (map : ColumnMap) :
    Mirrors (.cursors exact more) 0 (· = ·) (column.addTo map) (column'.addTo map) := by
  unfold addTo ColumnMap.insert
  rw [hordinal]
  by_cases hc : map.contains column.ordinal = true
  · simp only [hc, ↓reduceIte]
    exact .throw _
  · simp only [hc, Bool.false_eq_true, ↓reduceIte]
    exact .pure rfl

end TargetColumn

/-- A list of columns is the same whatever comes after it. -/
theorem ColumnMap.read_mirrors {exact : Bool} {more : List Token}
    (hdot : Lacks (.symbol .dot) more) (hcomma : Lacks (.symbol .comma) more) (range : Range)
    (qualified : Bool) :
    Mirrors (.cursors exact more) 1 (· = ·) (ColumnMap.read range qualified)
      (ColumnMap.read range qualified) := by
  refine (Reader.symbol_mirrors _).bind fun _ _ _ => Mirrors.mono ?_ (Nat.zero_le 1)
  refine (commaSteps_mirrors Reader.seesCommas (Reader.endsLists hcomma) ?_ rfl).bind
    fun map _ hmap => ?_
  · rintro map _ rfl
    refine (TargetColumn.read_mirrors hdot range qualified).bind fun column column' hcolumn => ?_
    exact TargetColumn.addTo_mirrors hcolumn.ordinal map
  · subst hmap
    exact (Reader.symbol_mirrors _).after fun _ _ _ => .pure rfl

/-! ## Assignments -/

namespace SetClause

/-- A clause and its copy: the same columns, and copies of the values. -/
structure Copied (exact : Bool) (c c' : SetClause) : Prop where
  columns : c'.columnMap = c.columnMap
  targets : exact = true → c'.targets = c.targets
  values : List.Forall₂ (Expr.Copied exact) c.values c'.values

variable {exact : Bool} {more : List Token}

theorem addTarget_mirrors (hmore : Closing more) (range : Range) {c c' : SetClause}
    (h : c.Copied exact c') :
    Mirrors (.cursors exact more) 1 (Copied exact) (addTarget range c) (addTarget range c') := by
  refine (TargetColumn.read_mirrors (hmore.lacks (by decide)) range true).bind fun column column' hcolumn => ?_
  rw [h.columns]
  refine (TargetColumn.addTo_mirrors hcolumn.ordinal c.columnMap).bind fun map _ hmap => ?_
  subst hmap
  refine .pure ⟨rfl, fun hexact => ?_, h.values⟩
  rw [h.targets hexact, hcolumn.same hexact]

theorem addTargets_mirrors (hmore : Closing more) (range : Range) {c c' : SetClause}
    (h : c.Copied exact c') :
    Mirrors (.cursors exact more) 1 (fun a a' => a.1.Copied exact a'.1 ∧ a'.2 = a.2)
      (addTargets range c) (addTargets range c') := by
  refine (Reader.skipSymbol_mirrors (hmore.lacks (by decide))).after fun found _ hfound => ?_
  subst hfound
  split
  · refine (commaSteps_mirrors Reader.seesCommas (Reader.endsLists (hmore.lacks (by decide)))
      (fun _ _ h => addTarget_mirrors hmore range h) h).bind fun d d' hd => ?_
    exact (Reader.symbol_mirrors _).after fun _ _ _ => .pure ⟨hd, rfl⟩
  · exact (addTarget_mirrors hmore range h).bind fun d d' hd => .pure ⟨hd, rfl⟩

theorem readRow_mirrors (hmore : Closing more) (degree : Nat) :
    Mirrors (.readings exact more) 1 (Expr.Copied exact) (readRow degree) (readRow degree) := by
  refine (Reader.symbol_mirrors _).lift.bind fun o o' ho => Mirrors.mono ?_ (Nat.zero_le 1)
  refine (Expr.parseRow_inside hmore.ending).closed fun row row' hrow => ?_
  rw [hrow.isRow, hrow.degree]
  dsimp only
  generalize (if row.isRow = true then row.degree else 1) = actual
  split
  · exact .pure hrow
  · exact .reject _

/-- No SELECT stands among the tokens of a clause without subqueries. -/
theorem bracketsBeforeSelect?_none {c : Cursor} (h : ∀ t ∈ c.rest, t.inList = true) :
    bracketsBeforeSelect? c = none := by
  unfold bracketsBeforeSelect?
  refine if_neg ?_
  rw [Bool.and_eq_true, not_and, Option.any_eq_true]
  rintro - ⟨t, ht, hselect⟩
  have hlisted := h t (List.mem_of_getElem? ht)
  simp only [Token.isKeyword, decide_eq_true_eq] at hselect
  simp [Token.inList, hselect] at hlisted

/-- As many brackets stand before a SELECT in the copy. -/
theorem bracketsBeforeSelect?_copied (hmore : Closing more) {c c' : Cursor}
    (h : c.Copied exact more c') : bracketsBeforeSelect? c' = bracketsBeforeSelect? c := by
  obtain ⟨copy, hcopy, hrest⟩ := h
  have hsame : ((copy ++ more).takeWhile (·.isSymbol .openParen)).length =
        (c.rest.takeWhile (·.isSymbol .openParen)).length ∧
      ((copy ++ more)[(c.rest.takeWhile (·.isSymbol .openParen)).length]?).any
          (·.isKeyword .SELECT) =
        (c.rest[(c.rest.takeWhile (·.isSymbol .openParen)).length]?).any (·.isKeyword .SELECT) := by
    clear hrest
    generalize c.rest = ts at hcopy ⊢
    induction hcopy with
    | nil =>
      cases more with
      | nil => exact ⟨rfl, rfl⟩
      | cons t ts =>
        -- the copy has ended, and what may follow it is neither an opening bracket nor SELECT
        have hopen : t.kind ≠ .symbol .openParen := hmore.lacks (by decide) t rfl
        have hselect : t.kind ≠ .keyword .SELECT := hmore.lacks (by decide) t rfl
        simp [Token.isSymbol, Token.isKeyword, hopen, hselect]
    | cons ht _ ih =>
      simp only [List.cons_append, List.takeWhile_cons, ht.isSymbol]
      split
      · simpa using ih
      · simp [ht.isKeyword]
  unfold bracketsBeforeSelect?
  simp only [hrest, hsame.1, hsame.2]

/-- A subquery for a group is the same whatever comes after it. -/
theorem readQuery_mirrors (degree brackets : Nat) :
    Mirrors (.readings true more) 1 (Expr.Copied true) (readQuery degree brackets)
      (readQuery degree brackets) := by
  have hafter : Mirrors (.readings true more) 1 (Expr.Copied true)
      (do
        let opening ← Reader.symbol .openParen
        let body ← Reader.parenthesised
        Reader.closeParens (brackets - 1)
        return .untyped (.pending (.row degree) body) opening.fragment : Parser Expr)
      (do
        let opening ← Reader.symbol .openParen
        let body ← Reader.parenthesised
        Reader.closeParens (brackets - 1)
        return .untyped (.pending (.row degree) body) opening.fragment : Parser Expr) := by
    refine (Reader.symbol_mirrors _).lift.bind fun o o' ho => ?_
    refine (Reader.parenthesised_mirrors.lift.mono (Nat.zero_le _)).bind fun body _ hbody => ?_
    subst hbody
    refine (Reader.closeParens_mirrors _).lift.bind fun _ _ _ => ?_
    exact .pure (.intro (.pending rfl _ _) ho.place)
  intro s s' e t hs h
  obtain ⟨_, u, hadvance, hread⟩ := bind_ok.1 h
  obtain rfl := modify_ok.1 hadvance
  -- there is a bracket after those that are skipped, so the copy has them all
  obtain ⟨opening, v, hopening, -⟩ := bind_ok.1 hread
  obtain ⟨c, hc, rfl⟩ := lift_reader_ok.1 hopening
  have hdrop : s.cursor.rest.drop (brackets - 1) = opening :: c.rest := (Reader.symbol_ok hc).2
  have hle : brackets - 1 ≤ s.cursor.rest.length := by
    have hlength := congrArg List.length hdrop
    simp only [List.length_drop, List.length_cons] at hlength
    omega
  have hpaired : (Pairing.readings true more).Paired
      { s with cursor := s.cursor.advance (brackets - 1) }
      { s' with cursor := s'.cursor.advance (brackets - 1) } := by
    refine ⟨Cursor.Copied.exact_iff.2 ?_, hs.2⟩
    simp only [Cursor.advance, Cursor.Copied.exact_iff.1 hs.1]
    exact List.drop_append_of_le_length hle
  obtain ⟨e', t', hread', he, ht, hshort⟩ := hafter hpaired hread
  refine ⟨e', t', bind_ok.2 ⟨(), _, modify_ok.2 rfl, hread'⟩, he, ht, ?_⟩
  simp only [Pairing.readings, Cursor.advance, List.length_drop] at hshort ⊢
  omega

theorem readValue_mirrors (hmore : Closing more) (mysql group : Bool) (degree : Nat) :
    Mirrors (.readings exact more) 1 (Expr.Copied exact) (readValue mysql group degree)
      (readValue mysql group degree) := by
  refine Mirrors.get fun s s' hs => ?_
  dsimp only
  rw [bracketsBeforeSelect?_copied hmore hs.1]
  split
  · next brackets hbrackets =>
    cases exact with
    | true => exact readQuery_mirrors degree brackets
    | false =>
      -- a list that is not copied exactly holds no SELECT, so no bracket stands before one
      rw [bracketsBeforeSelect?_none hs.1.listed, ite_self] at hbrackets
      cases hbrackets
  · have hvalue : ∀ found found' : Bool, (found' = found ∧ (exact = false → found = false)) →
        Mirrors (.readings exact more) 1 (Expr.Copied exact)
          (if found then do return (← readRow degree).qualifyFree newRowName
            else if degree > 1 then readRow degree else Expr.parse : Parser Expr)
          (if found' then do return (← readRow degree).qualifyFree newRowName
            else if degree > 1 then readRow degree else Expr.parse : Parser Expr) := by
      rintro found _ ⟨rfl, hfound⟩
      split
      · next hproposed =>
        cases exact with
        | true =>
          refine (readRow_mirrors hmore degree).bind fun row row' hrow => .pure ?_
          rw [hrow.eq]
          exact .refl _
        | false => simp [hfound rfl] at hproposed
      · split
        · exact readRow_mirrors hmore degree
        · exact Expr.parse_mirrors hmore.ending
    cases mysql with
    | true =>
      refine (Reader.skipKeyword_listed (hmore.lacks (by decide)) fun t ht => ?_).lift.after hvalue
      simp [Token.inList, ht]
    | false => exact (Mirrors.pure ⟨rfl, fun _ => rfl⟩).after hvalue

theorem addAssignment_mirrors (hmore : Closing more) (mysql : Bool) (range : Range)
    {c c' : SetClause} (h : c.Copied exact c') :
    Mirrors (.readings exact more) 1 (Copied exact) (addAssignment mysql range c)
      (addAssignment mysql range c') := by
  refine (addTargets_mirrors hmore range h).lift.bind fun d d' hd => ?_
  obtain ⟨clause, group⟩ := d
  obtain ⟨clause', group'⟩ := d'
  obtain ⟨hclause, rfl⟩ := hd
  refine (Reader.symbol_mirrors _).lift.after fun _ _ _ => ?_
  dsimp only at hclause ⊢
  rw [hclause.columns, h.columns]
  refine ((readValue_mirrors hmore mysql _ _).mono (Nat.zero_le _)).bind fun value value' hvalue => ?_
  exact .pure ⟨rfl, hclause.targets, List.rel_append hclause.values (.cons hvalue .nil)⟩

/-- A SET clause reads the same whatever comes after it, and without subqueries wherever it
stands. -/
theorem read_mirrors (hmore : Closing more) (mysql : Bool) (range : Range) :
    Mirrors (.readings exact more) 1 (Copied exact) (read mysql range) (read mysql range) :=
  commaSteps_mirrors Reading.seesCommas (Reading.endsLists (hmore.lacks (by decide)))
    (fun _ _ h => addAssignment_mirrors hmore mysql range h) ⟨rfl, fun _ => rfl, .nil⟩

/-- An exact copy is the clause itself. -/
theorem Copied.eq {c c' : SetClause} (h : c.Copied true c') : c' = c := by
  obtain ⟨columnMap, targets, values⟩ := c
  obtain ⟨columnMap', targets', values'⟩ := c'
  obtain ⟨rfl, htargets, hvalues⟩ := h
  obtain rfl := htargets rfl
  obtain rfl : values = values' :=
    List.forall₂_eq_eq_eq ▸ hvalues.imp fun _ _ hvalue => hvalue.eq.symm
  rfl

/-- Where the written range is named does not matter. -/
theorem read_fragment (mysql : Bool) (range : Range) (f : Fragment) :
    read mysql { range with fragment := f } = read mysql range := by
  have htarget : addTarget { range with fragment := f } = addTarget range := by
    funext clause
    simp only [addTarget, TargetColumn.read_fragment]
  have htargets : addTargets { range with fragment := f } = addTargets range := by
    funext clause
    simp only [addTargets, htarget]
  have hassignment : addAssignment mysql { range with fragment := f } =
      addAssignment mysql range := by
    funext clause
    simp only [addAssignment, htargets]
  simp only [read, hassignment]

end SetClause

end DataChange
