import DataChange.Proofs.Marker.Query
import DataChange.Proofs.Statement.Runs

/-!
# Question marks of clauses

The clauses that a statement reads before it resolves anything: column lists and the assignments
of a SET clause. Each scans what it takes.
-/

namespace DataChange

/-! ## Lists between brackets -/

namespace Cursor.Passes

variable {commas : Bool} {c d e f : Cursor}

/-- Brackets around tokens that hold nothing and start no query. -/
theorem bracket (commas : Bool) {o x : Token}
    (ho : o.kind = .symbol .openParen ∧ c.rest = o :: d.rest) (hd : Passes false d e)
    (hq : ∀ y ys, d.rest = y :: ys → y.startsQuery = false)
    (hx : x.kind = .symbol .closeParen ∧ e.rest = x :: f.rest) : Passes commas c f := by
  obtain ⟨xs, hxs, hclosed, hout⟩ := hd
  have hhead : ∀ y ys, xs = y :: ys → y.startsQuery = false := by
    rintro y ys rfl
    exact hq y (ys ++ e.rest) hxs
  obtain ⟨hclosed, hb⟩ := Closed.bracket commas (t := o)
    (by simp [Token.isSymbol, ho.1]) (by simp [Token.isSymbol, hx.1] : x.isSymbol .closeParen = true)
    hclosed hhead
  exact ⟨_, by rw [ho.2, hxs, hx.2]; simp, hclosed, by rw [hb, hout]⟩

theorem commaSteps {α : Type} {step : α → Reader α}
    (hstep : ∀ a c b d, step a c = .ok b d → Passes false c d) {a b : α}
    (h : commaSteps step a c = .ok b d) : Passes false c d := by
  refine commaSteps_induct (fun _ u => Passes false c u) h ?_ ?_ ?_ ?_
  · exact fun a' u h => hstep _ _ _ _ h
  · intro a u n v hi h
    obtain ⟨-, rfl⟩ := Reader.remaining_ok h
    exact hi
  · intro a u v b w hi hskip h
    obtain ⟨x, hx⟩ := Reader.skipSymbol_true hskip
    exact (hi.trans (.symbol hx rfl)).trans (hstep _ _ _ _ h)
  · intro a u v hi hskip
    obtain ⟨rfl, -⟩ := Reader.skipSymbol_false hskip
    exact hi

end Cursor.Passes

namespace TargetColumn

variable {range : Range} {qualified : Bool} {c d : Cursor}

theorem read_passes {column : TargetColumn} (h : read range qualified c = .ok column d) :
    Cursor.Passes false c d ∧ ∀ y ys, c.rest = y :: ys → y.startsQuery = false := by
  simp only [read, readName, bind_ok, Prod.exists] at h
  obtain ⟨qualifier, name, u, ⟨first, v, hfirst, found, w, hdot, hname⟩, h⟩ := h
  obtain ⟨hi, hr⟩ := Reader.identifier_ok hfirst
  have hlead : ∀ y ys, c.rest = y :: ys → y.startsQuery = false :=
    fun y ys hy => (Expr.Leads.identifier hi v.rest).head y ys (hr.symm.trans hy)
  have hu : Cursor.Passes false c u := by
    have hv : Cursor.Passes false c v := .identifier ⟨hi, hr⟩
    cases found with
    | true =>
      obtain ⟨x, hx⟩ := Reader.skipSymbol_true hdot
      simp only [↓reduceIte, bind_ok, pure_ok] at hname
      obtain ⟨y, _, hy, -, rfl⟩ := hname
      exact (hv.trans (.symbol hx rfl)).trans (.identifier (Reader.identifier_ok hy))
    | false =>
      obtain ⟨rfl, -⟩ := Reader.skipSymbol_false hdot
      obtain ⟨-, rfl⟩ := pure_ok.1 hname
      exact hv
  obtain ⟨m, hm, h⟩ := run_eq h
  split at hm
  · subst hm
    exact (throw_ok.1 h).elim
  · split at hm
    · subst hm
      obtain ⟨-, rfl⟩ := pure_ok.1 h
      exact ⟨hu, hlead⟩
    · subst hm
      exact (throw_ok.1 h).elim

theorem addTo_stays {column : TargetColumn} {map map' : ColumnMap}
    (h : column.addTo map c = .ok map' d) : d = c := by
  obtain ⟨m, hm, h⟩ := run_eq h
  unfold addTo at hm
  split at hm
  · subst hm
    exact (pure_ok.1 h).2.symm
  · subst hm
    exact (throw_ok.1 h).elim

end TargetColumn

/-- The first step of a list starts where the list does. -/
theorem commaSteps_first {α : Type} {step : α → Reader α} {P : Cursor → Prop} {c d : Cursor}
    (hstep : ∀ a b d, step a c = .ok b d → P c) {a b : α} (h : commaSteps step a c = .ok b d) :
    P c := by
  simp only [commaSteps, bind_ok] at h
  obtain ⟨_, _, hs, -⟩ := h
  exact hstep _ _ _ hs

theorem ColumnMap.read_passes {range : Range} {qualified : Bool} {map : ColumnMap} {c d : Cursor}
    (h : ColumnMap.read range qualified c = .ok map d) : Cursor.Passes false c d := by
  simp only [ColumnMap.read, bind_ok, pure_ok] at h
  obtain ⟨o, u, ho, map', v, hsteps, close, _, hc, rfl, rfl⟩ := h
  have hstep : ∀ (map : ColumnMap) c map' d,
      (do (← TargetColumn.read range qualified).addTo map : Reader ColumnMap) c = .ok map' d →
      Cursor.Passes false c d ∧ ∀ y ys, c.rest = y :: ys → y.startsQuery = false := by
    intro map c map' d h
    simp only [bind_ok] at h
    obtain ⟨column, w, hread, hadd⟩ := h
    obtain rfl := TargetColumn.addTo_stays hadd
    exact TargetColumn.read_passes hread
  exact .bracket false (Reader.symbol_ok ho)
    (.commaSteps (fun _ _ _ _ h => (hstep _ _ _ _ h).1) hsteps)
    (commaSteps_first (P := fun c => ∀ y ys, c.rest = y :: ys → y.startsQuery = false)
      (fun _ _ _ h => (hstep _ _ _ _ h).2) hsteps)
    (Reader.symbol_ok hc)

/-! ## Targets of a SET clause -/

namespace SetClause

variable {range : Range} {clause clause' : SetClause} {c d : Cursor}

theorem addTarget_passes (h : addTarget range clause c = .ok clause' d) :
    Cursor.Passes false c d ∧ (∀ y ys, c.rest = y :: ys → y.startsQuery = false) ∧
      clause'.values = clause.values := by
  simp only [addTarget, bind_ok, pure_ok] at h
  obtain ⟨column, u, hread, map, v, hadd, rfl, rfl⟩ := h
  obtain rfl := TargetColumn.addTo_stays hadd
  obtain ⟨hp, hq⟩ := TargetColumn.read_passes hread
  exact ⟨hp, hq, rfl⟩

theorem addTargets_passes {group : Bool} (h : addTargets range clause c = .ok (clause', group) d) :
    Cursor.Passes false c d ∧ clause'.values = clause.values := by
  simp only [addTargets, bind_ok] at h
  obtain ⟨found, u, hskip, h⟩ := h
  cases found with
  | true =>
    obtain ⟨o, ho⟩ := Reader.skipSymbol_true hskip
    simp only [↓reduceIte, bind_ok, pure_ok, Prod.mk.injEq] at h
    obtain ⟨clause'', v, hsteps, close, _, hclose, ⟨rfl, -⟩, rfl⟩ := h
    -- reading the target of an assignment leaves the values read so far as they are
    have hvalues : clause''.values = clause.values := by
      refine commaSteps_induct (fun (b : SetClause) _ => b.values = clause.values) hsteps ?_
        (fun _ _ _ _ hi _ => hi) ?_ (fun _ _ _ hi _ => hi)
      · exact fun b u h => (addTarget_passes h).2.2
      · exact fun a s u b v hi _ h => (addTarget_passes h).2.2.trans hi
    refine ⟨?_, hvalues⟩
    exact .bracket false ho (.commaSteps (fun _ _ _ _ h => (addTarget_passes h).1) hsteps)
      (commaSteps_first (P := fun c => ∀ y ys, c.rest = y :: ys → y.startsQuery = false)
        (fun _ _ _ h => (addTarget_passes h).2.1) hsteps)
      (Reader.symbol_ok hclose)
  | false =>
    obtain ⟨rfl, -⟩ := Reader.skipSymbol_false hskip
    simp only [Bool.false_eq_true, ↓reduceIte, bind_ok, pure_ok, Prod.mk.injEq] at h
    obtain ⟨clause'', _, hadd, ⟨rfl, -⟩, rfl⟩ := h
    exact ⟨(addTarget_passes hadd).1, (addTarget_passes hadd).2.2⟩

end SetClause

/-! ## Expressions that a clause reads -/

/-- Reading from `s` to `t` finds some expressions in which nothing is bound yet. -/
def Scans (s t : Reading) (es : List Expr) : Prop :=
  (∀ e ∈ es, e.Raw) ∧ ∃ xs, Scan false s t xs (Expr.marksOf es) (Expr.bodiesOf es)

namespace Scans

variable {s t u : Reading} {es fs : List Expr}

theorem nil {xs : List Token} (h : Scan false s t xs [] []) : Scans s t [] :=
  ⟨by simp, xs, h⟩

theorem trans (h : Scans s t es) (k : Scans t u fs) : Scans s u (es ++ fs) := by
  obtain ⟨hes, xs, hx⟩ := h
  obtain ⟨hfs, ys, hy⟩ := k
  refine ⟨fun e he => (List.mem_append.1 he).elim (hes e) (hfs e), xs ++ ys, ?_⟩
  simpa using hx.trans hy

theorem of_passes {d : Cursor} (h : Cursor.Passes false s.cursor d) :
    Scans s { s with cursor := d } [] := by
  obtain ⟨xs, hx⟩ := h.scan
  exact nil hx

theorem token {x : Token} (h : s.Takes x t) (hk : x.kind.isPlain false = true) : Scans s t [] :=
  nil (.token h hk)

theorem parsed {e : Expr} (h : Expr.parse s = .ok e t) : Scans s t [e] := by
  have he := Expr.parse_reads _ _ _ h
  obtain ⟨xs, -, hx⟩ := he.scan
  exact ⟨by simpa using he.raw, xs, by simpa using hx.weaken⟩

/-- A list of expressions between brackets. -/
theorem bracket {r v : Reading} {o x : Token} (h : s.Takes o r) (ho : o.kind = .symbol .openParen)
    (hes : Expr.ReadsList r es t) (hx : t.Takes x v) (hc : x.kind = .symbol .closeParen) :
    Scans s v es := by
  obtain ⟨xs, hl, hs⟩ := hes.scan
  exact ⟨hes.raw, _, Scan.bracket false h ho hs hl.head hx hc⟩

end Scans

/-! ## Values of a SET clause -/

namespace SetClause

variable {s t : Reading} {e : Expr} {degree : Nat}

theorem bracketsBeforeSelect?_some {c : Cursor} {brackets : Nat}
    (h : bracketsBeforeSelect? c = some brackets) :
    ∃ opens o q rest, opens.length = brackets - 1 ∧ (∀ x ∈ opens, x.isSymbol .openParen = true) ∧
      o.isSymbol .openParen = true ∧ q.kind = .keyword .SELECT ∧
      c.rest = opens ++ o :: q :: rest := by
  unfold bracketsBeforeSelect? at h
  dsimp only at h
  split at h
  · rename_i hb
    cases h
    simp only [gt_iff_lt, Bool.and_eq_true, decide_eq_true_eq, Option.any_eq_true] at hb
    obtain ⟨hpos, q, hq, hselect⟩ := hb
    have hall : ∀ x ∈ c.rest.takeWhile (·.isSymbol .openParen), x.isSymbol .openParen = true :=
      List.all_eq_true.1 List.all_takeWhile
    obtain ⟨rest, hrest⟩ := List.takeWhile_prefix (p := (·.isSymbol .openParen)) (l := c.rest)
    generalize c.rest.takeWhile (·.isSymbol .openParen) = brackets at hpos hq hall hrest
    -- the last of the brackets is the one that opens the subquery
    obtain rfl | ⟨opens, o, rfl⟩ := List.eq_nil_or_concat brackets
    · simp at hpos
    rw [← hrest, List.getElem?_append_right (Nat.le_refl _), Nat.sub_self] at hq
    cases rest with
    | nil => simp at hq
    | cons q' rest =>
      obtain rfl : q' = q := by simpa using hq
      refine ⟨opens, o, q', rest, by simp, fun x hx => hall x (by simp [hx]), hall o (by simp), ?_,
        by simp [← hrest]⟩
      simpa [Token.isKeyword] using hselect
  · cases h

theorem readQuery_scans {brackets : Nat} (hb : bracketsBeforeSelect? s.cursor = some brackets)
    (h : readQuery degree brackets s = .ok e t) : Scans s t [e] := by
  obtain ⟨opens, o, q, rest, hlen, hopens, ho, hq, hrest⟩ := bracketsBeforeSelect?_some hb
  simp only [readQuery, bind_ok, modify_ok, pure_ok] at h
  obtain ⟨_, r, rfl, o', u, hopen, body, v, hbody, _, _, hclose, rfl, rfl⟩ := h
  obtain ⟨htakes, hk⟩ := Reading.symbol_takes hopen
  have hbody := Reading.parenthesised_takes hbody
  obtain ⟨c, hc, rfl⟩ := lift_reader_ok.1 hclose
  obtain ⟨closes, hclen, hcloses, hcr⟩ := Reader.closeParens_ok hc
  have hadvance : (s.cursor.advance (brackets - 1)).rest = o :: q :: rest := by
    simp [Cursor.advance, hrest, ← hlen]
  obtain ⟨rfl, hu⟩ := List.cons.inj (hadvance.symm.trans htakes.rest)
  have hstart : u.cursor.startsQuery = true := by
    simp [Cursor.startsQuery, Cursor.isKeyword, Cursor.peek?, ← hu, Token.isKeyword, hq]
  obtain ⟨x, hs⟩ := Scan.query false htakes hk hstart hbody
  have hlead : ∀ y ys, o :: body ++ [x] = y :: ys → y.startsQuery = false := by
    intro y ys hy
    obtain ⟨rfl, -⟩ := List.cons.inj hy
    simp [Token.startsQuery, Token.isKeyword, hk]
  exact ⟨List.forall_mem_singleton.2 (.leaf rfl rfl), _, hs.wrap hlead (hlen.trans hclen.symm) hopens
    hcloses (by rw [hrest, hadvance]) rfl hcr rfl⟩

theorem readRow_scans (h : readRow degree s = .ok e t) : Scans s t [e] := by
  simp only [readRow, bind_ok] at h
  obtain ⟨o, u, hopen, row, v, hrow, x, w, hclose, h⟩ := h
  obtain ⟨ho, hko⟩ := Reading.symbol_takes hopen
  obtain ⟨hx, hkx⟩ := Reading.symbol_takes hclose
  obtain ⟨items, hitems, rfl⟩ := Expr.parseRow_reads hrow
  obtain ⟨-, xs, hs⟩ := Scans.bracket ho hko hitems hx hkx
  have hend : w = t ∧ Expr.ofItems u.cursor.fragment items = e := by
    generalize (if (Expr.ofItems _ items).isRow then _ else 1) = actual at h
    split at h
    · obtain ⟨rfl, rfl⟩ := pure_ok.1 h
      exact ⟨rfl, rfl⟩
    · exact (reject_ok.1 h).elim
  obtain ⟨rfl, rfl⟩ := hend
  exact ⟨by simpa using (Expr.Plain.ofItems hitems.ne_nil hitems.plain).raw, xs,
    by simpa [Expr.marks_ofItems, Expr.bodies_ofItems] using hs⟩

/-- The value of a target; VALUES before a row takes nothing from what the row holds. -/
theorem readValue_scans {mysql group : Bool} (h : readValue mysql group degree s = .ok e t) :
    Scans s t [e] := by
  simp only [readValue, bind_ok, get_ok] at h
  obtain ⟨_, _, ⟨rfl, rfl⟩, h⟩ := h
  cases hb : (if group then bracketsBeforeSelect? s.cursor else none) with
  | some brackets =>
    simp only [hb] at h
    cases group with
    | true => exact readQuery_scans hb h
    | false => cases hb
  | none =>
    simp only [hb] at h
    have hplain : (if degree > 1 then readRow degree else Expr.parse) s = .ok e t →
        Scans s t [e] := by
      intro h
      split at h
      · exact readRow_scans h
      · exact .parsed h
    cases mysql with
    | false =>
      simp only [Bool.false_eq_true, ↓reduceIte, pure_bind] at h
      exact hplain h
    | true =>
      simp only [↓reduceIte, bind_ok] at h
      obtain ⟨found, u, hskip, h⟩ := h
      rcases Reading.skipKeyword_takes hskip with ⟨rfl, x, hx, hk⟩ | ⟨rfl, rfl⟩
      · simp only [↓reduceIte, bind_ok, pure_ok] at h
        obtain ⟨row, _, hrow, rfl, rfl⟩ := h
        -- qualifying the bare columns of the row changes neither its marks nor its subqueries
        obtain ⟨hraw, xs, hs⟩ := (Scans.token hx (by rw [hk]; rfl)).trans (readRow_scans hrow)
        obtain ⟨hm, hb, hr⟩ := Expr.qualifyFree_keeps newRowName row
        exact ⟨by simpa using hr (hraw row (by simp)), xs, by simpa [hm, hb] using hs⟩
      · exact hplain h

theorem addAssignment_scans {mysql : Bool} {range : Range} {clause clause' : SetClause}
    (h : addAssignment mysql range clause s = .ok clause' t) :
    ∃ value, clause'.values = clause.values ++ [value] ∧ Scans s t [value] := by
  simp only [addAssignment, bind_ok, pure_ok, Prod.exists] at h
  obtain ⟨extended, group, u, htargets, x, v, hequal, value, _, hvalue, rfl, rfl⟩ := h
  obtain ⟨c, hc, rfl⟩ := lift_reader_ok.1 htargets
  obtain ⟨hpasses, hvalues⟩ := addTargets_passes hc
  obtain ⟨hx, hk⟩ := Reading.symbol_takes hequal
  refine ⟨value, by simp [hvalues], ?_⟩
  exact ((Scans.of_passes hpasses).trans (.token hx (by rw [hk]; rfl))).trans (readValue_scans hvalue)

/-- The assignments after SET, whose values stay in order. -/
theorem read_scans {mysql : Bool} {range : Range} {clause : SetClause}
    (h : SetClause.read mysql range s = .ok clause t) : Scans s t clause.values := by
  refine commaSteps_induct (fun (clause : SetClause) u => Scans s u clause.values) h ?_ ?_ ?_ ?_
  · intro clause u h
    obtain ⟨value, hv, hs⟩ := addAssignment_scans h
    simpa [hv] using hs
  · intro clause u n v hi h
    obtain rfl := Reading.remaining_stays h
    exact hi
  · intro clause u v clause' w hi hskip h
    obtain ⟨value, hv, hs⟩ := addAssignment_scans h
    rcases Reading.skipSymbol_takes hskip with ⟨-, x, hx, hk⟩ | ⟨hf, -⟩
    · rw [hv]
      simpa using (hi.trans (.token hx (by rw [hk]; rfl))).trans hs
    · cases hf
  · intro clause u v hi hskip
    rcases Reading.skipSymbol_takes hskip with ⟨hf, -⟩ | ⟨-, rfl⟩
    · cases hf
    · exact hi

/-- The assignments are read up to where no comma follows. -/
theorem read_lacks {mysql : Bool} {range : Range} {clause : SetClause}
    (h : SetClause.read mysql range s = .ok clause t) :
    Lacks (.symbol .comma) t.cursor.rest := by
  refine commaSteps_lacks (fun clause u clause' v h => ?_) h
  obtain ⟨value, -, -, xs, hscan⟩ := addAssignment_scans h
  exact hscan.suffix

end SetClause

/-! ## Rows to insert -/

namespace Rows

variable {s t : Reading} {degree : Nat}

theorem readRow_scans {row : Expr} (h : readRow degree s = .ok row t) :
    Scans s t [row] ∧ row.degree = degree := by
  simp only [readRow, bind_ok, get_ok] at h
  obtain ⟨_, _, ⟨rfl, rfl⟩, found, u, hskip, h⟩ := h
  have hend : ∀ {items : List Expr} {v : Reading}, Scans s v items →
      (if items.length = degree then pure (.untyped (.row items) s.cursor.fragment)
        else reject (.degree degree items.length s.cursor.fragment) : Parser Expr) v = .ok row t →
      Scans s t [row] ∧ row.degree = degree := by
    rintro items v ⟨hraw, xs, hs⟩ h
    split at h
    · rename_i hlen
      obtain ⟨rfl, rfl⟩ := pure_ok.1 h
      refine ⟨⟨List.forall_mem_singleton.2 (.intro rfl hraw), xs, ?_⟩, hlen⟩
      simpa [Expr.untyped, Expr.marks_mk, Expr.bodies_mk, Expr.children, Expr.planNodes, Expr.mark?,
        Expr.body?] using hs
    · exact (reject_ok.1 h).elim
  rcases Reading.skipSymbol_takes hskip with ⟨rfl, o, ho, hko⟩ | ⟨rfl, rfl⟩
  · simp only [↓reduceIte, bind_ok, pure_ok] at h
    obtain ⟨items, v, hitems, x, w, hclose, _, _, ⟨rfl, rfl⟩, h⟩ := h
    obtain ⟨hx, hkx⟩ := Reading.symbol_takes hclose
    exact hend (.bracket ho hko (Expr.parseList_reads _ _ _ hitems) hx hkx) h
  · simp only [Bool.false_eq_true, ↓reduceIte, bind_ok, pure_ok] at h
    obtain ⟨item, v, hitem, _, _, ⟨rfl, rfl⟩, h⟩ := h
    exact hend (.parsed hitem) h

/-- The rows after VALUES. -/
theorem read_scans {rows : List Expr} {fragment : Fragment}
    (h : read degree s = .ok (rows, fragment) t) :
    Scans s t rows ∧ ∀ row ∈ rows, row.degree = degree := by
  simp only [read, bind_ok, get_ok, pure_ok, Prod.mk.injEq] at h
  obtain ⟨_, _, ⟨rfl, rfl⟩, rows', _, h, ⟨rfl, -⟩, rfl⟩ := h
  refine ⟨?_, forall_commaSeparated (fun _ _ _ hr => (readRow_scans hr).2) h⟩
  refine commaSteps_induct (fun rows u => Scans s u rows) h ?_ ?_ ?_ ?_
  · intro rows u h
    simp only [bind_ok, pure_ok, List.nil_append] at h
    obtain ⟨row, _, hrow, rfl, rfl⟩ := h
    exact (readRow_scans hrow).1
  · intro rows u n v hi h
    obtain rfl := Reading.remaining_stays h
    exact hi
  · intro rows u v rows' w hi hskip h
    simp only [bind_ok, pure_ok] at h
    obtain ⟨row, _, hrow, rfl, rfl⟩ := h
    rcases Reading.skipSymbol_takes hskip with ⟨-, x, hx, hk⟩ | ⟨hf, -⟩
    · simpa using (hi.trans (.token hx (by rw [hk]; rfl))).trans (readRow_scans hrow).1
    · cases hf
  · intro rows u v hi hskip
    rcases Reading.skipSymbol_takes hskip with ⟨hf, -⟩ | ⟨-, rfl⟩
    · cases hf
    · exact hi

end Rows

end DataChange
