import DataChange.Proofs.Recursion
import DataChange.Proofs.View.Refused
import Mathlib.Order.Lattice.Nat

/-!
# Following views comes to an end

A statement passes from a view to its base while this is a view that does not take the operation.
Whether that ends is a matter of the catalog (`Environment.ViewsEnd`): the number of views to pass
is the measure of the loop. Where it is finite for every view, it is no larger than the number of
views there are (`height_le`), since all views on the way have different heights, and the bound of
the model is never reached (`follow_comesTo`).
-/

namespace DataChange

namespace Environment

variable {env : Environment} {operation : Operation} {v w : View}

/-! ## The way from a view -/

/-- The view behind a view. There is none if the view takes the operation itself, if it has no base,
or if its base is missing or a table. -/
def nextView? (env : Environment) (operation : Operation) (v : View) : Option View :=
  if operation.hasTrigger v then none
  else
    match env.base? v with
    | some (.view w) => some w
    | _ => none

/-- The view that is some steps behind a view. -/
def viewAfter? (env : Environment) (operation : Operation) : Nat → View → Option View
  | 0, v => some v
  | n + 1, v => (env.nextView? operation v).bind (env.viewAfter? operation n)

/-- From every view a statement with the operation comes to an end after finitely many steps. -/
def ViewsEnd (env : Environment) (operation : Operation) : Prop :=
  ∀ v ∈ env.views, ∃ n, env.viewAfter? operation n v = none

/-- In the bank a view is over a table, or over one that is. -/
theorem bank_viewsEnd (operation : Operation) (_ : operation ≠ .truncate) :
    bank.ViewsEnd operation := by
  intro v hv
  refine ⟨3, ?_⟩
  revert v
  cases operation <;> decide +kernel

theorem base?_of_nextView? (h : env.nextView? operation v = some w) :
    env.base? v = some (.view w) := by
  unfold nextView? at h
  split at h
  · cases h
  · split at h <;> simp_all

theorem mem_of_nextView? (h : env.nextView? operation v = some w) : w ∈ env.views := by
  obtain ⟨base, -, hbase⟩ := Option.bind_eq_some_iff.1 (base?_of_nextView? h)
  have hview : env.relation (base.relation.qualify v.schemaName) default = .ok (.view w) := by
    simp [relation, hbase]
  exact mem_views hview

theorem ViewsEnd.ends (h : env.ViewsEnd operation) (v : View) :
    ∃ n, env.viewAfter? operation n v = none := by
  cases hnext : env.nextView? operation v with
  | none => exact ⟨1, by simp [viewAfter?, hnext]⟩
  | some w =>
    obtain ⟨n, hn⟩ := h w (mem_of_nextView? hnext)
    exact ⟨n + 1, by simp [viewAfter?, hnext, hn]⟩

/-! ## Heights -/

/-- The number of views on the way from a view, itself included. -/
noncomputable def height (env : Environment) (operation : Operation) (v : View) : Nat :=
  sInf {n | env.viewAfter? operation n v = none}

theorem height_pos (h : env.ViewsEnd operation) (v : View) : 0 < env.height operation v := by
  have hmem : env.viewAfter? operation (env.height operation v) v = none := Nat.sInf_mem (h.ends v)
  refine Nat.pos_of_ne_zero fun hzero => ?_
  rw [hzero] at hmem
  cases hmem

/-- Every step makes the way shorter by one. -/
theorem height_next (h : env.ViewsEnd operation) (hnext : env.nextView? operation v = some w) :
    env.height operation v = env.height operation w + 1 := by
  have hstep := Nat.sInf_add (p := fun n => env.viewAfter? operation n v = none) (height_pos h v)
  simp only [viewAfter?, hnext, Option.bind_some] at hstep
  exact hstep.symm

/-- The views behind a view have smaller heights, so that they are distinct. -/
theorem exists_behind (h : env.ViewsEnd operation) (v : View) :
    ∃ behind : List View, behind.Nodup ∧ behind ⊆ env.views ∧
      (∀ w ∈ behind, env.height operation w < env.height operation v) ∧
      env.height operation v ≤ behind.length + 1 := by
  induction hn : env.height operation v generalizing v with
  | zero => exact absurd hn (Nat.ne_of_gt (height_pos h v))
  | succ n ih =>
    cases hnext : env.nextView? operation v with
    | none =>
      have hlast : env.height operation v ≤ 1 := Nat.sInf_le (by simp [viewAfter?, hnext])
      exact ⟨[], List.nodup_nil, List.nil_subset _, by simp, by simpa [hn] using hlast⟩
    | some w =>
      have hw : env.height operation w = n := by
        have := height_next h hnext
        omega
      obtain ⟨behind, hnodup, hsub, hlt, hlength⟩ := ih w hw
      have hnew : w ∉ behind := fun hmem => absurd (hlt w hmem) (by omega)
      refine ⟨w :: behind, List.nodup_cons.2 ⟨hnew, hnodup⟩,
        List.cons_subset.2 ⟨mem_of_nextView? hnext, hsub⟩, fun u hu => ?_, ?_⟩
      · rcases List.mem_cons.1 hu with rfl | hu
        · omega
        · exact Nat.lt_succ_of_lt (hlt u hu)
      · exact Nat.succ_le_succ hlength

/-- There are no more views on a way than in the catalog, and the one that it starts from. -/
theorem height_le (h : env.ViewsEnd operation) (v : View) :
    env.height operation v ≤ env.views.length + 1 := by
  obtain ⟨behind, hnodup, hsub, -, hlength⟩ := exists_behind h v
  have := hnodup.length_le_of_subset hsub
  omega

end Environment

/-! ## The recursion -/

namespace ViewTarget

variable {env : Environment} {operation : Operation}

/-- The step of following views. -/
def followStep (env : Environment) (operation : Operation) (follow : Descent → Compiler Descent)
    (state : Descent) : Compiler Descent :=
  match viewToPass? operation state.range with
  | none => return state
  | some view => do follow (← descend env operation view state)

/-- The loop over the views that are passed. -/
def follow (env : Environment) (operation : Operation) : Descent → Compiler Descent :=
  followWithin env operation (env.catalog.views.byId.entries.length + 2)

theorem resolve_eq (written : Range) : resolve env written operation = (do
    let ⟨range, columnMap, filter⟩ ← follow env operation (start written)
    match range.relation? with
    | some relation => return ⟨written, relation, range, columnMap, filter⟩
    | none => reject (.unexpected .relation range.fragment)) := rfl

/-- The number of views that are still to be passed. -/
noncomputable def toPass (env : Environment) (operation : Operation) (state : Descent) : Nat :=
  match viewToPass? operation state.range with
  | none => 0
  | some view => env.height operation view

theorem toPass_le (h : env.ViewsEnd operation) (state : Descent) :
    toPass env operation state < env.catalog.views.byId.entries.length + 2 := by
  have hcount : env.views.length = env.catalog.views.byId.entries.length := by
    simp [Environment.views, Index.values]
  unfold toPass
  split
  · omega
  · next view _ =>
    have := Environment.height_le h view
    omega

/-- The view that is come to is the one behind the view that is passed. -/
theorem descend_next {view w : View} {state state' : Descent} {s t : CompilerState}
    (hview : viewToPass? operation state.range = some view)
    (hd : descend env operation view state s = .ok state' t)
    (hw : viewToPass? operation state'.range = some w) :
    env.nextView? operation view = some w := by
  obtain ⟨base, relation, _, outer, filter, columnMap, hbase, hrelation, rfl, -, -, -, rfl⟩ :=
    descend_ok hd
  obtain rfl : relation = .view w := by
    simpa [Range.markAllUsed, Range.ofRelation, Range.fresh] using (viewToPass?_some hw).1
  simp [Environment.nextView?, (viewToPass?_some hview).2,
    Environment.base?_of_relation hbase hrelation]

theorem descend_toPass (h : env.ViewsEnd operation) {view : View} {state state' : Descent}
    {s t : CompilerState} (hview : viewToPass? operation state.range = some view)
    (hd : descend env operation view state s = .ok state' t) :
    toPass env operation state' < toPass env operation state := by
  have hheight := Environment.height_pos h view
  simp only [toPass, hview]
  split
  · exact hheight
  · next w hw =>
    rw [Environment.height_next h (descend_next hview hd hw)]
    exact Nat.lt_succ_self _

/-- Following views comes to an end where they do, and before the bound of the model. -/
theorem follow_comesTo (h : env.ViewsEnd operation) :
    ComesTo (followStep env operation) (follow env operation)
      fun _ _ => env.catalog.views.byId.entries.length + 2 := by
  have hdescending : Descending (fun state _ => toPass env operation state)
      (followStep env operation) (followWithin env operation) := by
    refine ⟨fun _ => rfl, fun n b follow hagree state s hlt => ?_⟩
    simp only [followStep]
    cases hview : viewToPass? operation state.range with
    | none => rfl
    | some view =>
      refine bind_congr_ok fun state' t hd => hagree state' t ?_
      exact Nat.lt_of_lt_of_le (descend_toPass h hview hd) (Nat.le_of_lt_succ hlt)
  exact hdescending.comesTo_of_lt (fun state _ => toPass_le h state) fun _ _ => rfl

end ViewTarget

end DataChange
