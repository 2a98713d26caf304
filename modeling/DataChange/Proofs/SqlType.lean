import DataChange.SqlType

/-!
# Types that absorb others

A type absorbs another one if joining the other one to it changes nothing. A joined type absorbs the
types that it was joined from (`promote_absorbs`), and what one type absorbs can be joined in any
order without leaving it (`Absorbs.promote`). So several types come to the same in whatever order
they are joined (`promote_right_comm`), and so do rows of types (`joinRow?_right_comm`).
-/

namespace DataChange

namespace SqlType

/-- Joining the second type to the first changes nothing. -/
def Absorbs (wide t : SqlType) : Prop :=
  promote wide t = some wide

theorem absorbs_iff {wide t : SqlType} : wide.Absorbs t ↔ wide = t ∨ t = undefined ∨
    (wide.isNumber = true ∧ t.isNumber = true ∧ t.rank ≤ wide.rank) ∨
    wide.isTemporal = true ∧ t = varchar := by
  unfold Absorbs
  cases wide <;> cases t <;> decide

theorem Absorbs.assignableFrom {wide t : SqlType} (h : wide.Absorbs t) :
    wide.assignableFrom t = true := by
  cases wide <;> cases t <;> first | rfl | cases h

theorem Absorbs.trans {a b c : SqlType} (h : a.Absorbs b) (k : b.Absorbs c) : a.Absorbs c := by
  rw [absorbs_iff] at *
  rcases h with rfl | rfl | ⟨ha, hb, hab⟩ | ⟨ha, rfl⟩
  · exact k
  · rcases k with rfl | k | ⟨hn, -⟩ | ⟨ht, -⟩
    · exact .inr (.inl rfl)
    · exact .inr (.inl k)
    · cases hn
    · cases ht
  · rcases k with rfl | k | ⟨-, hc, hbc⟩ | ⟨ht, -⟩
    · exact .inr (.inr (.inl ⟨ha, hb, hab⟩))
    · exact .inr (.inl k)
    · exact .inr (.inr (.inl ⟨ha, hc, Nat.le_trans hbc hab⟩))
    · cases b <;> contradiction
  · rcases k with rfl | k | ⟨hn, -⟩ | ⟨ht, -⟩
    · exact .inr (.inr (.inr ⟨ha, rfl⟩))
    · exact .inr (.inl k)
    · cases hn
    · cases ht

theorem promote_absorbs {a b c : SqlType} (h : promote a b = some c) : c.Absorbs a ∧ c.Absorbs b := by
  cases a <;> cases b <;>
  · cases h
    try exact ⟨rfl, rfl⟩

/-- A joined type is one of the types that it was joined from. -/
theorem promote_eq {a b c : SqlType} (h : promote a b = some c) : c = a ∨ c = b := by
  unfold promote at h
  grind

/-- Of two types that one type absorbs, one absorbs the other. -/
theorem Absorbs.total {wide a b : SqlType} (ha : wide.Absorbs a) (hb : wide.Absorbs b) :
    a.Absorbs b ∨ b.Absorbs a := by
  rcases absorbs_iff.1 ha with rfl | rfl | ⟨hw, han, -⟩ | ⟨hw, rfl⟩
  · exact .inl hb
  · exact .inr (absorbs_iff.2 (.inr (.inl rfl)))
  · rcases absorbs_iff.1 hb with rfl | rfl | ⟨-, hbn, -⟩ | ⟨ht, -⟩
    · exact .inr ha
    · exact .inl (absorbs_iff.2 (.inr (.inl rfl)))
    · refine (Nat.le_total b.rank a.rank).imp (fun h => ?_) fun h => ?_
      · exact absorbs_iff.2 (.inr (.inr (.inl ⟨han, hbn, h⟩)))
      · exact absorbs_iff.2 (.inr (.inr (.inl ⟨hbn, han, h⟩)))
    · cases wide <;> contradiction
  · rcases absorbs_iff.1 hb with rfl | rfl | ⟨hn, -⟩ | ⟨-, rfl⟩
    · exact .inr ha
    · exact .inl (absorbs_iff.2 (.inr (.inl rfl)))
    · cases wide <;> contradiction
    · exact .inl (promote_self varchar)

/-- Two types that one type absorbs have a common type, which it absorbs as well. -/
theorem Absorbs.promote {wide a b : SqlType} (ha : wide.Absorbs a) (hb : wide.Absorbs b) :
    ∃ c, SqlType.promote a b = some c ∧ wide.Absorbs c := by
  rcases ha.total hb with h | h
  · exact ⟨a, h, ha⟩
  · exact ⟨b, (promote_comm a b).trans h, hb⟩

theorem Absorbs.antisymm {a b : SqlType} (h : a.Absorbs b) (k : b.Absorbs a) : a = b :=
  Option.some.inj (h.symm.trans ((promote_comm a b).trans k))

/-! ## Joining several types -/

/-- Three types are joined to the one of them that absorbs the others. -/
theorem promote_bind_eq_some {a b c wide : SqlType} :
    (promote a b).bind (promote · c) = some wide ↔
      wide.Absorbs a ∧ wide.Absorbs b ∧ wide.Absorbs c ∧ (wide = a ∨ wide = b ∨ wide = c) := by
  rw [Option.bind_eq_some_iff]
  constructor
  · rintro ⟨d, hab, hdc⟩
    obtain ⟨hda, hdb⟩ := promote_absorbs hab
    obtain ⟨hwd, hwc⟩ := promote_absorbs hdc
    refine ⟨hwd.trans hda, hwd.trans hdb, hwc, ?_⟩
    rcases promote_eq hdc with rfl | rfl
    · rcases promote_eq hab with rfl | rfl
      · exact .inl rfl
      · exact .inr (.inl rfl)
    · exact .inr (.inr rfl)
  · rintro ⟨ha, hb, hc, hone⟩
    obtain ⟨d, hab, hwd⟩ := ha.promote hb
    obtain ⟨e, hdc, hwe⟩ := hwd.promote hc
    obtain ⟨hda, hdb⟩ := promote_absorbs hab
    obtain ⟨hed, hec⟩ := promote_absorbs hdc
    -- the type of the two joins is one of the three, all of which `e` absorbs
    have hew : e.Absorbs wide := by
      rcases hone with rfl | rfl | rfl
      · exact hed.trans hda
      · exact hed.trans hdb
      · exact hec
    obtain rfl := hwe.antisymm hew
    exact ⟨d, hab, hdc⟩

/-- The order in which two types are joined to a third does not matter. -/
theorem promote_right_comm (a b c : SqlType) :
    (promote a b).bind (promote · c) = (promote a c).bind (promote · b) := by
  refine Option.ext fun wide => ?_
  rw [promote_bind_eq_some, promote_bind_eq_some]
  constructor
  · rintro ⟨ha, hb, hc, hone⟩
    exact ⟨ha, hc, hb, hone.imp_right Or.symm⟩
  · rintro ⟨ha, hc, hb, hone⟩
    exact ⟨ha, hb, hc, hone.imp_right Or.symm⟩

/-- A type joined to the common one of those before it, where either may be missing. -/
def join? : Option SqlType → Option SqlType → Option (Option SqlType)
  | type, none => some type
  | none, some t => some (some t)
  | some current, some t => (promote current t).map some

@[simp] theorem join?_none (type : Option SqlType) : join? type none = some type := by
  cases type <;> rfl

theorem join?_right_comm (type s t : Option SqlType) :
    (join? type s).bind (join? · t) = (join? type t).bind (join? · s) := by
  rcases s with _ | s
  · simp
  · rcases t with _ | t
    · simp
    · rcases type with _ | type
      · show (promote s t).map some = (promote t s).map some
        rw [promote_comm]
      · have hjoined : ∀ s t : SqlType, (join? (some type) (some s)).bind (join? · (some t)) =
            ((promote type s).bind (promote · t)).map some := by
          intro s t
          show ((promote type s).map some).bind (join? · (some t)) = _
          rw [Option.bind_map, Option.map_bind]
          rfl
        rw [hjoined, hjoined, promote_right_comm]

/-- The types of some columns joined with those of a further row. A typed value without a column is
not joined. -/
def joinRow? : List (Option SqlType) → List (Option SqlType) → Option (List (Option SqlType))
  | types, [] => some types
  | type :: types, t :: ts => do
    let joined ← join? type t
    return joined :: (← joinRow? types ts)
  | [], none :: ts => joinRow? [] ts
  | [], some _ :: _ => none

@[simp] theorem joinRow?_empty (types : List (Option SqlType)) :
    joinRow? types [] = some types := by
  cases types <;> rfl

theorem joinRow?_nil (ts : List (Option SqlType)) :
    joinRow? [] ts = if ts.all (·.isNone) then some [] else none := by
  induction ts with
  | nil => rfl
  | cons t ts ih =>
    cases t with
    | none => exact ih
    | some t => rfl

theorem joinRow?_cons (type s t : Option SqlType) (types ss ts : List (Option SqlType)) :
    (joinRow? (type :: types) (s :: ss)).bind (joinRow? · (t :: ts)) =
      ((join? type s).bind (join? · t)).bind fun joined =>
        ((joinRow? types ss).bind (joinRow? · ts)).map (joined :: ·) := by
  simp only [joinRow?]
  cases join? type s with
  | none => rfl
  | some joined =>
    cases joinRow? types ss with
    | none =>
      cases hj : join? joined t <;> simp [hj]
    | some types =>
      show joinRow? (joined :: types) (t :: ts) =
        (join? joined t).bind fun joined => (joinRow? types ts).map (joined :: ·)
      rw [joinRow?]
      cases join? joined t <;> cases joinRow? types ts <;> rfl

/-- The order in which two rows are joined to the columns does not matter. -/
theorem joinRow?_right_comm (types ss ts : List (Option SqlType)) :
    (joinRow? types ss).bind (joinRow? · ts) = (joinRow? types ts).bind (joinRow? · ss) := by
  induction types generalizing ss ts with
  | nil =>
    have hnil : ∀ ss ts : List (Option SqlType), (joinRow? [] ss).bind (joinRow? · ts) =
        if ss.all (·.isNone) && ts.all (·.isNone) then some [] else none := by
      intro ss ts
      rw [joinRow?_nil]
      cases ss.all (·.isNone) <;> simp [joinRow?_nil]
    rw [hnil, hnil, Bool.and_comm]
  | cons type types ih =>
    rcases ss with _ | ⟨s, ss⟩
    · simp
    · rcases ts with _ | ⟨t, ts⟩
      · simp
      · rw [joinRow?_cons, joinRow?_cons, join?_right_comm, ih]

end SqlType

end DataChange
