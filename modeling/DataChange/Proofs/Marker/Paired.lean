import DataChange.Proofs.Marker.Outline
import Mathlib.Data.List.Perm.Basic

/-!
# Every question mark is read once

`outline` ends at a subquery without its closing bracket, and nowhere else does a question mark get
lost. Where every bracket that is opened is closed (`Paired`), `readingOrder` is the question marks
of the text in another order (`Paired.readingOrder_perm`). The bodies of subqueries and the pieces
between separators are paired if the whole is.
-/

namespace DataChange

/-- Every bracket that is opened is closed. -/
def Paired (ts : List Token) : Prop :=
  ∀ o ys, o :: ys <:+ ts → o.isSymbol .openParen = true →
    ∃ body rest, splitClosing 0 ys = some (body, rest)

/-- What is closed stays closed, whatever follows. -/
theorem splitClosing_append {ts body rest : List Token} {depth : Nat}
    (h : splitClosing depth ts = some (body, rest)) (more : List Token) :
    splitClosing depth (ts ++ more) = some (body, rest ++ more) := by
  obtain ⟨close, -, rfl, hsplit⟩ := splitClosing_eq h
  simpa using hsplit (rest ++ more)

namespace Paired

variable {t : Token} {ts xs ys : List Token}

theorem nil : Paired [] := by
  intro o ys h
  simp at h

theorem of_suffix (h : Paired ts) (hs : xs <:+ ts) : Paired xs :=
  fun o ys ho => h o ys (ho.trans hs)

theorem tail (h : Paired (t :: ts)) : Paired ts :=
  h.of_suffix (List.suffix_cons t ts)

/-- A first token that opens no bracket, or opens one that is closed. -/
theorem cons (h : Paired ts)
    (ht : t.isSymbol .openParen = true → ∃ body rest, splitClosing 0 ts = some (body, rest)) :
    Paired (t :: ts) := by
  intro o ys hs ho
  rcases List.suffix_cons_iff.1 hs with heq | hs
  · obtain ⟨rfl, rfl⟩ := List.cons.inj heq
    exact ht ho
  · exact h o ys hs ho

theorem append (hx : Paired xs) (hy : Paired ys) : Paired (xs ++ ys) := by
  induction xs with
  | nil => exact hy
  | cons x xs ih =>
    refine (ih hx.tail).cons fun ho => ?_
    obtain ⟨body, rest, h⟩ := hx x xs List.suffix_rfl ho
    exact ⟨body, rest ++ ys, splitClosing_append h ys⟩

theorem flatten {ls : List (List Token)} (h : ∀ l ∈ ls, Paired l) : Paired ls.flatten := by
  induction ls with
  | nil => exact nil
  | cons l ls ih =>
    exact (h l (by simp)).append (ih fun l hl => h l (by simp [hl]))

/-- Within the body of a bracket every bracket is closed before the body is. -/
theorem of_splitClosing : ∀ {ts : List Token} {depth : Nat} {body rest : List Token},
    splitClosing depth ts = some (body, rest) →
    Paired body ∧ ∀ k < depth, ∃ b r, splitClosing k body = some (b, r)
  | [], _, _, _, h => by simp [splitClosing] at h
  | t :: ts, depth, body, rest, h => by
    unfold splitClosing at h
    split at h
    · next ho =>
      obtain ⟨⟨b, r⟩, hb, he⟩ := Option.map_eq_some_iff.1 h
      cases he
      obtain ⟨hpaired, hclosed⟩ := of_splitClosing hb
      refine ⟨hpaired.cons fun _ => hclosed 0 (by omega), fun k hk => ?_⟩
      obtain ⟨b', r', h'⟩ := hclosed (k + 1) (by omega)
      exact ⟨t :: b', r', by simp [splitClosing, ho, h']⟩
    · next ho =>
      split at h
      · next hc =>
        cases depth with
        | zero =>
          cases h
          exact ⟨nil, by simp⟩
        | succ depth =>
          obtain ⟨⟨b, r⟩, hb, he⟩ := Option.map_eq_some_iff.1 h
          cases he
          obtain ⟨hpaired, hclosed⟩ := of_splitClosing hb
          refine ⟨hpaired.cons fun h => absurd h ho, fun k hk => ?_⟩
          cases k with
          | zero => exact ⟨[], b, by rw [splitClosing, if_neg ho, if_pos hc]⟩
          | succ k =>
            obtain ⟨b', r', h'⟩ := hclosed k (by omega)
            exact ⟨t :: b', r', by simp [splitClosing, ho, hc, h']⟩
      · next hc =>
        obtain ⟨⟨b, r⟩, hb, he⟩ := Option.map_eq_some_iff.1 h
        cases he
        obtain ⟨hpaired, hclosed⟩ := of_splitClosing hb
        refine ⟨hpaired.cons fun h => absurd h ho, fun k hk => ?_⟩
        obtain ⟨b', r', h'⟩ := hclosed k hk
        exact ⟨t :: b', r', by simp [splitClosing, ho, hc, h']⟩

end Paired

/-- A bracket that closed tokens stand in is closed after them, so theirs are closed before. -/
theorem Closed.paired {commas : Bool} {xs : List Token} (h : Closed commas xs) : Paired xs := by
  have hclose : (⟨.symbol .closeParen, .written ")" 1 1, rfl⟩ : Token).isSymbol .closeParen = true :=
    rfl
  exact (Paired.of_splitClosing (h.splitClosing_eq_some hclose [])).1

theorem IsTail.paired {ts : List Token} (h : IsTail ts) : Paired ts := by
  rcases h with rfl | ⟨x, hx, rfl⟩
  · exact .nil
  · exact Paired.nil.cons fun ho => by simp [Token.isSymbol, hx] at ho

namespace Paired

variable {t : Token} {ts : List Token}

/-! ## Subqueries -/

theorem of_mem_bodies (h : Paired ts) : ∀ body ∈ (outline ts).bodies, Paired body := by
  fun_induction outline ts with
  | case1 => simp [Outline.empty]
  | case2 t ts ho body rest hs ih =>
    obtain ⟨close, -, rfl, -⟩ := splitClosing_eq hs
    have hrest : rest <:+ t :: (body ++ close :: rest) :=
      ⟨t :: body ++ [close], by simp⟩
    intro b hb
    rcases List.mem_cons.1 hb with rfl | hb
    · exact (of_splitClosing hs).1
    · exact ih (h.of_suffix hrest) b hb
  | case3 => simp [Outline.empty]
  | case4 t ts _ _ ih => exact ih h.tail
  | case5 t ts _ _ ih => exact ih h.tail

/-- A question mark stands outside all subqueries or in one of their bodies. -/
theorem outline_perm (h : Paired ts) :
    ((outline ts).markers ++ (outline ts).bodies.flatten.filter (·.kind = .parameter)).Perm
      (ts.filter (·.kind = .parameter)) := by
  fun_induction outline ts with
  | case1 => exact .refl _
  | case2 t ts ho body rest hs ih =>
    obtain ⟨close, hclose, rfl, -⟩ := splitClosing_eq hs
    have hrest : rest <:+ t :: (body ++ close :: rest) :=
      ⟨t :: body ++ [close], by simp⟩
    -- neither bracket is a question mark, so all of them are in the body or in the rest
    have hopen : t.kind ≠ .parameter := by
      intro hk
      cases body <;> simp [opensQuery, Token.isSymbol, hk] at ho
    have hclose : close.kind ≠ .parameter := by
      intro hk
      simp [Token.isSymbol, hk] at hclose
    simp only [Outline.append, List.nil_append, List.singleton_append, List.flatten_cons,
      List.filter_append, List.filter_cons, hopen, hclose, decide_false, Bool.false_eq_true,
      ↓reduceIte]
    calc (outline rest).markers ++ (body.filter (·.kind = .parameter) ++
          (outline rest).bodies.flatten.filter (·.kind = .parameter))
        |>.Perm (body.filter (·.kind = .parameter) ++ ((outline rest).markers ++
          (outline rest).bodies.flatten.filter (·.kind = .parameter))) :=
        List.perm_append_comm_assoc ..
      _ |>.Perm _ := (ih (h.of_suffix hrest)).append_left _
  | case3 t ts ho hs =>
    have hopen : t.isSymbol .openParen = true := by
      cases ts <;> simp_all [opensQuery]
    obtain ⟨body, rest, hb⟩ := h t ts List.suffix_rfl hopen
    simp [hs] at hb
  | case4 t ts _ hk ih =>
    simpa [Outline.append, hk] using ih h.tail
  | case5 t ts _ hk ih =>
    simpa [hk] using ih h.tail

/-- The question marks are read one by one, and none twice. -/
theorem readingOrder_perm (h : Paired ts) :
    (readingOrder ts).Perm (ts.filter (·.kind = .parameter)) := by
  induction hn : ts.length using Nat.strongRecOn generalizing ts with
  | ind n ih =>
    have hbodies : ((outline ts).bodies.flatMap readingOrder).Perm
        ((outline ts).bodies.flatMap fun body => body.filter (·.kind = .parameter)) :=
      List.Perm.flatMap_left _ fun body hbody =>
        ih _ (hn ▸ length_of_mem_bodies hbody) (h.of_mem_bodies body hbody) rfl
    rw [readingOrder_eq, deferredOrder]
    rw [List.flatMap_def, List.flatMap_def, ← List.filter_flatten, ← List.flatMap_def] at hbodies
    exact (hbodies.append_left _).trans h.outline_perm

/-! ## Pieces -/

/-- A token before the first of some pieces, with its bracket closed if it opens one. -/
theorem of_mem_joinHead {ps : List (List Token)} (hps : ∀ p ∈ ps, Paired p)
    (ht : t.isSymbol .openParen = true →
      ∃ p more, ps = p :: more ∧ ∃ body rest, splitClosing 0 p = some (body, rest)) :
    ∀ p ∈ joinHead [t] ps, Paired p := by
  cases ps with
  | nil =>
    have hplain : ∀ p ∈ [[t]], Paired p :=
      List.forall_mem_singleton.2 (nil.cons fun ho => by simpa using ht ho)
    exact hplain
  | cons q more =>
    intro p hp
    rcases List.mem_cons.1 hp with rfl | hp
    · refine (hps q (by simp)).cons fun ho => ?_
      obtain ⟨q', more', heq, hclosed⟩ := ht ho
      obtain ⟨rfl, rfl⟩ := List.cons.inj heq
      exact hclosed
    · exact hps p (by simp [hp])

/-- Between separators outside all brackets every bracket is closed. -/
theorem of_mem_pieces (sep : Token → Bool) : ∀ {ts : List Token} (depth : Nat), Paired ts →
    ∀ p ∈ pieces sep depth ts, Paired p
  | [], _, _ => by simp [pieces, nil]
  | t :: ts, depth, h => by
    unfold pieces
    split
    · next ho =>
      -- The first piece after the bracket reaches at least to where the bracket is closed.
      obtain ⟨body, rest, hs⟩ := h t ts List.suffix_rfl ho
      refine of_mem_joinHead (of_mem_pieces sep _ h.tail) fun _ => ?_
      obtain ⟨close, rfl, hpieces⟩ := @pieces_splitClosing sep _ _ _ _ hs
      obtain ⟨close', -, heq, hsplit⟩ := splitClosing_eq hs
      obtain rfl : close = close' := by simpa using heq
      rw [hpieces depth]
      cases pieces sep depth rest with
      | nil => exact ⟨_, _, rfl, body, [], hsplit []⟩
      | cons q more => exact ⟨_, _, rfl, body, q, by simpa using hsplit q⟩
    · next ho =>
      split
      · exact of_mem_joinHead (of_mem_pieces sep _ h.tail) fun h => absurd h ho
      · split
        · refine List.forall_mem_cons.2 ⟨nil, ?_⟩
          exact of_mem_joinHead (of_mem_pieces sep _ h.tail) fun h => absurd h ho
        · exact of_mem_joinHead (of_mem_pieces sep _ h.tail) fun h => absurd h ho

end Paired

end DataChange
