import DataChange.Diagnostic
import Mathlib.Data.List.Infix

/-!
# The lines of a text

What a line of a text is, said of the text alone: it starts the text or follows a line feed, it
holds no line feed, and the text ends after it or goes on with a line feed, before which a carriage
return may stand (`IsLine`). `lines` holds the line of a character as the one whose number is that
of the line feeds before the character (`lines_at`).
-/

namespace DataChange.Text

/-- What follows a line in a text. -/
inductive LineEnd (line : List Char) : List Char → Prop
  | text : LineEnd line []
  | feed {below : List Char} (h : line.getLast? ≠ some '\r') : LineEnd line ('\n' :: below)
  | crlf {below : List Char} : LineEnd line ('\r' :: '\n' :: below)

/-- A line of a text, with what stands before it and after it. -/
structure IsLine (above line below : List Char) : Prop where
  starts : above = [] ∨ ∃ more, above = more ++ ['\n']
  unbroken : '\n' ∉ line
  ends : LineEnd line below

/-- The characters of the line on which some characters end. -/
def lineStart (before : List Char) : List Char :=
  (before.reverse.takeWhile (· != '\n')).reverse

theorem newline_not_mem_lineStart (before : List Char) : '\n' ∉ lineStart before := fun h => by
  simpa using List.all_eq_true.1 List.all_takeWhile _ (List.mem_reverse.1 h)

/-- What stands before the line on which some characters end. -/
theorem exists_above (before : List Char) : ∃ above, before = above ++ lineStart before ∧
    (above = [] ∨ ∃ more, above = more ++ ['\n']) ∧
      above.count '\n' = before.count '\n' := by
  have hsplit : before = (before.reverse.dropWhile (· != '\n')).reverse ++ lineStart before := by
    rw [lineStart, ← List.reverse_append, List.takeWhile_append_dropWhile, List.reverse_reverse]
  refine ⟨_, hsplit, ?_, ?_⟩
  · have hhead := List.head?_dropWhile_not (· != '\n') before.reverse
    cases hdrop : before.reverse.dropWhile (· != '\n') with
    | nil => exact .inl rfl
    | cons c more =>
      rw [hdrop] at hhead
      obtain rfl : c = '\n' := by simpa using hhead
      exact .inr ⟨more.reverse, by simp⟩
  · conv_rhs => rw [hsplit]
    rw [List.count_append, List.count_eq_zero.2 (newline_not_mem_lineStart before), Nat.add_zero]

/-- Characters without a line feed are gathered. -/
theorem linesFrom_unbroken {cs : List Char} (h : '\n' ∉ cs) (line rest : List Char) :
    linesFrom line (cs ++ rest) = linesFrom (cs.reverse ++ line) rest := by
  induction cs generalizing line with
  | nil => rfl
  | cons c cs ih =>
    rw [List.mem_cons, not_or] at h
    simp only [List.cons_append, linesFrom, if_neg (Ne.symm h.1), ih h.2, List.reverse_cons,
      List.append_assoc, List.nil_append]

/-- Characters that end with a line feed are as many lines as they have line feeds. -/
theorem linesFrom_feed (more line rest : List Char) : ∃ finished : List (List Char),
    finished.length = (more ++ ['\n']).count '\n' ∧
      linesFrom line (more ++ '\n' :: rest) = finished ++ linesFrom [] rest := by
  induction more generalizing line with
  | nil => exact ⟨[finishedLine line], by simp, by simp [linesFrom]⟩
  | cons c more ih =>
    by_cases hc : c = '\n'
    · subst hc
      obtain ⟨finished, hlength, hlines⟩ := ih []
      exact ⟨finishedLine line :: finished, by simp [hlength], by simp [linesFrom, hlines]⟩
    · obtain ⟨finished, hlength, hlines⟩ := ih (c :: line)
      refine ⟨finished, ?_, by simp [linesFrom, hc, hlines]⟩
      rw [hlength, List.cons_append, List.count_cons_of_ne hc]

theorem linesFrom_above {above : List Char} (h : above = [] ∨ ∃ more, above = more ++ ['\n'])
    (rest : List Char) : ∃ finished : List (List Char),
    finished.length = above.count '\n' ∧
      linesFrom [] (above ++ rest) = finished ++ linesFrom [] rest := by
  rcases h with rfl | ⟨more, rfl⟩
  · exact ⟨[], rfl, rfl⟩
  · simpa using linesFrom_feed more [] rest

/-- A line that is not empty is the first of those that start with it. -/
theorem linesFrom_line {line below : List Char} (h : LineEnd line below) (hne : line ≠ []) :
    (linesFrom line.reverse below)[0]? = some line := by
  cases h with
  | text => simp [linesFrom, hne]
  | feed hlast =>
    have hfinished : finishedLine line.reverse = line := by
      unfold finishedLine
      split
      · next rest hline =>
        rw [← List.reverse_reverse line, hline] at hlast
        simp at hlast
      · rw [List.reverse_reverse]
    simp [linesFrom, hfinished]
  | crlf => simp [linesFrom, finishedLine]

/-- The line of a character goes on up to the next line feed, or the return before it. -/
theorem exists_lineEnd {c : Char} (hfeed : c ≠ '\n') (hreturn : c ≠ '\r') (after : List Char) :
    ∃ tail below, after = tail ++ below ∧ '\n' ∉ c :: tail ∧
      ∀ start, LineEnd (start ++ c :: tail) below := by
  -- the line goes on to the next line feed, or to the end of the text
  obtain ⟨run, hrun, hsplit⟩ : ∃ run, '\n' ∉ c :: run ∧
      (after = run ∨ ∃ more, after = run ++ '\n' :: more) := by
    refine ⟨after.takeWhile (· != '\n'), ?_, ?_⟩
    · simpa [hfeed.symm] using fun h => by
        simpa using List.all_eq_true.1 List.all_takeWhile _ h
    · have hhead := List.head?_dropWhile_not (· != '\n') after
      cases hdrop : after.dropWhile (· != '\n') with
      | nil => exact .inl (by simpa [hdrop] using
          (List.takeWhile_append_dropWhile (p := (· != '\n')) (l := after)).symm)
      | cons d more =>
        rw [hdrop] at hhead
        obtain rfl : d = '\n' := by simpa using hhead
        exact .inr ⟨more, by rw [← hdrop, List.takeWhile_append_dropWhile]⟩
  rcases hsplit with rfl | ⟨more, rfl⟩
  · exact ⟨after, [], (List.append_nil _).symm, hrun, fun _ => .text⟩
  -- a carriage return right before the line feed is part of the line end
  by_cases hlast : run.getLast? = some '\r'
  · obtain ⟨tail, rfl⟩ := List.getLast?_eq_some_iff.1 hlast
    exact ⟨tail, '\r' :: '\n' :: more, by simp, fun h => hrun (by simp_all), fun _ => .crlf⟩
  · refine ⟨run, '\n' :: more, rfl, hrun, fun start => .feed ?_⟩
    cases hcases : run using List.reverseRecOn with
    | nil => simpa using hreturn
    | append_singleton tail d _ =>
      rw [show start ++ c :: (tail ++ [d]) = start ++ c :: tail ++ [d] by simp,
        List.getLast?_concat]
      simpa [hcases] using hlast

/-- The line of a character that ends no line: it stands where it does in the text, and it is the
one in `lines` that comes after as many others as there are line feeds before the character. -/
theorem lines_at {text : String} {before after : List Char} {c : Char} (hfeed : c ≠ '\n')
    (hreturn : c ≠ '\r') (htext : text.toList = before ++ c :: after) :
    ∃ above tail below, before = above ++ lineStart before ∧ after = tail ++ below ∧
      IsLine above (lineStart before ++ c :: tail) below ∧
      (lines text)[before.count '\n']? = some (String.ofList (lineStart before ++ c :: tail)) := by
  obtain ⟨above, habove, hstarts, hcount⟩ := exists_above before
  obtain ⟨tail, below, rfl, hunbroken, hends⟩ := exists_lineEnd hfeed hreturn after
  have hline : '\n' ∉ lineStart before ++ c :: tail := by
    rw [List.mem_append, not_or]
    exact ⟨newline_not_mem_lineStart before, hunbroken⟩
  obtain ⟨finished, hlength, hlines⟩ := linesFrom_above hstarts
    (lineStart before ++ c :: tail ++ below)
  have hfrom : linesFrom [] text.toList = finished ++
      linesFrom (lineStart before ++ c :: tail).reverse below := by
    rw [htext, show before ++ c :: (tail ++ below) =
      above ++ (lineStart before ++ c :: tail ++ below) by
        conv_lhs => rw [habove]
        simp, hlines, linesFrom_unbroken hline, List.append_nil]
  refine ⟨above, tail, below, habove, rfl, ⟨hstarts, hline, hends _⟩, ?_⟩
  rw [lines, List.getElem?_map, hfrom, List.getElem?_append_right (by omega),
    show before.count '\n' - finished.length = 0 by omega, linesFrom_line (hends _) (by simp)]
  rfl

end DataChange.Text
