/-
The lines of a source file.

Splitting a file at its newlines gives one text more than there are newlines, and the last of
them is no line if it is empty.  The walk that looks for the last text but one needs two texts:
a file without a newline is too short for it.
-/
import Spray.SourceFiles

namespace Spray

/-- These lines, each with a newline at its end. -/
def unlines (lines : List Text) : Text := (lines.map (· ++ ['\n'])).flatten

/-- The lines of a text.  The last of them may be without a newline, unless it is empty. -/
structure HasLines (content : Text) (lines : List Text) : Prop where
  free : ∀ line ∈ lines, '\n' ∉ line
  joined : content = unlines lines ∨
    ∃ front last, lines = front ++ [last] ∧ last ≠ [] ∧ content = unlines front ++ last

theorem unlines_append (lines lines' : List Text) :
    unlines (lines ++ lines') = unlines lines ++ unlines lines' := by
  rw [unlines, List.map_append, List.flatten_append]
  rfl

theorem unlines_singleton (line : Text) : unlines [line] = line ++ ['\n'] := List.append_nil _

/-! ### Splitting at newlines -/

theorem newline_notMem_splitOn (content : Text) :
    ∀ segment ∈ content.splitOn '\n', '\n' ∉ segment := by
  induction content with
  | nil => simp [List.splitOn_nil]
  | cons c content ih =>
      rw [List.splitOn_cons_eq_if_modifyHead]
      split
      · intro segment hsegment
        rcases List.mem_cons.mp hsegment with rfl | hsegment
        · exact List.not_mem_nil
        · exact ih segment hsegment
      · rename_i hc
        cases hsplit : content.splitOn '\n' with
        | nil => exact absurd hsplit (List.splitOn_ne_nil _ _)
        | cons first segments =>
            rw [hsplit] at ih
            intro segment hsegment
            rcases List.mem_cons.mp hsegment with rfl | hsegment
            · intro hmem
              rcases List.mem_cons.mp hmem with rfl | hmem
              · exact hc (beq_self_eq_true _)
              · exact ih first List.mem_cons_self hmem
            · exact ih segment (List.mem_cons_of_mem first hsegment)

theorem unlines_splitOn (content : Text) :
    unlines (content.splitOn '\n') = content ++ ['\n'] := by
  induction content with
  | nil => rfl
  | cons c content ih =>
      rw [List.splitOn_cons_eq_if_modifyHead]
      split
      · rename_i hc
        rw [eq_of_beq hc, unlines, List.map_cons, List.flatten_cons]
        exact congrArg _ ih
      · cases hsplit : content.splitOn '\n' with
        | nil => exact absurd hsplit (List.splitOn_ne_nil _ _)
        | cons first segments =>
            rw [hsplit] at ih
            exact congrArg (c :: ·) ih

theorem splitOn_newline {content : Text} (h : '\n' ∈ content) :
    ∃ front line last, content.splitOn '\n' = front ++ [line, last] := by
  obtain ⟨first, rest, rfl⟩ := List.append_of_mem h
  rw [List.splitOn_append_cons_self]
  obtain ⟨front, line, hfirst⟩ := List.eq_nil_or_concat' (first.splitOn '\n') |>.resolve_left
    (List.splitOn_ne_nil _ _)
  obtain ⟨back, last, hrest⟩ := List.eq_nil_or_concat' (rest.splitOn '\n') |>.resolve_left
    (List.splitOn_ne_nil _ _)
  rw [hfirst, hrest]
  rcases List.eq_nil_or_concat' back with rfl | ⟨back, line', rfl⟩
  · exact ⟨front, line, last, by simp⟩
  · exact ⟨front ++ line :: back, line', last, by simp⟩

/-! ### The last line -/

theorem beforeLastFrom_end (front : List Text) (line last : Text) :
    beforeLastFrom (front ++ [line, last]) (front ++ [line, last]).tail = .ok [line, last] := by
  induction front with
  | nil => rfl
  | cons first front ih =>
      cases front with
      | nil => rfl
      | cons second front =>
          have hmore : ∃ next rest, front ++ [line, last] = next :: rest := by
            cases front with
            | nil => exact ⟨line, [last], rfl⟩
            | cons third front => exact ⟨third, _, rfl⟩
          obtain ⟨next, rest, hnext⟩ := hmore
          rw [List.cons_append, hnext] at ih
          rw [List.cons_append, List.cons_append, hnext]
          exact ih

theorem beforeLast_end (front : List Text) (line last : Text) :
    beforeLast (front ++ [line, last]) = .ok [line, last] := by
  have hend := beforeLastFrom_end front line last
  cases front with
  | nil => exact hend
  | cons first front => exact hend

/-- With two texts there is a last one, and it is cut off if it is empty. -/
theorem omitTrailingLine_end (front : List Text) (line last : Text) :
    omitTrailingLine (front ++ [line, last]) =
      .ok (if last = [] then front ++ [line] else front ++ [line, last]) := by
  rw [omitTrailingLine, beforeLast_end]
  dsimp only
  split
  · have hlength : (front ++ [line, last]).length - [last].length = (front ++ [line]).length := by
      simp
    have hsplit : front ++ [line, last] = front ++ [line] ++ [last] := by simp
    rw [hlength, hsplit, List.take_left]
  · rfl

/-- One text alone is an error. -/
theorem omitTrailingLine_single (line : Text) : omitTrailingLine [line] = .error .badArgument := rfl

theorem fileToList_newline {host : Host} {filepath content : Text}
    (h : host.files filepath = some content) (hnewline : '\n' ∈ content) :
    ∃ lines, fileToList host filepath = .ok lines ∧ HasLines content lines := by
  obtain ⟨front, line, last, hsplit⟩ := splitOn_newline hnewline
  have hfree := newline_notMem_splitOn content
  have hjoined := unlines_splitOn content
  rw [hsplit] at hfree
  have hends : front ++ [line, last] = front ++ [line] ++ [last] := by simp
  rw [hsplit, hends, unlines_append, unlines_singleton, ← List.append_assoc] at hjoined
  have hcontent := List.append_cancel_right hjoined
  rw [fileToList, h]
  dsimp only
  rw [hsplit, omitTrailingLine_end]
  by_cases hlast : last = []
  · rw [if_pos hlast]
    refine ⟨front ++ [line], rfl, ⟨fun l hl => hfree l ?_, Or.inl ?_⟩⟩
    · rw [hends]
      exact List.mem_append_left _ hl
    · rw [← hcontent, hlast, List.append_nil]
  · rw [if_neg hlast]
    exact ⟨_, rfl, hfree, Or.inr ⟨front ++ [line], last, hends, hlast, hcontent.symm⟩⟩

theorem fileToList_noNewline {host : Host} {filepath content : Text}
    (h : host.files filepath = some content) (hnewline : '\n' ∉ content) :
    fileToList host filepath = .error .badArgument := by
  rw [fileToList, h]
  dsimp only
  rw [List.splitOn_eq_singleton hnewline, omitTrailingLine_single]

/-- **Reading a file gives its lines exactly if there is a newline in it.** -/
theorem fileToList_hasLines_iff {host : Host} {filepath content : Text}
    (h : host.files filepath = some content) :
    (∃ lines, fileToList host filepath = .ok lines ∧ HasLines content lines) ↔
      '\n' ∈ content := by
  constructor
  · intro ⟨lines, hlines, _⟩
    by_contra hnewline
    rw [fileToList_noNewline h hnewline] at hlines
    cases hlines
  · exact fileToList_newline h

/-- A host where these are the files there are. -/
def hostOf (files : List (String × String)) : Host where
  files path := (files.find? fun file => file.1.toList = path).map fun file => file.2.toList
  pathnameDirectory _ := none
  makePathname directory file :=
    match directory with
    | none => file
    | some directory => directory ++ '/' :: file
  search := searchLongest
  listed := id

/-- A file of two lines, the second of which is empty. -/
theorem fileToList_hasLines_two :
    ∃ lines, fileToList (hostOf [("a.c", "int x;\n\n")]) "a.c".toList = .ok lines ∧
      HasLines "int x;\n\n".toList lines :=
  (fileToList_hasLines_iff rfl).mpr (by decide)

/-- A file of one line that is not ended. -/
theorem fileToList_fails_single :
    HasLines "int x;".toList ["int x;".toList] ∧
      ¬ ∃ lines, fileToList (hostOf [("a.c", "int x;")]) "a.c".toList = .ok lines ∧
        HasLines "int x;".toList lines := by
  refine ⟨⟨by decide, Or.inr ⟨[], "int x;".toList, rfl, by decide, rfl⟩⟩, ?_⟩
  intro ⟨lines, hlines, _⟩
  cases hlines

end Spray
