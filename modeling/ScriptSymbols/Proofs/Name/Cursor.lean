import ScriptSymbols.Name.Span
import ScriptSymbols.Proofs.Name.Word
import ScriptSymbols.Proofs.Text.Boundaries

/-!
# The identifier at a cursor

A cursor is a column. It stands at a place between two characters of the line, and it touches a word of the line
from inside or at one of its ends.

1. `Name.edges_or_touches`: a place touches no identifier character, or it touches one word.
2. `Name.identifierAt?_of_touches` and `Name.identifierAt?_of_edges` say what is read in either case, and
   `Name.of_identifierAt?_eq_some` and `Name.of_identifierAt?_eq_none` go back from it to the place.
3. `Name.touches_of_le`: all columns of a word touch it.
4. `Name.touched_word_is_read` is the result for every column of every line.
-/

namespace ScriptSymbols
namespace Name

open Text

/-! ## Places and words -/

/-- Whether a place, with `front` before it, is in a word that follows `before`, or at one of its ends. -/
structure Touches (front before word : List Char) : Prop where
  starts : before <+: front
  ends : front <+: before ++ word

/-- A text starts with identifier characters, maybe none, up to an edge. -/
theorem exists_leading_run (cs : List Char) :
    ∃ run tail, cs = run ++ tail ∧ (∀ c ∈ run, isIdentChar c = true) ∧ IsEdge tail.head? := by
  refine ⟨cs.takeWhile isIdentChar, cs.dropWhile isIdentChar, List.takeWhile_append_dropWhile.symm,
    List.all_eq_true.1 List.all_takeWhile, ?_⟩
  have hhead := List.head?_dropWhile_not isIdentChar cs
  cases htail : (cs.dropWhile isIdentChar).head? with
  | none => exact isEdge_none
  | some c => simpa [htail] using hhead

/-- A text ends with identifier characters, maybe none, down to an edge. -/
theorem exists_final_run (cs : List Char) :
    ∃ init run, cs = init ++ run ∧ (∀ c ∈ run, isIdentChar c = true) ∧ IsEdge init.getLast? := by
  obtain ⟨run, tail, hsplit, hrun, hedge⟩ := exists_leading_run cs.reverse
  refine ⟨tail.reverse, run.reverse, ?_, fun c hc => hrun c (List.mem_reverse.1 hc), ?_⟩
  · rw [← List.reverse_append, ← hsplit, List.reverse_reverse]
  · rwa [List.getLast?_reverse]

theorem edges_or_touches (front rest : List Char) :
    (IsEdge front.getLast? ∧ IsEdge rest.head?) ∨
      ∃ before behind word, StandsBetween before behind word (front ++ rest) ∧ Touches front before word := by
  -- The word is what the two sides of the place have of it, put together.
  obtain ⟨before, left, rfl, hleft, hbefore⟩ := exists_final_run front
  obtain ⟨right, behind, rfl, hright, hbehind⟩ := exists_leading_run rest
  by_cases hword : left ++ right = []
  · obtain ⟨rfl, rfl⟩ := List.append_eq_nil_iff.1 hword
    exact Or.inl ⟨by rwa [List.append_nil], hbehind⟩
  · refine Or.inr ⟨before, behind, left ++ right, ⟨?_, hword, ?_, hbefore, hbehind⟩, ⟨?_, ?_⟩⟩
    · simp only [List.append_assoc]
    · intro c hc
      rcases List.mem_append.1 hc with hc | hc
      · exact hleft c hc
      · exact hright c hc
    · exact List.prefix_append before left
    · exact ⟨right, by rw [List.append_assoc]⟩

/-! ## What is read at a place -/

section Reading

variable {line front rest before behind word : List Char} {column : Nat}

/-- The reading at a column in terms of the two texts into which the column cuts the line. -/
theorem identifierAt?_of_cutAt (hcut : CutAt line column front rest) :
    identifierAt? line column =
      let word := (front.reverse.takeWhile isIdentChar).reverse ++ rest.takeWhile isIdentChar
      let start := units (front.reverse.dropWhile isIdentChar)
      if word.isEmpty ∨ word.head?.any Char.isDigit then none
      else some { word, start, stop := start + units word } := by
  obtain ⟨rfl, rfl⟩ := hcut.unique (cutAt_indexOfColumn line column)
  rfl

theorem units_reverse (cs : List Char) : units cs.reverse = units cs := by
  induction cs with
  | nil => rfl
  | cons c cs ih =>
      rw [List.reverse_cons, units_append, units_cons, units_cons, units_nil, ih]
      omega

/-- At a place that touches a word, the word is read, unless it starts with a digit. -/
theorem identifierAt?_of_touches (hcut : CutAt line column front rest)
    (hword : StandsBetween before behind word line) (htouches : Touches front before word) :
    identifierAt? line column =
      if word.head?.any Char.isDigit then none
      else some { word, start := units before, stop := units (before ++ word) } := by
  -- The place cuts the word in two, of which one may be empty.
  obtain ⟨left, rfl⟩ := htouches.starts
  obtain ⟨right, rfl⟩ := (List.prefix_append_right_inj before).1 htouches.ends
  have hrest : rest = right ++ behind := by
    have hline := hcut.line_eq.symm.trans hword.line_eq
    simpa only [List.append_assoc, List.append_cancel_left_eq] using hline
  have hleft : left.reverse.all isIdentChar = true :=
    List.all_eq_true.2 fun c hc => hword.ident c (List.mem_append_left right (List.mem_reverse.1 hc))
  have hright : right.all isIdentChar = true :=
    List.all_eq_true.2 fun c hc => hword.ident c (List.mem_append_right left hc)
  have hbefore : before.reverse.head?.any isIdentChar = false := by
    rw [List.head?_reverse]
    exact hword.before
  rw [identifierAt?_of_cutAt hcut, List.reverse_append, hrest]
  simp only [takeWhile_append_of_stop hleft hbefore, dropWhile_append_of_stop hleft hbefore,
    takeWhile_append_of_stop hright hword.behind, List.reverse_reverse, units_reverse, units_append,
    List.isEmpty_iff, hword.nonempty, false_or]

/-- At a place between edges nothing is read. -/
theorem identifierAt?_of_edges (hcut : CutAt line column front rest) (hfront : IsEdge front.getLast?)
    (hrest : IsEdge rest.head?) : identifierAt? line column = none := by
  have hleft : ([] ++ front.reverse).takeWhile isIdentChar = [] := by
    rw [← List.head?_reverse] at hfront
    exact takeWhile_append_of_stop rfl hfront
  have hright : ([] ++ rest).takeWhile isIdentChar = [] := takeWhile_append_of_stop rfl hrest
  rw [List.nil_append] at hleft hright
  rw [identifierAt?_of_cutAt hcut]
  simp [hleft, hright]

/-- All columns from the start of a word to its end touch it. -/
theorem touches_of_le (hword : StandsBetween before behind word line) (hcut : CutAt line column front rest)
    (hstart : units before ≤ column) (hstop : column ≤ units (before ++ word)) :
    Touches front before word where
  starts := by
    have hbefore := cutAt_units before (word ++ behind)
    rw [← hword.line_eq] at hbefore
    exact hbefore.prefix_of_le hcut hstart
  ends := by
    refine hcut.prefix_of_reaches ⟨behind, ?_⟩ (Or.inl hstop)
    rw [hword.line_eq, List.append_assoc]

/-- What is read at a place is a word that the place touches. -/
theorem of_identifierAt?_eq_some {span : WordSpan} (hcut : CutAt line column front rest)
    (h : identifierAt? line column = some span) :
    ∃ before behind, StandsBetween before behind span.word line ∧ Touches front before span.word ∧
      span.word.head?.any Char.isDigit = false ∧ span.start = units before ∧
      span.stop = units (before ++ span.word) := by
  rcases edges_or_touches front rest with ⟨hfront, hrest⟩ | ⟨before, behind, word, hword, htouches⟩
  · rw [identifierAt?_of_edges hcut hfront hrest] at h
    cases h
  · rw [← hcut.line_eq] at hword
    rw [identifierAt?_of_touches hcut hword htouches] at h
    split at h
    · cases h
    · rename_i hdigit
      cases h
      exact ⟨before, behind, hword, htouches, Bool.eq_false_iff.2 hdigit, rfl, rfl⟩

/-- Where nothing is read, no identifier character touches the place, or a word that starts with a digit does. -/
theorem of_identifierAt?_eq_none (hcut : CutAt line column front rest) (h : identifierAt? line column = none) :
    (IsEdge front.getLast? ∧ IsEdge rest.head?) ∨
      ∃ before behind word, StandsBetween before behind word line ∧ Touches front before word ∧
        word.head?.any Char.isDigit = true := by
  rcases edges_or_touches front rest with hedges | ⟨before, behind, word, hword, htouches⟩
  · exact Or.inl hedges
  · rw [← hcut.line_eq] at hword
    rw [identifierAt?_of_touches hcut hword htouches] at h
    split at h
    · rename_i hdigit
      exact Or.inr ⟨before, behind, word, hword, htouches, hdigit⟩
    · cases h

end Reading

/-! ## Every column of every line -/

/-- What is read at a column is the word that the column touches, whichever part of the word it is. The column
cuts the line at the next boundary, or at the end of the line. If an identifier is read there, it is not empty,
stands between its columns as a maximal run of identifier characters, starts with no digit, has the cut inside or
at one of its ends, and is read in the same way at all columns between these. If none is read, there is no
identifier character on either side of the cut, or the run that the cut touches starts with a digit. -/
theorem touched_word_is_read (line : List Char) (column : Nat) :
    ∃ front rest, CutAt line column front rest ∧
      (∀ span, identifierAt? line column = some span →
        span.start < span.stop ∧
          ∃ before behind, StandsBetween before behind span.word line ∧
            span.start = units before ∧ span.stop = units (before ++ span.word) ∧
            span.word.head?.any Char.isDigit = false ∧
            span.start ≤ units front ∧ units front ≤ span.stop ∧
            ∀ other, span.start ≤ other → other ≤ span.stop → identifierAt? line other = some span) ∧
      (identifierAt? line column = none →
        (IsEdge front.getLast? ∧ IsEdge rest.head?) ∨
          ∃ before behind word, StandsBetween before behind word line ∧ Touches front before word ∧
            word.head?.any Char.isDigit = true) := by
  have hcut := cutAt_indexOfColumn line column
  refine ⟨_, _, hcut, ?_, of_identifierAt?_eq_none hcut⟩
  intro span hspan
  obtain ⟨before, behind, hword, htouches, hdigit, hstart, hstop⟩ := of_identifierAt?_eq_some hcut hspan
  have hlonger : before ≠ before ++ span.word := by simpa using hword.nonempty.symm
  refine ⟨?_, before, behind, hword, hstart, hstop, hdigit, ?_, ?_, ?_⟩
  · rw [hstart, hstop]
    exact units_lt_of_isPrefix (List.prefix_append before span.word) hlonger
  · rw [hstart]
    exact total_le_of_isPrefix unitSize htouches.starts
  · rw [hstop]
    exact total_le_of_isPrefix unitSize htouches.ends
  · -- Any other column between the two cuts the line at a place that touches the same word.
    intro other hfrom hto
    rw [hstart] at hfrom
    rw [hstop] at hto
    have hcut' := cutAt_indexOfColumn line other
    rw [identifierAt?_of_touches hcut' hword (touches_of_le hword hcut' hfrom hto), hdigit,
      if_neg Bool.false_ne_true, ← hstart, ← hstop]

/-- A column inside the pair of a letter touches the whole identifier, and a number is none. -/
theorem touched_word_is_read_inside_pair :
    let line := "a := 𝒳1 + 9b".toList
    let span : WordSpan := { word := "𝒳1".toList, start := 5, stop := 8 }
    identifierAt? line 6 = some span ∧ identifierAt? line 5 = some span ∧ identifierAt? line 8 = some span ∧
      identifierAt? line 12 = none ∧ ∃ before behind, StandsBetween before behind span.word line := by
  intro line span
  have hspan : identifierAt? line 6 = some span := by decide +kernel
  obtain ⟨_, _, -, hread, -⟩ := touched_word_is_read line 6
  obtain ⟨-, before, behind, hword, -, -, -, -, -, hsame⟩ := hread span hspan
  exact ⟨hspan, hsame 5 (by decide) (by decide), hsame 8 (by decide) (by decide), by decide +kernel,
    before, behind, hword⟩

end Name
end ScriptSymbols
