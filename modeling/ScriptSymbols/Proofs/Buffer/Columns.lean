import Mathlib.Data.List.TakeWhile
import ScriptSymbols.Proofs.Buffer.Splice

/-!
# Columns of changes and of questions

A column means a place on a line twice: for a change of the buffer and for a question about it. A change counts
along the line with its break, a question along the text of the line, from which feeds and returns at the end
are gone. Up to the end of the text both find the same place; a column behind it stays at the end for a
question, and goes on into the break for a change.

1. `Buffer.flatten_splitLines` and `Buffer.exists_ending` take a text apart into lines, and a line into its text
   and its ending.
2. `Buffer.apply_insertion` says where on its line a change inserts.
3. `Buffer.insertion_meets_question_iff` compares it with the place that a question is about.
-/

namespace ScriptSymbols
namespace Buffer

open Text

/-! ## Lines and their endings -/

theorem flatten_splitLines (text : List Char) : (splitLines text).flatten = text := by
  induction text with
  | nil => rfl
  | cons c text ih =>
      obtain ⟨line, lines, hlines, hcons⟩ := splitLines_cons c text
      have hrest : line ++ lines.flatten = text := by
        rw [← List.flatten_cons, ← hlines, ih]
      rw [hcons]
      split
      · simp [hrest]
      · simp [hrest]

theorem total_length (lines : List (List Char)) : total List.length lines = lines.flatten.length := by
  induction lines with
  | nil => rfl
  | cons line lines ih => simp [ih]

/-- A line is its text with an ending of feeds and returns. -/
theorem exists_ending (line : List Char) :
    ∃ ending, line = dropEnd line ++ ending ∧ ∀ c ∈ ending, c = '\n' ∨ c = '\r' := by
  refine ⟨(line.reverse.takeWhile fun c => c == '\n' || c == '\r').reverse, ?_, ?_⟩
  · rw [dropEnd, dropEndWhile, ← List.reverse_append, List.takeWhile_append_dropWhile,
      List.reverse_reverse]
  · intro c hc
    simpa using List.mem_takeWhile_imp (List.mem_reverse.1 hc)

/-- Behind the text of a line a column goes on into the ending. -/
theorem indexOfColumn_ending (shown : List Char) {ending : List Char}
    (hending : ∀ c ∈ ending, c = '\n' ∨ c = '\r') (column : Nat) :
    indexOfColumn (shown ++ ending) column =
      indexOfColumn shown column + min (column - units shown) ending.length := by
  have hsingle : ∀ c ∈ ending, unitSize c = 1 := by
    intro c hc
    rcases hending c hc with rfl | rfl <;> decide
  rw [indexOfColumn_append, indexOfColumn_of_unitSize hsingle]

/-! ## Insertions -/

/-- A change at one position inserts its text into the line of that position. -/
theorem apply_insertion {b : Buffer} {p : Position} {line : List Char}
    (hline : b.lines[p.line]? = some line) (new : String) :
    let index := indexOfColumn line p.column
    b.apply ⟨some ⟨p, p⟩, new⟩ =
      .ok (b.withContents
        ((b.lines.take p.line).flatten ++ (line.take index ++ (new.toList ++ line.drop index)) ++
          (b.lines.drop (p.line + 1)).flatten)) := by
  intro index
  have hcontents : b.contents =
      (b.lines.take p.line).flatten ++ (line ++ (b.lines.drop (p.line + 1)).flatten) := by
    obtain ⟨hlt, hget⟩ := List.getElem?_eq_some_iff.1 hline
    have hdrop : b.lines.drop p.line = line :: b.lines.drop (p.line + 1) := by
      rw [List.drop_eq_getElem_cons hlt, hget]
    calc b.contents
        = b.lines.flatten := (flatten_splitLines b.contents).symm
      _ = (b.lines.take p.line ++ b.lines.drop p.line).flatten := by rw [List.take_append_drop]
      _ = _ := by rw [List.flatten_append, hdrop, List.flatten_cons]
  have hplace : indexOf? b.lines p = some ((b.lines.take p.line).flatten.length + index) := by
    rw [indexOf?, hline, total_length]
    rfl
  have hindex : index ≤ line.length := indexOfColumn_le_length line p.column
  have htake : b.contents.take ((b.lines.take p.line).flatten.length + index) =
      (b.lines.take p.line).flatten ++ line.take index := by
    rw [hcontents, List.take_length_add_append, List.take_append_of_le_length hindex]
  have hdrop : b.contents.drop ((b.lines.take p.line).flatten.length + index) =
      line.drop index ++ (b.lines.drop (p.line + 1)).flatten := by
    rw [hcontents, List.drop_length_add_append, List.drop_append_of_le_length hindex]
  simp only [apply, hplace, Nat.lt_irrefl, if_false, htake, hdrop, List.append_assoc]

/-! ## Insertions and questions -/

/-- A position on a line of the buffer is a place on that line for a change and for a question. A question is
about the place before the byte offset of the column in the text of the line. A change inserts there too, but
behind as many characters of the ending as the column has left at the end of the text. So both mean the same
place exactly if the column is not behind the end of the text, or if the line has neither a feed nor a return at
its end. -/
theorem insertion_meets_question_iff (b : Buffer) (p : Position)
    (hline : p.line < lineCount b.contents) :
    ∃ shown ending before behind index,
      b.lines[p.line]? = some (shown ++ ending) ∧ b.lineText? p.line = some shown ∧
      (∀ c ∈ ending, c = '\n' ∨ c = '\r') ∧
      splitAtByte? shown (byteOfColumn shown p.column) = some (before, behind) ∧
      (∀ new : String, b.apply ⟨some ⟨p, p⟩, new⟩ =
        .ok { b with
          contents :=
            (b.lines.take p.line).flatten ++
              ((shown ++ ending).take index ++ (new.toList ++ (shown ++ ending).drop index)) ++
              (b.lines.drop (p.line + 1)).flatten
          revision := b.revision + 1 }) ∧
      index = before.length + min (p.column - units shown) ending.length ∧
      (index = before.length ↔ p.column ≤ units shown ∨ ending = []) := by
  rw [← length_splitLines] at hline
  have hget : b.lines[p.line]? = some b.lines[p.line] := List.getElem?_eq_getElem hline
  generalize b.lines[p.line] = line at hget
  obtain ⟨ending, hsplit, hending⟩ := exists_ending line
  have hshown : b.lineText? p.line = some (dropEnd line) := by
    rw [lineText?, hget]
    rfl
  rw [hsplit] at hget
  generalize dropEnd line = shown at *
  have hindex := indexOfColumn_ending shown hending p.column
  have hbefore : (shown.take (indexOfColumn shown p.column)).length = indexOfColumn shown p.column := by
    rw [List.length_take, Nat.min_eq_left (indexOfColumn_le_length _ _)]
  refine ⟨shown, ending, _, _, _, hget, hshown, hending, splitAtByte?_byteOfColumn shown p.column,
    apply_insertion hget, ?_, ?_⟩
  · rw [hbefore, hindex]
  · -- Nothing is counted in the ending if the column is used up before it, or if it is empty.
    rw [hbefore, hindex, ← List.length_eq_zero_iff]
    omega

/-- A column inside a pair of units is behind the character, and one behind the text of the line is inside the
break. -/
theorem insertion_meets_question_inside_break :
    let b := Buffer.ofText "é😀\r\nb" none
    0 < lineCount b.contents ∧
      ∃ shown ending before behind index,
        b.lines[0]? = some (shown ++ ending) ∧ b.lineText? 0 = some shown ∧
        (∀ c ∈ ending, c = '\n' ∨ c = '\r') ∧
        splitAtByte? shown (byteOfColumn shown 4) = some (before, behind) ∧
        (∀ new : String, b.apply ⟨some ⟨⟨0, 4⟩, ⟨0, 4⟩⟩, new⟩ =
          .ok { b with
            contents :=
              (b.lines.take 0).flatten ++
                ((shown ++ ending).take index ++ (new.toList ++ (shown ++ ending).drop index)) ++
                (b.lines.drop 1).flatten
            revision := b.revision + 1 }) ∧
        index = before.length + min (4 - units shown) ending.length ∧
        (index = before.length ↔ 4 ≤ units shown ∨ ending = []) := by
  intro b
  have hline : 0 < lineCount b.contents := by decide
  exact ⟨hline, insertion_meets_question_iff b ⟨0, 4⟩ hline⟩

/-- Behind the end of a line a question is still about that line, and a change goes to the next one. -/
theorem insertion_behind_line_goes_below :
    let b := Buffer.ofText "ab\ncd" none
    b.lineText? 0 = some "ab".toList ∧
      splitAtByte? "ab".toList (byteOfColumn "ab".toList 9) = some ("ab".toList, []) ∧
      b.apply ⟨some ⟨⟨0, 9⟩, ⟨0, 9⟩⟩, "x"⟩ = .ok ⟨"ab\nxcd".toList, none, 1⟩ := by
  intro b
  have hlines : b.lines = ["ab\n".toList, "cd".toList] := by decide
  have hfirst : b.lines[0]? = some "ab\n".toList := by rw [hlines]; rfl
  have hinsert := apply_insertion (p := ⟨0, 9⟩) hfirst "x"
  rw [hlines] at hinsert
  exact ⟨by decide, by decide, hinsert⟩

end Buffer
end ScriptSymbols
