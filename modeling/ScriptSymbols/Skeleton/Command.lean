import ScriptSymbols.Name
import ScriptSymbols.Text.Basic

/-!
# Command lines

The third step towards the skeleton of a line deals with commands written as words.

- A command whose arguments follow a comma and hold a percent sign is dropped as a whole: its
  arguments are text, not code.
- A command whose argument is forced to be an expression by a lone percent sign loses that sign.
-/

namespace ScriptSymbols
namespace Skeleton

open Text

/-- The expression behind a percent sign that stands alone, without the blanks before it. -/
def afterMark? : List Char → Option (List Char)
  | mark :: blank :: expr =>
    if mark = '%' ∧ isSpaceOrTab blank then some (expr.dropWhile isSpaceOrTab) else none
  | _ => none

/-- The line with its command text dropped or its expression mark removed. -/
def plainCommand (line : List Char) : List Char :=
  let indent := line.takeWhile isSpaceOrTab
  let body := line.dropWhile isSpaceOrTab
  let name := body.takeWhile Name.isIdentChar
  let rest := body.dropWhile Name.isIdentChar
  let gap := rest.takeWhile isSpaceOrTab
  let tail := rest.dropWhile isSpaceOrTab
  if name.isEmpty then line
  else if tail.head? = some ',' ∧ tail.contains '%' then []
  else if gap.isEmpty then line
  else (afterMark? tail).elim line fun expr => indent ++ (name ++ (gap ++ expr))

theorem afterMark?_sublist {cs expr : List Char} (h : afterMark? cs = some expr) :
    expr.Sublist cs := by
  unfold afterMark? at h
  split at h
  · rename_i mark blank rest
    split at h
    · cases h
      exact ((List.dropWhile_sublist _).cons blank).cons mark
    · cases h
  · cases h

theorem plainCommand_sublist (line : List Char) : (plainCommand line).Sublist line := by
  unfold plainCommand
  extract_lets indent body name rest gap tail
  have hline : indent ++ (name ++ (gap ++ tail)) = line := by
    simp only [indent, name, gap, tail, rest, body, List.takeWhile_append_dropWhile]
  split
  · exact List.Sublist.refl _
  · split
    · exact List.nil_sublist _
    · split
      · exact List.Sublist.refl _
      · cases htail : afterMark? tail with
        | none => exact List.Sublist.refl _
        | some expr =>
          have h := (((afterMark?_sublist htail).append_left gap).append_left name).append_left indent
          rw [hline] at h
          exact h

end Skeleton
end ScriptSymbols
