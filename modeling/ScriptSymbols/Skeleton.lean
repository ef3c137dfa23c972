import ScriptSymbols.Skeleton.Quote
import ScriptSymbols.Skeleton.Literal
import ScriptSymbols.Skeleton.Command
import ScriptSymbols.Skeleton.Spacing

/-!
# The skeleton of a line

The skeleton of a line is what is left of it when everything is gone that could be taken for a symbol
without being one: comments, the text of strings, object literals, the text of commands. The four
steps are repeated until the line no longer changes, since one may uncover work for another.

- `pass` takes the four steps once.
- `skeleton` repeats `pass`; every pass that changes a line makes it lighter, so this ends.
-/

namespace ScriptSymbols
namespace Skeleton

/-- One round of the four steps. -/
def pass (line : List Char) : List Char :=
  squeeze (plainCommand (dropLiterals (emptyStrings line)))

/-- Two steps that keep a line or make it lighter do so when one follows the other. -/
theorem weight_trans {a b c : List Char} (hab : b = a ∨ weight b < weight a)
    (hbc : c = b ∨ weight c < weight b) : c = a ∨ weight c < weight a := by
  rcases hab with rfl | hab
  · exact hbc
  · rcases hbc with rfl | hbc
    · exact Or.inr hab
    · exact Or.inr (Nat.lt_trans hbc hab)

theorem pass_weight (line : List Char) : pass line = line ∨ weight (pass line) < weight line :=
  weight_trans
    (weight_trans
      (weight_trans (weight_of_sublist (emptyStrings_sublist line))
        (weight_of_sublist (dropLiterals_sublist _)))
      (weight_of_sublist (plainCommand_sublist _)))
    (squeeze_weight _)

end Skeleton

/-- The skeleton of a line: the line after as many passes as change it. -/
def skeleton (line : List Char) : List Char :=
  if Skeleton.pass line = line then line else skeleton (Skeleton.pass line)
termination_by Skeleton.weight line
decreasing_by
  rename_i h
  exact (Skeleton.pass_weight line).resolve_left h

end ScriptSymbols
