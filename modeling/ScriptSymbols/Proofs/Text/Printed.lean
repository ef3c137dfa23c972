import ScriptSymbols.Proofs.Outline.Append

/-!
# Printed lines

A text that is printed line by line has the lines that were printed, unless one of them is no single line.
-/

namespace ScriptSymbols
namespace Text

/-- The lines, each with a line feed behind it. -/
def printed (ls : List String) : String :=
  String.join (ls.map (· ++ "\n"))

/-- Whether a text is one line: it has no line feed, and no carriage return that would belong to the feed
behind it. -/
structure IsLine (line : List Char) : Prop where
  noFeed : '\n' ∉ line
  noReturn : line.getLast? ≠ some '\r'

theorem pieces_of_not_mem {line : List Char} (h : '\n' ∉ line) : pieces line = [line] := by
  induction line with
  | nil => rfl
  | cons c line ih =>
      obtain ⟨hc, h⟩ := List.ne_and_not_mem_of_not_mem_cons h
      have hcons : pieces (c :: line) = consPiece c (pieces line) := rfl
      rw [hcons, ih h, consPiece, if_neg hc.symm]

theorem IsLine.lines_append_feed {line : List Char} (h : IsLine line) (more : List Char) :
    lines (line ++ '\n' :: more) = line :: lines more := by
  have hkept : dropReturn line = line := by
    rw [dropReturn, if_neg h.noReturn]
  rw [lines, pieces_append_feed, pieces_of_not_mem h.noFeed,
    linesOfPieces_append [line] (pieces_ne_nil more), List.map_singleton, hkept]
  rfl

theorem lines_printed {ls : List String} (h : ∀ l ∈ ls, IsLine l.toList) :
    lines (printed ls).toList = ls.map String.toList := by
  induction ls with
  | nil => rfl
  | cons l ls ih =>
      have hfirst : (printed (l :: ls)).toList = l.toList ++ '\n' :: (printed ls).toList := by
        simp [printed, String.join_cons]
      have hrest := ih fun l hl => h l (List.mem_cons_of_mem _ hl)
      rw [hfirst, (h l List.mem_cons_self).lines_append_feed, hrest, List.map_cons]

end Text
end ScriptSymbols
