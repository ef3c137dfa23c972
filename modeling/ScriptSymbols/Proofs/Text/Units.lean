import ScriptSymbols.Text.Units

/-!
# Columns of a line

A line is measured in UTF-16 units, of which every character has one or two.

* `Text.columnOfByte_mono` and `Text.columnOfByte_le_units`: columns grow with the offset, up to the length of
  the line.
* `Text.indexOfColumn_cons`: a character in front of a line moves columns by its units and places by one.
* `Text.indexOfColumn_append`: a column goes on counting behind the end of a line.
* `Text.splitAtByte?_byteOfColumn`: the byte offset of a column cuts the line where the column does.
-/

namespace ScriptSymbols
namespace Text

theorem unitSize_pos (c : Char) : 0 < unitSize c := by
  unfold unitSize
  split <;> decide

@[simp]
theorem units_nil : units [] = 0 := rfl

@[simp]
theorem units_cons (c : Char) (cs : List Char) : units (c :: cs) = unitSize c + units cs := rfl

/-! ## From byte offsets to columns -/

theorem columnOfByte_mono (line : List Char) {a b : Nat} (h : a ≤ b) :
    columnOfByte line a ≤ columnOfByte line b := by
  induction line generalizing a b with
  | nil => exact Nat.le_refl 0
  | cons c cs ih =>
      by_cases ha : a = 0
      · simp [columnOfByte, ha]
      · have hb : b ≠ 0 := by omega
        rw [columnOfByte, if_neg ha, columnOfByte, if_neg hb]
        exact Nat.add_le_add_left (ih (Nat.sub_le_sub_right h _)) _

theorem columnOfByte_le_units (line : List Char) (offset : Nat) :
    columnOfByte line offset ≤ units line := by
  induction line generalizing offset with
  | nil => exact Nat.le_refl 0
  | cons c cs ih =>
      rw [columnOfByte, units_cons]
      split
      · exact Nat.zero_le _
      · exact Nat.add_le_add_left (ih _) _

/-! ## From columns to characters -/

theorem indexOfColumn_zero (line : List Char) : indexOfColumn line 0 = 0 := by
  cases line <;> rfl

theorem indexOfColumn_cons (c : Char) (cs : List Char) (column : Nat) :
    indexOfColumn (c :: cs) (unitSize c + column) = indexOfColumn cs column + 1 := by
  have hpos := unitSize_pos c
  rw [indexOfColumn, if_neg (by omega), Nat.add_sub_cancel_left]

/-- What is left of a column at the end of a line counts into what follows the line. -/
theorem indexOfColumn_append (line behind : List Char) (column : Nat) :
    indexOfColumn (line ++ behind) column =
      indexOfColumn line column + indexOfColumn behind (column - units line) := by
  induction line generalizing column with
  | nil => simp [indexOfColumn]
  | cons c line ih =>
      rw [List.cons_append, indexOfColumn, indexOfColumn]
      split
      · rename_i hzero
        simp [hzero, indexOfColumn_zero]
      · rw [ih, units_cons, Nat.sub_sub]
        omega

/-- Among characters of one unit each a column is a number of characters. -/
theorem indexOfColumn_of_unitSize {cs : List Char} (h : ∀ c ∈ cs, unitSize c = 1) (column : Nat) :
    indexOfColumn cs column = min column cs.length := by
  induction cs generalizing column with
  | nil => simp [indexOfColumn]
  | cons c cs ih =>
      rw [indexOfColumn, List.length_cons]
      split
      · omega
      · rw [h c List.mem_cons_self, ih fun d hd => h d (List.mem_cons_of_mem c hd)]
        omega

/-! ## From columns to byte offsets -/

theorem splitAtByte?_byteSize_take (line : List Char) (n : Nat) :
    splitAtByte? line (byteSize (line.take n)) = some (line.take n, line.drop n) := by
  induction line generalizing n with
  | nil => simp [byteSize, splitAtByte?]
  | cons c line ih =>
      cases n with
      | zero => simp [byteSize, splitAtByte?]
      | succ n =>
          have hpos := c.utf8Size_pos
          have hsize : byteSize ((c :: line).take (n + 1)) =
              (c.utf8Size - 1 + byteSize (line.take n)) + 1 := by
            simp only [byteSize, List.take_succ_cons, total_cons]
            omega
          have hrest : c.utf8Size - 1 + byteSize (line.take n) + 1 - c.utf8Size =
              byteSize (line.take n) := by
            omega
          rw [hsize, splitAtByte?, if_neg (by omega), hrest, ih]
          rfl

theorem splitAtByte?_byteOfColumn (line : List Char) (column : Nat) :
    splitAtByte? line (byteOfColumn line column) =
      some (line.take (indexOfColumn line column), line.drop (indexOfColumn line column)) :=
  splitAtByte?_byteSize_take line (indexOfColumn line column)

theorem indexOfColumn_le_length (line : List Char) (column : Nat) :
    indexOfColumn line column ≤ line.length := by
  induction line generalizing column with
  | nil => exact Nat.le_refl 0
  | cons c line ih =>
      rw [indexOfColumn, List.length_cons]
      split
      · exact Nat.zero_le _
      · exact Nat.succ_le_succ (ih _)

end Text
end ScriptSymbols
