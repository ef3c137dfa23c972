/-!
# Totals

The sum of a count over the items of a list, with one equation for each way to build a list.
-/

namespace ScriptSymbols

/-- The sum of the counts of all items. -/
def total {α : Type} (count : α → Nat) (items : List α) : Nat :=
  items.foldr (fun a n => count a + n) 0

@[simp]
theorem total_nil {α : Type} (count : α → Nat) : total count [] = 0 := rfl

@[simp]
theorem total_cons {α : Type} (count : α → Nat) (a : α) (items : List α) :
    total count (a :: items) = count a + total count items := rfl

@[simp]
theorem total_append {α : Type} (count : α → Nat) (xs ys : List α) :
    total count (xs ++ ys) = total count xs + total count ys := by
  induction xs with
  | nil => simp
  | cons a xs ih => simp [ih, Nat.add_assoc]

theorem count_le_total {α : Type} (count : α → Nat) {a : α} {items : List α} (h : a ∈ items) :
    count a ≤ total count items := by
  induction items with
  | nil => cases h
  | cons first items ih =>
      rw [total_cons]
      rcases List.mem_cons.1 h with rfl | hrest
      · exact Nat.le_add_right _ _
      · exact Nat.le_trans (ih hrest) (Nat.le_add_left _ _)

end ScriptSymbols
