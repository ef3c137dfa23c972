import Mathlib.Order.Bounds.Basic
import ScriptSymbols.Proofs.Text.Units

/-!
# Boundaries between characters

A boundary is a byte offset at which a character of a line starts or the line ends. A column that falls inside a
pair of units, or behind the line, is moved to a boundary: forward to the next one, or back to the end.

1. `Text.isPrefix_of_total_le` and `Text.append_inj_of_total`: fronts of a line are told apart by their size, in
   bytes or in units. By `Text.splitAtByte?_eq_some_iff` a line can be cut exactly at its boundaries.
2. `Text.CutAt` says where a column cuts a line, `Text.cutAt_indexOfColumn` that there is such a place, and
   `Text.CutAt.prefix_of_le` that it moves forward with the column.
3. `Text.columnOfByte_append` and `Text.byteOfColumn_append` convert along a front of a line.
4. `Text.columns_and_offsets_are_adjoint`: of the two conversions, each is settled by the other one.
-/

namespace ScriptSymbols
namespace Text

/-! ## Fronts by size -/

section Fronts

variable {count : Char → Nat} {line a b : List Char}

/-- A longer front has no smaller total, whatever is counted. -/
theorem total_le_of_isPrefix (count : Char → Nat) (h : a <+: b) : total count a ≤ total count b := by
  obtain ⟨more, rfl⟩ := h
  rw [total_append]
  exact Nat.le_add_right _ _

/-- Where every character counts, only a longer front has a larger total. -/
theorem isPrefix_of_total_le (hpos : ∀ c, 0 < count c) (ha : a <+: line) (hb : b <+: line)
    (h : total count a ≤ total count b) : a <+: b := by
  rcases List.prefix_or_prefix_of_prefix ha hb with hab | ⟨more, rfl⟩
  · exact hab
  · cases more with
    | nil => exact (List.append_nil b).symm ▸ List.prefix_refl b
    | cons c more =>
        have hc := hpos c
        rw [total_append, total_cons] at h
        omega

/-- Two ways to cut a line at the same total are the same way. -/
theorem append_inj_of_total (hpos : ∀ c, 0 < count c) {c d : List Char} (h : a ++ b = c ++ d)
    (htotal : total count a = total count c) : a = c ∧ b = d := by
  have hc : c <+: a ++ b := ⟨d, h.symm⟩
  have hac : a <+: c := isPrefix_of_total_le hpos (List.prefix_append a b) hc (Nat.le_of_eq htotal)
  have hca : c <+: a := isPrefix_of_total_le hpos hc (List.prefix_append a b) (Nat.le_of_eq htotal.symm)
  obtain rfl : a = c := hac.eq_of_length_le hca.length_le
  exact ⟨rfl, List.append_cancel_left h⟩

end Fronts

@[simp]
theorem units_append (a b : List Char) : units (a ++ b) = units a + units b :=
  total_append unitSize a b

@[simp]
theorem byteSize_nil : byteSize [] = 0 := rfl

@[simp]
theorem byteSize_cons (c : Char) (cs : List Char) : byteSize (c :: cs) = c.utf8Size + byteSize cs := rfl

@[simp]
theorem byteSize_append (a b : List Char) : byteSize (a ++ b) = byteSize a + byteSize b :=
  total_append Char.utf8Size a b

/-- Of two fronts of a line the longer one takes more units. -/
theorem units_lt_of_isPrefix {a b : List Char} (h : a <+: b) (hne : a ≠ b) : units a < units b := by
  refine Nat.lt_of_not_le fun hle => hne ?_
  have hback : b <+: a := isPrefix_of_total_le unitSize_pos (List.prefix_refl b) h hle
  exact h.eq_of_length_le hback.length_le

/-! ## Boundaries -/

/-- Whether a byte offset is the end of a front of the line. -/
def IsBoundary (line : List Char) (offset : Nat) : Prop :=
  ∃ front, front <+: line ∧ offset = byteSize front

theorem splitAtByte?_eq_some_iff {line front rest : List Char} {offset : Nat} :
    splitAtByte? line offset = some (front, rest) ↔ line = front ++ rest ∧ offset = byteSize front := by
  constructor
  · intro h
    fun_induction splitAtByte? line offset generalizing front rest with
    | case1 cs =>
        cases h
        exact ⟨rfl, rfl⟩
    | case2 => cases h
    -- The offset lies inside the first character.
    | case3 => cases h
    | case4 c cs offset hsize ih =>
        obtain ⟨⟨a, b⟩, hsplit, hpair⟩ := Option.map_eq_some_iff.1 h
        cases hpair
        obtain ⟨hline, hoffset⟩ := ih hsplit
        refine ⟨by rw [hline, List.cons_append], ?_⟩
        rw [byteSize_cons]
        omega
  · rintro ⟨rfl, rfl⟩
    have hsplit := splitAtByte?_byteSize_take (front ++ rest) front.length
    rwa [List.take_left, List.drop_left] at hsplit

/-! ## Where a column cuts a line -/

/-- Whether a column cuts a line into two texts: the first one reaches the column, or is the whole line, and
no shorter front of the line reaches the column. -/
structure CutAt (line : List Char) (column : Nat) (front rest : List Char) : Prop where
  line_eq : line = front ++ rest
  reaches : column ≤ units front ∨ rest = []
  shortest : ∀ shorter, shorter <+: front → shorter ≠ front → units shorter < column

namespace CutAt

variable {line front rest : List Char} {column : Nat}

theorem prefix_line (h : CutAt line column front rest) : front <+: line :=
  ⟨rest, h.line_eq.symm⟩

/-- A column on the line is reached where it cuts the line. -/
theorem le_units (h : CutAt line column front rest) (hcolumn : column ≤ units line) : column ≤ units front := by
  rcases h.reaches with hunits | rfl
  · exact hunits
  · rwa [h.line_eq, List.append_nil] at hcolumn

/-- A front that reaches the column is no shorter, and neither is the whole line. -/
theorem prefix_of_reaches (h : CutAt line column front rest) {other : List Char} (hother : other <+: line)
    (hreaches : column ≤ units other ∨ other = line) : front <+: other := by
  rcases List.prefix_or_prefix_of_prefix h.prefix_line hother with hfront | hshort
  · exact hfront
  · -- The other front is no longer. If it is shorter, it does not reach the column.
    rcases hreaches with hunits | rfl
    · by_cases heq : other = front
      · exact heq ▸ List.prefix_refl other
      · exact absurd (h.shortest other hshort heq) (Nat.not_lt_of_le hunits)
    · exact h.prefix_line

/-- The place of a column moves forward with the column. -/
theorem prefix_of_le (h : CutAt line column front rest) {column' : Nat} {front' rest' : List Char}
    (h' : CutAt line column' front' rest') (hle : column ≤ column') : front <+: front' := by
  refine h.prefix_of_reaches h'.prefix_line ?_
  rcases h'.reaches with hunits | rfl
  · exact Or.inl (Nat.le_trans hle hunits)
  · exact Or.inr (by rw [h'.line_eq, List.append_nil])

theorem unique (h : CutAt line column front rest) {front' rest' : List Char}
    (h' : CutAt line column front' rest') : front = front' ∧ rest = rest' := by
  -- Each of the two fronts is a front of the other one.
  have hfront : front = front' :=
    (h.prefix_of_le h' (Nat.le_refl _)).eq_of_length_le (h'.prefix_of_le h (Nat.le_refl _)).length_le
  subst hfront
  exact ⟨rfl, List.append_cancel_left (h.line_eq.symm.trans h'.line_eq)⟩

/-- One more character in front of a line moves the columns behind it. -/
theorem cons (h : CutAt line column front rest) {c : Char} {later : Nat} (hpos : later ≠ 0)
    (hlater : column = later - unitSize c) : CutAt (c :: line) later (c :: front) rest where
  line_eq := by rw [h.line_eq, List.cons_append]
  reaches := by
    rcases h.reaches with hunits | hrest
    · left
      rw [units_cons]
      omega
    · exact Or.inr hrest
  shortest := by
    intro shorter hprefix hne
    cases shorter with
    | nil => exact Nat.pos_of_ne_zero hpos
    | cons d shorter =>
        obtain ⟨rfl, htail⟩ := List.cons_prefix_cons.1 hprefix
        have hshort := h.shortest shorter htail (fun heq => hne (heq ▸ rfl))
        rw [units_cons]
        omega

end CutAt

theorem cutAt_indexOfColumn (line : List Char) (column : Nat) :
    CutAt line column (line.take (indexOfColumn line column)) (line.drop (indexOfColumn line column)) := by
  fun_induction indexOfColumn line column with
  | case1 column => exact ⟨rfl, Or.inr rfl, fun shorter h hne => absurd (List.prefix_nil.1 h) hne⟩
  | case2 c cs =>
      exact ⟨rfl, Or.inl (Nat.zero_le _), fun shorter h hne => absurd (List.prefix_nil.1 h) hne⟩
  | case3 c cs column hpos ih => exact ih.cons hpos rfl

/-- The end of every front of a line is where some column cuts it. -/
theorem cutAt_units (front rest : List Char) : CutAt (front ++ rest) (units front) front rest :=
  ⟨rfl, Or.inl (Nat.le_refl _), fun _ h hne => units_lt_of_isPrefix h hne⟩

theorem CutAt.byteOfColumn_eq {line front rest : List Char} {column : Nat} (h : CutAt line column front rest) :
    byteOfColumn line column = byteSize front := by
  rw [byteOfColumn, ← (h.unique (cutAt_indexOfColumn line column)).1]

/-! ## Conversions along a front -/

theorem columnOfByte_append (front rest : List Char) (offset : Nat) :
    columnOfByte (front ++ rest) (byteSize front + offset) = units front + columnOfByte rest offset := by
  induction front with
  | nil => simp
  | cons c front ih =>
      -- The first character starts before the offset, and what is left of the offset counts behind it.
      have hpos := c.utf8Size_pos
      have hrest : byteSize (c :: front) + offset - c.utf8Size = byteSize front + offset := by
        rw [byteSize_cons]
        omega
      rw [List.cons_append, columnOfByte, if_neg (by rw [byteSize_cons]; omega), hrest, ih, units_cons,
        Nat.add_assoc]

theorem columnOfByte_zero (line : List Char) : columnOfByte line 0 = 0 := by
  cases line <;> rfl

theorem columnOfByte_byteSize (front rest : List Char) :
    columnOfByte (front ++ rest) (byteSize front) = units front := by
  have happend := columnOfByte_append front rest 0
  rwa [columnOfByte_zero, Nat.add_zero, Nat.add_zero] at happend

/-- The column that a column is moved to: the units of the front that it cuts off. -/
theorem CutAt.columnOfByte_byteOfColumn {line front rest : List Char} {column : Nat}
    (h : CutAt line column front rest) : columnOfByte line (byteOfColumn line column) = units front := by
  rw [h.byteOfColumn_eq, h.line_eq, columnOfByte_byteSize]

theorem byteOfColumn_append (front rest : List Char) :
    byteOfColumn (front ++ rest) (units front) = byteSize front :=
  (cutAt_units front rest).byteOfColumn_eq

theorem isBoundary_byteOfColumn (line : List Char) (column : Nat) :
    IsBoundary line (byteOfColumn line column) :=
  ⟨line.take (indexOfColumn line column), List.take_prefix _ _, rfl⟩

/-- On a line, a boundary lies behind a column exactly if it lies behind the place where the column cuts. -/
theorem byteOfColumn_le_iff {line : List Char} {column offset : Nat} (hcolumn : column ≤ units line)
    (hoffset : IsBoundary line offset) :
    byteOfColumn line column ≤ offset ↔ column ≤ columnOfByte line offset := by
  have hcut := cutAt_indexOfColumn line column
  constructor
  · intro hle
    -- The offset of the cut comes back as the units of its front, which reach the column.
    calc column
        ≤ units (line.take (indexOfColumn line column)) := hcut.le_units hcolumn
      _ = columnOfByte line (byteOfColumn line column) := hcut.columnOfByte_byteOfColumn.symm
      _ ≤ columnOfByte line offset := columnOfByte_mono line hle
  · intro hle
    obtain ⟨front, ⟨rest, rfl⟩, rfl⟩ := hoffset
    rw [columnOfByte_byteSize] at hle
    exact total_le_of_isPrefix Char.utf8Size (hcut.prefix_of_reaches (List.prefix_append front rest) (Or.inl hle))

/-! ## The two conversions -/

/-- Columns and byte offsets of a line settle one another. A boundary comes back from its column. A column goes
to a boundary, namely to the least one whose column is not before it, or to the end of the line if there is
none. Among boundaries and columns of the line, one is behind the other in bytes if and only if it is in units.
Both conversions keep the order. -/
theorem columns_and_offsets_are_adjoint (line : List Char) :
    (∀ offset, IsBoundary line offset → byteOfColumn line (columnOfByte line offset) = offset) ∧
      (∀ column, IsBoundary line (byteOfColumn line column)) ∧
      (∀ column, (∃ offset, IsBoundary line offset ∧ column ≤ columnOfByte line offset) →
        IsLeast {offset | IsBoundary line offset ∧ column ≤ columnOfByte line offset}
          (byteOfColumn line column)) ∧
      (∀ column, (¬ ∃ offset, IsBoundary line offset ∧ column ≤ columnOfByte line offset) →
        byteOfColumn line column = byteSize line) ∧
      (∀ column offset, column ≤ units line → IsBoundary line offset →
        (byteOfColumn line column ≤ offset ↔ column ≤ columnOfByte line offset)) ∧
      Monotone (byteOfColumn line) ∧ Monotone (columnOfByte line) := by
  refine ⟨?_, isBoundary_byteOfColumn line, ?_, ?_, fun _ _ => byteOfColumn_le_iff, ?_,
    fun _ _ => columnOfByte_mono line⟩
  · rintro _ ⟨front, ⟨rest, rfl⟩, rfl⟩
    rw [columnOfByte_byteSize, byteOfColumn_append]
  · -- Such a boundary can only be there for a column on the line.
    rintro column ⟨offset, -, hreaches⟩
    have hcolumn : column ≤ units line := Nat.le_trans hreaches (columnOfByte_le_units line offset)
    have hself := isBoundary_byteOfColumn line column
    refine ⟨⟨hself, (byteOfColumn_le_iff hcolumn hself).1 (Nat.le_refl _)⟩, ?_⟩
    rintro other ⟨hother, hle⟩
    exact (byteOfColumn_le_iff hcolumn hother).2 hle
  · intro column hnone
    have hcut := cutAt_indexOfColumn line column
    rcases hcut.reaches with hunits | hrest
    · -- A front that reaches the column would end at such a boundary.
      refine absurd ⟨_, isBoundary_byteOfColumn line column, ?_⟩ hnone
      rw [hcut.columnOfByte_byteOfColumn]
      exact hunits
    · rw [hcut.byteOfColumn_eq]
      conv_rhs => rw [hcut.line_eq, hrest, List.append_nil]
  · intro column later hle
    exact total_le_of_isPrefix Char.utf8Size
      ((cutAt_indexOfColumn line column).prefix_of_le (cutAt_indexOfColumn line later) hle)

/-- A column inside a pair of units goes behind the pair, and an offset inside a character counts it. -/
example : byteOfColumn "é😀x".toList 2 = 6 ∧ columnOfByte "é😀x".toList 3 = 3 := by
  decide

end Text
end ScriptSymbols
