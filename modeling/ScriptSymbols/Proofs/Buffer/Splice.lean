import ScriptSymbols.Buffer
import ScriptSymbols.Proofs.Text.Units

/-!
# Changes as splices

A client names places of a buffer by line and column; a change takes them for numbers of characters. The two
agree at every place of the text, between the two characters of a break and behind the last break too.

1. `Buffer.lineEnds` are the places where lines end, said without cutting the text into lines, and
   `Buffer.positionOf` is the position of a place.
2. `Buffer.positionOf_cons` and `Buffer.splitLines_cons` take one more character in front of a text, on both
   sides.
3. `Buffer.indexOf?_positionOf`: the position of a place leads back to it.
4. `Buffer.change_is_splice` says what a change does.
-/

namespace ScriptSymbols
namespace Buffer

open Text

/-! ## Places and positions -/

/-- Whether a line ends between two texts: the first one ends in a break, unless this is a carriage return and
the second one starts with the line feed that belongs to it. -/
def breaksBetween (before behind : List Char) : Bool :=
  before.getLast?.any fun c => isBreak c && !(c == '\r' && behind.head? == some '\n')

/-- The places where a line ends, up to a place of the text. -/
def lineEnds (text : List Char) (place : Nat) : List Nat :=
  (List.range' 1 place).filter fun n => breaksBetween (text.take n) (text.drop n)

/-- The position of a place: the number of lines that end up to there, and the number of units behind the last
end. -/
def positionOf (text : List Char) (place : Nat) : Position :=
  { line := (lineEnds text place).length
    column := units ((text.take place).drop ((lineEnds text place).getLast?.getD 0)) }

/-- The number of lines of a text. -/
def lineCount (text : List Char) : Nat :=
  (lineEnds text text.length).length + 1

/-! ## One more character in front -/

theorem breaksBetween_cons (c : Char) {before : List Char} (h : before ≠ []) (behind : List Char) :
    breaksBetween (c :: before) behind = breaksBetween before behind := by
  obtain ⟨d, before, rfl⟩ := List.exists_cons_of_ne_nil h
  simp [breaksBetween]

/-- A character in front of a text moves all ends by one, and may end a line itself. -/
theorem lineEnds_cons (c : Char) (text : List Char) {place : Nat} (hplace : place ≤ text.length) :
    lineEnds (c :: text) (place + 1) =
      (if breaksBetween [c] text then [1] else []) ++ (lineEnds text place).map (· + 1) := by
  have hrange : List.range' 1 (place + 1) = 1 :: (List.range' 1 place).map (· + 1) := by
    have hmap : (List.range' 1 place).map (1 + ·) = List.range' (1 + 1) place :=
      List.map_add_range' ..
    rw [List.range'_succ, ← hmap]
    simp [Nat.add_comm]
  have hmoved : (List.range' 1 place).filter
        ((fun n => breaksBetween ((c :: text).take n) ((c :: text).drop n)) ∘ (· + 1)) =
      lineEnds text place := by
    refine List.filter_congr fun n hn => ?_
    obtain ⟨hpos, hlast⟩ := List.mem_range'_1.1 hn
    have hne : text.take n ≠ [] := by
      refine List.ne_nil_of_length_pos ?_
      rw [List.length_take]
      omega
    exact breaksBetween_cons c hne (text.drop n)
  have hhere : breaksBetween ((c :: text).take 1) ((c :: text).drop 1) = breaksBetween [c] text := rfl
  rw [lineEnds, hrange, List.filter_cons, List.filter_map, hmoved, hhere]
  split <;> rfl

/-- A character in front of a text moves a place to the next line, or along the first line, or not at all. -/
theorem positionOf_cons (c : Char) (text : List Char) {place : Nat} (hplace : place ≤ text.length) :
    positionOf (c :: text) (place + 1) =
      let p := positionOf text place
      if breaksBetween [c] text then ⟨p.line + 1, p.column⟩
      else if p.line = 0 then ⟨0, unitSize c + p.column⟩
      else p := by
  have hends := lineEnds_cons c text hplace
  -- The last end of a line is the same one, moved by one character, or else the new one.
  rcases List.eq_nil_or_concat (lineEnds text place) with hnil | ⟨ends, last, hlast⟩
  · by_cases hbreak : breaksBetween [c] text = true
    · simp [positionOf, hends, hnil, hbreak]
    · simp [positionOf, hends, hnil, hbreak]
  · rw [List.concat_eq_append] at hlast
    have hmoved : (lineEnds (c :: text) (place + 1)).getLast? = some (last + 1) := by
      rw [hends, hlast]
      simp [List.getLast?_append]
    rw [positionOf, hmoved, hends]
    by_cases hbreak : breaksBetween [c] text = true
    · simp [positionOf, hlast, hbreak]
    · simp [positionOf, hlast, hbreak]

theorem positionOf_zero (text : List Char) : positionOf text 0 = ⟨0, 0⟩ := rfl

/-- A character in front of a text starts a line of its own, or belongs to the first line. -/
theorem splitLines_cons (c : Char) (text : List Char) :
    ∃ line lines, splitLines text = line :: lines ∧
      splitLines (c :: text) =
        if breaksBetween [c] text then [c] :: line :: lines else (c :: line) :: lines := by
  -- The lines are built from the end, where the next character is the head of the first line.
  have hhead : ∃ line lines, splitLines text = line :: lines ∧ line.head? = text.head? := by
    cases text with
    | nil => exact ⟨[], [], rfl, rfl⟩
    | cons d text =>
        rw [splitLines, List.foldr_cons]
        cases text.foldr consLine [[]] with
        | nil => exact ⟨[d], [], rfl, rfl⟩
        | cons line lines =>
            rw [consLine]
            split
            · exact ⟨[d], line :: lines, rfl, rfl⟩
            · exact ⟨d :: line, lines, rfl, rfl⟩
  obtain ⟨line, lines, hlines, hfirst⟩ := hhead
  refine ⟨line, lines, hlines, ?_⟩
  rw [splitLines, List.foldr_cons, ← splitLines, hlines, consLine, hfirst]
  simp [breaksBetween, Decidable.imp_iff_not_or]

/-! ## Positions and places -/

theorem indexOf?_first (line : List Char) (lines : List (List Char)) (column : Nat) :
    indexOf? (line :: lines) ⟨0, column⟩ = some (indexOfColumn line column) := by
  simp [indexOf?]

theorem indexOf?_next (line : List Char) (lines : List (List Char)) (n column : Nat) :
    indexOf? (line :: lines) ⟨n + 1, column⟩ = (indexOf? lines ⟨n, column⟩).map (line.length + ·) := by
  simp [indexOf?, Function.comp_def, Nat.add_assoc]

/-- The position of a place leads back to it. -/
theorem indexOf?_positionOf (text : List Char) {place : Nat} (hplace : place ≤ text.length) :
    indexOf? (splitLines text) (positionOf text place) = some place := by
  induction text generalizing place with
  | nil =>
      obtain rfl : place = 0 := Nat.le_zero.1 hplace
      rfl
  | cons c text ih =>
      obtain ⟨line, lines, hlines, hcons⟩ := splitLines_cons c text
      cases place with
      | zero =>
          rw [positionOf_zero, hcons]
          split <;> rw [indexOf?_first, indexOfColumn_zero]
      | succ place =>
          -- Both sides take the character alike, so only the position in the rest matters.
          have hbelow := ih (Nat.le_of_succ_le_succ hplace)
          rw [positionOf_cons c text (Nat.le_of_succ_le_succ hplace), hcons]
          rw [hlines] at hbelow
          generalize positionOf text place = p at *
          obtain ⟨n, column⟩ := p
          by_cases hbreak : breaksBetween [c] text = true
          · simp only [hbreak, if_true]
            rw [indexOf?_next, hbelow]
            simp [Nat.add_comm]
          · simp only [hbreak]
            cases n with
            | zero =>
                rw [indexOf?_first] at hbelow
                simp [indexOf?_first, indexOfColumn_cons, Option.some_inj.1 hbelow]
            | succ n =>
                rw [indexOf?_next] at hbelow
                obtain ⟨m, hm, hsum⟩ := Option.map_eq_some_iff.1 hbelow
                simp [indexOf?_next, hm]
                omega

theorem length_splitLines (text : List Char) : (splitLines text).length = lineCount text := by
  induction text with
  | nil => rfl
  | cons c text ih =>
      obtain ⟨line, lines, hlines, hcons⟩ := splitLines_cons c text
      rw [lineCount] at ih ⊢
      rw [List.length_cons, lineEnds_cons c text (Nat.le_refl _), hcons]
      rw [hlines, List.length_cons] at ih
      split
      · simp
        omega
      · simpa using ih

theorem indexOf?_eq_none_iff {lines : List (List Char)} {p : Position} :
    indexOf? lines p = none ↔ lines.length ≤ p.line := by
  simp [indexOf?]

/-! ## Changes -/

/-- A change from one place of the text to another puts the new text between them, and counts as one revision.
A change that starts or ends on a line that the text does not have leaves the buffer as it is. -/
theorem change_is_splice (b : Buffer) :
    (∀ (i j : Nat) (new : String), i ≤ j → j ≤ b.contents.length →
      b.apply ⟨some ⟨positionOf b.contents i, positionOf b.contents j⟩, new⟩ =
        .ok { b with
          contents := b.contents.take i ++ new.toList ++ b.contents.drop j
          revision := b.revision + 1 }) ∧
      ∀ (range : Range) (new : String),
        lineCount b.contents ≤ range.start.line ∨ lineCount b.contents ≤ range.stop.line →
        b.apply ⟨some range, new⟩ = .ok b := by
  constructor
  · intro i j new hij hj
    have hstart := indexOf?_positionOf b.contents (Nat.le_trans hij hj)
    have hstop := indexOf?_positionOf b.contents hj
    simp [apply, lines, hstart, hstop, Nat.not_lt.2 hij, withContents]
  · -- A line that does not exist has no place, and a change without both places is dropped.
    intro range new hrange
    rw [← length_splitLines, ← indexOf?_eq_none_iff, ← indexOf?_eq_none_iff] at hrange
    simp only [apply, lines]
    rcases hrange with hstart | hstop
    · rw [hstart]
    · rw [hstop]
      split
      · rename_i hnone
        cases hnone
      · rfl

/-- A change from inside a break to the end of the text, and one that ends behind the last line. -/
theorem change_is_splice_inside_break :
    let b := Buffer.ofText "é😀\r\nb" none
    positionOf b.contents 3 = ⟨0, 4⟩ ∧ positionOf b.contents 5 = ⟨1, 1⟩ ∧ lineCount b.contents = 2 ∧
      b.apply ⟨some ⟨⟨0, 4⟩, ⟨1, 1⟩⟩, "x"⟩ = .ok ⟨"é😀\rx".toList, none, 1⟩ ∧
      b.apply ⟨some ⟨⟨0, 0⟩, ⟨2, 0⟩⟩, "x"⟩ = .ok b := by
  intro b
  have hstart : positionOf b.contents 3 = ⟨0, 4⟩ := by decide
  have hstop : positionOf b.contents 5 = ⟨1, 1⟩ := by decide
  have hcount : lineCount b.contents = 2 := by decide
  have hsplice := (change_is_splice b).1 3 5 "x" (by decide) (by decide)
  have hignored := (change_is_splice b).2 ⟨⟨0, 0⟩, ⟨2, 0⟩⟩ "x" (Or.inr (Nat.le_of_eq hcount))
  rw [hstart, hstop] at hsplice
  exact ⟨hstart, hstop, hcount, hsplice, hignored⟩

end Buffer
end ScriptSymbols
