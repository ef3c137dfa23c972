import ScriptSymbols.Name
import ScriptSymbols.Text.Basic

/-!
# Words of a line

A word of a line is a maximal run of identifier characters.

* `Text.takeWhile_append_of_stop` and `Text.dropWhile_append_of_stop` cut a run of characters off a text.
* `Name.IsEdge` says that no word goes on at a character or at an end of the line.
* `Name.StandsBetween` says that a text is a word of a line, and what stands on both sides of it.
* `Name.StandsBetween.of_append` places a word of two texts, one behind the other: in one of them, or
  across the seam.
-/

namespace ScriptSymbols

theorem Text.isBlank_of_isSpaceOrTab {c : Char} (h : Text.isSpaceOrTab c = true) : Text.isBlank c = true := by
  have hcases : c = ' ' ∨ c = '\t' := by
    simpa [Text.isSpaceOrTab] using h
  rcases hcases with rfl | rfl
  · decide
  · decide

theorem Text.all_isBlank_of_isSpaceOrTab {indent : List Char} (h : indent.all Text.isSpaceOrTab = true) :
    indent.all Text.isBlank = true :=
  List.all_eq_true.2 fun c hc => Text.isBlank_of_isSpaceOrTab (List.all_eq_true.1 h c hc)

/-! ## Runs of characters -/

/-- A run of characters at the start of a text ends where another kind of character follows. -/
theorem Text.takeWhile_append_of_stop {p : Char → Bool} {run rest : List Char} (hrun : run.all p = true)
    (hstop : rest.head?.any p = false) : (run ++ rest).takeWhile p = run := by
  rw [List.takeWhile_append_of_pos (List.all_eq_true.1 hrun)]
  cases rest with
  | nil => simp
  | cons c rest =>
      have hc : ¬ p c = true := by simpa using hstop
      rw [List.takeWhile_cons_of_neg hc, List.append_nil]

theorem Text.dropWhile_append_of_stop {p : Char → Bool} {run rest : List Char} (hrun : run.all p = true)
    (hstop : rest.head?.any p = false) : (run ++ rest).dropWhile p = rest := by
  rw [List.dropWhile_append_of_pos (List.all_eq_true.1 hrun)]
  cases rest with
  | nil => rfl
  | cons c rest =>
      have hc : ¬ p c = true := by simpa using hstop
      rw [List.dropWhile_cons_of_neg hc]

namespace Name

open Text

/-- No blank belongs to an identifier. -/
theorem isIdentChar_of_isBlank {c : Char} (h : isBlank c = true) : isIdentChar c = false := by
  have hcodes : ∀ n ∈ [0x9, 0xA, 0xB, 0xC, 0xD, 0x20, 0x85, 0xA0, 0x1680, 0x2000, 0x2001, 0x2002, 0x2003,
      0x2004, 0x2005, 0x2006, 0x2007, 0x2008, 0x2009, 0x200A, 0x2028, 0x2029, 0x202F, 0x205F, 0x3000],
      isIdentChar (Char.ofNat n) = false := by
    decide +kernel
  have hcode := hcodes c.toNat (by
    simp [isBlank] at h
    simp
    omega)
  rw [Char.ofNat_toNat] at hcode
  exact hcode

/-- A character that belongs to no identifier stands in no word. -/
theorem not_mem_of_isIdentChar {word : List Char} {c : Char} (h : word.all isIdentChar = true)
    (hc : isIdentChar c = false) : c ∉ word := fun hmem => by
  rw [List.all_eq_true.1 h c hmem] at hc
  cases hc

/-! ## Edges -/

/-- Whether a character, where there is one, belongs to no identifier. -/
def IsEdge (c : Option Char) : Prop :=
  c.any isIdentChar = false

@[simp]
theorem isEdge_none : IsEdge none := rfl

@[simp]
theorem isEdge_some {c : Char} : IsEdge (some c) ↔ isIdentChar c = false := Iff.rfl

theorem IsEdge.or {a b : Option Char} (ha : IsEdge a) (hb : IsEdge b) : IsEdge (a.or b) := by
  cases a with
  | none => simpa using hb
  | some c => simpa using ha

theorem isEdge_of_isBlank {c : Option Char} (h : c.all isBlank = true) : IsEdge c := by
  cases c with
  | none => rfl
  | some c => exact isIdentChar_of_isBlank h

/-- A text that starts with identifier characters has no edge at its start. -/
theorem not_isEdge_head? {word : List Char} (hne : word ≠ [])
    (hident : ∀ c ∈ word, isIdentChar c = true) (rest : List Char) :
    ¬ IsEdge (word ++ rest).head? := by
  cases word with
  | nil => exact absurd rfl hne
  | cons c cs => simp [hident c List.mem_cons_self]

theorem not_isEdge_getLast? {word : List Char} (hne : word ≠ [])
    (hident : ∀ c ∈ word, isIdentChar c = true) (rest : List Char) :
    ¬ IsEdge (rest ++ word).getLast? := by
  rcases List.eq_nil_or_concat word with hnil | ⟨cs, c, rfl⟩
  · exact absurd hnil hne
  · simp [hident c (by simp)]

/-! ## Words -/

/-- Whether a text stands on a line as a maximal run of identifier characters, with `front` before it
and `back` behind it. -/
structure StandsBetween (front back word line : List Char) : Prop where
  line_eq : line = front ++ (word ++ back)
  nonempty : word ≠ []
  ident : ∀ c ∈ word, isIdentChar c = true
  before : IsEdge front.getLast?
  behind : IsEdge back.head?

/-- Whether a text stands on a line as a maximal run of identifier characters. -/
def Stands (word line : List Char) : Prop :=
  ∃ front back, StandsBetween front back word line

namespace StandsBetween

variable {front back word line : List Char}

/-- A word of two texts, one behind the other, is a word of one of them or lies across the seam. -/
theorem of_append {a b : List Char} (h : StandsBetween front back word (a ++ b)) :
    (∃ mid, front = a ++ mid ∧ b = mid ++ (word ++ back)) ∨
      (∃ mid, a = front ++ (word ++ mid) ∧ back = mid ++ b) ∨
      ∃ x y, x ≠ [] ∧ y ≠ [] ∧ word = x ++ y ∧ a = front ++ x ∧ b = y ++ back := by
  rcases List.append_eq_append_iff.1 h.line_eq with ⟨mid, hfront, hb⟩ | ⟨x, ha, hrest⟩
  · exact Or.inl ⟨mid, hfront, hb⟩
  · rcases List.append_eq_append_iff.1 hrest with ⟨mid, hx, hback⟩ | ⟨y, hword, hb⟩
    · exact Or.inr (Or.inl ⟨mid, by rw [ha, hx], hback⟩)
    · by_cases hx : x = []
      · subst hx
        exact Or.inl ⟨[], by simpa using ha.symm, by simpa [hword] using hb⟩
      · by_cases hy : y = []
        · subst hy
          exact Or.inr (Or.inl ⟨[], by simpa [hword] using ha, by simpa using hb.symm⟩)
        · exact Or.inr (Or.inr ⟨x, y, hx, hy, hword, ha, hb⟩)

end StandsBetween

namespace Stands

variable {word line : List Char}

/-- Between edges, a word of a part of a line is a word of the line. -/
theorem append (h : Stands word line) {front back : List Char} (hfront : IsEdge front.getLast?)
    (hback : IsEdge back.head?) : Stands word (front ++ (line ++ back)) := by
  obtain ⟨before, behind, hword⟩ := h
  refine ⟨front ++ before, behind ++ back, ?_, hword.nonempty, hword.ident, ?_, ?_⟩
  · simp [hword.line_eq]
  · rw [List.getLast?_append]
    exact hword.before.or hfront
  · rw [List.head?_append]
    exact hword.behind.or hback

theorem append_left (h : Stands word line) {front : List Char} (hfront : IsEdge front.getLast?) :
    Stands word (front ++ line) := by
  have hend : IsEdge ([] : List Char).head? := rfl
  simpa using h.append hfront hend

theorem append_right (h : Stands word line) {back : List Char} (hback : IsEdge back.head?) :
    Stands word (line ++ back) := by
  have hstart : IsEdge ([] : List Char).getLast? := rfl
  simpa using h.append hstart hback

end Stands

end Name
end ScriptSymbols
