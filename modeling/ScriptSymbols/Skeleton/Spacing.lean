import ScriptSymbols.Text.Basic

/-!
# Spacing of a line

The last step towards the skeleton of a line: behind the indentation every run of spaces and tabs
becomes one space.

- `weight` counts the characters of a line, a tab twice. Squeezing never adds weight, and a line that
  it changes loses some.
-/

namespace ScriptSymbols
namespace Skeleton

open Text

/-- Squeezes each run of spaces and tabs to one space; `inGap` says that a run is being passed. -/
def squeezeFrom (inGap : Bool) : List Char → List Char
  | [] => []
  | c :: cs =>
    if isSpaceOrTab c then
      if inGap then squeezeFrom true cs else ' ' :: squeezeFrom true cs
    else c :: squeezeFrom false cs

/-- The line with the runs of spaces and tabs behind its indentation squeezed. -/
def squeeze (line : List Char) : List Char :=
  line.takeWhile isSpaceOrTab ++ squeezeFrom false (line.dropWhile isSpaceOrTab)

/-- The number of characters of a line, where a tab counts twice. -/
def weight (line : List Char) : Nat :=
  line.length + line.count '\t'

theorem weight_cons (c : Char) (cs : List Char) :
    weight (c :: cs) = (if c = '\t' then 2 else 1) + weight cs := by
  by_cases h : c = '\t'
  · simp [weight, h]
    omega
  · simp [weight, h]
    omega

theorem weight_append (a b : List Char) : weight (a ++ b) = weight a + weight b := by
  simp [weight]
  omega

theorem weight_of_sublist {a b : List Char} (h : a.Sublist b) : a = b ∨ weight a < weight b := by
  by_cases hlen : a.length = b.length
  · exact Or.inl (h.eq_of_length hlen)
  · have hle := h.length_le
    have hcount := h.count_le '\t'
    right
    unfold weight
    omega

theorem squeezeFrom_weight (inGap : Bool) (cs : List Char) :
    squeezeFrom inGap cs = cs ∨ weight (squeezeFrom inGap cs) < weight cs := by
  induction cs generalizing inGap with
  | nil => exact Or.inl rfl
  | cons c cs ih =>
    rw [squeezeFrom]
    by_cases hc : isSpaceOrTab c = true
    · rw [if_pos hc]
      cases inGap with
      | true =>
        right
        have := ih true
        simp only [if_true]
        rw [weight_cons]
        rcases this with h | h
        · rw [h]
          split <;> omega
        · split <;> omega
      | false =>
        simp only [Bool.false_eq_true, if_false]
        have hsp : c = ' ' ∨ c = '\t' := by
          simpa [isSpaceOrTab] using hc
        rcases hsp with rfl | rfl
        · rcases ih true with h | h
          · left
            rw [h]
          · right
            rw [weight_cons, weight_cons]
            omega
        · right
          rw [weight_cons, weight_cons]
          rcases ih true with h | h
          · rw [h]
            simp
          · simp
            omega
    · rw [if_neg hc]
      rcases ih false with h | h
      · left
        rw [h]
      · right
        rw [weight_cons, weight_cons]
        omega

theorem squeeze_weight (line : List Char) : squeeze line = line ∨ weight (squeeze line) < weight line := by
  have hsplit : line.takeWhile isSpaceOrTab ++ line.dropWhile isSpaceOrTab = line :=
    List.takeWhile_append_dropWhile
  unfold squeeze
  rcases squeezeFrom_weight false (line.dropWhile isSpaceOrTab) with h | h
  · left
    rw [h, hsplit]
  · right
    have hw := congrArg weight hsplit
    rw [weight_append] at hw
    rw [weight_append]
    omega

end Skeleton
end ScriptSymbols
