import Mathlib.Data.List.Forall2
import Mathlib.Logic.Function.Iterate
import ScriptSymbols.Skeleton
import ScriptSymbols.Text.Units

/-!
# Stability of skeletons

The passes over a line come to rest. They do not only delete, since squeezing also turns tabs into
spaces, so the length of a line is no measure of what is left to do.

* `Skeleton.Erodes` relates what is left of a line to the line: some characters are gone, and some
  tabs have become spaces. Every step of a pass erodes, and so does every number of passes.
* `Skeleton.Erodes.trichotomy` says what erosion costs a line that it changes: characters, or tabs.
* `Skeleton.passes_reach_skeleton` counts the passes up to the first that changes nothing.
-/

namespace ScriptSymbols
namespace Skeleton

open Text

/-! ## Erosion -/

/-- Whether a character can be what is left of another one. -/
def StandsFor (a b : Char) : Prop :=
  a = b ∨ a = ' ' ∧ b = '\t'

instance : Std.Refl StandsFor where
  refl _ := Or.inl rfl

instance : IsTrans Char StandsFor where
  trans := by
    rintro a b c (rfl | ⟨rfl, rfl⟩) hbc
    · exact hbc
    · rcases hbc with rfl | ⟨hspace, _htab⟩
      · exact Or.inr ⟨rfl, rfl⟩
      · exact absurd hspace (by decide)

/-- Whether a text can be what is left of a line. -/
def Erodes (left line : List Char) : Prop :=
  List.SublistForall₂ StandsFor left line

/-- Every character takes a byte. -/
theorem length_le_byteSize (cs : List Char) : cs.length ≤ byteSize cs := by
  induction cs with
  | nil => exact Nat.le_refl _
  | cons c cs ih =>
      have hpos := c.utf8Size_pos
      simp only [byteSize, total_cons, List.length_cons] at ih ⊢
      omega

namespace Erodes

variable {a b c : List Char}

theorem refl (a : List Char) : Erodes a a :=
  Std.Refl.refl (r := List.SublistForall₂ StandsFor) a

theorem trans (hab : Erodes a b) (hbc : Erodes b c) : Erodes a c :=
  IsTrans.trans (r := List.SublistForall₂ StandsFor) a b c hab hbc

theorem of_sublist (h : a.Sublist b) : Erodes a b :=
  h.sublistForall₂

theorem append_left (front : List Char) (h : Erodes a b) : Erodes (front ++ a) (front ++ b) := by
  induction front with
  | nil => exact h
  | cons c front ih => exact List.SublistForall₂.cons (Or.inl rfl) ih

/-! ## What erosion costs -/

theorem length_le (h : Erodes a b) : a.length ≤ b.length := by
  induction h with
  | nil => exact Nat.zero_le _
  | cons _ _ ih => exact Nat.succ_le_succ ih
  | cons_right _ ih => exact Nat.le_succ_of_le ih

theorem utf8Size_eq {x y : Char} (h : StandsFor x y) : x.utf8Size = y.utf8Size := by
  rcases h with rfl | ⟨rfl, rfl⟩
  · rfl
  · decide

/-- Every character that is gone takes at least one byte with it. -/
theorem byteSize_add_length_le (h : Erodes a b) :
    byteSize a + b.length ≤ byteSize b + a.length := by
  induction h with
  | @nil l => simpa [byteSize] using length_le_byteSize l
  | cons hstands _ ih =>
      have := utf8Size_eq hstands
      simp only [byteSize, total_cons, List.length_cons] at ih ⊢
      omega
  | @cons_right c _ _ _ ih =>
      have := c.utf8Size_pos
      simp only [byteSize, total_cons, List.length_cons] at ih ⊢
      omega

theorem byteSize_le (h : Erodes a b) : byteSize a ≤ byteSize b := by
  have hbytes := h.byteSize_add_length_le
  have hlength := h.length_le
  omega

/-- If no character is gone, all that can have changed are tabs. -/
theorem tabs_of_length_eq (h : Erodes a b) (hlen : a.length = b.length) :
    byteSize a = byteSize b ∧ (a = b ∨ a.count '\t' < b.count '\t') := by
  induction h with
  | nil =>
      cases List.eq_nil_of_length_eq_zero hlen.symm
      exact ⟨rfl, Or.inl rfl⟩
  | @cons x y l₁ l₂ hstands hrest ih =>
      have hlen' : l₁.length = l₂.length := by
        simpa using hlen
      rcases ih hlen' with ⟨hbytes, htabs⟩
      refine ⟨?_, ?_⟩
      · simp only [byteSize, total_cons] at hbytes ⊢
        rw [utf8Size_eq hstands, hbytes]
      · rcases hstands with rfl | ⟨rfl, rfl⟩
        · rcases htabs with rfl | hlt
          · exact Or.inl rfl
          · exact Or.inr (by simpa [List.count_cons] using hlt)
        · -- A tab has become a space here, so the count falls whatever the rest does.
          have hle : l₁.count '\t' ≤ l₂.count '\t' := by
            rcases htabs with rfl | hlt
            · exact Nat.le_refl _
            · exact Nat.le_of_lt hlt
          right
          simp
          omega
  | @cons_right c l₁ l₂ hrest _ =>
      -- A character is gone, so the lengths differ.
      have hle : l₁.length ≤ l₂.length := length_le hrest
      rw [List.length_cons] at hlen
      omega

/-- A line that is eroded is the same, or shorter in characters and in bytes, or as long as before
with fewer tabs. -/
theorem trichotomy (h : Erodes a b) :
    a = b ∨ (a.length < b.length ∧ byteSize a < byteSize b) ∨
      (a.length = b.length ∧ byteSize a = byteSize b ∧ a.count '\t' < b.count '\t') := by
  rcases Nat.lt_or_eq_of_le h.length_le with hlt | heq
  · have hbytes := h.byteSize_add_length_le
    exact Or.inr (Or.inl ⟨hlt, by omega⟩)
  · rcases h.tabs_of_length_eq heq with ⟨hbytes, rfl | htabs⟩
    · exact Or.inl rfl
    · exact Or.inr (Or.inr ⟨heq, hbytes, htabs⟩)

end Erodes

/-! ## A pass erodes -/

theorem squeezeFrom_erodes (inGap : Bool) (cs : List Char) : Erodes (squeezeFrom inGap cs) cs := by
  fun_induction squeezeFrom inGap cs with
  | case1 => exact List.SublistForall₂.nil
  | case2 c cs _hc ih => exact List.SublistForall₂.cons_right ih
  | case3 inGap c cs hc _hgap ih =>
      have hstands : StandsFor ' ' c := by
        have hblank : c = ' ' ∨ c = '\t' := by
          simpa [isSpaceOrTab] using hc
        rcases hblank with rfl | rfl
        · exact Or.inl rfl
        · exact Or.inr ⟨rfl, rfl⟩
      exact List.SublistForall₂.cons hstands ih
  | case4 inGap c cs _hc ih => exact List.SublistForall₂.cons (Or.inl rfl) ih

theorem squeeze_erodes (line : List Char) : Erodes (squeeze line) line := by
  have hbody := squeezeFrom_erodes false (line.dropWhile isSpaceOrTab)
  have hline := hbody.append_left (line.takeWhile isSpaceOrTab)
  rw [List.takeWhile_append_dropWhile] at hline
  exact hline

theorem pass_erodes (line : List Char) : Erodes (pass line) line := by
  have hstrings := Erodes.of_sublist (emptyStrings_sublist line)
  have hliterals := Erodes.of_sublist (dropLiterals_sublist (emptyStrings line))
  have hcommand := Erodes.of_sublist (plainCommand_sublist (dropLiterals (emptyStrings line)))
  exact (squeeze_erodes _).trans (hcommand.trans (hliterals.trans hstrings))

theorem skeleton_erodes (line : List Char) : Erodes (skeleton line) line := by
  fun_induction skeleton line with
  | case1 => exact Erodes.refl _
  | case2 line _ ih => exact ih.trans (pass_erodes line)

/-! ## The passes come to rest -/

theorem skeleton_of_fixed {line : List Char} (h : pass line = line) : skeleton line = line := by
  rw [skeleton, if_pos h]

theorem skeleton_pass (line : List Char) : skeleton (pass line) = skeleton line := by
  by_cases h : pass line = line
  · rw [h]
  · conv_rhs => rw [skeleton, if_neg h]

theorem pass_skeleton (line : List Char) : pass (skeleton line) = skeleton line := by
  induction line using skeleton.induct with
  | case1 line h =>
      rw [skeleton_of_fixed h]
      exact h
  | case2 line _h ih =>
      rw [skeleton_pass] at ih
      exact ih

/-- The skeleton is the line after as many passes as change it, each of which costs it weight. -/
theorem passes_reach_skeleton (line : List Char) :
    ∃ n ≤ weight line, pass^[n] line = skeleton line ∧
      ∀ k < n, pass (pass^[k] line) ≠ pass^[k] line := by
  induction line using skeleton.induct with
  | case1 line h =>
      refine ⟨0, Nat.zero_le _, (skeleton_of_fixed h).symm, ?_⟩
      intro k hk
      exact absurd hk (Nat.not_lt_zero k)
  | case2 line h ih =>
      rcases ih with ⟨n, hn, hreach, hbusy⟩
      have hlighter : weight (pass line) < weight line := (pass_weight line).resolve_left h
      refine ⟨n + 1, by omega, ?_, ?_⟩
      · rw [Function.iterate_succ_apply, hreach, skeleton_pass]
      · intro k hk
        cases k with
        | zero => exact h
        | succ k =>
            rw [Function.iterate_succ_apply]
            exact hbusy k (Nat.lt_of_succ_lt_succ hk)

/-- Reducing a line to its skeleton ends, and with a fixed point. No pass lengthens the line, and
one that changes it without shortening it lowers the number of tabs; so after finitely many passes,
at most as many as the line has characters and tabs, nothing changes any more. -/
theorem skeleton_is_stable (line : List Char) :
    ((pass line).length ≤ line.length ∧ byteSize (pass line) ≤ byteSize line) ∧
      (pass line = line ∨
        ((pass line).length < line.length ∧ byteSize (pass line) < byteSize line) ∨
        ((pass line).length = line.length ∧ byteSize (pass line) = byteSize line ∧
          (pass line).count '\t' < line.count '\t')) ∧
      (∃ n ≤ line.length + line.count '\t', pass^[n] line = skeleton line ∧
        ∀ k < n, pass (pass^[k] line) ≠ pass^[k] line) ∧
      pass (skeleton line) = skeleton line ∧
      skeleton (skeleton line) = skeleton line := by
  have herodes := pass_erodes line
  have hfixed := pass_skeleton line
  refine ⟨⟨herodes.length_le, ?_⟩, herodes.trichotomy, passes_reach_skeleton line, hfixed,
    skeleton_of_fixed hfixed⟩
  have hbytes := herodes.byteSize_add_length_le
  have hlength := herodes.length_le
  omega

end Skeleton
end ScriptSymbols
