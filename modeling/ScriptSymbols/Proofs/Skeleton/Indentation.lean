import ScriptSymbols.Proofs.Skeleton.Plain

/-!
# What a skeleton keeps of a line

A skeleton is made by deleting characters, and by tabs that become spaces. The first character behind the
indentation is deleted only together with everything behind it, so that the indentation stays, or else nothing.

1. `Skeleton.Erodes.untab_sublist`: up to tabs, an eroded line is a part of the line.
2. `Skeleton.indentation_emptyStrings`, `Skeleton.indentation_dropLiterals`,
   `Skeleton.indentation_plainCommand` and `Skeleton.indentation_squeeze` deal with the four steps. Blanks of any
   script count for the first two, but only spaces and tabs indent.
3. `Skeleton.skeleton_only_deletes` is the result for whole lines.
-/

namespace ScriptSymbols

open Text Name

namespace Skeleton

/-! ## Deleted characters -/

/-- The line with a space in place of every tab. -/
def untab (line : List Char) : List Char :=
  line.map fun c => if c = '\t' then ' ' else c

theorem Erodes.untab_sublist {left line : List Char} (h : Erodes left line) :
    (untab left).Sublist (untab line) := by
  induction h with
  | nil => exact List.nil_sublist _
  | @cons a b left line hstands _ ih =>
      have hsame : (if a = '\t' then ' ' else a) = if b = '\t' then ' ' else b := by
        rcases hstands with rfl | ⟨rfl, rfl⟩
        · rfl
        · rfl
      rw [untab, untab, List.map_cons, List.map_cons, hsame]
      exact ih.cons_cons _
  | cons_right _ ih => exact ih.cons _

/-! ## Indentation -/

/-- The spaces and tabs at the start of a line. -/
def indentation (line : List Char) : List Char :=
  line.takeWhile isSpaceOrTab

/-- A line is an indentation with a body that starts with another kind of character. -/
theorem exists_body (line : List Char) :
    ∃ indent body, line = indent ++ body ∧ indent.all isSpaceOrTab = true ∧
      body.head?.any isSpaceOrTab = false := by
  refine ⟨line.takeWhile isSpaceOrTab, line.dropWhile isSpaceOrTab,
    List.takeWhile_append_dropWhile.symm, List.all_takeWhile, ?_⟩
  have hhead := List.head?_dropWhile_not isSpaceOrTab line
  cases hbody : (line.dropWhile isSpaceOrTab).head? with
  | none => rfl
  | some c => simpa [hbody] using hhead

theorem indentation_append {indent body : List Char} (hindent : indent.all isSpaceOrTab = true)
    (hbody : body.head?.any isSpaceOrTab = false) : indentation (indent ++ body) = indent :=
  takeWhile_append_of_stop hindent hbody

/-- No mark that a step looks for is part of an indentation. -/
theorem not_mem_of_isSpaceOrTab {indent : List Char} (hindent : indent.all isSpaceOrTab = true) {c : Char}
    (hc : isSpaceOrTab c = false) : c ∉ indent := by
  intro hmem
  rw [List.all_eq_true.1 hindent c hmem] at hc
  cases hc

theorem indentation_emptyStrings (line : List Char) :
    indentation (emptyStrings line) = indentation line := by
  obtain ⟨indent, body, rfl, hindent, hbody⟩ := exists_body line
  have hquote := not_mem_of_isSpaceOrTab hindent (c := '"') (by decide)
  have hmark := not_mem_of_isSpaceOrTab hindent (c := ';') (by decide)
  rw [emptyStrings, emptyStringsFrom_append (modeAfter?_of_not_mem hquote hmark none),
    emptyStringsFrom_of_not_mem hquote hmark, indentation_append hindent hbody]
  refine indentation_append hindent ?_
  cases body with
  | nil => rfl
  | cons c body =>
      -- The first character stays, or a comment starts there and nothing does.
      rw [emptyStringsFrom]
      split
      · rfl
      · rw [if_pos (Or.inl rfl)]
        exact hbody

theorem indentation_dropLiterals (line : List Char) :
    indentation (dropLiterals line) = indentation line := by
  obtain ⟨indent, body, rfl, hindent, hbody⟩ := exists_body line
  have hopen := not_mem_of_isSpaceOrTab hindent (c := '{') (by decide)
  rw [dropLiterals, dropLiteralsFrom_append hopen, indentation_append hindent hbody]
  refine indentation_append hindent ?_
  cases body with
  | nil => rw [dropLiteralsFrom]; rfl
  | cons c body =>
      -- No value is expected behind an indentation.
      have hnone : valueExpected (indent.reverse ++ []) = false := by
        have hblank : ∀ c ∈ indent.reverse, isBlank c = true := by
          intro c hc
          exact isBlank_of_isSpaceOrTab (List.all_eq_true.1 hindent c (List.mem_reverse.1 hc))
        rw [valueExpected, List.dropWhile_append_of_pos hblank]
        rfl
      rw [dropLiteralsFrom_of_kept fun hvalue => absurd hvalue.2 (by rw [hnone]; exact Bool.false_ne_true)]
      exact hbody

theorem indentation_plainCommand (line : List Char) :
    plainCommand line = [] ∨ indentation (plainCommand line) = indentation line := by
  unfold plainCommand
  extract_lets indent body name rest gap tail
  split
  · exact Or.inr rfl
  · rename_i hname
    split
    · exact Or.inl rfl
    · split
      · exact Or.inr rfl
      · right
        cases afterMark? tail with
        | none => rfl
        | some expr =>
            -- The name stays behind the indentation, and starts with no blank.
            refine indentation_append List.all_takeWhile ?_
            obtain ⟨c, word, hword⟩ := List.exists_cons_of_ne_nil (by simpa using hname : name ≠ [])
            have hident : ∀ d ∈ name, isIdentChar d = true := List.all_eq_true.1 List.all_takeWhile
            rw [hword] at hident ⊢
            exact isSpaceOrTab_of_isIdentChar (hident c List.mem_cons_self)

theorem indentation_squeeze (line : List Char) : indentation (squeeze line) = indentation line := by
  obtain ⟨indent, body, rfl, hindent, hbody⟩ := exists_body line
  rw [squeeze_append hindent hbody, indentation_append hindent hbody]
  refine indentation_append hindent ?_
  cases body with
  | nil => rfl
  | cons c body =>
      have hc : isSpaceOrTab c = false := hbody
      simp [squeezeFrom, hc]

theorem indentation_pass (line : List Char) :
    Skeleton.pass line = [] ∨ indentation (Skeleton.pass line) = indentation line := by
  rcases indentation_plainCommand (dropLiterals (emptyStrings line)) with hnil | hkept
  · left
    rw [Skeleton.pass, hnil]
    rfl
  · right
    rw [Skeleton.pass, indentation_squeeze, hkept, indentation_dropLiterals, indentation_emptyStrings]

theorem indentation_skeleton (line : List Char) :
    skeleton line = [] ∨ indentation (skeleton line) = indentation line := by
  fun_induction skeleton line with
  | case1 => exact Or.inr rfl
  | case2 line _ ih =>
      rcases indentation_pass line with hnil | hkept
      · left
        rw [hnil]
        exact List.eq_nil_of_length_eq_zero (Nat.le_zero.1 (skeleton_erodes []).length_le)
      · rwa [hkept] at ih

/-! ## Whole lines -/

/-- A skeleton is made by deleting alone, if tabs count as spaces: it is then a subsequence of the line, and so it
is no longer, neither in characters nor in bytes. Nothing is left of a line, or its indentation is left as it
is. -/
theorem skeleton_only_deletes (line : List Char) :
    (untab (skeleton line)).Sublist (untab line) ∧
      (skeleton line).length ≤ line.length ∧ byteSize (skeleton line) ≤ byteSize line ∧
      (skeleton line = [] ∨
        (skeleton line).takeWhile isSpaceOrTab = line.takeWhile isSpaceOrTab) := by
  have herodes := skeleton_erodes line
  exact ⟨herodes.untab_sublist, herodes.length_le, herodes.byteSize_le, indentation_skeleton line⟩

end Skeleton
end ScriptSymbols
