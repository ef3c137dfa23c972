import ScriptSymbols.Proofs.Skeleton.Stability
import ScriptSymbols.Proofs.Text.CaseFolding

/-!
# Skeletons of folded lines

The skeleton of a line in lower case is the skeleton of the line, in lower case. The one word that the steps
look for is `return` before a brace, which they find in any case.

* `pass_foldCase` goes through the four steps of a pass.
* `skeleton_foldCase` follows the passes.
-/

namespace ScriptSymbols

open Text

namespace Name

theorem caseBlind_isIdentChar : CaseBlind isIdentChar := by
  refine caseBlind_of_isAlpha (b := true) fun c hc => ?_
  simp [isIdentChar, isAlphanumeric, isAlphabetic, isLetter, hc]

end Name

namespace Skeleton

/-! ## Strings and comments -/

theorem next_toLower (mode : Mode) (c : Char) : mode.next c.toLower = mode.next c := by
  cases mode <;> simp [Mode.next, toLower_eq_iff]

theorem startsComment_toLower (mode : Mode) (prev : Option Char) (c : Char) :
    startsComment mode (prev.map Char.toLower) c.toLower = startsComment mode prev c := by
  have hmark : (c.toLower == ';') = (c == ';') := caseBlind_beq rfl c
  have hprev : (prev.map Char.toLower).all isBlank = prev.all isBlank := by
    cases prev with
    | none => rfl
    | some d => exact caseBlind_isBlank d
  rw [startsComment, startsComment, hmark, hprev]

theorem emptyStringsFrom_foldCase (mode : Mode) (prev : Option Char) (cs : List Char) :
    emptyStringsFrom mode (prev.map Char.toLower) (foldCase cs) =
      foldCase (emptyStringsFrom mode prev cs) := by
  induction cs generalizing mode prev with
  | nil => rfl
  | cons c cs ih =>
      have hrest := ih (mode.next c) (some c)
      rw [Option.map_some] at hrest
      simp (disch := decide) only [foldCase_cons, emptyStringsFrom, startsComment_toLower,
        next_toLower, hrest, toLower_eq_iff]
      split
      · rfl
      · split <;> rfl

theorem emptyStrings_foldCase (line : List Char) :
    emptyStrings (foldCase line) = foldCase (emptyStrings line) :=
  emptyStringsFrom_foldCase .code none line

/-! ## Object literals -/

theorem afterClose_foldCase (depth : Nat) (cs : List Char) :
    afterClose depth (foldCase cs) = (afterClose depth cs).map foldCase := by
  induction cs generalizing depth with
  | nil => rfl
  | cons c cs ih =>
      simp (disch := decide) only [foldCase_cons, afterClose, toLower_eq_iff, ih]
      split
      · rfl
      · split
        · split <;> rfl
        · rfl

theorem endsInReturn_foldCase (before : List Char) :
    endsInReturn (foldCase before) = endsInReturn before := by
  rw [endsInReturn, endsInReturn, ← foldCase_take, ← foldCase_drop,
    any_head?_foldCase _ Name.caseBlind_isIdentChar, sameFolded_foldCase]

theorem caseBlind_valueMarks : CaseBlind fun c => valueMarks.contains c :=
  caseBlind_contains (by simp [valueMarks])

theorem valueExpected_foldCase (before : List Char) :
    valueExpected (foldCase before) = valueExpected before := by
  unfold valueExpected
  rw [dropWhile_foldCase _ caseBlind_isBlank]
  cases hlast : before.dropWhile isBlank with
  | nil => rfl
  | cons c cs =>
      have hmark := caseBlind_valueMarks c
      dsimp only [foldCase_cons] at hmark ⊢
      rw [hmark, ← foldCase_cons, endsInReturn_foldCase]

section Literals

variable {before cs rest : List Char} {c : Char}

theorem dropLiteralsFrom_of_closed (hvalue : c = '{' ∧ valueExpected before = true)
    (hclose : afterClose 1 cs = some rest) :
    dropLiteralsFrom before (c :: cs) = dropLiteralsFrom before rest := by
  rw [dropLiteralsFrom, if_pos hvalue]
  split
  · rename_i found hfound
    rw [hclose] at hfound
    cases hfound
    rfl
  · rename_i hnone
    rw [hclose] at hnone
    cases hnone

theorem dropLiteralsFrom_of_kept
    (h : c = '{' ∧ valueExpected before = true → afterClose 1 cs = none) :
    dropLiteralsFrom before (c :: cs) = c :: dropLiteralsFrom (c :: before) cs := by
  rw [dropLiteralsFrom]
  split
  · rename_i hvalue
    split
    · rename_i found hfound
      rw [h hvalue] at hfound
      cases hfound
    · rfl
  · rfl

end Literals

theorem dropLiteralsFrom_foldCase (before cs : List Char) :
    dropLiteralsFrom (foldCase before) (foldCase cs) = foldCase (dropLiteralsFrom before cs) := by
  have hvalue_iff : ∀ (c : Char) (before : List Char),
      (c.toLower = '{' ∧ valueExpected (foldCase before) = true) ↔
        (c = '{' ∧ valueExpected before = true) := by
    intro c before
    rw [toLower_eq_iff rfl, valueExpected_foldCase]
  -- A literal is dropped, or its brace is kept, at the same places of both texts.
  fun_induction dropLiteralsFrom before cs with
  | case1 before => simp [dropLiteralsFrom]
  | case2 before c cs hvalue rest hclose ih =>
      have hclose' : afterClose 1 (foldCase cs) = some (foldCase rest) := by
        rw [afterClose_foldCase, hclose, Option.map_some]
      rw [foldCase_cons, dropLiteralsFrom_of_closed ((hvalue_iff c before).2 hvalue) hclose', ih]
  | case3 before c cs hvalue hclose ih =>
      have hclose' : afterClose 1 (foldCase cs) = none := by
        rw [afterClose_foldCase, hclose, Option.map_none]
      rw [foldCase_cons, dropLiteralsFrom_of_kept fun _ => hclose', ← foldCase_cons, ih]
      rfl
  | case4 before c cs hvalue ih =>
      rw [foldCase_cons,
        dropLiteralsFrom_of_kept fun hvalue' => absurd ((hvalue_iff c before).1 hvalue') hvalue,
        ← foldCase_cons, ih]
      rfl

theorem dropLiterals_foldCase (line : List Char) :
    dropLiterals (foldCase line) = foldCase (dropLiterals line) :=
  dropLiteralsFrom_foldCase [] line

/-! ## Commands and spacing -/

theorem afterMark?_foldCase (cs : List Char) :
    afterMark? (foldCase cs) = (afterMark? cs).map foldCase := by
  match cs with
  | [] => rfl
  | [_] => rfl
  | mark :: blank :: expr =>
      have hblank : isSpaceOrTab blank.toLower = isSpaceOrTab blank := caseBlind_isSpaceOrTab blank
      simp (disch := decide) only [foldCase_cons, afterMark?, toLower_eq_iff, hblank,
        dropWhile_foldCase _ caseBlind_isSpaceOrTab]
      split <;> rfl

theorem contains_foldCase {mark : Char} (h : mark.isAlpha = false) (cs : List Char) :
    (foldCase cs).contains mark = cs.contains mark := by
  rw [Bool.eq_iff_iff, List.contains_iff_mem, List.contains_iff_mem, foldCase, List.mem_map]
  constructor
  · rintro ⟨c, hmem, hc⟩
    rw [toLower_eq_iff h] at hc
    rw [← hc]
    exact hmem
  · intro hmem
    exact ⟨mark, hmem, (toLower_eq_iff h).2 rfl⟩

theorem plainCommand_foldCase (line : List Char) :
    plainCommand (foldCase line) = foldCase (plainCommand line) := by
  simp (disch := decide) only [plainCommand, takeWhile_foldCase _ caseBlind_isSpaceOrTab,
    dropWhile_foldCase _ caseBlind_isSpaceOrTab, takeWhile_foldCase _ Name.caseBlind_isIdentChar,
    dropWhile_foldCase _ Name.caseBlind_isIdentChar, isEmpty_foldCase, afterMark?_foldCase,
    head?_foldCase_eq_iff, contains_foldCase]
  -- What makes a line no command is now the same test on both sides.
  split
  · rfl
  · split
    · rfl
    · split
      · rfl
      · cases afterMark? _ with
        | none => rfl
        | some expr => simp

theorem squeezeFrom_foldCase (inGap : Bool) (cs : List Char) :
    squeezeFrom inGap (foldCase cs) = foldCase (squeezeFrom inGap cs) := by
  induction cs generalizing inGap with
  | nil => rfl
  | cons c cs ih =>
      rw [foldCase_cons, squeezeFrom, squeezeFrom, caseBlind_isSpaceOrTab c, ih, ih]
      split
      · split <;> rfl
      · rfl

theorem squeeze_foldCase (line : List Char) : squeeze (foldCase line) = foldCase (squeeze line) := by
  rw [squeeze, takeWhile_foldCase _ caseBlind_isSpaceOrTab,
    dropWhile_foldCase _ caseBlind_isSpaceOrTab, squeezeFrom_foldCase, squeeze, foldCase_append]

/-! ## All passes -/

theorem pass_foldCase (line : List Char) : pass (foldCase line) = foldCase (pass line) := by
  rw [pass, emptyStrings_foldCase, dropLiterals_foldCase, plainCommand_foldCase, squeeze_foldCase,
    pass]

theorem skeleton_foldCase (line : List Char) : skeleton (foldCase line) = foldCase (skeleton line) := by
  -- A pass changes the line exactly if it changes the folded line, so that both have as many passes.
  induction line using skeleton.induct with
  | case1 line hfixed =>
      have hfixed' : pass (foldCase line) = foldCase line := by
        rw [pass_foldCase, hfixed]
      rw [skeleton_of_fixed hfixed, skeleton_of_fixed hfixed']
  | case2 line _hchanged ih =>
      rw [← skeleton_pass, pass_foldCase, ih, skeleton_pass]

end Skeleton
end ScriptSymbols
