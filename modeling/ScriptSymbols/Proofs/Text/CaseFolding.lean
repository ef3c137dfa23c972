import ScriptSymbols.Text.Basic
import ScriptSymbols.Text.Lines
import ScriptSymbols.Text.Split

/-!
# Folding the case of a text

Every operation that cuts a text by marks or by classes of characters commutes with folding the case of
the letters A to Z, as long as no letter is a mark and the classes do not tell the two cases apart.

* `toLower_cases` says what folding does to a character.
* `CaseBlind` are the functions on characters that do not tell the two cases apart;
  by `caseBlind_of_isAlpha` these are all that do not tell letters apart.
* `toLower_eq_iff`: folding makes no mark of anything that is none.
* `lines_foldCase`: a text has its line breaks where the folded text has them.
-/

namespace ScriptSymbols
namespace Text

/-! ## Characters -/

/-- Whether a function takes the same value on a letter in either case. -/
def CaseBlind {β : Type} (f : Char → β) : Prop :=
  ∀ c, f c.toLower = f c

/-- The letters by their code points. -/
theorem isAlpha_iff (c : Char) :
    c.isAlpha = true ↔ 65 ≤ c.toNat ∧ c.toNat ≤ 90 ∨ 97 ≤ c.toNat ∧ c.toNat ≤ 122 := by
  show (decide (65 ≤ c.val ∧ c.val ≤ 90) || (decide (97 ≤ c.val) && decide (c.val ≤ 122))) = true ↔ _
  simp [UInt32.le_iff_toNat_le]

/-- A character stays as it is, or it is one of the letters A to Z and moves by 32 places. -/
theorem toLower_cases (c : Char) :
    c.toLower = c ∨ 65 ≤ c.toNat ∧ c.toNat ≤ 90 ∧ c.toLower.toNat = c.toNat + 32 := by
  by_cases h : c.val ≥ 'A'.val ∧ c.val ≤ 'Z'.val
  · have hfirst : 65 ≤ c.toNat := UInt32.le_iff_toNat_le.1 h.1
    have hlast : c.toNat ≤ 90 := UInt32.le_iff_toNat_le.1 h.2
    have hval : c.toLower.val = c.val + 32 := congrArg Char.val (dif_pos h)
    refine Or.inr ⟨hfirst, hlast, ?_⟩
    have hsum : c.toLower.toNat = (c.toNat + 32) % 2 ^ 32 :=
      (congrArg UInt32.toNat hval).trans (UInt32.toNat_add c.val 32)
    omega
  · exact Or.inl (dif_neg h)

theorem toLower_toLower (c : Char) : c.toLower.toLower = c.toLower := by
  rcases toLower_cases c.toLower with h | ⟨-, hlast, -⟩
  · exact h
  · rcases toLower_cases c with h | ⟨hfirst, -, hmoved⟩
    · rw [h, h]
    · omega

/-- What is the same for all letters is the same for a letter in either case. -/
theorem caseBlind_of_isAlpha {β : Type} {f : Char → β} {b : β}
    (h : ∀ c, c.isAlpha = true → f c = b) : CaseBlind f := by
  intro c
  rcases toLower_cases c with hsame | ⟨hfirst, hlast, hmoved⟩
  · rw [hsame]
  · rw [h c.toLower ((isAlpha_iff _).2 (by omega)), h c ((isAlpha_iff _).2 (by omega))]

theorem toLower_eq_iff {c mark : Char} (h : mark.isAlpha = false) : c.toLower = mark ↔ c = mark := by
  rcases toLower_cases c with hsame | ⟨hfirst, hlast, hmoved⟩
  · rw [hsame]
  · -- Neither the letter nor the one that it moves to is a mark.
    refine iff_of_false ?_ ?_
    · rintro rfl
      rw [(isAlpha_iff c.toLower).2 (by omega)] at h
      cases h
    · rintro rfl
      rw [(isAlpha_iff c).2 (by omega)] at h
      cases h

theorem caseBlind_contains {marks : List Char} (h : ∀ mark ∈ marks, mark.isAlpha = false) :
    CaseBlind marks.contains := by
  refine caseBlind_of_isAlpha (b := false) fun c hc => ?_
  rw [List.contains_eq_mem, decide_eq_false_iff_not]
  intro hmem
  rw [h c hmem] at hc
  cases hc

theorem caseBlind_beq {mark : Char} (h : mark.isAlpha = false) : CaseBlind (· == mark) := by
  intro c
  rw [Bool.eq_iff_iff, beq_iff_eq, beq_iff_eq]
  exact toLower_eq_iff h

theorem CaseBlind.or {p q : Char → Bool} (hp : CaseBlind p) (hq : CaseBlind q) :
    CaseBlind fun c => p c || q c :=
  fun c => congr (congrArg Bool.or (hp c)) (hq c)

theorem CaseBlind.and {p q : Char → Bool} (hp : CaseBlind p) (hq : CaseBlind q) :
    CaseBlind fun c => p c && q c :=
  fun c => congr (congrArg Bool.and (hp c)) (hq c)

theorem CaseBlind.not {p : Char → Bool} (hp : CaseBlind p) : CaseBlind fun c => !p c :=
  fun c => congrArg Bool.not (hp c)

theorem caseBlind_isBlank : CaseBlind isBlank := by
  refine caseBlind_of_isAlpha (b := false) fun c hc => ?_
  have hrange := (isAlpha_iff c).1 hc
  simp [isBlank]
  omega

theorem caseBlind_isSpaceOrTab : CaseBlind isSpaceOrTab :=
  (caseBlind_beq rfl).or (caseBlind_beq rfl)

/-! ## Texts -/

section Texts

variable {p : Char → Bool} (cs ds : List Char)

@[simp]
theorem foldCase_nil : foldCase [] = [] := rfl

@[simp]
theorem foldCase_cons (c : Char) : foldCase (c :: cs) = c.toLower :: foldCase cs := rfl

@[simp]
theorem foldCase_append : foldCase (cs ++ ds) = foldCase cs ++ foldCase ds :=
  List.map_append

theorem foldCase_foldCase : foldCase (foldCase cs) = foldCase cs := by
  simp [foldCase, toLower_toLower]

theorem sameFolded_foldCase : sameFolded (foldCase cs) ds = sameFolded cs ds := by
  rw [sameFolded, foldCase_foldCase, sameFolded]

theorem foldCase_reverse : foldCase cs.reverse = (foldCase cs).reverse :=
  List.map_reverse

theorem foldCase_take (n : Nat) : foldCase (cs.take n) = (foldCase cs).take n :=
  List.map_take

theorem foldCase_drop (n : Nat) : foldCase (cs.drop n) = (foldCase cs).drop n :=
  List.map_drop

theorem isEmpty_foldCase : (foldCase cs).isEmpty = cs.isEmpty := by
  simp [foldCase]

theorem takeWhile_foldCase (h : CaseBlind p) :
    (foldCase cs).takeWhile p = foldCase (cs.takeWhile p) := by
  rw [foldCase, List.takeWhile_map, show p ∘ Char.toLower = p from funext h]
  rfl

theorem dropWhile_foldCase (h : CaseBlind p) :
    (foldCase cs).dropWhile p = foldCase (cs.dropWhile p) := by
  rw [foldCase, List.dropWhile_map, show p ∘ Char.toLower = p from funext h]
  rfl

theorem all_foldCase (h : CaseBlind p) : (foldCase cs).all p = cs.all p := by
  rw [foldCase, List.all_map, show p ∘ Char.toLower = p from funext h]

theorem any_head?_foldCase (h : CaseBlind p) : (foldCase cs).head?.any p = cs.head?.any p := by
  cases cs with
  | nil => rfl
  | cons c cs => exact h c

theorem head?_foldCase_eq_iff {mark : Char} (h : mark.isAlpha = false) :
    (foldCase cs).head? = some mark ↔ cs.head? = some mark := by
  cases cs with
  | nil => simp
  | cons c cs => simp [toLower_eq_iff h]

theorem head?_foldCase_beq {mark : Char} (h : mark.isAlpha = false) :
    ((foldCase cs).head? == some mark) = (cs.head? == some mark) := by
  rw [Bool.eq_iff_iff, beq_iff_eq, beq_iff_eq]
  exact head?_foldCase_eq_iff cs h

theorem trimStart_foldCase : trimStart (foldCase cs) = foldCase (trimStart cs) :=
  dropWhile_foldCase cs caseBlind_isBlank

theorem trimEnd_foldCase : trimEnd (foldCase cs) = foldCase (trimEnd cs) := by
  unfold trimEnd dropEndWhile
  rw [← foldCase_reverse, dropWhile_foldCase _ caseBlind_isBlank, foldCase_reverse]

theorem trim_foldCase : trim (foldCase cs) = foldCase (trim cs) := by
  rw [trim, trimStart_foldCase, trimEnd_foldCase, trim]

theorem allBlank_foldCase : allBlank (foldCase cs) = allBlank cs :=
  all_foldCase cs caseBlind_isBlank

end Texts

/-! ## Splitting -/

theorem map_consHead (c : Char) {parts : List (List Char)} :
    (consHead c parts).map foldCase = consHead c.toLower (parts.map foldCase) := by
  cases parts <;> rfl

theorem splitOn_foldCase {sep : Char} (h : sep.isAlpha = false) (cs : List Char) :
    splitOn sep (foldCase cs) = (splitOn sep cs).map foldCase := by
  induction cs with
  | nil => rfl
  | cons c cs ih =>
      rw [foldCase_cons, splitOn, splitOn, ih]
      by_cases hc : c = sep
      · rw [if_pos hc, if_pos ((toLower_eq_iff h).2 hc)]
        rfl
      · rw [if_neg hc, if_neg fun hlower => hc ((toLower_eq_iff h).1 hlower), map_consHead]

theorem caseBlind_bracketDepth (depth : Nat) : CaseBlind (bracketDepth depth) := by
  intro c
  simp [bracketDepth, toLower_eq_iff]

theorem splitTop_foldCase (cs : List Char) :
    splitTop (foldCase cs) = (splitTop cs).map foldCase := by
  have hfrom : ∀ depth, splitTopFrom depth (foldCase cs) =
      (splitTopFrom depth cs).map foldCase := by
    induction cs with
    | nil =>
        intro depth
        rfl
    | cons c cs ih =>
        intro depth
        rw [foldCase_cons, splitTopFrom, splitTopFrom, caseBlind_bracketDepth depth c, ih, ih]
        by_cases hc : c = ',' ∧ depth = 0
        · rw [if_pos hc, if_pos (by simpa [toLower_eq_iff] using hc)]
          rfl
        · rw [if_neg hc, if_neg (by simpa [toLower_eq_iff] using hc), map_consHead]
  exact hfrom 0

theorem firstWord?_foldCase (cs : List Char) :
    firstWord? (foldCase cs) =
      (firstWord? cs).map fun word => (foldCase word.1, foldCase word.2) := by
  have hword : CaseBlind fun c => !isBlank c := caseBlind_isBlank.not
  unfold firstWord?
  rw [trimStart_foldCase]
  cases hstart : trimStart cs with
  | nil => rfl
  | cons c rest =>
      dsimp only [foldCase_cons, Option.map_some]
      rw [← foldCase_cons, takeWhile_foldCase _ hword, dropWhile_foldCase _ hword]

theorem foldCase_join (sep : List Char) (parts : List (List Char)) :
    foldCase (join sep parts) = join (foldCase sep) (parts.map foldCase) := by
  induction parts with
  | nil => rfl
  | cons part rest ih =>
      cases rest with
      | nil => rfl
      | cons next rest =>
          have hstep : join sep (part :: next :: rest) = part ++ (sep ++ join sep (next :: rest)) := rfl
          rw [hstep, foldCase_append, foldCase_append, ih]
          rfl

section Marks

variable {part : List Char} (h : ∀ mark ∈ part, mark.isAlpha = false) (cs : List Char)

include h

theorem isPrefixOf_foldCase : part.isPrefixOf (foldCase cs) = part.isPrefixOf cs := by
  induction part generalizing cs with
  | nil => simp
  | cons mark part ih =>
      cases cs with
      | nil => rfl
      | cons c cs =>
          have hmark : (mark == c.toLower) = (mark == c) := by
            rw [Bool.eq_iff_iff, beq_iff_eq, beq_iff_eq, eq_comm, eq_comm (b := c)]
            exact toLower_eq_iff (h mark List.mem_cons_self)
          rw [foldCase_cons, List.isPrefixOf_cons_cons, List.isPrefixOf_cons_cons, hmark,
            ih fun mark hmem => h mark (List.mem_cons_of_mem _ hmem)]

theorem occursIn_foldCase : occursIn part (foldCase cs) = occursIn part cs := by
  induction cs with
  | nil => rfl
  | cons c cs ih =>
      rw [foldCase_cons, occursIn, occursIn, ih, ← foldCase_cons, isPrefixOf_foldCase h]

theorem before?_foldCase : before? part (foldCase cs) = (before? part cs).map foldCase := by
  induction cs with
  | nil =>
      rw [foldCase_nil, before?]
      split <;> rfl
  | cons c cs ih =>
      rw [foldCase_cons, before?, before?, ih, ← foldCase_cons, isPrefixOf_foldCase h]
      split
      · rfl
      · simp [Function.comp_def]

end Marks

/-! ## Lines -/

theorem pieces_foldCase (text : List Char) :
    pieces (foldCase text) = (pieces text).map foldCase := by
  induction text with
  | nil => rfl
  | cons c text ih =>
      have hcons : ∀ (c : Char) (cs : List Char), pieces (c :: cs) = consPiece c (pieces cs) :=
        fun _ _ => rfl
      rw [foldCase_cons, hcons, hcons, ih]
      cases pieces text with
      | nil => rfl
      | cons piece rest =>
          rw [List.map_cons, consPiece, consPiece]
          by_cases hc : c = '\n'
          · rw [if_pos hc, if_pos ((toLower_eq_iff rfl).2 hc)]
            rfl
          · rw [if_neg hc, if_neg fun hlower => hc ((toLower_eq_iff rfl).1 hlower)]
            rfl

theorem dropReturn_foldCase (line : List Char) :
    dropReturn (foldCase line) = foldCase (dropReturn line) := by
  have hlast : (foldCase line).getLast? = some '\r' ↔ line.getLast? = some '\r' := by
    rw [foldCase, List.getLast?_map]
    cases line.getLast? with
    | none => simp
    | some c => simp [toLower_eq_iff]
  unfold dropReturn
  by_cases hreturn : line.getLast? = some '\r'
  · rw [if_pos hreturn, if_pos (hlast.2 hreturn)]
    exact List.map_dropLast.symm
  · rw [if_neg hreturn, if_neg fun h => hreturn (hlast.1 h)]

/-- A text has its line breaks where the folded text has them. -/
theorem lines_foldCase (text : List Char) : lines (foldCase text) = (lines text).map foldCase := by
  have hpieces : ∀ ps : List (List Char),
      linesOfPieces (ps.map foldCase) = (linesOfPieces ps).map foldCase := by
    intro ps
    induction ps with
    | nil => rfl
    | cons piece rest ih =>
        cases rest with
        | nil =>
            simp only [List.map_cons, List.map_nil, linesOfPieces, isEmpty_foldCase]
            split <;> rfl
        | cons next rest =>
            have hstep : ∀ (piece next : List Char) (rest : List (List Char)),
                linesOfPieces (piece :: next :: rest) =
                  dropReturn piece :: linesOfPieces (next :: rest) := fun _ _ _ => rfl
            rw [List.map_cons, List.map_cons, hstep, hstep, List.map_cons, ← ih,
              dropReturn_foldCase]
            rfl
  unfold lines
  rw [pieces_foldCase, hpieces]

end Text
end ScriptSymbols
