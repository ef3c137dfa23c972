import ScriptSymbols.Proofs.Name.Word
import ScriptSymbols.Proofs.Outline.Hidden
import ScriptSymbols.Proofs.Skeleton.CaseFolding

/-!
# Skeletons of plain lines

Most lines of a script are their own skeletons, up to spacing, since there is nothing in them for a pass to
find.

1. Each step of a pass leaves a text alone that has none of the marks which the step looks for.
2. `Skeleton.pass_of_unmarked` and `Skeleton.pass_of_opening` put the steps together: only squeezing is left
   to do. Statements and declarations that start with a word are their own skeletons
   (`Skeleton.skeleton_statement`, `Skeleton.skeleton_header`).
3. `Skeleton.IsCondition` describes what may stand between the parentheses of a line that opens a block.
   Its strings are emptied and it is squeezed, and the rest of the line stays
   (`Skeleton.skeleton_conditionLine`).
-/

namespace ScriptSymbols

open Text Name

namespace Skeleton

/-! ## Strings and comments -/

theorem modeAfter?_of_not_mem {cs : List Char} (hquote : '"' ∉ cs) (hmark : ';' ∉ cs)
    (prev : Option Char) : modeAfter? .code prev cs = some .code := by
  induction cs generalizing prev with
  | nil => rfl
  | cons c cs ih =>
      obtain ⟨hc, hquote⟩ := List.ne_and_not_mem_of_not_mem_cons hquote
      obtain ⟨hc', hmark⟩ := List.ne_and_not_mem_of_not_mem_cons hmark
      simp [modeAfter?, startsComment, Mode.next, hc.symm, hc'.symm, ih hquote hmark]

theorem emptyStringsFrom_of_not_mem {cs : List Char} (hquote : '"' ∉ cs) (hmark : ';' ∉ cs)
    (prev : Option Char) : emptyStringsFrom .code prev cs = cs := by
  induction cs generalizing prev with
  | nil => rfl
  | cons c cs ih =>
      obtain ⟨hc, hquote⟩ := List.ne_and_not_mem_of_not_mem_cons hquote
      obtain ⟨hc', hmark⟩ := List.ne_and_not_mem_of_not_mem_cons hmark
      simp [emptyStringsFrom, startsComment, Mode.next, hc.symm, hc'.symm, ih hquote hmark]

/-! ## Literals -/

theorem dropLiteralsFrom_append {cs : List Char} (h : '{' ∉ cs) (before rest : List Char) :
    dropLiteralsFrom before (cs ++ rest) = cs ++ dropLiteralsFrom (cs.reverse ++ before) rest := by
  induction cs generalizing before with
  | nil => rfl
  | cons c cs ih =>
      obtain ⟨hc, h⟩ := List.ne_and_not_mem_of_not_mem_cons h
      have hkept : c = '{' ∧ valueExpected before = true → afterClose 1 (cs ++ rest) = none :=
        fun hopen => absurd hopen.1.symm hc
      rw [List.cons_append, dropLiteralsFrom_of_kept hkept, ih h]
      simp

theorem dropLiterals_of_not_mem {line : List Char} (h : '{' ∉ line) : dropLiterals line = line := by
  have hline := dropLiteralsFrom_append h [] []
  simpa [dropLiterals, dropLiteralsFrom] using hline

/-- A brace at the end of a line is closed by nothing, and so opens a block. -/
theorem dropLiterals_of_opening {line : List Char} (h : '{' ∉ line) :
    dropLiterals (line ++ ['{']) = line ++ ['{'] := by
  have hkept : dropLiteralsFrom (line.reverse ++ []) ['{'] = ['{'] := by
    rw [dropLiteralsFrom_of_kept fun _ => rfl, dropLiteralsFrom]
  rw [dropLiterals, dropLiteralsFrom_append h, hkept]

theorem afterClose_of_not_mem {inside : List Char} (hopen : '{' ∉ inside) (hclose : '}' ∉ inside)
    (rest : List Char) : afterClose 1 (inside ++ '}' :: rest) = some rest := by
  induction inside with
  | nil => rfl
  | cons c inside ih =>
      obtain ⟨hc, hopen⟩ := List.ne_and_not_mem_of_not_mem_cons hopen
      obtain ⟨hc', hclose⟩ := List.ne_and_not_mem_of_not_mem_cons hclose
      rw [List.cons_append, afterClose, if_neg hc.symm, if_neg hc'.symm, ih hopen hclose]

/-- A literal at the end of a line is removed. -/
theorem dropLiterals_of_literal {front inside : List Char} (hfront : '{' ∉ front)
    (hvalue : valueExpected front.reverse = true) (hopen : '{' ∉ inside) (hclose : '}' ∉ inside) :
    dropLiterals (front ++ '{' :: (inside ++ ['}'])) = front := by
  have hliteral : dropLiteralsFrom (front.reverse ++ []) ('{' :: (inside ++ ['}'])) = [] := by
    rw [List.append_nil, dropLiteralsFrom_of_closed ⟨rfl, hvalue⟩ (afterClose_of_not_mem hopen hclose []),
      dropLiteralsFrom]
  rw [dropLiterals, dropLiteralsFrom_append hfront, hliteral, List.append_nil]

/-! ## Commands -/

theorem isSpaceOrTab_of_isIdentChar {c : Char} (h : isIdentChar c = true) : isSpaceOrTab c = false :=
  Bool.eq_false_iff.2 fun hspace => by
    rw [isIdentChar_of_isBlank (isBlank_of_isSpaceOrTab hspace)] at h
    cases h

theorem afterMark?_of_ne {cs : List Char} (h : cs.head? ≠ some '%') : afterMark? cs = none := by
  match cs with
  | [] => rfl
  | [_] => rfl
  | mark :: blank :: expr =>
      have hmark : mark ≠ '%' := by
        rintro rfl
        exact h rfl
      simp [afterMark?, hmark]

theorem afterMark?_eq_some {cs expr : List Char} (h : afterMark? cs = some expr) :
    ∃ blanks, cs = '%' :: (blanks ++ expr) ∧ blanks ≠ [] ∧ ∀ c ∈ blanks, isSpaceOrTab c = true := by
  unfold afterMark? at h
  split at h
  · rename_i mark blank more
    split at h
    · rename_i hmark
      obtain ⟨rfl, hblank⟩ := hmark
      cases h
      refine ⟨blank :: more.takeWhile isSpaceOrTab, ?_, by simp, ?_⟩
      · rw [List.cons_append, List.takeWhile_append_dropWhile]
      · intro c hc
        rcases List.mem_cons.1 hc with rfl | hc
        · exact hblank
        · exact List.mem_takeWhile_imp hc
    · cases h
  · cases h

theorem plainCommand_of_not_mem {line : List Char} (h : '%' ∉ line) : plainCommand line = line := by
  unfold plainCommand
  extract_lets indent body name rest gap tail
  -- What stands behind the command is a part of the line, so that there is no mark in it either.
  have htail : '%' ∉ tail := by
    have hpart : tail.Sublist line :=
      (List.dropWhile_sublist _).trans
        ((List.dropWhile_sublist _).trans (List.dropWhile_sublist _))
    exact fun hmem => h (hpart.subset hmem)
  have hmark : afterMark? tail = none :=
    afterMark?_of_ne fun hhead => htail (List.mem_of_mem_head? hhead)
  simp [htail, hmark]

/-- No word goes on behind a gap, nor where there is none if another kind of character follows. -/
theorem isEdge_gap {gap : List Char} (hgap : gap.all isSpaceOrTab = true) {c : Char}
    (hc : isIdentChar c = false) (rest : List Char) : IsEdge (gap ++ c :: rest).head? := by
  cases gap with
  | nil => exact hc
  | cons d gap =>
      have hd := List.all_eq_true.1 hgap d List.mem_cons_self
      exact isIdentChar_of_isBlank (isBlank_of_isSpaceOrTab hd)

/-- What becomes of a line that starts with a word, given its parts. -/
theorem plainCommand_of_parts {indent : List Char} (hindent : indent.all isSpaceOrTab = true)
    {word gap tail : List Char} (hword : word.all isIdentChar = true) (hne : word ≠ [])
    (hgap : gap.all isSpaceOrTab = true) (htail : tail.head?.any isSpaceOrTab = false)
    (hedge : IsEdge (gap ++ tail).head?) :
    plainCommand (indent ++ (word ++ (gap ++ tail))) =
      if tail.head? = some ',' ∧ tail.contains '%' then []
      else if gap.isEmpty then indent ++ (word ++ (gap ++ tail))
      else (afterMark? tail).elim (indent ++ (word ++ (gap ++ tail)))
        fun expr => indent ++ (word ++ (gap ++ expr)) := by
  have hbody : (word ++ (gap ++ tail)).head?.any isSpaceOrTab = false := by
    obtain ⟨c, word, rfl⟩ := List.exists_cons_of_ne_nil hne
    exact isSpaceOrTab_of_isIdentChar (List.all_eq_true.1 hword c List.mem_cons_self)
  unfold plainCommand
  simp only [takeWhile_append_of_stop hindent hbody, dropWhile_append_of_stop hindent hbody,
    takeWhile_append_of_stop hword hedge, dropWhile_append_of_stop hword hedge,
    takeWhile_append_of_stop hgap htail, dropWhile_append_of_stop hgap htail]
  rw [if_neg (by simpa using hne)]

/-- A word with a parenthesis behind it is no command. -/
theorem plainCommand_of_paren {indent : List Char} (hindent : indent.all isSpaceOrTab = true)
    (word gap rest : List Char) (hword : word.all isIdentChar = true) (hne : word ≠ [])
    (hgap : gap.all isSpaceOrTab = true) :
    plainCommand (indent ++ (word ++ (gap ++ '(' :: rest))) =
      indent ++ (word ++ (gap ++ '(' :: rest)) := by
  have hedge : IsEdge (gap ++ '(' :: rest).head? := isEdge_gap hgap (by decide) rest
  have hparen : ('(' :: rest).head?.any isSpaceOrTab = false := (by decide : isSpaceOrTab '(' = false)
  have hmark : afterMark? ('(' :: rest) = none := afterMark?_of_ne (by simp)
  rw [plainCommand_of_parts hindent hword hne hgap hparen hedge, hmark]
  simp

/-! ## Spacing -/

theorem squeezeFrom_append_of_solid {word : List Char} (h : ∀ c ∈ word, isSpaceOrTab c = false)
    (hne : word ≠ []) (inGap : Bool) (rest : List Char) :
    squeezeFrom inGap (word ++ rest) = word ++ squeezeFrom false rest := by
  induction word generalizing inGap with
  | nil => exact absurd rfl hne
  | cons c word ih =>
      have hc := h c List.mem_cons_self
      cases word with
      | nil => simp [squeezeFrom, hc]
      | cons d word =>
          have hrest := ih (fun c hmem => h c (List.mem_cons_of_mem _ hmem)) (by simp) false
          simpa [squeezeFrom, hc] using hrest

theorem squeezeFrom_of_solid {word : List Char} (h : ∀ c ∈ word, isSpaceOrTab c = false) (inGap : Bool) :
    squeezeFrom inGap word = word := by
  cases word with
  | nil => rfl
  | cons c word =>
      have hword := squeezeFrom_append_of_solid h (by simp) inGap []
      simpa [squeezeFrom] using hword

theorem solid_of_isIdentChar {word : List Char} (h : word.all isIdentChar = true) :
    ∀ c ∈ word, isSpaceOrTab c = false := fun c hc =>
  isSpaceOrTab_of_isIdentChar (List.all_eq_true.1 h c hc)

theorem squeezeFrom_append_cons {c : Char} (hc : isSpaceOrTab c = false) (inGap : Bool)
    (cs rest : List Char) :
    squeezeFrom inGap (cs ++ c :: rest) = squeezeFrom inGap cs ++ c :: squeezeFrom false rest := by
  induction cs generalizing inGap with
  | nil => simp [squeezeFrom, hc]
  | cons d cs ih =>
      rw [List.cons_append, squeezeFrom, squeezeFrom]
      split
      · split
        · exact ih true
        · rw [ih true, List.cons_append]
      · rw [ih false, List.cons_append]

/-- Behind its indentation a line is squeezed on its own. -/
theorem squeeze_append {indent body : List Char} (hindent : indent.all isSpaceOrTab = true)
    (hbody : body.head?.any isSpaceOrTab = false) :
    squeeze (indent ++ body) = indent ++ squeezeFrom false body := by
  rw [squeeze, takeWhile_append_of_stop hindent hbody, dropWhile_append_of_stop hindent hbody]

/-! ## Lines without marks -/

/-- The characters that a pass looks for, other than spaces and tabs. -/
def isMark (c : Char) : Bool :=
  ['"', ';', '{', '%'].contains c

theorem isMark_of_isIdentChar {c : Char} (h : isIdentChar c = true) : isMark c = false := by
  have hmarks : ['"', ';', '{', '%'].all (!isIdentChar ·) = true := by decide
  refine Bool.eq_false_iff.2 fun hmark => ?_
  have hother := List.all_eq_true.1 hmarks c (List.contains_iff_mem.1 hmark)
  simp [h] at hother

theorem any_isMark_of_isIdentChar {word : List Char} (h : word.all isIdentChar = true) :
    word.any isMark = false :=
  List.any_eq_false.2 fun c hc =>
    Bool.eq_false_iff.1 (isMark_of_isIdentChar (List.all_eq_true.1 h c hc))

theorem any_isMark_of_isBlank {cs : List Char} (h : cs.all isBlank = true) :
    cs.any isMark = false := by
  refine List.any_eq_false.2 fun c hc hmark => ?_
  have hmark' : c = '"' ∨ c = ';' ∨ c = '{' ∨ c = '%' := by simpa [isMark] using hmark
  rcases hmark' with rfl | rfl | rfl | rfl <;> exact absurd (List.all_eq_true.1 h _ hc) (by decide)

section Unmarked

variable {line : List Char} (h : line.any isMark = false)

include h

theorem not_mem_of_isMark {c : Char} (hc : isMark c = true) : c ∉ line :=
  fun hmem => List.any_eq_false.1 h c hmem hc

theorem emptyStrings_of_unmarked : emptyStrings line = line :=
  emptyStringsFrom_of_not_mem (not_mem_of_isMark h rfl) (not_mem_of_isMark h rfl) none

/-- A line without marks is only squeezed. -/
theorem pass_of_unmarked : Skeleton.pass line = squeeze line := by
  rw [Skeleton.pass, emptyStrings_of_unmarked h, dropLiterals_of_not_mem (not_mem_of_isMark h rfl),
    plainCommand_of_not_mem (not_mem_of_isMark h rfl)]

/-- So is a line that opens a block with a brace at its end. -/
theorem pass_of_opening : Skeleton.pass (line ++ ['{']) = squeeze (line ++ ['{']) := by
  have hnot : ∀ c, isMark c = true → c ≠ '{' → c ∉ line ++ ['{'] := fun c hc hne =>
    List.not_mem_append (not_mem_of_isMark h hc) (by simpa using hne)
  have hstrings : emptyStrings (line ++ ['{']) = line ++ ['{'] :=
    emptyStringsFrom_of_not_mem (hnot '"' rfl (by decide)) (hnot ';' rfl (by decide)) none
  rw [Skeleton.pass, hstrings, dropLiterals_of_opening (not_mem_of_isMark h rfl),
    plainCommand_of_not_mem (hnot '%' rfl (by decide))]

end Unmarked

/-- A line that would only be squeezed is its own skeleton if its spacing stays. -/
theorem skeleton_of_tidy {indent body : List Char}
    (hpass : Skeleton.pass (indent ++ body) = squeeze (indent ++ body))
    (hindent : indent.all isSpaceOrTab = true) (hhead : body.head?.any isSpaceOrTab = false)
    (htidy : squeezeFrom false body = body) : skeleton (indent ++ body) = indent ++ body :=
  skeleton_of_fixed (by rw [hpass, squeeze_append hindent hhead, htidy])

/-- What is left of a line without its strings, comment and literals is its skeleton, if nothing more can
be done to it. -/
theorem skeleton_of_stripped {line code : List Char}
    (hline : dropLiterals (emptyStrings line) = code) (hcode : dropLiterals (emptyStrings code) = code)
    (hcommand : plainCommand code = code) (hsqueeze : squeeze code = code) : skeleton line = code := by
  have hpass : Skeleton.pass line = code := by
    rw [Skeleton.pass, hline, hcommand, hsqueeze]
  have hfixed : Skeleton.pass code = code := by
    rw [Skeleton.pass, hcode, hcommand, hsqueeze]
  rw [← skeleton_pass, hpass, skeleton_of_fixed hfixed]

/-! ## Lines that start with a word -/

section Word

variable {word : List Char} (hword : word.all isIdentChar = true) (hne : word ≠ [])

include hword

/-- A character that belongs to no identifier stands in no line of a word and others. -/
theorem not_mem_word {c : Char} (hc : isIdentChar c = false) {rest : List Char} (hrest : c ∉ rest) :
    c ∉ word ++ rest :=
  List.not_mem_append (not_mem_of_isIdentChar hword hc) hrest

theorem any_isMark_word {rest : List Char} (hrest : rest.any isMark = false) :
    (word ++ rest).any isMark = false := by
  rw [List.any_append, any_isMark_of_isIdentChar hword, hrest]
  rfl

include hne

theorem squeeze_word {indent rest : List Char} (hindent : indent.all isSpaceOrTab = true)
    (hrest : squeezeFrom false rest = rest) :
    squeeze (indent ++ (word ++ rest)) = indent ++ (word ++ rest) := by
  have hhead : (word ++ rest).head?.any isSpaceOrTab = false := by
    cases word with
    | nil => exact absurd rfl hne
    | cons c word => exact solid_of_isIdentChar hword c List.mem_cons_self
  rw [squeeze_append hindent hhead, squeezeFrom_append_of_solid (solid_of_isIdentChar hword) hne, hrest]

/-- A statement without marks stays as it is. -/
theorem skeleton_statement {indent rest : List Char} (hindent : indent.all isSpaceOrTab = true)
    (hrest : rest.any isMark = false) (htidy : squeezeFrom false rest = rest) :
    skeleton (indent ++ (word ++ rest)) = indent ++ (word ++ rest) := by
  have hplain : (indent ++ (word ++ rest)).any isMark = false := by
    rw [List.any_append, any_isMark_of_isBlank (all_isBlank_of_isSpaceOrTab hindent),
      any_isMark_word hword hrest]
    rfl
  have hpass := pass_of_unmarked hplain
  rw [squeeze_word hword hne hindent htidy] at hpass
  exact skeleton_of_fixed hpass

/-- So does a declaration with the brace of its body at the end. -/
theorem skeleton_header {indent params : List Char} (hindent : indent.all isSpaceOrTab = true)
    (hparams : params.any isMark = false)
    (htidy : squeezeFrom false (params ++ ") \x7b".toList) = params ++ ") \x7b".toList) :
    skeleton (indent ++ (word ++ '(' :: (params ++ ") \x7b".toList))) =
      indent ++ (word ++ '(' :: (params ++ ") \x7b".toList)) := by
  -- The brace at the end is the only mark; no value is expected there, so it starts no literal.
  have hplain : (indent ++ (word ++ '(' :: (params ++ ") ".toList))).any isMark = false := by
    have hrest : ('(' :: (params ++ ") ".toList)).any isMark = false := by
      rw [List.any_cons, List.any_append, hparams]
      decide
    rw [List.any_append, any_isMark_of_isBlank (all_isBlank_of_isSpaceOrTab hindent),
      any_isMark_word hword hrest]
    rfl
  have hopening : indent ++ (word ++ '(' :: (params ++ ") ".toList)) ++ ['{'] =
      indent ++ (word ++ '(' :: (params ++ ") \x7b".toList)) := by
    simp
  have htidy' : squeezeFrom false ('(' :: (params ++ ") \x7b".toList)) =
      '(' :: (params ++ ") \x7b".toList) := by
    have hparen : ∀ cs, squeezeFrom false ('(' :: cs) = '(' :: squeezeFrom false cs := fun _ => rfl
    rw [hparen, htidy]
  have hpass := pass_of_opening hplain
  rw [hopening, squeeze_word hword hne hindent htidy'] at hpass
  exact skeleton_of_fixed hpass

end Word

/-! ## Blank lines -/

theorem Erodes.mem {left line : List Char} {c : Char} (h : Erodes left line) (hc : c ∈ left) :
    c ∈ line ∨ c = ' ' := by
  induction h with
  | nil => cases hc
  | @cons a b left line hstands _ ih =>
      rcases List.mem_cons.1 hc with rfl | hc
      · rcases hstands with rfl | ⟨rfl, -⟩
        · exact Or.inl List.mem_cons_self
        · exact Or.inr rfl
      · exact (ih hc).imp_left (List.mem_cons_of_mem b)
  | @cons_right b left line _ ih => exact (ih hc).imp_left (List.mem_cons_of_mem b)

theorem allBlank_skeleton {line : List Char} (h : allBlank line = true) :
    allBlank (skeleton line) = true := by
  refine List.all_eq_true.2 fun c hc => ?_
  rcases (skeleton_erodes line).mem hc with hc | rfl
  · exact List.all_eq_true.1 h c hc
  · decide

/-! ## Conditions -/

/-- Whether a text may stand between the parentheses of a line that opens a block: no comment starts in
it, its strings are closed, and it has no braces outside of them. -/
structure IsCondition (cs : List Char) : Prop where
  closed : modeAfter? .code (some '(') cs = some .code
  noOpen : '{' ∉ emptyStringsFrom .code (some '(') cs
  noClose : '}' ∉ emptyStringsFrom .code (some '(') cs

/-- Inside a string it does not matter what stands before a character. -/
theorem modeAfter?_quoted (prev prev' : Option Char) (cs : List Char) :
    modeAfter? .quoted prev cs = modeAfter? .quoted prev' cs := by
  cases cs with
  | nil => rfl
  | cons c cs => simp [modeAfter?, startsComment]

theorem modeAfter?_emptyStringsFrom {mode mode' : Mode} {prev : Option Char} {cs : List Char}
    (h : modeAfter? mode prev cs = some mode') :
    modeAfter? mode prev (emptyStringsFrom mode prev cs) = some mode' := by
  induction cs generalizing mode prev with
  | nil => exact h
  | cons c cs ih =>
      rw [modeAfter?] at h
      split at h
      · cases h
      · rename_i hstarts
        rw [emptyStringsFrom, if_neg hstarts]
        split
        · rw [modeAfter?, if_neg hstarts]
          exact ih h
        · rename_i hgone
          obtain ⟨hmode, hc⟩ := not_or.1 hgone
          cases mode with
          | code => exact absurd rfl hmode
          | quoted =>
              rw [Mode.next, if_neg hc] at h ⊢
              rw [modeAfter?_quoted prev (some c)]
              exact ih h

/-- Of the character before a text, it matters only whether it is a blank; squeezing keeps that. -/
theorem modeAfter?_squeezeFrom {mode mode' : Mode} {prev prev' : Option Char} {inGap : Bool}
    {cs : List Char} (h : modeAfter? mode prev cs = some mode')
    (hprev : prev'.all isBlank = prev.all isBlank) (hgap : inGap = true → prev.all isBlank = true) :
    modeAfter? mode prev' (squeezeFrom inGap cs) = some mode' := by
  induction cs generalizing mode prev prev' inGap with
  | nil => exact h
  | cons c cs ih =>
      have hstarts : startsComment mode prev' c = startsComment mode prev c := by
        rw [startsComment, startsComment, hprev]
      rw [modeAfter?] at h
      split at h
      · cases h
      · rename_i hcode
        rw [squeezeFrom]
        cases hc : isSpaceOrTab c with
        | false =>
            have hrest : modeAfter? (mode.next c) (some c) (squeezeFrom false cs) = some mode' :=
              ih h rfl (by simp)
            simpa [modeAfter?, hstarts, hcode] using hrest
        | true =>
            have hblank := isBlank_of_isSpaceOrTab hc
            have hmode : mode.next c = mode := by
              have hquote : c ≠ '"' := by
                rintro rfl
                exact absurd hc (by decide)
              cases mode <;> simp [Mode.next, hquote]
            have hspace : startsComment mode prev' ' ' = false := by
              simp [startsComment]
            have hspace' : mode.next ' ' = mode := by
              cases mode <;> simp [Mode.next]
            rw [hmode] at h
            cases inGap with
            | true =>
                have hrest : modeAfter? mode prev' (squeezeFrom true cs) = some mode' :=
                  ih h (by simp [hprev, hgap rfl, hblank]) (by simp [hblank])
                simpa using hrest
            | false =>
                have hrest : modeAfter? mode (some ' ') (squeezeFrom true cs) = some mode' :=
                  ih h (by simp [hblank]; decide) (by simp [hblank])
                simpa [modeAfter?, hspace, hspace'] using hrest

namespace IsCondition

variable {cs : List Char}

/-- Behind a pass a condition has no braces at all. -/
theorem not_mem_squeezed (h : IsCondition cs) :
    '{' ∉ squeezeFrom false (emptyStringsFrom .code (some '(') cs) ∧
      '}' ∉ squeezeFrom false (emptyStringsFrom .code (some '(') cs) := by
  have hgone : ∀ c, c ≠ ' ' → c ∉ emptyStringsFrom .code (some '(') cs →
      c ∉ squeezeFrom false (emptyStringsFrom .code (some '(') cs) :=
    fun c hspace hc hmem => ((squeezeFrom_erodes false _).mem hmem).elim hc hspace
  exact ⟨hgone '{' (by decide) h.noOpen, hgone '}' (by decide) h.noClose⟩

theorem squeezed (h : IsCondition cs) :
    IsCondition (squeezeFrom false (emptyStringsFrom .code (some '(') cs)) where
  closed := modeAfter?_squeezeFrom (modeAfter?_emptyStringsFrom h.closed) rfl (by simp)
  noOpen := fun hmem => h.not_mem_squeezed.1 ((emptyStringsFrom_sublist _ _ _).subset hmem)
  noClose := fun hmem => h.not_mem_squeezed.2 ((emptyStringsFrom_sublist _ _ _).subset hmem)

end IsCondition

/-- The line that opens a block under a condition. -/
def conditionLine (indent condition : List Char) : List Char :=
  indent ++ ("if (".toList ++ (condition ++ ") \x7b".toList))

theorem pass_conditionLine {indent condition : List Char}
    (hindent : indent.all isSpaceOrTab = true) (h : IsCondition condition) :
    Skeleton.pass (conditionLine indent condition) =
      conditionLine indent (squeezeFrom false (emptyStringsFrom .code (some '(') condition)) := by
  have hnot : ∀ c, isSpaceOrTab c = false → c ∉ "if (".toList → c ∉ indent ++ "if (".toList := by
    intro c hc hhead hmem
    rcases List.mem_append.1 hmem with hmem | hmem
    · rw [List.all_eq_true.1 hindent c hmem] at hc
      cases hc
    · exact hhead hmem
  have hquote := hnot '"' (by decide) (by decide)
  have hmark := hnot ';' (by decide) (by decide)
  generalize hleft : emptyStringsFrom .code (some '(') condition = left
  have hstrings : emptyStrings (conditionLine indent condition) = conditionLine indent left := by
    have hlast : (indent ++ "if (".toList).getLast?.or none = some '(' := by simp
    have htail : ∀ prev, emptyStringsFrom .code prev ") \x7b".toList = ") \x7b".toList :=
      emptyStringsFrom_of_not_mem (by decide) (by decide)
    rw [emptyStrings, conditionLine, ← List.append_assoc,
      emptyStringsFrom_append (modeAfter?_of_not_mem hquote hmark none),
      emptyStringsFrom_of_not_mem hquote hmark, hlast, emptyStringsFrom_append h.closed, hleft, htail,
      List.append_assoc]
    rfl
  have hliterals : dropLiterals (conditionLine indent left) = conditionLine indent left := by
    have hopen : '{' ∉ (indent ++ "if (".toList) ++ (left ++ ") ".toList) := by
      have hbehind : '{' ∉ left ++ ") ".toList :=
        List.not_mem_append (hleft ▸ h.noOpen) (by decide)
      exact List.not_mem_append (hnot '{' (by decide) (by decide)) hbehind
    have hline := dropLiterals_of_opening hopen
    simpa [conditionLine] using hline
  have hcommand : plainCommand (conditionLine indent left) = conditionLine indent left :=
    plainCommand_of_paren hindent "if".toList " ".toList (left ++ ") \x7b".toList) (by decide)
      (by decide) (by decide)
  have hsqueeze : squeeze (conditionLine indent left) =
      conditionLine indent (squeezeFrom false left) := by
    have hhead : squeezeFrom false ("if (".toList ++ (left ++ ") \x7b".toList)) =
        "if (".toList ++ squeezeFrom false (left ++ ") \x7b".toList) := rfl
    have htail : squeezeFrom false (left ++ ") \x7b".toList) = squeezeFrom false left ++ ") \x7b".toList :=
      squeezeFrom_append_cons (by decide) false left " \x7b".toList
    rw [conditionLine, squeeze_append hindent rfl, hhead, htail]
    rfl
  rw [Skeleton.pass, hstrings, hliterals, hcommand, hsqueeze]

/-- The skeleton of a line that opens a block under a condition is such a line, and has no more braces
inside it. -/
theorem skeleton_conditionLine {indent condition : List Char}
    (hindent : indent.all isSpaceOrTab = true) (h : IsCondition condition) :
    ∃ left, skeleton (conditionLine indent condition) = conditionLine indent left ∧
      '{' ∉ left ∧ '}' ∉ left := by
  generalize hline : conditionLine indent condition = line
  induction line using skeleton.induct generalizing condition with
  | case1 line hfixed =>
      subst hline
      rw [skeleton_of_fixed hfixed, ← hfixed, pass_conditionLine hindent h]
      exact ⟨_, rfl, h.not_mem_squeezed⟩
  | case2 line hmoves ih =>
      subst hline
      rw [← skeleton_pass]
      exact ih h.squeezed (pass_conditionLine hindent h).symm

end Skeleton
end ScriptSymbols
