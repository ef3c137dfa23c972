import ScriptSymbols.Proofs.Name.Word
import ScriptSymbols.Proofs.Skeleton.CaseFolding
import ScriptSymbols.Statement.Assigned
import ScriptSymbols.Statement.Header

/-!
# Statements in folded code

All statement forms but one are read alike in either case. The exception is the word `static` before a
header, which counts only in lower case.

* `Statement.assigned_foldCase` and `Statement.paramNames_foldCase` deal with assigned names and parameters.
* `Statement.hasStatic` says that code starts with the word `static` in lower case.
* `Statement.header?_of_foldCase_eq` and `Statement.header?_eq_none_of_hasStatic`: code that differs in
  case has the same header if it agrees on that word, and otherwise one of the two has none.
-/

namespace ScriptSymbols

open Text

/-! ## Names -/

namespace Name

theorem isStart_of_isAlpha {c : Char} (h : c.isAlpha = true) : isStart c = true := by
  simp [isStart, isLetter, h]

theorem isPart_of_isAlpha {c : Char} (h : c.isAlpha = true) : isPart c = true := by
  rw [isPart, isStart_of_isAlpha h, Bool.true_or]

theorem caseBlind_isStart : CaseBlind isStart :=
  caseBlind_of_isAlpha fun _ => isStart_of_isAlpha

theorem caseBlind_isPart : CaseBlind isPart :=
  caseBlind_of_isAlpha fun _ => isPart_of_isAlpha

theorem takeBy?_foldCase {start part : Char → Bool} (hstart : CaseBlind start)
    (hpart : CaseBlind part) (cs : List Char) :
    takeBy? start part (foldCase cs) = (takeBy? start part cs).map (Prod.map foldCase foldCase) := by
  cases cs with
  | nil => rfl
  | cons c cs =>
      rw [foldCase_cons, takeBy?, takeBy?, hstart c, takeWhile_foldCase cs hpart,
        dropWhile_foldCase cs hpart]
      split <;> rfl

theorem take?_foldCase (cs : List Char) :
    take? (foldCase cs) = (take? cs).map (Prod.map foldCase foldCase) :=
  takeBy?_foldCase caseBlind_isStart caseBlind_isPart cs

theorem isName_foldCase (cs : List Char) : isName (foldCase cs) = isName cs := by
  cases cs with
  | nil => rfl
  | cons c cs => rw [foldCase_cons, isName, isName, caseBlind_isStart c, all_foldCase cs caseBlind_isPart]

theorem isReserved_foldCase (word : List Char) : isReserved (foldCase word) = isReserved word := by
  simp only [isReserved, sameFolded_foldCase]

/-- No blank belongs to a name. -/
theorem isPart_of_isBlank {c : Char} (h : isBlank c = true) : isPart c = false := by
  refine Bool.eq_false_iff.2 fun hpart => ?_
  have hident := isIdentChar_of_isPart hpart
  rw [isIdentChar_of_isBlank h] at hident
  cases hident

/-- A name is taken as a whole if it does not go on behind it. -/
theorem take?_append {name rest : List Char} (hname : isName name = true)
    (hrest : rest.head?.any isPart = false) : take? (name ++ rest) = some (name, rest) := by
  have hstop : rest.takeWhile isPart = [] ∧ rest.dropWhile isPart = rest := by
    cases rest with
    | nil => exact ⟨rfl, rfl⟩
    | cons c rest =>
        have hc : ¬ isPart c = true := by simpa using hrest
        exact ⟨List.takeWhile_cons_of_neg hc, List.dropWhile_cons_of_neg hc⟩
  cases name with
  | nil => cases hname
  | cons c name =>
      rw [isName, Bool.and_eq_true] at hname
      have hparts := List.all_eq_true.1 hname.2
      rw [take?, List.cons_append, takeBy?, if_pos hname.1, List.takeWhile_append_of_pos hparts,
        List.dropWhile_append_of_pos hparts, hstop.1, hstop.2, List.append_nil]

theorem take?_append_of_isBlank {name : List Char} {blank : Char} (hname : isName name = true)
    (hblank : isBlank blank = true) (behind : List Char) :
    take? (name ++ blank :: behind) = some (name, blank :: behind) :=
  take?_append hname (by simp [isPart_of_isBlank hblank])

end Name

namespace Statement

/-! ## Keywords and marks -/

theorem caseBlind_sameLetter (k : Char) : CaseBlind (sameLetter k) := by
  intro c
  have hlong : c.toLower = '\u017f' ↔ c = '\u017f' := toLower_eq_iff (by decide)
  have hkelvin : c.toLower = '\u212a' ↔ c = '\u212a' := toLower_eq_iff (by decide)
  rw [sameLetter, toLower_toLower]
  simp [sameLetter, hlong, hkelvin, Bool.beq_eq_decide_eq]

theorem keyword?_foldCase (ks cs : List Char) :
    keyword? sameLetter ks (foldCase cs) = (keyword? sameLetter ks cs).map foldCase := by
  induction ks generalizing cs with
  | nil => rfl
  | cons k ks ih =>
      cases cs with
      | nil => rfl
      | cons c cs =>
          rw [foldCase_cons, keyword?, keyword?, caseBlind_sameLetter k c, ih]
          split <;> rfl

theorem afterBlanks?_foldCase (cs : List Char) :
    afterBlanks? (foldCase cs) = (afterBlanks? cs).map foldCase := by
  rw [afterBlanks?, afterBlanks?, any_head?_foldCase cs caseBlind_isBlank, trimStart_foldCase]
  split <;> rfl

theorem afterKeyword?_foldCase (word : String) (cs : List Char) :
    afterKeyword? sameLetter word (foldCase cs) = (afterKeyword? sameLetter word cs).map foldCase := by
  rw [afterKeyword?, afterKeyword?, keyword?_foldCase]
  cases keyword? sameLetter word.toList cs with
  | none => rfl
  | some rest => exact afterBlanks?_foldCase rest

theorem after?_foldCase {mark : Char} (h : mark.isAlpha = false) (cs : List Char) :
    after? mark (foldCase cs) = (after? mark cs).map foldCase := by
  cases cs with
  | nil => rfl
  | cons c cs =>
      simp only [foldCase_cons, after?, toLower_eq_iff h]
      split <;> rfl

/-! ## Assignments -/

theorem dropOperator_eq (cs : List Char) :
    dropOperator cs =
      if ['/', '/'].isPrefixOf cs || ['<', '<'].isPrefixOf cs || ['>', '>'].isPrefixOf cs then cs.drop 2
      else if cs.head?.any ['.', '+', '-', '*', '/', '|', '&', '^'].contains then cs.drop 1
      else cs := by
  unfold dropOperator
  split
  · simp
  · simp
  · simp
  -- One mark alone: the three patterns of two marks have failed.
  · rename_i c cs hslash hless hmore
    have hdouble : (['/', '/'].isPrefixOf (c :: cs) || ['<', '<'].isPrefixOf (c :: cs) ||
        ['>', '>'].isPrefixOf (c :: cs)) = false := by
      cases cs with
      | nil => simp [List.isPrefixOf]
      | cons d cs =>
          simp only [List.isPrefixOf, Bool.and_true, Bool.or_eq_false_iff, Bool.and_eq_false_imp,
            beq_iff_eq, beq_eq_false_iff_ne]
          refine ⟨⟨?_, ?_⟩, ?_⟩
          · rintro rfl rfl
            exact hslash cs rfl rfl
          · rintro rfl rfl
            exact hless cs rfl rfl
          · rintro rfl rfl
            exact hmore cs rfl rfl
    rw [hdouble]
    rfl
  · rfl

theorem dropOperator_foldCase (cs : List Char) :
    dropOperator (foldCase cs) = foldCase (dropOperator cs) := by
  have hoperator : CaseBlind ['.', '+', '-', '*', '/', '|', '&', '^'].contains :=
    caseBlind_contains (by simp)
  rw [dropOperator_eq, dropOperator_eq, isPrefixOf_foldCase (by simp), isPrefixOf_foldCase (by simp),
    isPrefixOf_foldCase (by simp), any_head?_foldCase cs hoperator]
  split
  · exact (foldCase_drop cs 2).symm
  · split
    · exact (foldCase_drop cs 1).symm
    · rfl

theorem startsAssignment_eq (cs : List Char) :
    startsAssignment cs =
      (((after? ':' cs).getD cs).head? == some '=' &&
        ((after? ':' cs).getD cs).tail.head? != some '=') := by
  unfold startsAssignment
  split
  · rename_i rest hrest
    rw [hrest]
    rfl
  · rename_i hother
    cases hstart : (after? ':' cs).getD cs with
    | nil => rfl
    | cons c rest =>
        have hc : c ≠ '=' := by
          rintro rfl
          exact hother rest hstart
        simp [hc]

theorem startsAssignment_foldCase (cs : List Char) :
    startsAssignment (foldCase cs) = startsAssignment cs := by
  have hstart : (after? ':' (foldCase cs)).getD (foldCase cs) =
      foldCase ((after? ':' cs).getD cs) := by
    rw [after?_foldCase rfl, Option.getD_map]
  have hmark : ∀ ds : List Char, ((foldCase ds).head? == some '=') = (ds.head? == some '=') :=
    fun ds => head?_foldCase_beq ds rfl
  have htail : ∀ ds : List Char, (foldCase ds).tail = foldCase ds.tail := fun ds => List.map_tail.symm
  rw [startsAssignment_eq, startsAssignment_eq, hstart, hmark, htail]
  simp only [bne, hmark]

theorem assignment?_foldCase (line : List Char) :
    assignment? (foldCase line) = (assignment? line).map foldCase := by
  rw [assignment?, assignment?, trimStart_foldCase, Name.take?_foldCase]
  cases Name.take? (trimStart line) with
  | none => rfl
  | some found =>
      dsimp only [Option.map_some, Prod.map]
      rw [trimStart_foldCase, dropOperator_foldCase, startsAssignment_foldCase]
      split <;> rfl

/-! ## Other forms -/

theorem leadingName?_foldCase (cs : List Char) :
    leadingName? (foldCase cs) = (leadingName? cs).map foldCase := by
  have hstart : CaseBlind fun c => c == '_' || isAlphabetic c :=
    caseBlind_of_isAlpha (b := true) fun c hc => by simp [isAlphabetic, isLetter, hc]
  simp only [leadingName?, takeWhile_foldCase cs Name.caseBlind_isIdentChar,
    any_head?_foldCase _ hstart]
  split <;> rfl

theorem scope?_foldCase (line : List Char) :
    scope? (foldCase line) = (scope? line).map (List.map foldCase) := by
  have hitems : ∀ items : List Char,
      ((splitTop (foldCase items)).filterMap fun item => leadingName? (trim item)) =
        ((splitTop items).filterMap fun item => leadingName? (trim item)).map foldCase := by
    intro items
    rw [splitTop_foldCase, List.filterMap_map, List.map_filterMap]
    refine List.filterMap_congr fun item _hitem => ?_
    rw [Function.comp_apply, trim_foldCase, leadingName?_foldCase]
  simp only [scope?, trimStart_foldCase, afterKeyword?_foldCase, List.findSome?_cons,
    List.findSome?_nil]
  cases afterKeyword? sameLetter "global" (trimStart line) with
  | some items => simp [hitems]
  | none =>
      cases afterKeyword? sameLetter "local" (trimStart line) with
      | some items => simp [hitems]
      | none =>
          cases afterKeyword? sameLetter "static" (trimStart line) with
          | some items => simp [hitems]
          | none => rfl

theorem startsIn_foldCase (cs : List Char) : startsIn (foldCase cs) = startsIn cs := by
  have hword : CaseBlind isWordChar :=
    caseBlind_of_isAlpha (b := true) fun c hc => by simp [isWordChar, isLetter, hc]
  rw [startsIn, startsIn, afterBlanks?_foldCase]
  cases afterBlanks? cs with
  | none => rfl
  | some rest =>
      dsimp only [Option.map_some, Option.bind_some]
      rw [keyword?_foldCase]
      cases keyword? sameLetter "in".toList rest with
      | none => rfl
      | some rest => exact congrArg not (any_head?_foldCase rest hword)

theorem takeLoopName_foldCase (cs : List Char) :
    Name.takeBy? isLoopStart isLoopPart (foldCase cs) =
      (Name.takeBy? isLoopStart isLoopPart cs).map (Prod.map foldCase foldCase) :=
  Name.takeBy?_foldCase (Name.caseBlind_isStart.or (caseBlind_beq rfl))
    (Name.caseBlind_isPart.or (caseBlind_beq rfl)) cs

theorem loop?_foldCase (line : List Char) :
    loop? (foldCase line) = (loop? line).map (List.map foldCase) := by
  unfold loop?
  rw [trimStart_foldCase, afterKeyword?_foldCase]
  cases afterKeyword? sameLetter "for" (trimStart line) with
  | none => rfl
  | some cs =>
      simp only [Option.map_some, Option.bind_eq_bind, Option.bind_some, takeLoopName_foldCase]
      cases Name.takeBy? isLoopStart isLoopPart cs with
      | none => rfl
      | some first =>
          simp only [Option.map_some, Option.bind_some, Prod.map, trimStart_foldCase]
          rw [after?_foldCase rfl]
          cases after? ',' (trimStart first.2) with
          | none =>
              simp only [Option.map_none, startsIn_foldCase]
              split <;> rfl
          | some cs =>
              simp only [Option.map_some, trimStart_foldCase, takeLoopName_foldCase]
              cases Name.takeBy? isLoopStart isLoopPart (trimStart cs) with
              | none => rfl
              | some second =>
                  simp only [Option.map_some, Option.bind_some, Prod.map, startsIn_foldCase]
                  split <;> rfl

theorem command?_foldCase (line : List Char) :
    command? (foldCase line) = (command? line).map (List.map foldCase) := by
  have hargs : ∀ args : List Char, ((splitTop (foldCase args)).map trim).filter Name.isName =
      (((splitTop args).map trim).filter Name.isName).map foldCase := by
    intro args
    have htrim : ((splitTop (foldCase args)).map trim) = ((splitTop args).map trim).map foldCase := by
      simp [splitTop_foldCase, trim_foldCase]
    rw [htrim, List.filter_map, show Name.isName ∘ foldCase = Name.isName from funext Name.isName_foldCase]
  unfold command?
  rw [trimStart_foldCase, Name.take?_foldCase]
  cases Name.take? (trimStart line) with
  | none => rfl
  | some found =>
      simp only [Option.map_some, Option.bind_eq_bind, Option.bind_some, Prod.map, trimStart_foldCase]
      rw [after?_foldCase rfl]
      cases after? ',' (trimStart found.2) with
      | none => rfl
      | some args => simp [hargs]

theorem assigned_foldCase (code : List Char) :
    assigned (foldCase code) = (assigned code).map foldCase := by
  rw [assigned, assigned, assignment?_foldCase, scope?_foldCase, loop?_foldCase, command?_foldCase]
  cases assignment? code with
  | some name => rfl
  | none =>
      cases scope? code with
      | some names => rfl
      | none =>
          cases loop? code with
          | some names => rfl
          | none => cases command? code <;> rfl

/-! ## Parameters -/

theorem withoutDefault_foldCase (param : List Char) :
    withoutDefault (foldCase param) = foldCase (withoutDefault param) := by
  unfold withoutDefault
  rw [before?_foldCase (by simp), before?_foldCase (by simp)]
  cases before? [':', '='] param with
  | some cs => exact trimEnd_foldCase cs
  | none =>
      cases before? ['='] param with
      | some cs => exact trimEnd_foldCase cs
      | none => rfl

theorem nameWord?_foldCase (param : List Char) :
    nameWord? (foldCase param) = (nameWord? param).map foldCase := by
  unfold nameWord?
  rw [firstWord?_foldCase]
  cases firstWord? param with
  | none => rfl
  | some found =>
      simp only [Option.map_some, sameFolded_foldCase, firstWord?_foldCase]
      split
      · rw [Option.map_map, Option.map_map]
        rfl
      · rfl

theorem paramName?_foldCase (param : List Char) :
    paramName? (foldCase param) = (paramName? param).map foldCase := by
  have hmark : CaseBlind fun c => c == '&' := caseBlind_beq rfl
  unfold paramName?
  rw [trim_foldCase, withoutDefault_foldCase, nameWord?_foldCase]
  cases nameWord? (withoutDefault (trim param)) with
  | none => rfl
  | some word =>
      simp only [Option.map_some, dropWhile_foldCase _ hmark,
        takeWhile_foldCase _ Name.caseBlind_isIdentChar, isEmpty_foldCase]
      split <;> rfl

theorem paramNames_foldCase (params : List Char) :
    paramNames (foldCase params) = (paramNames params).map foldCase := by
  rw [paramNames, splitOn_foldCase rfl, List.filterMap_map, paramNames, List.map_filterMap]
  exact List.filterMap_congr fun param _hparam => paramName?_foldCase param

/-! ## Headers -/

/-- The header with its texts in lower case. -/
def Header.foldCase (h : Header) : Header :=
  { name := Text.foldCase h.name
    params := Text.foldCase h.params
    body := h.body.map Text.foldCase }

/-- The header that a text is, without a word before it. -/
def headerFrom? (cs : List Char) : Option Header := do
  let (name, cs) ← Name.take? cs
  let cs ← after? '(' cs
  let params := cs.takeWhile isNoParen
  let cs ← after? ')' (cs.dropWhile isNoParen)
  let body ← bodyOf? cs
  return { name, params, body }

/-- Whether code starts with the word `static` in lower case, and blanks behind it. -/
def hasStatic (code : List Char) : Bool :=
  (afterKeyword? (· == ·) "static" (trimStart code)).isSome

theorem bodyOf?_foldCase (cs : List Char) :
    bodyOf? (foldCase cs) = (bodyOf? cs).map (Option.map foldCase) := by
  unfold bodyOf?
  rw [trimStart_foldCase]
  cases trimStart cs with
  | nil => rfl
  | cons c body =>
      simp (disch := decide) only [foldCase_cons, toLower_eq_iff]
      split <;> rfl

theorem headerFrom?_foldCase (cs : List Char) :
    headerFrom? (foldCase cs) = (headerFrom? cs).map Header.foldCase := by
  have hparen : CaseBlind isNoParen := (caseBlind_beq rfl).not.and (caseBlind_beq rfl).not
  unfold headerFrom?
  rw [Name.take?_foldCase]
  cases Name.take? cs with
  | none => rfl
  | some found =>
      simp only [Option.map_some, Option.bind_eq_bind, Option.bind_some, Prod.map]
      rw [after?_foldCase rfl]
      cases after? '(' found.2 with
      | none => rfl
      | some cs =>
          simp only [Option.map_some, Option.bind_some, takeWhile_foldCase cs hparen,
            dropWhile_foldCase cs hparen]
          rw [after?_foldCase rfl]
          cases after? ')' (cs.dropWhile isNoParen) with
          | none => rfl
          | some cs =>
              simp only [Option.map_some, Option.bind_some, bodyOf?_foldCase]
              cases bodyOf? cs with
              | none => rfl
              | some body => rfl

theorem keyword?_beq_eq_some {ks cs rest : List Char} (h : keyword? (· == ·) ks cs = some rest) :
    cs = ks ++ rest := by
  induction ks generalizing cs with
  | nil => exact Option.some.inj h
  | cons k ks ih =>
      cases cs with
      | nil => cases h
      | cons c cs =>
          rw [keyword?] at h
          split at h
          · rename_i hletter
            rw [beq_iff_eq.1 hletter, ih h]
            rfl
          · cases h

/-- Behind the word `static` there is a blank. -/
theorem exists_blank_of_afterKeyword? {cs rest : List Char}
    (h : afterKeyword? (· == ·) "static" cs = some rest) :
    ∃ blank behind, isBlank blank = true ∧ cs = "static".toList ++ blank :: behind ∧
      rest = trimStart (blank :: behind) := by
  rcases Option.bind_eq_some_iff.1 h with ⟨after, hkeyword, hblanks⟩
  rw [afterBlanks?] at hblanks
  split at hblanks
  · rename_i hblank
    cases after with
    | nil => cases hblank
    | cons blank behind =>
        exact ⟨blank, behind, hblank, keyword?_beq_eq_some hkeyword, (Option.some.inj hblanks).symm⟩
  · cases hblanks

/-- The word `static` takes six characters and the blanks behind it. -/
theorem header?_eq (code : List Char) :
    header? code =
      headerFrom? (if hasStatic code then trimStart ((trimStart code).drop 6) else trimStart code) := by
  -- Cut off by its length, the word leaves a text that commutes with folding.
  have hstart : (afterKeyword? (· == ·) "static" (trimStart code)).getD (trimStart code) =
      if hasStatic code then trimStart ((trimStart code).drop 6) else trimStart code := by
    unfold hasStatic
    cases hword : afterKeyword? (· == ·) "static" (trimStart code) with
    | none => rfl
    | some rest =>
        obtain ⟨blank, behind, -, hcode, rfl⟩ := exists_blank_of_afterKeyword? hword
        rw [hcode]
        rfl
  rw [← hstart]
  rfl

/-- A name with a blank right behind it starts no header. -/
theorem headerFrom?_eq_none {name : List Char} {blank : Char} (hname : Name.isName name = true)
    (hblank : isBlank blank = true) (behind : List Char) :
    headerFrom? (name ++ blank :: behind) = none := by
  have hparen : blank ≠ '(' := by
    rintro rfl
    exact absurd hblank (by decide)
  rw [headerFrom?, Name.take?_append_of_isBlank hname hblank]
  simp [after?, hparen]

section TwoCodes

variable {code code' : List Char} (h : foldCase code = foldCase code')

include h

/-- Code that differs in case has the same header, up to case, if it agrees on `static`. -/
theorem header?_of_foldCase_eq (hstatic : hasStatic code = hasStatic code') :
    (header? code).map Header.foldCase = (header? code').map Header.foldCase := by
  rw [header?_eq, header?_eq, ← headerFrom?_foldCase, ← headerFrom?_foldCase, hstatic]
  split
  · rw [← trimStart_foldCase, foldCase_drop, ← trimStart_foldCase, h, trimStart_foldCase,
      ← foldCase_drop, trimStart_foldCase]
  · rw [← trimStart_foldCase, h, trimStart_foldCase]

/-- In another case, the word `static` is taken for the name of a header, but no parenthesis follows it. -/
theorem header?_eq_none_of_hasStatic (hstatic : hasStatic code = true)
    (hother : hasStatic code' = false) : header? code' = none := by
  obtain ⟨rest, hstart⟩ := Option.isSome_iff_exists.1 hstatic
  obtain ⟨blank, behind, hblank, hcode, -⟩ := exists_blank_of_afterKeyword? hstart
  -- Folded, the other code starts with the same word and a blank behind it.
  have hfolded : foldCase (trimStart code') =
      "static".toList ++ blank.toLower :: foldCase behind := by
    rw [← trimStart_foldCase, ← h, trimStart_foldCase, hcode]
    rfl
  have hword : Name.isName "static".toList = true := by
    simp [Name.isName, Name.isStart_of_isAlpha, Name.isPart_of_isAlpha]
  have hnone := headerFrom?_foldCase (trimStart code')
  rw [hfolded, headerFrom?_eq_none hword ((caseBlind_isBlank blank).trans hblank)] at hnone
  rw [header?_eq, hother]
  exact Option.map_eq_none_iff.1 hnone.symm

end TwoCodes

end Statement
end ScriptSymbols
