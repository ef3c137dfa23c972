import ScriptSymbols.Proofs.Statement.CaseFolding

/-!
# Statements as they are written

How the common forms of statements are read, whatever names stand in them.

1. `Statement.header?_declaration`: a declaration with its brace has the name and the parameters that are
   written.
2. `Statement.header?_of_blank` and `Statement.assigned_assignment`: an assignment declares nothing and
   assigns its name.
-/

namespace ScriptSymbols

namespace Text

/-! ## Trimming -/

theorem trimStart_append {indent body : List Char} (hindent : indent.all isBlank = true)
    (hbody : body.head?.any isBlank = false) : trimStart (indent ++ body) = body := by
  rw [trimStart, List.dropWhile_append_of_pos (List.all_eq_true.1 hindent)]
  cases body with
  | nil => rfl
  | cons c body => exact List.dropWhile_cons_of_neg (by simpa using hbody)

theorem trimStart_trimStart (cs : List Char) : trimStart (trimStart cs) = trimStart cs := by
  have hhead : (trimStart cs).head?.any isBlank = false := by
    have hstop := List.head?_dropWhile_not isBlank cs
    cases hstart : (trimStart cs).head? with
    | none => rfl
    | some c =>
        rw [trimStart] at hstart
        simpa [hstart] using hstop
  exact @trimStart_append [] (trimStart cs) rfl hhead

theorem trimEnd_of_solid {cs : List Char} (h : cs.getLast?.any isBlank = false) : trimEnd cs = cs := by
  rw [trimEnd, dropEndWhile]
  cases hrev : cs.reverse with
  | nil => simpa using hrev.symm
  | cons c rest =>
      have hlast : cs.getLast? = some c := by
        rw [← List.head?_reverse, hrev, List.head?_cons]
      have hc : ¬ isBlank c = true := by simpa [hlast] using h
      rw [List.dropWhile_cons_of_neg hc, ← hrev, List.reverse_reverse]

/-- Blanks before a text are trimmed, and nothing else if it starts and ends with other characters. -/
theorem trim_append {indent body : List Char} (hindent : indent.all isBlank = true)
    (hhead : body.head?.any isBlank = false) (hlast : body.getLast?.any isBlank = false) :
    trim (indent ++ body) = body := by
  rw [trim, trimStart_append hindent hhead, trimEnd_of_solid hlast]

/-! ## Splitting -/

theorem splitOn_of_not_mem {sep : Char} {part : List Char} (h : sep ∉ part) :
    splitOn sep part = [part] := by
  induction part with
  | nil => rfl
  | cons c part ih =>
      obtain ⟨hc, h⟩ := List.ne_and_not_mem_of_not_mem_cons h
      rw [splitOn, if_neg hc.symm, ih h]
      rfl

theorem splitOn_append {sep : Char} {part : List Char} (h : sep ∉ part) (rest : List Char) :
    splitOn sep (part ++ sep :: rest) = part :: splitOn sep rest := by
  induction part with
  | nil => simp [splitOn]
  | cons c part ih =>
      obtain ⟨hc, h⟩ := List.ne_and_not_mem_of_not_mem_cons h
      rw [List.cons_append, splitOn, if_neg hc.symm, ih h]
      rfl

/-! ## Joining -/

theorem join_eq_intercalate (sep : List Char) (parts : List (List Char)) :
    join sep parts = sep.intercalate parts := by
  induction parts with
  | nil => rfl
  | cons part parts ih =>
      cases parts with
      | nil => simp [join]
      | cons next parts =>
          rw [join, ih, List.intercalate_cons_cons]
          · simp
          · simp

theorem all_join {p : Char → Bool} {sep : List Char} {parts : List (List Char)}
    (hsep : sep.all p = true) (h : ∀ part ∈ parts, part.all p = true) :
    (join sep parts).all p = true := by
  induction parts with
  | nil => rfl
  | cons part parts ih =>
      have hpart := h part List.mem_cons_self
      cases parts with
      | nil => exact hpart
      | cons next parts =>
          have hrest := ih fun part hmem => h part (List.mem_cons_of_mem _ hmem)
          have hjoin : join sep (part :: next :: parts) = part ++ (sep ++ join sep (next :: parts)) := by
            rw [join]
            simp
          rw [hjoin, List.all_append, List.all_append, hpart, hsep, hrest]
          rfl

end Text

open Text

namespace Name

/-! ## Names -/

theorem all_isPart_of_isName {name : List Char} (h : isName name = true) : name.all isPart = true := by
  cases name with
  | nil => rfl
  | cons c name =>
      rw [isName, Bool.and_eq_true] at h
      rw [List.all_cons, isPart, h.1, h.2]
      rfl

theorem all_isIdentChar_of_isPart {word : List Char} (h : word.all isPart = true) :
    word.all isIdentChar = true :=
  List.all_eq_true.2 fun c hc => isIdentChar_of_isPart (List.all_eq_true.1 h c hc)

theorem isBlank_of_isIdentChar {c : Char} (h : isIdentChar c = true) : isBlank c = false :=
  Bool.eq_false_iff.2 fun hblank => by
    rw [isIdentChar_of_isBlank hblank] at h
    cases h

/-- There are no blanks at the ends of a word. -/
theorem any_isBlank_head? {word : List Char} (h : word.all isIdentChar = true) :
    word.head?.any isBlank = false ∧ word.getLast?.any isBlank = false := by
  rw [List.all_eq_true] at h
  constructor
  · cases hhead : word.head? with
    | none => rfl
    | some c => exact isBlank_of_isIdentChar (h c (List.mem_of_mem_head? hhead))
  · cases hlast : word.getLast? with
    | none => rfl
    | some c => exact isBlank_of_isIdentChar (h c (List.mem_of_getLast? hlast))

theorem ne_static_of_isReserved {name : List Char} (h : isReserved name = false) :
    name ≠ "static".toList := by
  rintro rfl
  exact absurd h (by decide)

end Name

namespace Statement

open Name

/-! ## Headers -/

theorem isNoParen_of_isIdentChar {c : Char} (h : isIdentChar c = true) : isNoParen c = true := by
  have hparens : ['(', ')'].all (!isIdentChar ·) = true := by decide
  have hne : ∀ d ∈ ['(', ')'], c ≠ d := by
    rintro d hd rfl
    have hother := List.all_eq_true.1 hparens c hd
    simp [h] at hother
  simp [isNoParen, hne]

/-- Indentation is nothing to a statement. -/
theorem header?_trimStart (code : List Char) : header? (trimStart code) = header? code := by
  simp only [header?, trimStart_trimStart]

theorem assigned_trimStart (code : List Char) : assigned (trimStart code) = assigned code := by
  simp only [assigned, assignment?, scope?, loop?, command?, trimStart_trimStart]

section Named

variable {indent name : List Char} (hindent : indent.all isBlank = true) (hname : isName name = true)

include hindent hname

theorem trimStart_name (rest : List Char) : trimStart (indent ++ (name ++ rest)) = name ++ rest := by
  refine trimStart_append hindent ?_
  have hword := (any_isBlank_head? (all_isIdentChar_of_isPart (all_isPart_of_isName hname))).1
  cases name with
  | nil => cases hname
  | cons c name => exact hword

/-- A line that starts with another word does not start with `static`. -/
theorem hasStatic_eq_false (hne : name ≠ "static".toList) {rest : List Char}
    (hrest : rest.head?.any isPart = false) : hasStatic (indent ++ (name ++ rest)) = false := by
  refine Bool.eq_false_iff.2 fun hstatic => ?_
  obtain ⟨behind, hword⟩ := Option.isSome_iff_exists.1 hstatic
  rw [trimStart_name hindent hname] at hword
  obtain ⟨blank, behind, hblank, hline, -⟩ := exists_blank_of_afterKeyword? hword
  -- Both words are taken up to where they end, so that the name is the keyword.
  have htake := take?_append hname hrest
  rw [hline, take?_append_of_isBlank (by decide) hblank] at htake
  exact hne (Prod.mk.inj (Option.some.inj htake)).1.symm

theorem header?_name (hne : name ≠ "static".toList) {rest : List Char}
    (hrest : rest.head?.any isPart = false) :
    header? (indent ++ (name ++ rest)) = headerFrom? (name ++ rest) := by
  rw [header?_eq, hasStatic_eq_false hindent hname hne hrest, trimStart_name hindent hname]
  rfl

/-- A declaration with the brace of its body at the end. -/
theorem header?_declaration (hne : name ≠ "static".toList) {params : List Char}
    (hparams : params.all isNoParen = true) :
    header? (indent ++ (name ++ '(' :: (params ++ ") \x7b".toList))) =
      some { name, params, body := some [] } := by
  have hparen : isPart '(' = false := by decide
  have hstop : ¬ isNoParen ')' = true := by decide
  rw [header?_name hindent hname hne (by simpa using hparen), headerFrom?,
    take?_append hname (by simpa using hparen)]
  rw [List.all_eq_true] at hparams
  have htake : (params ++ ") \x7b".toList).takeWhile isNoParen = params := by
    rw [List.takeWhile_append_of_pos hparams]
    simp [hstop]
  have hdrop : (params ++ ") \x7b".toList).dropWhile isNoParen = ") \x7b".toList := by
    rw [List.dropWhile_append_of_pos hparams]
    rfl
  have hopen : after? '(' ('(' :: (params ++ ") \x7b".toList)) = some (params ++ ") \x7b".toList) := rfl
  have hclose : after? ')' ") \x7b".toList = some " \x7b".toList := rfl
  have hbody : bodyOf? " \x7b".toList = some (some []) := by decide
  simp only [Option.bind_eq_bind, Option.bind_some, hopen, htake, hdrop, hclose, hbody]
  rfl

/-- A name with a blank behind it declares nothing. -/
theorem header?_of_blank (hne : name ≠ "static".toList) {blank : Char}
    (hblank : isBlank blank = true) (behind : List Char) :
    header? (indent ++ (name ++ blank :: behind)) = none := by
  rw [header?_name hindent hname hne (by simp [isPart_of_isBlank hblank]),
    headerFrom?_eq_none hname hblank]

/-! ## Assignments -/

theorem assigned_assignment {value : List Char} (hvalue : value.head? ≠ some '=') :
    assigned (indent ++ (name ++ (" :=".toList ++ value))) = [name] := by
  have hname' : assignment? (indent ++ (name ++ (" :=".toList ++ value))) = some name := by
    have htake : take? (name ++ (" :=".toList ++ value)) = some (name, " :=".toList ++ value) :=
      take?_append_of_isBlank hname (by decide) (":=".toList ++ value)
    have hstarts : startsAssignment (dropOperator (trimStart (" :=".toList ++ value))) = true := by
      have hmark : dropOperator (trimStart (" :=".toList ++ value)) = ":=".toList ++ value := rfl
      rw [hmark, startsAssignment_eq]
      simpa [after?] using hvalue
    rw [assignment?, trimStart_name hindent hname, htake]
    simp only [hstarts, if_true]
  rw [assigned, hname']

end Named

end Statement
end ScriptSymbols
