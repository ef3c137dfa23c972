import ScriptSymbols.Fixture
import ScriptSymbols.Proofs.Outline.Lines
import ScriptSymbols.Proofs.Text.Printed

/-!
# Generated lines

What each line of a generated script is read as, whatever numbers stand in it.

1. `Fixture.numbered` are the names that are made with numbers. They are names, none is a keyword, and
   different numbers make different names, up to case.
2. `Fixture.reads_globalLine`, `Fixture.reads_resultLine` and `Fixture.reads_varLine` read the lines with a
   literal, a comment and a string; `Fixture.declares_methodLine` reads the declarations, and
   `Fixture.reads_fixedLine` the lines without numbers.
-/

namespace ScriptSymbols
namespace Fixture

open Text Name Source Skeleton

/-! ## Numerals -/

/-- The decimal digits of a number. -/
def digits (n : Nat) : List Char :=
  (toString n).toList

theorem digits_eq (n : Nat) : digits n = Nat.toDigits 10 n :=
  Nat.toList_repr

theorem isDigit_of_mem_digits {n : Nat} {c : Char} (h : c ∈ digits n) : c.isDigit = true := by
  rw [digits_eq] at h
  exact Nat.isDigit_of_mem_toDigits (by decide) (by decide) h

theorem digits_ne_nil (n : Nat) : digits n ≠ [] := by
  rw [digits_eq]
  exact Nat.toDigits_ne_nil

theorem digits_injective {m n : Nat} (h : digits m = digits n) : m = n := by
  rw [digits_eq, digits_eq] at h
  calc
    m = Nat.ofDigitChars 10 (Nat.toDigits 10 m) 0 := Nat.ofDigitChars_ten_toDigits.symm
    _ = Nat.ofDigitChars 10 (Nat.toDigits 10 n) 0 := by rw [h]
    _ = n := Nat.ofDigitChars_ten_toDigits

theorem all_isPart_digits (n : Nat) : (digits n).all isPart = true :=
  List.all_eq_true.2 fun c hc => by
    simp [isPart, isNumber, isDigit_of_mem_digits hc]

theorem all_isIdentChar_digits (n : Nat) : (digits n).all isIdentChar = true :=
  all_isIdentChar_of_isPart (all_isPart_digits n)

theorem foldCase_digits (n : Nat) : foldCase (digits n) = digits n := by
  have hsame : ∀ c ∈ digits n, c.toLower = id c := by
    intro c hc
    have hdigit : (decide (48 ≤ c.val) && decide (c.val ≤ 57)) = true := isDigit_of_mem_digits hc
    rw [Bool.and_eq_true, decide_eq_true_iff, decide_eq_true_iff] at hdigit
    have hle : c.toNat ≤ 57 := UInt32.le_iff_toNat_le.1 hdigit.2
    rcases toLower_cases c with hsame | ⟨hfirst, -, -⟩
    · exact hsame
    · omega
  rw [foldCase, List.map_congr_left hsame, List.map_id]

/-! ## Numbered names -/

/-- The name with a stem, the number of a file and a number. -/
def numbered (stem : String) (file n : Nat) : String :=
  stem ++ toString file ++ "_" ++ toString n

theorem toList_numbered (stem : String) (file n : Nat) :
    (numbered stem file n).toList = stem.toList ++ (digits file ++ '_' :: digits n) := by
  simp [numbered, digits]

theorem isName_numbered {stem : String} (h : isName stem.toList = true) (file n : Nat) :
    isName (numbered stem file n).toList = true := by
  have hunderscore : isPart '_' = true := by decide
  rw [toList_numbered]
  cases hstem : stem.toList with
  | nil =>
      rw [hstem] at h
      cases h
  | cons c cs =>
      rw [hstem, isName, Bool.and_eq_true] at h
      simp only [List.cons_append, isName, h.1, List.all_append, h.2, all_isPart_digits, List.all_cons,
        hunderscore, Bool.and_true]

theorem isReserved_numbered (stem : String) (file n : Nat) :
    isReserved (numbered stem file n).toList = false := by
  have hkeywords : keywords.all (fun k => !(foldCase k.toList).contains '_') = true := by decide
  refine List.any_eq_false.2 fun k hk hsame => ?_
  have hfold : foldCase (numbered stem file n).toList = foldCase k.toList := by
    simpa [sameFolded] using hsame
  -- The underscore is the same in either case, and no keyword has one.
  have hmem : '_' ∈ foldCase (numbered stem file n).toList := by
    rw [toList_numbered]
    exact List.mem_map.2 ⟨'_', by simp, by decide⟩
  have hnone := List.all_eq_true.1 hkeywords k hk
  rw [hfold] at hmem
  simp [hmem] at hnone

theorem numbered_injective {stem : String} {file m n : Nat}
    (h : sameName (numbered stem file m) (numbered stem file n) = true) : m = n := by
  have hfold : foldCase (numbered stem file m).toList = foldCase (numbered stem file n).toList := by
    simpa [sameName, sameFolded] using h
  rw [toList_numbered, toList_numbered, foldCase, foldCase, List.map_append, List.map_append,
    List.map_append, List.map_append] at hfold
  have hdigits := List.append_cancel_left (List.append_cancel_left hfold)
  rw [List.map_cons, List.map_cons] at hdigits
  have hsame : foldCase (digits m) = foldCase (digits n) := List.tail_eq_of_cons_eq hdigits
  rw [foldCase_digits, foldCase_digits] at hsame
  exact digits_injective hsame

theorem isWord_numbered {stem : String} (h : isName stem.toList = true) (file n : Nat) :
    (numbered stem file n).toList.all isIdentChar = true :=
  all_isIdentChar_of_isPart (all_isPart_of_isName (isName_numbered h file n))

theorem numbered_ne_nil (stem : String) (file n : Nat) : (numbered stem file n).toList ≠ [] := by
  rw [toList_numbered]
  simp

/-! ## Skeletons of assignments -/

section Word

variable {word : List Char} (hword : word.all isIdentChar = true) (hne : word ≠ [])

include hword hne

/-- A literal with a string in it, as the value of an assignment. -/
theorem skeleton_literal {key string rest : List Char} (hkey : key.any isMark = false)
    (hclose : '}' ∉ key) (hstring : '"' ∉ string) (hrest : rest.any isMark = false)
    (hclose' : '}' ∉ rest) :
    skeleton (word ++ (" := ".toList ++ '{' :: (key ++ '"' :: (string ++ '"' :: (rest ++ ['}']))))) =
      word ++ " := ".toList := by
  have hquote : isIdentChar '"' = false := by decide
  have hmark : isIdentChar ';' = false := by decide
  have hopen : isIdentChar '{' = false := by decide
  have hfront : '"' ∉ word ++ (" := \x7b".toList ++ key) :=
    not_mem_word hword hquote (List.not_mem_append (by decide) (not_mem_of_isMark hkey rfl))
  have hfront' : ';' ∉ word ++ (" := \x7b".toList ++ key) :=
    not_mem_word hword hmark (List.not_mem_append (by decide) (not_mem_of_isMark hkey rfl))
  have hbehind : '"' ∉ rest ++ ['}'] := List.not_mem_append (not_mem_of_isMark hrest rfl) (by decide)
  have hbehind' : ';' ∉ rest ++ ['}'] := List.not_mem_append (not_mem_of_isMark hrest rfl) (by decide)
  have hstrings : emptyStrings
      (word ++ (" := ".toList ++ '{' :: (key ++ '"' :: (string ++ '"' :: (rest ++ ['}']))))) =
        (word ++ " := ".toList) ++ '{' :: ((key ++ "\"\"".toList ++ rest) ++ ['}']) := by
    have hline := emptyStrings_string (modeAfter?_of_not_mem hfront hfront' none) hstring (rest ++ ['}'])
    rw [emptyStrings, emptyStrings, emptyStringsFrom_of_not_mem hfront hfront',
      emptyStringsFrom_of_not_mem hbehind hbehind'] at hline
    simpa [emptyStrings] using hline
  -- The literal stands where a value is expected and ends with the line, so that nothing of it is left.
  have hliteral : dropLiterals ((word ++ " := ".toList) ++
      '{' :: ((key ++ "\"\"".toList ++ rest) ++ ['}'])) = word ++ " := ".toList := by
    have hvalue : valueExpected (word ++ " := ".toList).reverse = true := by
      rw [List.reverse_append]
      rfl
    refine dropLiterals_of_literal (not_mem_word hword hopen (by decide)) hvalue ?_ ?_
    · exact List.not_mem_append (List.not_mem_append (not_mem_of_isMark hkey rfl) (by decide))
        (not_mem_of_isMark hrest rfl)
    · exact List.not_mem_append (List.not_mem_append hclose (by decide)) hclose'
  have hplain : (word ++ " := ".toList).any isMark = false := any_isMark_word hword (by decide)
  refine skeleton_of_stripped (by rw [hstrings, hliteral]) ?_
    (plainCommand_of_not_mem (not_mem_of_isMark hplain rfl)) ?_
  · rw [emptyStrings_of_unmarked hplain, dropLiterals_of_not_mem (not_mem_of_isMark hplain rfl)]
  · exact @squeeze_word word hword hne [] _ rfl rfl

/-- A string as the value of an assignment. -/
theorem skeleton_string {string : List Char} (hstring : '"' ∉ string) :
    skeleton (word ++ (" := ".toList ++ '"' :: (string ++ ['"']))) = word ++ " := \"\"".toList := by
  have hfront : '"' ∉ word ++ " := ".toList := not_mem_word hword (by decide) (by decide)
  have hfront' : ';' ∉ word ++ " := ".toList := not_mem_word hword (by decide) (by decide)
  have hopen : '{' ∉ word ++ " := \"\"".toList := not_mem_word hword (by decide) (by decide)
  have hmark : '%' ∉ word ++ " := \"\"".toList := not_mem_word hword (by decide) (by decide)
  -- With the empty string inside, this says that the skeleton does not change.
  have hstrings : ∀ inside : List Char, '"' ∉ inside →
      emptyStrings (word ++ (" := ".toList ++ '"' :: (inside ++ ['"']))) =
        word ++ " := \"\"".toList := by
    intro inside hinside
    have hline := emptyStrings_string (modeAfter?_of_not_mem hfront hfront' none) hinside []
    rw [emptyStrings, emptyStrings, emptyStringsFrom_of_not_mem hfront hfront'] at hline
    simpa [emptyStrings, emptyStringsFrom] using hline
  refine skeleton_of_stripped ?_ ?_ (plainCommand_of_not_mem hmark) ?_
  · rw [hstrings string hstring, dropLiterals_of_not_mem hopen]
  · have hempty := hstrings [] (by simp)
    rw [List.nil_append] at hempty
    exact (congrArg dropLiterals hempty).trans (dropLiterals_of_not_mem hopen)
  · exact @squeeze_word word hword hne [] _ rfl rfl

/-- A comment behind a blank. -/
theorem skeleton_comment {indent rest : List Char} (hindent : indent.all isSpaceOrTab = true)
    (hrest : rest.any isMark = false) (htidy : squeezeFrom false rest = rest)
    (hlast : rest.getLast?.any isBlank = true) (comment : List Char) :
    skeleton (indent ++ (word ++ rest) ++ ';' :: comment) = indent ++ (word ++ rest) := by
  have hblank : indent.all isBlank = true := all_isBlank_of_isSpaceOrTab hindent
  have hplain : (indent ++ (word ++ rest)).any isMark = false := by
    rw [List.any_append, any_isMark_of_isBlank hblank, any_isMark_word hword hrest]
    rfl
  have hmode : modeAfter? .code none (indent ++ (word ++ rest)) = some .code :=
    modeAfter?_of_not_mem (not_mem_of_isMark hplain rfl) (not_mem_of_isMark hplain rfl) none
  have hend : (indent ++ (word ++ rest)).getLast?.any isBlank = true := by
    have hrest' : rest ≠ [] := by
      rintro rfl
      cases hlast
    rw [← List.append_assoc, List.getLast?_append_of_ne_nil _ hrest']
    exact hlast
  have hliterals : dropLiterals (indent ++ (word ++ rest)) = indent ++ (word ++ rest) :=
    dropLiterals_of_not_mem (not_mem_of_isMark hplain rfl)
  refine skeleton_of_stripped ?_ ?_ (plainCommand_of_not_mem (not_mem_of_isMark hplain rfl))
    (squeeze_word hword hne hindent htidy)
  · rw [emptyStrings_comment hmode hend, emptyStrings_of_unmarked hplain, hliterals]
  · rw [emptyStrings_of_unmarked hplain, hliterals]

end Word

/-! ## Lines that assign -/

theorem reads_globalLine (file n : Nat) :
    Reads (lineOf (globalLine file n).toList) [(numbered "global_" file n).toList] [] := by
  have hstem : isName "global_".toList = true := by decide
  have hdigits := all_isIdentChar_digits n
  have hline : (globalLine file n).toList = (numbered "global_" file n).toList ++
      (" := ".toList ++ '{' :: ("name: ".toList ++
        '"' :: (('g' :: digits n) ++ '"' :: ((", size: ".toList ++ digits n) ++ ['}'])))) := by
    have hnumber : ∀ name number : String,
        (name ++ " := \x7bname: \"g" ++ number ++ "\", size: " ++ number ++ "\x7d").toList =
          name.toList ++ (" := ".toList ++ '{' :: ("name: ".toList ++
            '"' :: (('g' :: number.toList) ++ '"' :: ((", size: ".toList ++ number.toList) ++ ['}'])))) := by
      intro name number
      simp
    exact hnumber (numbered "global_" file n) (toString n)
  have hcode : skeleton (globalLine file n).toList =
      [] ++ ((numbered "global_" file n).toList ++ (" :=".toList ++ [' '])) := by
    rw [hline]
    refine skeleton_literal (isWord_numbered hstem file n) (numbered_ne_nil _ file n) (by decide)
      (by decide) ?_ ?_ ?_
    · exact List.not_mem_cons_of_ne_of_not_mem (by decide)
        (not_mem_of_isIdentChar hdigits (by decide))
    · rw [List.any_append, any_isMark_of_isIdentChar hdigits]
      decide
    · exact List.not_mem_append (by decide) (not_mem_of_isIdentChar hdigits (by decide))
  exact reads_assignment rfl (isName_numbered hstem file n) (isReserved_numbered _ file n) hcode
    (by decide) (by decide)

/-- A line of plain code. -/
def varLine (file n : Nat) : String :=
  numbered "var_" file n ++ " := \"value " ++ toString n ++ "\""

theorem reads_varLine (file n : Nat) :
    Reads (lineOf (varLine file n).toList) [(numbered "var_" file n).toList] [] := by
  have hstem : isName "var_".toList = true := by decide
  have hline : (varLine file n).toList = (numbered "var_" file n).toList ++
      (" := ".toList ++ '"' :: (("value ".toList ++ digits n) ++ ['"'])) := by
    simp [varLine, digits]
  have hcode : skeleton (varLine file n).toList =
      [] ++ ((numbered "var_" file n).toList ++ (" :=".toList ++ " \"\"".toList)) := by
    rw [hline]
    refine skeleton_string (isWord_numbered hstem file n) (numbered_ne_nil _ file n) ?_
    exact List.not_mem_append (by decide)
      (not_mem_of_isIdentChar (all_isIdentChar_digits n) (by decide))
  exact reads_assignment rfl (isName_numbered hstem file n) (isReserved_numbered _ file n) hcode
    (by decide) (by decide)

/-- The line of a method that assigns its variable. -/
def resultLine (n : Nat) : String :=
  "    result := x + y * " ++ toString (n + 1) ++ " ; scale"

/-- What stands behind the name on such a line, up to the comment. -/
def resultValue (factor : List Char) : List Char :=
  " :=".toList ++ (" x + y * ".toList ++ (factor ++ [' ']))

theorem toList_resultLine (n : Nat) :
    (resultLine n).toList = "    ".toList ++ ("result".toList ++ resultValue (digits (n + 1))) ++
      ';' :: " scale".toList := by
  -- The number stands for any text here: nothing has to look inside it.
  have hline : ∀ factor : String, ("    result := x + y * " ++ factor ++ " ; scale").toList =
      "    ".toList ++ ("result".toList ++ resultValue factor.toList) ++ ';' :: " scale".toList := by
    intro factor
    simp [resultValue]
  exact hline (toString (n + 1))

theorem reads_resultLine (n : Nat) : Reads (lineOf (resultLine n).toList) ["result".toList] [] := by
  have hdigits := all_isIdentChar_digits (n + 1)
  have hne := digits_ne_nil (n + 1)
  have hline := toList_resultLine n
  -- Only these three facts about the digits matter from here on.
  generalize digits (n + 1) = factor at hdigits hne hline
  have hplain : (resultValue factor).any isMark = false := by
    rw [resultValue, List.any_append, List.any_append, List.any_append,
      any_isMark_of_isIdentChar hdigits]
    decide
  have htidy : squeezeFrom false (resultValue factor) = resultValue factor := by
    have hhead : squeezeFrom false (resultValue factor) =
        " :=".toList ++ (" x + y * ".toList ++ squeezeFrom true (factor ++ [' '])) := rfl
    rw [hhead, squeezeFrom_append_of_solid (solid_of_isIdentChar hdigits) hne]
    rfl
  have hlast : (resultValue factor).getLast?.any isBlank = true := by
    have hsplit : resultValue factor = (" := x + y * ".toList ++ factor) ++ [' '] := by
      simp [resultValue]
    rw [hsplit, List.getLast?_append_of_ne_nil _ (by simp)]
    rfl
  have hcode : skeleton (resultLine n).toList =
      "    ".toList ++ ("result".toList ++ resultValue factor) := by
    rw [hline]
    exact skeleton_comment (by decide) (by decide) (by decide) hplain htidy hlast _
  have hbraces : (" x + y * ".toList ++ (factor ++ [' '])).filter isBrace = [] := by
    rw [List.filter_append, List.filter_append, filter_isBrace_of_isIdentChar hdigits]
    decide
  exact reads_assignment (by decide) (by decide) (by decide) hcode (by simp) hbraces

/-! ## Declarations -/

/-- The parameters of a method: one by reference, and one with a default. -/
def paramList (value : List Char) : List Char :=
  "ByRef x, y := ".toList ++ value

-- Proofs rewrite with this equation: the one that is made for the definition evaluates the text.
theorem paramList_eq (value : List Char) : paramList value = "ByRef x, y := ".toList ++ value := rfl

section Params

variable {value : List Char} (hvalue : value.all isIdentChar = true) (hne : value ≠ [])

include hvalue

theorem all_isNoParen_paramList : (paramList value).all Statement.isNoParen = true := by
  have hfront : "ByRef x, y := ".toList.all Statement.isNoParen = true := by decide
  rw [paramList_eq, List.all_append, hfront, Bool.true_and, List.all_eq_true]
  exact fun c hc => Statement.isNoParen_of_isIdentChar (List.all_eq_true.1 hvalue c hc)

theorem any_isMark_paramList : (paramList value).any isMark = false := by
  rw [paramList_eq, List.any_append, any_isMark_of_isIdentChar hvalue]
  decide

theorem filter_isBrace_paramList : (paramList value).filter isBrace = [] := by
  rw [paramList_eq, List.filter_append, filter_isBrace_of_isIdentChar hvalue]
  decide

include hne

theorem squeezeFrom_paramList : squeezeFrom false (paramList value ++ ") \x7b".toList) =
    paramList value ++ ") \x7b".toList := by
  have hfront : ∀ cs, squeezeFrom false ("ByRef x, y := ".toList ++ cs) =
      "ByRef x, y := ".toList ++ squeezeFrom true cs := fun _ => rfl
  rw [paramList_eq, List.append_assoc, hfront,
    squeezeFrom_append_of_solid (solid_of_isIdentChar hvalue) hne]
  rfl

theorem getLast?_append_value (front : List Char) : (front ++ value).getLast?.any isBlank = false := by
  rw [List.getLast?_append_of_ne_nil _ hne]
  exact (any_isBlank_head? hvalue).2

theorem trim_paramList : trim (paramList value) = paramList value :=
  @trim_append [] (paramList value) rfl rfl (getLast?_append_value hvalue hne _)

/-- Neither the marker nor the default is part of a name. -/
theorem paramNames_paramList : Statement.paramNames (paramList value) = ["x".toList, "y".toList] := by
  have hsplit : splitOn ',' (paramList value) = ["ByRef x".toList, " y := ".toList ++ value] := by
    have hcomma : ',' ∉ " y := ".toList ++ value :=
      List.not_mem_append (by decide) (not_mem_of_isIdentChar hvalue (by decide))
    have hfront : ',' ∉ "ByRef x".toList := by decide
    have hparts := splitOn_append hfront (" y := ".toList ++ value)
    rw [splitOn_of_not_mem hcomma] at hparts
    exact hparts
  have hfirst : Statement.paramName? "ByRef x".toList = some "x".toList := by decide
  have hsecond : Statement.paramName? (" y := ".toList ++ value) = some "y".toList := by
    have htrim : trim (" ".toList ++ ("y := ".toList ++ value)) = "y := ".toList ++ value :=
      trim_append (by decide) rfl (getLast?_append_value hvalue hne _)
    -- The default goes first, so that the name is all that is left whatever the value is.
    have hdefault : Statement.withoutDefault ("y := ".toList ++ value) = "y".toList := rfl
    have hname : Statement.nameWord? "y".toList = some "y".toList := by decide
    have hsame : Statement.paramName? (" ".toList ++ ("y := ".toList ++ value)) = some "y".toList := by
      rw [Statement.paramName?, htrim, hdefault, hname]
      decide
    exact hsame
  rw [Statement.paramNames, hsplit]
  simp only [List.filterMap_cons, hfirst, hsecond, List.filterMap_nil]

end Params

/-- The line that declares a method. -/
def methodLine (file n : Nat) : String :=
  numbered "method_" file n ++ "(ByRef x, y := " ++ toString (n + 1) ++ ") \x7b"

theorem toList_methodLine (file n : Nat) :
    (methodLine file n).toList = (numbered "method_" file n).toList ++
      '(' :: (paramList (digits (n + 1)) ++ ") \x7b".toList) := by
  have hline : ∀ name value : String, (name ++ "(ByRef x, y := " ++ value ++ ") \x7b").toList =
      name.toList ++ '(' :: (paramList value.toList ++ ") \x7b".toList) := by
    intro name value
    simp [paramList_eq]
  exact hline (numbered "method_" file n) (toString (n + 1))

theorem declares_methodLine (file n : Nat) :
    Declares (lineOf (methodLine file n).toList) (numbered "method_" file n).toList
      (paramList (digits (n + 1))) := by
  have hstem : isName "method_".toList = true := by decide
  have hdigits := all_isIdentChar_digits (n + 1)
  have hcode : skeleton (methodLine file n).toList = [] ++ ((numbered "method_" file n).toList ++
      '(' :: (paramList (digits (n + 1)) ++ ") \x7b".toList)) := by
    rw [toList_methodLine]
    exact @skeleton_header _ (isWord_numbered hstem file n) (numbered_ne_nil _ file n) [] _ rfl
      (any_isMark_paramList hdigits) (squeezeFrom_paramList hdigits (digits_ne_nil _))
  exact declares_header rfl (isName_numbered hstem file n) (isReserved_numbered _ file n)
    (all_isNoParen_paramList hdigits) (filter_isBrace_paramList hdigits) hcode

/-! ## Lines without numbers -/

/-- The lines that are the same in all files and assign nothing, with their braces. -/
def fixedLines : List (String × List Char) :=
  [("    if (result = \"\") \x7b", ['{']), ("        return 0", []), ("    \x7d", ['}']),
   ("    return result", []), ("\x7d", ['}'])] ++ (commands.erase mouseCommand).map (·, [])

theorem reads_fixedLine {line : String} {braces : List Char} (h : (line, braces) ∈ fixedLines) :
    Reads (lineOf line.toList) [] braces := by
  have hall : fixedLines.all (fun entry => decide (Reads (lineOf entry.1.toList) [] entry.2)) = true := by
    decide +kernel
  exact of_decide_eq_true (List.all_eq_true.1 hall _ h)

/-- The commands that are not the one with two variables assign nothing. -/
theorem reads_command {command : String} (h : command ∈ commands) (hother : command ≠ mouseCommand) :
    Reads (lineOf command.toList) [] [] := by
  have hmem : command ∈ commands.erase mouseCommand := (List.mem_erase_of_ne hother).2 h
  exact reads_fixedLine (List.mem_append_right _ (List.mem_map.2 ⟨command, hmem, rfl⟩))

/-! ## Notes -/

theorem skeleton_note (text : List Char) : skeleton (';' :: text) = [] := by
  have hnone : dropLiterals (emptyStrings []) = [] := dropLiterals_of_not_mem List.not_mem_nil
  have hnote : emptyStrings (';' :: text) = emptyStrings [] := rfl
  exact skeleton_of_stripped (by rw [hnote, hnone]) hnone rfl rfl

theorem reads_note (text : List Char) : Reads (lineOf (';' :: text)) [] [] := by
  have hcode : skeleton (';' :: text) = [] := skeleton_note text
  refine reads_of_trimStart (?_ : _ = []) rfl rfl ?_
  · rw [hcode]
    rfl
  · rw [hcode]
    rfl

/-- A single note is the comment on what follows it. -/
theorem commentOf?_note {text : List Char} (hne : text ≠ []) (hhead : text.head?.any isBlank = false)
    (hlast : text.getLast?.any isBlank = false) {above : List SourceLine} (h : EndsComment above) :
    commentOf? (lineOf (';' :: ' ' :: text) :: above) = some text := by
  have hraw : trim (';' :: ' ' :: text) = ';' :: ' ' :: text := by
    have hend : ("; ".toList ++ text).getLast?.any isBlank = false := by
      rw [List.getLast?_append_of_ne_nil _ hne]
      exact hlast
    exact @trim_append [] ("; ".toList ++ text) rfl rfl hend
  have htext : commentText (';' :: ' ' :: text) = text := by
    rw [commentText, hraw]
    exact trim_append (by decide : " ".toList.all isBlank = true) hhead hlast
  have hsame : trim text = text := @trim_append [] text rfl hhead hlast
  have hsingle := h.commentOf?_append [lineOf (';' :: ' ' :: text)]
  rw [List.singleton_append] at hsingle
  rw [hsingle]
  simp [commentOf?, lineOf, hraw, htext, join, hsame, hne]

end Fixture
end ScriptSymbols
