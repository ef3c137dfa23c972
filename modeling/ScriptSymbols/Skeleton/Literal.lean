import ScriptSymbols.Name
import ScriptSymbols.Text.Basic

/-!
# Object literals of a line

The second step towards the skeleton of a line: a balanced pair of braces that stands where a value
is expected is an object literal and is removed, with all between. Braces of blocks stay.

- `afterClose` finds the brace that closes an open one.
- `valueExpected` says whether a value is expected behind a text.
- `dropLiterals` removes the literals.
-/

namespace ScriptSymbols
namespace Skeleton

open Text

/-- The text behind the brace that closes the outermost of `depth` open ones, if there is one. -/
def afterClose : Nat → List Char → Option (List Char)
  | _, [] => none
  | depth, c :: cs =>
    if c = '{' then afterClose (depth + 1) cs
    else if c = '}' then
      if depth ≤ 1 then some cs else afterClose (depth - 1) cs
    else afterClose depth cs

/-- The characters behind which a value is expected: openers, separators and operators. -/
def valueMarks : List Char :=
  ['=', '(', ',', '[', ':', '?', '.', '&', '|', '+', '-', '*', '/', '<', '>', '!']

/-- Whether a text, given from its end backwards, ends in the word `return`. -/
def endsInReturn (before : List Char) : Bool :=
  sameFolded (before.take 6) "nruter".toList && !(before.drop 6).head?.any Name.isIdentChar

/-- Whether a value is expected behind a text, which is given from its end backwards. -/
def valueExpected (before : List Char) : Bool :=
  match before.dropWhile isBlank with
  | [] => false
  | c :: cs => valueMarks.contains c || endsInReturn (c :: cs)

theorem length_afterClose {depth : Nat} {cs rest : List Char} (h : afterClose depth cs = some rest) :
    rest.length < cs.length := by
  induction cs generalizing depth with
  | nil => simp [afterClose] at h
  | cons c cs ih =>
    rw [afterClose] at h
    split at h
    · exact Nat.lt_succ_of_lt (ih h)
    · split at h
      · split at h
        · cases h
          exact Nat.lt_succ_self _
        · exact Nat.lt_succ_of_lt (ih h)
      · exact Nat.lt_succ_of_lt (ih h)

theorem afterClose_sublist {depth : Nat} {cs rest : List Char}
    (h : afterClose depth cs = some rest) : rest.Sublist cs := by
  induction cs generalizing depth with
  | nil => simp [afterClose] at h
  | cons c cs ih =>
    rw [afterClose] at h
    split at h
    · exact (ih h).cons c
    · split at h
      · split at h
        · cases h
          exact (List.Sublist.refl _).cons c
        · exact (ih h).cons c
      · exact (ih h).cons c

/-- What is left of a text when its object literals are removed, where `before` is what is left of
the line before it, from its end backwards. -/
def dropLiteralsFrom (before : List Char) : List Char → List Char
  | [] => []
  | c :: cs =>
    if c = '{' ∧ valueExpected before then
      match _h : afterClose 1 cs with
      | some rest => dropLiteralsFrom before rest
      | none => c :: dropLiteralsFrom (c :: before) cs
    else c :: dropLiteralsFrom (c :: before) cs
termination_by cs => cs.length
decreasing_by
  · exact Nat.lt_succ_of_lt (length_afterClose _h)
  · simp
  · simp

/-- The line without its object literals. -/
def dropLiterals (line : List Char) : List Char :=
  dropLiteralsFrom [] line

theorem dropLiteralsFrom_sublist (before cs : List Char) :
    (dropLiteralsFrom before cs).Sublist cs := by
  fun_induction dropLiteralsFrom before cs with
  | case1 => exact List.Sublist.slnil
  | case2 before c cs _ rest h ih => exact (ih.trans (afterClose_sublist h)).cons c
  | case3 before c cs _ _ ih => exact ih.cons_cons c
  | case4 before c cs _ ih => exact ih.cons_cons c

theorem dropLiterals_sublist (line : List Char) : (dropLiterals line).Sublist line :=
  dropLiteralsFrom_sublist [] line

end Skeleton
end ScriptSymbols
