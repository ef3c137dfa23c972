import ScriptSymbols.Text.Basic

/-!
# Strings and comments of a line

The first step towards the skeleton of a line: strings are emptied and a comment is cut off.

- `emptyStrings` keeps the quotes and drops what stands between them.
- A semicolon outside a string starts a comment if it starts the line or follows a blank.
-/

namespace ScriptSymbols
namespace Skeleton

open Text

/-- Where a scan stands: in code or inside a string. -/
inductive Mode
  | code
  | quoted
  deriving DecidableEq

/-- The mode behind a character, where no comment starts. -/
def Mode.next (mode : Mode) (c : Char) : Mode :=
  match mode with
  | .code => if c = '"' then .quoted else .code
  | .quoted => if c = '"' then .code else .quoted

/-- Whether a character starts a comment, given the mode and the character before it. -/
def startsComment (mode : Mode) (prev : Option Char) (c : Char) : Bool :=
  mode == .code && c == ';' && prev.all isBlank

/-- Empties the strings and cuts the comment of what follows `prev`, from the given mode on. -/
def emptyStringsFrom (mode : Mode) (prev : Option Char) : List Char → List Char
  | [] => []
  | c :: cs =>
    if startsComment mode prev c then []
    else if mode = .code ∨ c = '"' then c :: emptyStringsFrom (mode.next c) (some c) cs
    else emptyStringsFrom (mode.next c) (some c) cs

/-- The line with its strings emptied and its comment cut off. -/
def emptyStrings (line : List Char) : List Char :=
  emptyStringsFrom .code none line

theorem emptyStringsFrom_sublist (mode : Mode) (prev : Option Char) (cs : List Char) :
    (emptyStringsFrom mode prev cs).Sublist cs := by
  induction cs generalizing mode prev with
  | nil => exact List.Sublist.slnil
  | cons c cs ih =>
    rw [emptyStringsFrom]
    split
    · exact List.nil_sublist _
    · split
      · exact (ih _ _).cons_cons c
      · exact (ih _ _).cons c

theorem emptyStrings_sublist (line : List Char) : (emptyStrings line).Sublist line :=
  emptyStringsFrom_sublist .code none line

end Skeleton
end ScriptSymbols
