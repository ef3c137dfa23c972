import ScriptSymbols.Text.Basic

/-!
# Splitting a text

- `splitOn` cuts a text at a separator.
- `splitTop` cuts a text at the commas outside all brackets.
- `firstWord?` is the first run of characters between blanks, with the text behind it.
-/

namespace ScriptSymbols
namespace Text

/-- Adds a character to the first of some parts. -/
def consHead (c : Char) : List (List Char) → List (List Char)
  | [] => [[c]]
  | part :: parts => (c :: part) :: parts

/-- The parts of a text between the separators, of which there is one more than separators. -/
def splitOn (sep : Char) : List Char → List (List Char)
  | [] => [[]]
  | c :: cs => if c = sep then [] :: splitOn sep cs else consHead c (splitOn sep cs)

/-- The depth behind a character that may open or close a bracket; at depth zero nothing closes. -/
def bracketDepth (depth : Nat) (c : Char) : Nat :=
  if c = '(' ∨ c = '[' ∨ c = '{' then depth + 1
  else if c = ')' ∨ c = ']' ∨ c = '}' then depth - 1
  else depth

/-- The parts of a text between the commas at depth zero, where the text starts at `depth`. -/
def splitTopFrom (depth : Nat) : List Char → List (List Char)
  | [] => [[]]
  | c :: cs =>
    if c = ',' ∧ depth = 0 then [] :: splitTopFrom depth cs
    else consHead c (splitTopFrom (bracketDepth depth c) cs)

/-- The parts of a text between the commas that stand in no bracket. -/
def splitTop (text : List Char) : List (List Char) :=
  splitTopFrom 0 text

/-- The first word of a text, if it has any, and the text behind it. -/
def firstWord? (text : List Char) : Option (List Char × List Char) :=
  match trimStart text with
  | [] => none
  | c :: cs => some ((c :: cs).takeWhile (!isBlank ·), (c :: cs).dropWhile (!isBlank ·))

/-- The parts joined with a separator between neighbours. -/
def join (sep : List Char) : List (List Char) → List Char
  | [] => []
  | [part] => part
  | part :: rest => part ++ (sep ++ join sep rest)

/-- Whether a text occurs in another one. -/
def occursIn (part : List Char) : List Char → Bool
  | [] => part.isEmpty
  | c :: cs => part.isPrefixOf (c :: cs) || occursIn part cs

/-- The text before the first occurrence of a part, if there is one. -/
def before? (part : List Char) : List Char → Option (List Char)
  | [] => if part.isEmpty then some [] else none
  | c :: cs => if part.isPrefixOf (c :: cs) then some [] else (before? part cs).map (c :: ·)

end Text
end ScriptSymbols
