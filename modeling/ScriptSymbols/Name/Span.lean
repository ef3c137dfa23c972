import ScriptSymbols.Name
import ScriptSymbols.Text.Lowercase
import ScriptSymbols.Text.Units

/-!
# Identifiers on a line

- `identifierAt?` is the identifier that a column touches.
- `span?` are the columns of the first occurrence of a name as a whole identifier, up to case.
-/

namespace ScriptSymbols
namespace Name

open Text

/-- An identifier and the columns between which it stands. -/
structure WordSpan where
  word : List Char
  start : Nat
  stop : Nat
  deriving DecidableEq

/-- The identifier that a column touches, unless it starts with a digit. -/
def identifierAt? (line : List Char) (column : Nat) : Option WordSpan :=
  let index := indexOfColumn line column
  let before := (line.take index).reverse
  let left := (before.takeWhile isIdentChar).reverse
  let right := (line.drop index).takeWhile isIdentChar
  let word := left ++ right
  let start := units (before.dropWhile isIdentChar)
  if word.isEmpty ∨ word.head?.any Char.isDigit then none
  else some { word, start, stop := start + units word }

/-- The byte offsets of the occurrences of a text, none of which overlaps another; the text searched
starts at `offset`, and its first `skip` characters belong to an occurrence already. -/
def occurrencesFrom (needle : List Char) (offset skip : Nat) : List Char → List Nat
  | [] => []
  | c :: cs =>
    if 0 < skip then occurrencesFrom needle (offset + c.utf8Size) (skip - 1) cs
    else if needle.isPrefixOf (c :: cs) then
      offset :: occurrencesFrom needle (offset + c.utf8Size) (needle.length - 1) cs
    else occurrencesFrom needle (offset + c.utf8Size) 0 cs

/-- Whether the `size` bytes of a line from an offset on are whole characters with no identifier
character on either side. -/
def standsAlone (line : List Char) (size offset : Nat) : Bool :=
  match splitAtByte? line offset, splitAtByte? line (offset + size) with
  | some (before, _), some (_, behind) =>
    !before.getLast?.any isIdentChar && !behind.head?.any isIdentChar
  | _, _ => false

/-- The columns of the first place where a name stands alone on a line, up to case. The place is looked
for in the lower case of the line, and only if that takes as many bytes as the line. -/
def span? (line name : List Char) : Option (Nat × Nat) :=
  let lower := lowercase line
  let needle := lowercase name
  if byteSize lower ≠ byteSize line ∨ needle.isEmpty then none
  else
    ((occurrencesFrom needle 0 0 lower).find? (standsAlone line (byteSize needle))).map fun start =>
      (columnOfByte line start, columnOfByte line (start + byteSize name))

end Name
end ScriptSymbols
