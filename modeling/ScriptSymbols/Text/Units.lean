import ScriptSymbols.Total

/-!
# Columns and byte offsets

A client counts columns of a line in UTF-16 units; texts are measured in bytes of their UTF-8 form.
A column inside a pair of units counts as the end of the character, a column behind the line as its
end.

- `indexOfColumn` is the number of characters before a column.
- `byteOfColumn` and `columnOfByte` convert between columns and byte offsets.
-/

namespace ScriptSymbols
namespace Text

/-- The number of UTF-16 units of a character. -/
def unitSize (c : Char) : Nat :=
  if c.toNat < 0x10000 then 1 else 2

/-- The number of UTF-16 units of a text. -/
def units (cs : List Char) : Nat :=
  total unitSize cs

/-- The number of bytes of a text in UTF-8. -/
def byteSize (cs : List Char) : Nat :=
  total Char.utf8Size cs

/-- The number of characters before a column, the fewest that reach it. -/
def indexOfColumn : List Char → Nat → Nat
  | [], _ => 0
  | c :: cs, column => if column = 0 then 0 else indexOfColumn cs (column - unitSize c) + 1

/-- The byte offset of a column. -/
def byteOfColumn (line : List Char) (column : Nat) : Nat :=
  byteSize (line.take (indexOfColumn line column))

/-- The column of a byte offset: the units of all characters that start before it. -/
def columnOfByte : List Char → Nat → Nat
  | [], _ => 0
  | c :: cs, offset => if offset = 0 then 0 else unitSize c + columnOfByte cs (offset - c.utf8Size)

/-- The text before and behind a byte offset, if a character starts or the text ends there. -/
def splitAtByte? : List Char → Nat → Option (List Char × List Char)
  | cs, 0 => some ([], cs)
  | [], _ + 1 => none
  | c :: cs, offset + 1 =>
    if offset + 1 < c.utf8Size then none
    else (splitAtByte? cs (offset + 1 - c.utf8Size)).map fun (a, b) => (c :: a, b)

end Text
end ScriptSymbols
