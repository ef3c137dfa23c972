/-!
# Blanks and case

Two notions of a blank are in use. `isBlank` is any white space character of any script;
`isSpaceOrTab` is only what indents a line or separates the words of a command.

Names and keywords of scripts, file extensions and marker words are compared without regard to the
case of the letters A to Z. Other letters are compared as they are.
-/

namespace ScriptSymbols
namespace Text

/-! ## Blanks -/

/-- Whether a character is white space. -/
def isBlank (c : Char) : Bool :=
  let n := c.toNat
  (0x9 ≤ n && n ≤ 0xD) || n == 0x20 || n == 0x85 || n == 0xA0 || n == 0x1680
    || (0x2000 ≤ n && n ≤ 0x200A) || n == 0x2028 || n == 0x2029 || n == 0x202F || n == 0x205F
    || n == 0x3000

/-- Whether a character is a space or a tab. -/
def isSpaceOrTab (c : Char) : Bool :=
  c == ' ' || c == '\t'

/-- The text without the longest end whose characters all satisfy `p`. -/
def dropEndWhile (p : Char → Bool) (cs : List Char) : List Char :=
  (cs.reverse.dropWhile p).reverse

/-- The text without blanks at its start. -/
def trimStart (cs : List Char) : List Char :=
  cs.dropWhile isBlank

/-- The text without blanks at its end. -/
def trimEnd (cs : List Char) : List Char :=
  dropEndWhile isBlank cs

/-- The text without blanks at either end. -/
def trim (cs : List Char) : List Char :=
  trimEnd (trimStart cs)

/-- Whether a text has no characters but blanks. -/
def allBlank (cs : List Char) : Bool :=
  cs.all isBlank

/-! ## Equality up to ASCII case -/

/-- The text with the letters A to Z in lower case. -/
def foldCase (cs : List Char) : List Char :=
  cs.map Char.toLower

/-- Whether two texts are equal up to the case of the letters A to Z. -/
def sameFolded (a b : List Char) : Bool :=
  foldCase a == foldCase b

/-- Whether two strings are equal up to the case of the letters A to Z. -/
def sameName (a b : String) : Bool :=
  sameFolded a.toList b.toList

end Text
end ScriptSymbols
