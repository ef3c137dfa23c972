import ScriptSymbols.Text.Alphabetic
import ScriptSymbols.Text.Basic

/-!
# Names

A name is a run of identifier characters. Two classes of such characters are in use:

- `isIdentChar`, by which runs are delimited: the underscore and everything alphanumeric;
- `isStart` and `isPart`, by which the statement forms are recognised: the underscore, letters and,
  behind the first character, numbers.

Every character of the second kind is one of the first kind.
-/

namespace ScriptSymbols
namespace Name

open Text

/-- Whether a character belongs to an identifier. -/
def isIdentChar (c : Char) : Bool :=
  c == '_' || isAlphanumeric c

/-- Whether a declared name may start with a character. -/
def isStart (c : Char) : Bool :=
  c == '_' || isLetter c

/-- Whether a declared name may go on with a character. -/
def isPart (c : Char) : Bool :=
  isStart c || isNumber c

/-- The longest name that starts the text, where `start` and `part` say which characters may start a
name and go on with it, and the text behind it. -/
def takeBy? (start part : Char → Bool) : List Char → Option (List Char × List Char)
  | [] => none
  | c :: cs => if start c then some (c :: cs.takeWhile part, cs.dropWhile part) else none

/-- The longest declared name that starts the text, and the text behind it. -/
def take? (cs : List Char) : Option (List Char × List Char) :=
  takeBy? isStart isPart cs

/-- Whether a text is a declared name as a whole. -/
def isName : List Char → Bool
  | [] => false
  | c :: cs => isStart c && cs.all isPart

/-- The keywords of the script language, in lower case. -/
def keywords : List String :=
  ["if", "else", "while", "until", "loop", "for", "in", "break", "continue", "return", "goto",
   "gosub", "switch", "case", "default", "try", "catch", "finally", "throw", "global", "local",
   "static", "class", "extends", "new", "and", "or", "not", "is", "byref", "true", "false"]

/-- Whether a word is a keyword, in any case, and so never the name of a symbol. -/
def isReserved (word : List Char) : Bool :=
  keywords.any fun k => sameFolded word k.toList

theorem isIdentChar_of_isPart {c : Char} (h : isPart c = true) : isIdentChar c = true := by
  simp only [isPart, isStart, isIdentChar, isAlphanumeric, isAlphabetic, Bool.or_eq_true] at *
  rcases h with (h | h) | h
  · exact Or.inl h
  · exact Or.inr (Or.inl (Or.inl (Or.inl h)))
  · exact Or.inr (Or.inl (Or.inr h))

end Name
end ScriptSymbols
