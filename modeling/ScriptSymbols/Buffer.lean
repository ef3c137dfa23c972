import ScriptSymbols.Text.Basic
import ScriptSymbols.Text.Units
import ScriptSymbols.Total

/-!
# Editor buffers

A buffer holds the text of an open script as the editor sees it. Its lines end at more characters
than the lines of a script do: a line feed, a carriage return with or without a line feed, a vertical
tab, a form feed, a next-line character, a line separator and a paragraph separator. The break belongs
to the line that it ends, and there is always a last line behind the last break.

- `Position` and `Range` are places in a text: a line and a column in UTF-16 units, both counted from zero.
- `Buffer.lines` are the lines with their breaks, `Buffer.lineText?` one line without its end.
- `Buffer.indexOf?` finds the place of a position.
- `Buffer.apply` applies a change.
-/

namespace ScriptSymbols

open Text

/-- A place in a text. -/
structure Position where
  line : Nat
  column : Nat
  deriving DecidableEq

/-- The part of a text from one position up to another one. -/
structure Range where
  start : Position
  stop : Position
  deriving DecidableEq

/-- An open text: its characters, the version that the editor gave it, and the number of changes
since it was opened. -/
structure Buffer where
  contents : List Char
  version : Option Int
  revision : Nat := 0

/-- A change of a buffer: new text in place of a range, or of everything. -/
structure Change where
  range : Option Range
  text : String

/-- Why a change cannot be applied. -/
inductive ChangeError
  | reversedRange
  deriving DecidableEq

namespace Buffer

/-- The buffer of a text that is just opened. -/
def ofText (text : String) (version : Option Int) : Buffer :=
  { contents := text.toList, version }

/-- The text of a buffer. -/
def text (b : Buffer) : String :=
  String.ofList b.contents

/-- Whether a character ends a line. -/
def isBreak (c : Char) : Bool :=
  c == '\n' || c == '\r' || c == '\x0b' || c == '\x0c' || c == '\u0085' || c == '\u2028'
    || c == '\u2029'

/-- Adds a character to the lines of the text behind it. -/
def consLine (c : Char) : List (List Char) → List (List Char)
  | [] => [[c]]
  | line :: lines =>
    if isBreak c ∧ ¬(c = '\r' ∧ line.head? = some '\n') then [c] :: line :: lines
    else (c :: line) :: lines

/-- The lines of some text, each with its break. -/
def splitLines (text : List Char) : List (List Char) :=
  text.foldr consLine [[]]

/-- The lines of a buffer, each with its break. -/
def lines (b : Buffer) : List (List Char) :=
  splitLines b.contents

/-- A line without the feeds and returns at its end. -/
def dropEnd (line : List Char) : List Char :=
  dropEndWhile (fun c => c == '\n' || c == '\r') line

/-- The text of a line without its end, if there is such a line. -/
def lineText? (b : Buffer) (n : Nat) : Option (List Char) :=
  (b.lines[n]?).map dropEnd

/-- The number of characters before a position, if there is such a line. Columns count into the break
and end with it. -/
def indexOf? (lines : List (List Char)) (p : Position) : Option Nat :=
  (lines[p.line]?).map fun line =>
    total List.length (lines.take p.line) + indexOfColumn line p.column

/-- The buffer with new contents, one revision on. -/
def withContents (b : Buffer) (contents : List Char) : Buffer :=
  { b with contents, revision := b.revision + 1 }

/-- Applies a change. A range on lines that do not exist is ignored; a range that ends before it
starts is an error. -/
def apply (b : Buffer) (change : Change) : Except ChangeError Buffer :=
  match change.range with
  | none => .ok (b.withContents change.text.toList)
  | some range =>
    match indexOf? b.lines range.start, indexOf? b.lines range.stop with
    | some i, some j =>
      if j < i then .error .reversedRange
      else
        .ok (b.withContents (b.contents.take i ++ (change.text.toList ++ b.contents.drop j)))
    | _, _ => .ok b

/-- Applies changes one after another up to the first that fails, and says whether one did. -/
def applyAll (b : Buffer) : List Change → Buffer × Except ChangeError Unit
  | [] => (b, .ok ())
  | change :: changes =>
    match b.apply change with
    | .ok b => b.applyAll changes
    | .error e => (b, .error e)

end Buffer
end ScriptSymbols
