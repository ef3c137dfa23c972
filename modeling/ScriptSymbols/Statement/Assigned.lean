import ScriptSymbols.Name
import ScriptSymbols.Statement.Header
import ScriptSymbols.Text.Split

/-!
# Assigned names

The names that a line assigns or declares. Four forms are recognised, and the first that a line has
decides alone:

- `assignment?`: a name with `:=`, `=` or a compound operator;
- `scope?`: a list of names behind `global`, `local` or `static`;
- `loop?`: the one or two variables of a `for` loop;
- `command?`: the arguments of a command that are bare names, which it may write to.
-/

namespace ScriptSymbols
namespace Statement

open Text

/-! ## Assignments -/

/-- The text behind an operator that can be combined with an assignment, if there is one. -/
def dropOperator : List Char → List Char
  | '/' :: '/' :: cs => cs
  | '<' :: '<' :: cs => cs
  | '>' :: '>' :: cs => cs
  | c :: cs => if ['.', '+', '-', '*', '/', '|', '&', '^'].contains c then cs else c :: cs
  | [] => []

/-- Whether a text starts with `=` or `:=` but not with a comparison. -/
def startsAssignment (cs : List Char) : Bool :=
  match (after? ':' cs).getD cs with
  | '=' :: rest => rest.head? != some '='
  | _ => false

/-- The name that a line assigns. -/
def assignment? (line : List Char) : Option (List Char) :=
  match Name.take? (trimStart line) with
  | none => none
  | some (name, rest) => if startsAssignment (dropOperator (trimStart rest)) then some name else none

/-! ## Scope declarations -/

/-- The identifier that starts a text; it may not start with a digit. -/
def leadingName? (cs : List Char) : Option (List Char) :=
  let name := cs.takeWhile Name.isIdentChar
  if name.head?.any (fun c => c == '_' || isAlphabetic c) then some name else none

/-- The names that a line declares to be global, local or static. -/
def scope? (line : List Char) : Option (List (List Char)) :=
  let words := ["global", "local", "static"]
  (words.findSome? fun word => afterKeyword? sameLetter word (trimStart line)).map fun items =>
    (splitTop items).filterMap fun item => leadingName? (trim item)

/-! ## Loops -/

/-- Whether the name of a loop variable may start with a character. Loops are read up to case, by
which the combining iota counts as the letter iota. -/
def isLoopStart (c : Char) : Bool :=
  Name.isStart c || c == '\u0345'

/-- Whether the name of a loop variable may go on with a character. -/
def isLoopPart (c : Char) : Bool :=
  Name.isPart c || c == '\u0345'

/-- Whether a text starts with blanks and the word `in`. -/
def startsIn (cs : List Char) : Bool :=
  match (afterBlanks? cs).bind (keyword? sameLetter "in".toList) with
  | none => false
  | some rest => !rest.head?.any isWordChar

/-- The variables of a `for` loop. -/
def loop? (line : List Char) : Option (List (List Char)) := do
  let cs ← afterKeyword? sameLetter "for" (trimStart line)
  let (first, cs) ← Name.takeBy? isLoopStart isLoopPart cs
  match after? ',' (trimStart cs) with
  | none => if startsIn cs then some [first] else none
  | some cs =>
    let (second, cs) ← Name.takeBy? isLoopStart isLoopPart (trimStart cs)
    if startsIn cs then some [first, second] else none

/-! ## Commands -/

/-- The arguments of a command that are bare names. -/
def command? (line : List Char) : Option (List (List Char)) := do
  let (_, cs) ← Name.take? (trimStart line)
  let args ← after? ',' (trimStart cs)
  return ((splitTop args).map trim).filter Name.isName

/-- The names that a line assigns or declares. -/
def assigned (line : List Char) : List (List Char) :=
  match assignment? line with
  | some name => [name]
  | none => (((scope? line).or (loop? line)).or (command? line)).getD []

end Statement
end ScriptSymbols
