import ScriptSymbols.Skeleton
import ScriptSymbols.Statement.Header
import ScriptSymbols.Text.Lines
import ScriptSymbols.Text.Split

/-!
# The lines of a script with their code

Each line of a script is kept as it is written and as the code that symbols are looked for in. The
code of a line in a block comment is empty, that of any other line is its skeleton.

- `Source.ofLines` follows the block comments through the lines.
- `Source.declaration?` reads the declaration that starts a list of lines.
- `Source.commentOf?` is the comment right above a line.
-/

namespace ScriptSymbols

open Text

/-- A line as it is written, and its code. -/
structure SourceLine where
  raw : List Char
  code : List Char

namespace Source

/-- Whether a line opens a block comment. -/
def opensComment (line : List Char) : Bool :=
  ['/', '*'].isPrefixOf (trimStart line)

/-- Whether a line ends a block comment that it lies in. -/
def closesComment (line : List Char) : Bool :=
  occursIn ['*', '/'] line

/-- The lines with their code, where `inComment` says that a block comment is open before them. -/
def ofLinesFrom (inComment : Bool) : List (List Char) → List SourceLine
  | [] => []
  | raw :: rest =>
    if inComment || opensComment raw then
      { raw, code := [] } :: ofLinesFrom (!closesComment raw) rest
    else { raw, code := skeleton raw } :: ofLinesFrom false rest

/-- The lines of a script with their code. -/
def ofLines (lines : List (List Char)) : List SourceLine :=
  ofLinesFrom false lines

/-- The lines of a text with their code. -/
def ofText (text : List Char) : List SourceLine :=
  ofLines (lines text)

/-- A method declaration: its name, the text of its parameter list, and the code that follows the
opening brace on the same line, if there is any. -/
structure Declaration where
  name : List Char
  params : List Char
  body : Option (List Char)

/-- Whether the first line with any code opens a block. -/
def opensBlock (lines : List SourceLine) : Bool :=
  match lines.find? (fun line => !allBlank line.code) with
  | none => false
  | some line => (trimStart line.code).head? == some '{'

/-- The declaration in the first of some lines. The body must be opened on that line or on the next
one that has any code; otherwise the line is a call. -/
def declaration? : List SourceLine → Option Declaration
  | [] => none
  | line :: rest =>
    match Statement.header? line.code with
    | none => none
    | some header =>
      if Name.isReserved header.name then none
      else if header.body.isSome || opensBlock rest then
        some
          { name := header.name
            params := header.params
            body := (header.body.map trim).filter (!·.isEmpty) }
      else none

/-- The text of a comment line without its marks. -/
def commentText (line : List Char) : List Char :=
  trim ((trim line).dropWhile (· == ';'))

/-- The comment made of the comment lines right above a line, where `above` lists the lines above it
from the nearest to the first. -/
def commentOf? (above : List SourceLine) : Option (List Char) :=
  let block := above.takeWhile fun line => (trim line.raw).head? == some ';'
  let comment := trim (join ['\n'] (block.map fun line => commentText line.raw).reverse)
  if comment.isEmpty then none else some comment

end Source
end ScriptSymbols
