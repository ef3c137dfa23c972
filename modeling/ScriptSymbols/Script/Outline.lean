import ScriptSymbols.Script.Basic
import ScriptSymbols.Script.Source
import ScriptSymbols.Statement.Assigned
import ScriptSymbols.Statement.Header

/-!
# The outline of a script

The outline is built line by line. A declaration opens a method, closing one that is still open; the
brace that brings the depth back to what it was before the declaration closes it. A name assigned
while a method is open is local to it, any other name is a variable of the file.

- `Outline` is what is known after some lines.
- `Outline.addLine` takes one line.
- `Script.ofText` is the finished outline of a text.
-/

namespace ScriptSymbols

open Text

/-- A method whose body is not closed yet, with the depth before its declaration, and whether a brace
has brought the depth above that. -/
structure OpenMethod where
  method : Method
  startDepth : Nat
  entered : Bool

/-- What is known after some lines: the methods closed so far, the one that is open, the variables of
the file and the depth of braces. -/
structure Outline where
  methods : List Method := []
  current : Option OpenMethod := none
  globals : List Variable := []
  depth : Nat := 0

/-- The method, closed at the given line. -/
def OpenMethod.close (m : OpenMethod) (line : Nat) : Method :=
  { m.method with endLine := max line m.method.line }

/-- Whether one of the variables has a name, up to case. -/
def declares (known : List Variable) (name : String) : Bool :=
  known.any fun v => sameName v.name name

/-- The method with one more local variable, unless a parameter or a variable has its name. -/
def Method.addVariable (m : Method) (name : String) (line : Nat) : Method :=
  if m.params.any (sameName · name) || declares m.locals name then m
  else { m with locals := m.locals ++ [{ name, line, owner := some m.name }] }

namespace Outline

/-- Records a name that a line assigns; the first line to do so counts. -/
def addName (line : Nat) (o : Outline) (name : List Char) : Outline :=
  if Name.isReserved name then o
  else
    let name := String.ofList name
    match o.current with
    | some m => { o with current := some { m with method := m.method.addVariable name line } }
    | none =>
      if declares o.globals name then o
      else { o with globals := o.globals ++ [{ name, line, owner := none }] }

/-- Records the names that some code assigns. -/
def addNames (line : Nat) (o : Outline) (code : List Char) : Outline :=
  (Statement.assigned code).foldl (addName line) o

/-- Follows one character of code: braces change the depth, and may close the open method. -/
def addChar (line : Nat) (o : Outline) (c : Char) : Outline :=
  if c = '{' then
    let depth := o.depth + 1
    { o with
      depth
      current := o.current.map fun m => { m with entered := m.entered || m.startDepth < depth } }
  else if c = '}' then
    let depth := o.depth - 1
    match o.current with
    | some m =>
      if m.entered && depth ≤ m.startDepth then
        { o with depth, current := none, methods := o.methods ++ [m.close line] }
      else { o with depth }
    | none => { o with depth }
  else o

/-- Closes the open method, if there is one, at the given line. -/
def closeAt (line : Nat) (o : Outline) : Outline :=
  match o.current with
  | some m => { o with current := none, methods := o.methods ++ [m.close line] }
  | none => o

/-- The method that a declaration opens, before anything is known of its body. -/
def methodOf (uri : Uri) (above : List SourceLine) (line : Nat) (d : Source.Declaration) : Method :=
  { name := String.ofList d.name
    signature := String.ofList (d.name ++ ('(' :: trim d.params ++ [')']))
    params := (Statement.paramNames d.params).map String.ofList
    comment := (Source.commentOf? above).map String.ofList
    uri
    line
    endLine := line
    locals := [] }

/-- Opens the method of a declaration and records the names in its body's first line. -/
def declare (uri : Uri) (above : List SourceLine) (line : Nat) (o : Outline)
    (d : Source.Declaration) : Outline :=
  let o := o.closeAt (line - 1)
  let o := { o with
    current := some
      { method := methodOf uri above line d, startDepth := o.depth, entered := false } }
  match d.body with
  | some body => o.addNames line body
  | none => o

/-- Takes the first of some lines, where `above` lists the lines before it from the nearest to the
first. -/
def addLine (uri : Uri) (above : List SourceLine) (o : Outline) (line : SourceLine)
    (rest : List SourceLine) : Outline :=
  let n := above.length
  let o :=
    match Source.declaration? (line :: rest) with
    | some d => o.declare uri above n d
    | none => o.addNames n line.code
  line.code.foldl (addChar n) o

/-- Takes all lines, where `above` lists the lines taken before, from the last to the first. -/
def addLines (uri : Uri) (above : List SourceLine) (o : Outline) : List SourceLine → Outline
  | [] => o
  | line :: rest => addLines uri (line :: above) (o.addLine uri above line rest) rest

end Outline

/-- The script made of some lines. A method that is still open ends with the last line. -/
def Script.ofSource (uri : Uri) (source : List SourceLine) : Script :=
  let o := (Outline.addLines uri [] {} source).closeAt (source.length - 1)
  { uri, methods := o.methods, globals := o.globals }

/-- The symbols of a text. -/
def Script.ofText (uri : Uri) (text : String) : Script :=
  Script.ofSource uri (Source.ofText text.toList)

end ScriptSymbols
