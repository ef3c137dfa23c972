import ScriptSymbols.Name.Span
import ScriptSymbols.Suggestion
import ScriptSymbols.Workspace.Basic

/-!
# Questions to the workspace

What an editor asks about a place in an open buffer or about a script.

- `Workspace.complete?`: what may be typed here;
- `Workspace.define?`: where the name here is declared;
- `Workspace.hover?`: what the name here stands for;
- `Workspace.outline?`: the symbols of a script.
-/

namespace ScriptSymbols

open Text

/-- A range in a script. -/
structure Location where
  uri : Uri
  range : Range
  deriving DecidableEq

/-- The answer to a question for a declaration: one place, or several methods of one name. -/
inductive Definition
  | single (location : Location)
  | several (locations : List Location)
  deriving DecidableEq

/-- What is shown about a name: text with markup, and the range of the name. -/
structure Hover where
  markup : String
  range : Range
  deriving DecidableEq

/-- A symbol of an outline, with its whole range and the range of its name. -/
structure SymbolNode where
  name : String
  detail : Option String
  kind : SuggestionKind
  range : Range
  selection : Range
  deriving DecidableEq

/-- A symbol of an outline with the symbols inside it. -/
structure OutlineSymbol where
  node : SymbolNode
  children : List SymbolNode
  deriving DecidableEq

namespace Workspace

/-- The text of a line of an open buffer. -/
def lineText? (w : Workspace) (uri : Uri) (line : Nat) : Option (List Char) :=
  (w.document? uri).bind (·.lineText? line)

/-- The identifier at a position of an open buffer, with its range. -/
def wordAt? (w : Workspace) (uri : Uri) (p : Position) : Option (String × Range) :=
  ((w.lineText? uri p.line).bind (Name.identifierAt? · p.column)).map fun span =>
    (String.ofList span.word, ⟨⟨p.line, span.start⟩, ⟨p.line, span.stop⟩⟩)

/-- The range of a name on a line of an open buffer, or the start of the line. -/
def nameRange (w : Workspace) (uri : Uri) (line : Nat) (name : String) : Range :=
  let (start, stop) := ((w.lineText? uri line).bind (Name.span? · name.toList)).getD (0, 0)
  ⟨⟨line, start⟩, ⟨line, stop⟩⟩

/-- The end of a line of an open buffer, or the start of the line. -/
def lineEnd (w : Workspace) (uri : Uri) (line : Nat) : Position :=
  ⟨line, ((w.lineText? uri line).map units).getD 0⟩

/-! ## Completion -/

/-- The suggestions at a line of a script. -/
def suggestions (w : Workspace) (uri : Uri) (line : Nat) : List Suggestion :=
  Suggestion.compose w.index.methods uri line (((w.script? uri).map (·.globals)).getD [])

/-- The suggestions at a position; behind a dot there are none. -/
def complete? (w : Workspace) (uri : Uri) (p : Position) : Option (List Suggestion) :=
  if (w.lineText? uri p.line).any (Suggestion.isMemberAccess · p.column) then none
  else some (w.suggestions uri p.line)

/-! ## Definitions -/

/-- Where a name that is in scope at a line of a script is declared in it: as a parameter or variable
of the method around the line, or as a variable of the file. -/
def defineInScript? (w : Workspace) (uri : Uri) (line : Nat) (name : String) (s : Script) :
    Option Range :=
  let local? := (s.methodAt? line).bind fun m =>
    if m.params.any (sameName · name) then some (w.nameRange uri m.line name)
    else (m.locals.find? (sameName ·.name name)).map fun v => w.nameRange uri v.line v.name
  local?.or ((s.globals.find? (sameName ·.name name)).map fun v => w.nameRange uri v.line v.name)

/-- The places where methods of a name are declared, in any script. -/
def methodLocations (w : Workspace) (name : String) : List Location :=
  (w.index.findMethods name).map fun m => ⟨m.uri, w.nameRange m.uri m.line m.name⟩

/-- Where the name at a position is declared. Names of the script come before methods. -/
def define? (w : Workspace) (uri : Uri) (p : Position) : Option Definition :=
  match w.wordAt? uri p with
  | none => none
  | some (name, _) =>
    match (w.script? uri).bind (w.defineInScript? uri p.line name) with
    | some range => some (.single ⟨uri, range⟩)
    | none =>
      match w.methodLocations name with
      | [] => none
      | [location] => some (.single location)
      | locations => some (.several locations)

/-! ## Hover -/

/-- A comment with the characters that have a meaning in markup escaped. -/
def escapeMarkup (text : List Char) : List Char :=
  text.flatMap fun c => if "*_[]#`\\".toList.contains c then ['\\', c] else [c]

/-- What is shown about a method: its signature as code, and its comment. -/
def describe (m : Method) : String :=
  "```autohotkey\n" ++ m.signature ++ "\n```"
    ++ (match m.comment with
        | none => ""
        | some comment => "\n\n" ++ String.ofList (escapeMarkup comment.toList))

/-- The method that the name at a position stands for; one of the same script is preferred. -/
def hover? (w : Workspace) (uri : Uri) (p : Position) : Option Hover :=
  (w.wordAt? uri p).bind fun (name, range) =>
    let methods := w.index.findMethods name
    ((methods.find? (·.uri = uri)).or methods.head?).map fun m => ⟨describe m, range⟩

/-! ## Outlines -/

/-- The symbol of a variable. -/
def variableNode (w : Workspace) (uri : Uri) (v : Variable) : SymbolNode :=
  let range := w.nameRange uri v.line v.name
  { name := v.name, detail := none, kind := .variable, range, selection := range }

/-- The symbol of a method, with those of its variables inside. -/
def methodSymbol (w : Workspace) (uri : Uri) (m : Method) : OutlineSymbol :=
  { node :=
      { name := m.name
        detail := some m.signature
        kind := .method
        range := ⟨⟨m.line, 0⟩, w.lineEnd uri m.endLine⟩
        selection := w.nameRange uri m.line m.name }
    children := m.locals.map (w.variableNode uri) }

/-- The symbol of a variable of the file. -/
def variableSymbol (w : Workspace) (uri : Uri) (v : Variable) : OutlineSymbol :=
  { node := w.variableNode uri v, children := [] }

/-- Whether one symbol starts no later than another one. -/
def startsBefore (a b : OutlineSymbol) : Bool :=
  let p := a.node.range.start
  let q := b.node.range.start
  p.line < q.line || (p.line == q.line && p.column ≤ q.column)

/-- The symbols of a script by their start; of two that start together a method comes first. -/
def outline? (w : Workspace) (uri : Uri) : Option (List OutlineSymbol) :=
  (w.script? uri).map fun s =>
    (s.methods.map (w.methodSymbol uri) ++ s.globals.map (w.variableSymbol uri)).mergeSort
      startsBefore

end Workspace
end ScriptSymbols
