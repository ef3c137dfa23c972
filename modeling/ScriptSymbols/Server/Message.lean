import ScriptSymbols.Json.Printer
import ScriptSymbols.Workspace.Query

/-!
# Messages of a session

What a client asks and tells the server, and what the server answers, as values and as JSON.

- `Request` and `Notification` are read by `Request.read?` and `Notification.read?`.
- `Answer` is written by `Answer.toJson`.
- `Frame.write` puts a message on the wire: a JSON text behind a header that tells its length in bytes. The
  header ends with an empty line; only the field `Content-Length` of it matters.
-/

namespace ScriptSymbols

/-- What happened to a file, as far as it matters: it is gone, or its text may be new. -/
structure FileEvent where
  uri : Uri
  deleted : Bool
  deriving DecidableEq

/-- A message that is answered. -/
inductive Request
  | start (folders : List Uri) (settings : Option Settings)
  | shutdown
  | completion (uri : Uri) (position : Position)
  | definition (uri : Uri) (position : Position)
  | hover (uri : Uri) (position : Position)
  | documentSymbol (uri : Uri)

/-- A message that is not answered. -/
inductive Notification
  | initialized
  | didOpen (uri : Uri) (text : String) (version : Option Int)
  | didChange (uri : Uri) (changes : List Change) (version : Option Int)
  | didClose (uri : Uri)
  | didChangeSettings (settings : Option Settings)
  | didChangeFiles (events : List FileEvent)

/-- The result of a request. -/
inductive Answer
  | capabilities
  | done
  | suggestions (items : Option (List Suggestion))
  | definition (found : Option Definition)
  | hover (shown : Option Hover)
  | outline (symbols : Option (List OutlineSymbol))

/-! ## Reading -/

namespace Json

/-- The URI under a key. -/
def uri? (key : String) (value : Json) : Option Uri :=
  ((value.field? key).bind string?).map fun text => ⟨text⟩

/-- The URI of the text document that parameters name. -/
def documentUri? (params : Json) : Option Uri :=
  (params.field? "textDocument").bind (uri? "uri")

/-- A position. -/
def position? (value : Json) : Option Position := do
  let line ← (← value.field? "line").nat?
  let column ← (← value.field? "character").nat?
  return ⟨line, column⟩

/-- A range. -/
def range? (value : Json) : Option Range := do
  let start ← (← value.field? "start").position?
  let stop ← (← value.field? "end").position?
  return ⟨start, stop⟩

/-- A change of a text, of a range or of everything. -/
def change? (value : Json) : Option Change := do
  let text ← (← value.field? "text").string?
  match value.field? "range" with
  | none => return { range := none, text }
  | some .null => return { range := none, text }
  | some range => return { range := some (← range.range?), text }

/-- A file event. -/
def fileEvent? (value : Json) : Option FileEvent := do
  let uri ← value.uri? "uri"
  let type ← (← value.field? "type").nat?
  return { uri, deleted := type == 3 }

end Json

namespace Request

/-- The folders of a session: those that the client lists, or else its root. -/
def folders (params : Json) : List Uri :=
  match (params.field? "workspaceFolders").bind Json.items? with
  | some items => items.filterMap (Json.uri? "uri")
  | none => (params.uri? "rootUri").toList

/-- The names of all requests. -/
def names : List String :=
  ["initialize", "shutdown", "textDocument/completion", "textDocument/definition",
   "textDocument/hover", "textDocument/documentSymbol"]

/-- The request that a method name and parameters stand for. -/
def read? (method : String) (params : Json) : Option Request :=
  let place? (make : Uri → Position → Request) : Option Request := do
    return make (← params.documentUri?) (← (← params.field? "position").position?)
  match method with
  | "initialize" =>
    some (.start (folders params)
      ((params.field? "initializationOptions").bind Settings.ofJson?))
  | "shutdown" => some .shutdown
  | "textDocument/completion" => place? .completion
  | "textDocument/definition" => place? .definition
  | "textDocument/hover" => place? .hover
  | "textDocument/documentSymbol" => params.documentUri?.map .documentSymbol
  | _ => none

end Request

namespace Notification

/-- The notification that a method name and parameters stand for. -/
def read? (method : String) (params : Json) : Option Notification :=
  let document := params.field? "textDocument"
  let version := (document.bind (·.field? "version")).bind Json.int?
  match method with
  | "initialized" => some .initialized
  | "textDocument/didOpen" => do
    return .didOpen (← params.documentUri?) (← (← (← document).field? "text").string?) version
  | "textDocument/didChange" => do
    let changes ← (← params.field? "contentChanges").items?
    return .didChange (← params.documentUri?) (changes.filterMap Json.change?) version
  | "textDocument/didClose" => params.documentUri?.map .didClose
  | "workspace/didChangeConfiguration" =>
    (params.field? "settings").map fun settings => .didChangeSettings (Settings.ofJson? settings)
  | "workspace/didChangeWatchedFiles" => do
    let events ← (← params.field? "changes").items?
    return .didChangeFiles (events.filterMap Json.fileEvent?)
  | _ => none

end Notification

/-! ## Writing -/

/-- A position as JSON. -/
def Position.toJson (p : Position) : Json :=
  .object [("line", .ofNat p.line), ("character", .ofNat p.column)]

/-- A range as JSON. -/
def Range.toJson (r : Range) : Json :=
  .object [("start", r.start.toJson), ("end", r.stop.toJson)]

/-- A location as JSON. -/
def Location.toJson (l : Location) : Json :=
  .object [("uri", .string l.uri.text), ("range", l.range.toJson)]

/-- A definition as JSON. -/
def Definition.toJson : Definition → Json
  | .single location => location.toJson
  | .several locations => .ofList Location.toJson locations

/-- What is shown about a name as JSON. -/
def Hover.toJson (h : Hover) : Json :=
  .object
    [("contents", .object [("kind", .string "markdown"), ("value", .string h.markup)]),
     ("range", h.range.toJson)]

/-- A suggestion as JSON; its detail also serves as documentation. -/
def Suggestion.toJson (s : Suggestion) : Json :=
  let kind :=
    match s.kind with
    | .method => 2
    | .variable => 6
  let (text, format) :=
    match s.insertion with
    | .plain text => (text, 1)
    | .snippet text => (text, 2)
  let detail :=
    match s.detail with
    | some detail => [("detail", Json.string detail), ("documentation", Json.string detail)]
    | none => []
  .object
    ([("label", Json.string s.label), ("kind", Json.ofNat kind)] ++ detail
      ++ [("insertText", Json.string text), ("insertTextFormat", Json.ofNat format)])

/-- The fields of a symbol. -/
def SymbolNode.fields (s : SymbolNode) : List (String × Json) :=
  let kind :=
    match s.kind with
    | .method => 12
    | .variable => 13
  let detail :=
    match s.detail with
    | some detail => [("detail", Json.string detail)]
    | none => []
  [("name", Json.string s.name)] ++ detail
    ++ [("kind", Json.ofNat kind), ("range", s.range.toJson), ("selectionRange", s.selection.toJson)]

/-- A symbol with those inside it as JSON. -/
def OutlineSymbol.toJson (s : OutlineSymbol) : Json :=
  let children :=
    if s.children.isEmpty then []
    else [("children", Json.ofList (fun c => .object c.fields) s.children)]
  .object (s.node.fields ++ children)

/-- The name of the program. -/
def programName : String := "hotscope"

/-- The version of the program. -/
def programVersion : String := "0.1.0"

/-- What the server can do: follow changes of ranges, complete, define, hover and outline. -/
def capabilities : Json :=
  .object
    [("capabilities",
      .object
        [("textDocumentSync", .ofNat 2), ("hoverProvider", .bool true),
         ("completionProvider", .object []), ("definitionProvider", .bool true),
         ("documentSymbolProvider", .bool true)]),
     ("serverInfo",
      .object [("name", .string programName), ("version", .string programVersion)])]

/-- An answer as JSON. -/
def Answer.toJson : Answer → Json
  | .capabilities => ScriptSymbols.capabilities
  | .done => .null
  | .suggestions items => .ofOption (.ofList Suggestion.toJson) items
  | .definition found => .ofOption Definition.toJson found
  | .hover shown => .ofOption Hover.toJson shown
  | .outline symbols => .ofOption (.ofList OutlineSymbol.toJson) symbols

/-! ## Framed messages -/

namespace Frame

open Text

/-- The name of the field that tells the length. -/
def lengthField : List Char :=
  "Content-Length".toList

/-- The length that a line of a header tells, if it is the line for it. -/
def length? (line : String) : Option Nat :=
  let cs := line.toList
  if sameFolded (trim (cs.takeWhile (· != ':'))) lengthField then
    Json.natOfDigits? (trim ((cs.dropWhile (· != ':')).drop 1))
  else none

/-- Whether a line ends a header. -/
def isEnd (line : String) : Bool :=
  allBlank line.toList

/-- A message as it is written on the wire. -/
def write (message : Json) : String :=
  let body := message.render
  String.ofList lengthField ++ ": " ++ toString body.utf8ByteSize ++ "\r\n\r\n" ++ body

end Frame
end ScriptSymbols
