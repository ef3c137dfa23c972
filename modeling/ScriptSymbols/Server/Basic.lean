import ScriptSymbols.Server.Message

/-!
# The language server

A session with one client. Requests only look at the workspace; notifications change it, and read the
disk where the editor does not supply the text.

- `Server.answer` answers a request.
- `Server.handle` follows a notification.
- `Server.treesRead` and `Server.filesRead` are the parts of the disk that a notification is followed with:
  the directory trees that are walked for it and the files that it names.
- Before it is initialised and after it is shut down, a server refuses requests and ignores
  notifications.
-/

namespace ScriptSymbols

/-- How far a session has come. -/
inductive Phase
  | fresh
  | running
  | stopped
  deriving DecidableEq

/-- What the last indexing of the workspace found: the number of files, and how many files and methods
were indexed. -/
structure Metrics where
  scanned : Nat
  indexed : Nat
  methods : Nat
  deriving DecidableEq

/-- A session. -/
structure Server where
  phase : Phase := .fresh
  workspace : Workspace := {}
  metrics : Option Metrics := none

/-- Why a request is refused. -/
inductive Refusal
  | notInitialized
  | invalidRequest
  | unknownMethod
  | invalidParams
  deriving DecidableEq

/-- The code of a refusal. -/
def Refusal.code : Refusal → Int
  | .notInitialized => -32002
  | .invalidRequest => -32600
  | .unknownMethod => -32601
  | .invalidParams => -32602

/-- The refusal in words. -/
def Refusal.message : Refusal → String
  | .notInitialized => "Server not initialized"
  | .invalidRequest => "Invalid request"
  | .unknownMethod => "Method not found"
  | .invalidParams => "Invalid params"

namespace Workspace

/-! ## Indexing the workspace -/

/-- What indexing the workspace does: the workspace afterwards, what was found, and what is told to the
client. -/
structure Indexing where
  workspace : Workspace
  metrics : Metrics
  message : String

/-- A summary in words. -/
def messageOf (s : SymbolIndex.Summary) : String :=
  "Indexed " ++ toString s.indexed ++ " workspace files (" ++ toString s.methods ++ " methods, "
    ++ toString s.globals ++ " variables, " ++ toString s.skipped ++ " skipped, "
    ++ toString s.failed ++ " failed)"

/-- Indexes all files of the workspace, unless that is switched off, and then the open buffers again,
so that a file never wins over its buffer. -/
def indexFiles (disk : Disk) (w : Workspace) : Option Indexing :=
  if w.settings.indexWorkspace then
    let paths := files disk w.settings w.folders
    let bulk := w.index.indexPaths (some disk.source) paths w.settings.maxFileSize
    some
      { workspace := reindexOpen { w with index := bulk.index }
        metrics :=
          { scanned := paths.length
            indexed := bulk.summary.indexed
            methods := bulk.summary.methods }
        message := messageOf bulk.summary }
  else none

/-- Removes everything from the index but the open buffers. -/
def clearIndex (w : Workspace) : Workspace :=
  reindexOpen { w with index := w.index.clear }

/-! ## Files that change on disk -/

/-- Whether an event concerns the index: the file has no open buffer, and it is gone or belongs to the
workspace. -/
def concerns (w : Workspace) (e : FileEvent) : Bool :=
  !w.isOpen e.uri && (e.deleted || w.isIndexable e.uri)

/-- Follows one event. -/
def followEvent (disk : Disk) (ix : SymbolIndex) (e : FileEvent) : SymbolIndex :=
  if e.deleted then ix.remove e.uri else refresh disk ix e.uri

/-- Follows the events that concern the index. -/
def followEvents (disk : Disk) (w : Workspace) (events : List FileEvent) : Workspace :=
  { w with index := (events.filter w.concerns).foldl (followEvent disk) w.index }

/-- Closes a buffer and falls back to what the disk holds. -/
def closeAndRefresh (disk : Disk) (w : Workspace) (uri : Uri) : Workspace :=
  let w := w.closeDocument uri
  { w with index := refresh disk w.index uri }

end Workspace

namespace Server

/-! ## Requests -/

/-- Answers a request in a running session. -/
def answerRunning (w : Workspace) : Request → Except Refusal Answer
  | .start _ _ => .error .invalidRequest
  | .shutdown => .ok .done
  | .completion uri p => .ok (.suggestions (w.complete? uri p))
  | .definition uri p => .ok (.definition (w.define? uri p))
  | .hover uri p => .ok (.hover (w.hover? uri p))
  | .documentSymbol uri => .ok (.outline (w.outline? uri))

/-- Answers a request. -/
def answer (s : Server) (request : Request) : Server × Except Refusal Answer :=
  match s.phase with
  | .fresh =>
    match request with
    | .start folders settings =>
      let w := s.workspace
      ({ s with
          phase := .running
          workspace :=
            { w with folders := w.folders ++ folders, settings := settings.getD w.settings } },
        .ok .capabilities)
    | _ => (s, .error .notInitialized)
  | .running =>
    let phase :=
      match request with
      | .shutdown => Phase.stopped
      | _ => Phase.running
    ({ s with phase }, answerRunning s.workspace request)
  | .stopped => (s, .error .invalidRequest)

/-! ## Notifications -/

/-- What follows a notification: the session afterwards, the messages for the client, and whether a
change failed. -/
structure Effect where
  server : Server
  messages : List String := []
  outcome : Except ChangeError Unit := .ok ()

/-- Indexes the files of the workspace. -/
def index (disk : Disk) (s : Server) : Effect :=
  match s.workspace.indexFiles disk with
  | none => { server := s }
  | some done =>
    { server := { s with workspace := done.workspace, metrics := some done.metrics }
      messages := [done.message] }

/-- Takes over new settings; if they differ from the old ones, the index is built anew. -/
def changeSettings (disk : Disk) (s : Server) (settings : Settings) : Effect :=
  let w := { s.workspace with settings }
  if s.workspace.settings = settings then { server := { s with workspace := w } }
  else index disk { s with workspace := w.clearIndex }

/-- Follows a notification in a running session. -/
def handleRunning (disk : Disk) (s : Server) : Notification → Effect
  | .initialized => index disk s
  | .didOpen uri text version =>
    { server := { s with workspace := s.workspace.openDocument uri text version } }
  | .didChange uri changes version =>
    let (workspace, outcome) := s.workspace.changeDocument uri changes version
    { server := { s with workspace }, outcome }
  | .didClose uri => { server := { s with workspace := s.workspace.closeAndRefresh disk uri } }
  | .didChangeSettings none => { server := s }
  | .didChangeSettings (some settings) => changeSettings disk s settings
  | .didChangeFiles events =>
    { server := { s with workspace := s.workspace.followEvents disk events } }

/-- Follows a notification. -/
def handle (disk : Disk) (s : Server) (n : Notification) : Effect :=
  if s.phase = .running then handleRunning disk s n else { server := s }

/-! ## Messages by name -/

/-- Answers a request given by its method name and parameters. -/
def answerNamed (s : Server) (method : String) (params : Json) : Server × Except Refusal Answer :=
  match Request.read? method params with
  | some request => s.answer request
  | none =>
    (s, .error (if Request.names.contains method then .invalidParams else .unknownMethod))

/-- Follows a notification given by its method name and parameters; one that is unknown is ignored. -/
def handleNamed (disk : Disk) (s : Server) (method : String) (params : Json) : Effect :=
  match Notification.read? method params with
  | some n => s.handle disk n
  | none => { server := s }

/-! ## What a notification reads -/

/-- The settings that are in force once a notification is followed. -/
def settingsAfter (s : Server) : Notification → Settings
  | .didChangeSettings (some settings) => settings
  | _ => s.workspace.settings

/-- The roots of the directory trees that are walked for a notification. -/
def treesRead (s : Server) : Notification → List Path
  | .initialized => s.workspace.folders.filterMap Uri.path?
  | .didChangeSettings (some _) => s.workspace.folders.filterMap Uri.path?
  | _ => []

/-- The files that a notification names and that are read for it. -/
def filesRead : Notification → List Path
  | .didClose uri => uri.path?.toList
  | .didChangeFiles events => events.filterMap fun e => e.uri.path?
  | _ => []

end Server
end ScriptSymbols
