import ScriptSymbols.Report
import ScriptSymbols.Server.Basic
import ScriptSymbols.Stats.Run

/-!
# The command line

What the arguments of the program ask for, and the texts that it prints.
-/

namespace ScriptSymbols
namespace CommandLine

/-- What the program is to do. -/
inductive Action
  | usage
  | version
  | stats (args : List String)
  | serve
  | unknown (arg : String)
  deriving DecidableEq

/-- The action that arguments ask for. The first argument that asks for one decides; an argument that is
not known stops the program. -/
def actionOf (serving : Bool) : List String → Action
  | [] => if serving then .serve else .usage
  | "--stdio" :: args => actionOf true args
  | "--version" :: _ => .version
  | "--help" :: _ => .usage
  | "index-stats" :: args => .stats args
  | arg :: _ => .unknown arg

/-- The text of the version. -/
def versionText : String :=
  programName ++ " " ++ programVersion ++ "\n"

/-- The text of the help. -/
def usageText : String :=
  String.join ((
    [programName ++ " " ++ programVersion ++ ", a static AutoHotkey Language Server.",
     "",
     "Usage: hotscope [OPTIONS]",
     "       hotscope index-stats <path> [--csv] [--include <glob>]... [--exclude <glob>]...",
     "                            [--max-file-size <bytes>]",
     "",
     "Available options:",
     "",
     "--stdio                      Start the LSP server using stdio transport",
     "--version                    Print the version",
     "--help                       Print this help message",
     "",
     "Subcommands:",
     "",
     "index-stats <path>           Index a directory and report per-phase timings",
     "  --csv                      Print results as CSV",
     "  --include <glob>           Only index root-relative paths matching the glob",
     "  --exclude <glob>           Skip root-relative paths matching the glob",
     "  --max-file-size <bytes>    Skip files larger than this (default 524288)",
     ""] : List String).map (· ++ "\n"))

/-- What is printed when the program fails, with the cause of the failure if there is one. -/
def failureText (message : String) (cause : Option String) : String :=
  "Error: " ++ message
    ++ (match cause with
        | some cause => "\n\nCaused by:\n    " ++ cause
        | none => "")
    ++ "\n"

/-- What is printed for an argument that is not known. -/
def unknownText (arg : String) : String :=
  failureText ("Unknown argument: '" ++ arg ++ "'") none

/-- The report of timed phases, as the options ask for. -/
def reportText? (csv : Bool) (phases : List PhaseResult) : Option String :=
  if csv then some (Report.csv phases) else Report.human? phases

/-! ## Messages on the wire -/

/-- The message that answers a request. -/
def response (id : Json) (result : Except Refusal Answer) : Json :=
  match result with
  | .ok answer =>
    .object [("jsonrpc", .string "2.0"), ("result", answer.toJson), ("id", id)]
  | .error refusal =>
    .object
      [("jsonrpc", .string "2.0"),
       ("error",
        .object [("code", .ofInt refusal.code), ("message", .string refusal.message)]),
       ("id", id)]

/-- The message that tells the client a text. -/
def logMessage (text : String) : Json :=
  .object
    [("jsonrpc", .string "2.0"), ("method", .string "window/logMessage"),
     ("params", .object [("type", .ofNat 3), ("message", .string text)])]

/-- Takes one message of a client: the session afterwards and the messages sent back. A message with
an identity is a request, one without a notification. -/
def receive (disk : Disk) (s : Server) (message : Json) : Server × List Json :=
  match (message.field? "method").bind Json.string? with
  | none => (s, [])
  | some method =>
    let params := (message.field? "params").getD .null
    match message.field? "id" with
    | some id =>
      let (s, result) := s.answerNamed method params
      (s, [response id result])
    | none =>
      let effect := s.handleNamed disk method params
      (effect.server, effect.messages.map logMessage)

end CommandLine
end ScriptSymbols
