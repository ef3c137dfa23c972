import ScriptSymbols.CommandLine
import ScriptSymbols.Server.Message
import ScriptSymbols.Json.Reader
import ScriptSymbols.Server.Basic
import ScriptSymbols.Stats.Run

/-!
# The program

The outer layer: it takes snapshots of the parts of the disk that are needed, passes them to the pure
functions, and prints what these return.
-/

namespace ScriptSymbols
namespace Program

/-! ## Snapshots of the disk -/

/-- The directory that steps from a place lead to, and the disk with all directories on the way. -/
def enter (disk : Disk) (place : List FileName) (steps : List FileName) : Disk × List FileName :=
  steps.foldl
    (fun (disk, place) step =>
      if step = [Path.dot] then (disk, place)
      else if step = [Path.dot, Path.dot] then (disk, place.dropLast)
      else (disk.put (place ++ [step]) .directory, place ++ [step]))
    (disk, place)

/-- The directory that a path leads to, and the disk with all directories on the way. -/
def enterPath (disk : Disk) (p : Path) : Disk × List FileName :=
  enter disk (if p.isAbsolute then [] else disk.workingDirectory) (Disk.stepsOf p)

/-- A disk with nothing but the working directory. -/
def bareDisk : IO Disk := do
  let here := Path.ofString (← IO.currentDir).toString
  let (disk, workingDirectory) := enterPath {} here
  return { disk with workingDirectory }

/-- The nodes below a directory. Of the files only those that are wanted are read. -/
partial def nodesBelow (wanted : Path → Bool) (place : List FileName) (dir : String) :
    IO (List (List FileName × Node)) := do
  let mut nodes := []
  for entry in (← (← IO.FS.realPath dir).readDir) do
    let here := place ++ [Text.encode entry.fileName.toList]
    match (← entry.path.symlinkMetadata).type with
    | .dir => nodes := (here, .directory) :: (← nodesBelow wanted here entry.path.toString) ++ nodes
    | .file =>
      let bytes ←
        if wanted (Path.ofString entry.fileName) then IO.FS.readBinFile entry.path
        else pure ByteArray.empty
      nodes := (here, .file bytes.toList) :: nodes
    | _ => nodes := (here, .link (Path.ofString "")) :: nodes
  return nodes

/-- Adds a directory tree to a disk; one that cannot be looked at is left out. -/
def addTree (wanted : Path → Bool) (disk : Disk) (root : Path) : IO Disk := do
  let (entered, place) := enterPath disk root
  try
    let nodes ← nodesBelow wanted place root.text
    return { entered with nodes := entered.nodes ++ nodes }
  catch _ => return disk

/-- Whether a path leads to a directory. -/
def isDirectory (p : Path) : IO Bool := do
  try (← IO.FS.realPath p.text).isDir catch _ => return false

/-- Adds one file to a disk; one that is not there is left out. -/
def addFile (disk : Disk) (p : Path) : IO Disk := do
  let (entered, place) := enterPath disk p
  try
    let bytes ← IO.FS.readBinFile p.text
    return entered.put place (.file bytes.toList)
  catch _ => if ← isDirectory p then return entered else return disk

/-! ## Printing -/

/-- Ends the program as failed. -/
def fail (message : String) (cause : Option String) : IO UInt32 := do
  (← IO.getStderr).putStr (CommandLine.failureText message cause)
  return 1

/-! ## The report -/

/-- Runs a phase and takes its time. -/
def timed {α : Type} (name : String) (detail : α → String) (act : IO α) : IO (α × PhaseResult) := do
  let start ← IO.monoNanosNow
  let value ← act
  let detail := detail value
  let stop ← IO.monoNanosNow
  let status ← try IO.FS.readFile "/proc/self/status" catch _ => pure ""
  return (value,
    { name, nanoseconds := stop - start, peakMemory := Stats.peakMemory? status, detail })

/-- Indexes a directory and prints the report. Looking at the disk counts to the first phase. -/
def report (o : Stats.Options) : IO UInt32 := do
  let look : IO (Disk × Except IndexError (List Path)) := do
    let disk ← addTree (Walk.hasExtension Walk.defaultExtensions) (← bareDisk) o.path
    return (disk, Stats.scan disk o)
  let ((disk, found), scan) ←
    timed "scan" (fun (_, found) => Stats.scanDetail (found.toOption.getD [])) look
  match found with
  | .error e => fail e.message e.source?
  | .ok paths =>
    let (reading, read) ←
      timed "read" Stats.readDetail (IO.lazyPure fun _ => Stats.readFiles disk o.maxFileSize paths)
    let (scripts, parse) ←
      timed "parse" Stats.outlineDetail (IO.lazyPure fun _ => Stats.outlineTexts reading.texts)
    let (_, index) ←
      timed "index" Stats.indexDetail (IO.lazyPure fun _ => Stats.indexScripts scripts)
    match CommandLine.reportText? o.csv [scan, read, parse, index] with
    | some text => IO.print text; return 0
    | none => fail "overflow when summing durations" none

/-- Reads the options of the report and prints it. -/
def stats (args : List String) : IO UInt32 := do
  let found ←
    match (Stats.readArgs {} args).toOption.bind (·.path) with
    | none => pure false
    | some p => isDirectory p
  match Stats.Options.ofArgs (fun _ => found) args with
  | .error e => fail e.message none
  | .ok o => report o

/-! ## The server -/

/-- The parts of the disk that a message needs. -/
def diskFor (s : Server) (message : Json) : IO Disk := do
  let disk ← bareDisk
  let params := (message.field? "params").getD .null
  match ((message.field? "method").bind Json.string?).bind (Notification.read? · params) with
  | none => return disk
  | some n =>
    let extensions := Walk.normalizeExtensions (s.settingsAfter n).extensions
    let disk ← (s.treesRead n).foldlM (addTree (Walk.hasExtension extensions)) disk
    (Server.filesRead n).foldlM addFile disk

/-- Reads the lines of a header and gives the length that it tells; there is none at the end of the
input. -/
partial def readHeader (input : IO.FS.Stream) (length : Option Nat) : IO (Option Nat) := do
  let line ← input.getLine
  if line.isEmpty then return none
  else if Frame.isEnd line then return some (length.getD 0)
  else readHeader input ((Frame.length? line).or length)

/-- Reads that many bytes, or as many as there are. -/
partial def readBytes (input : IO.FS.Stream) (count : Nat) (read : ByteArray) : IO ByteArray := do
  if count ≤ read.size then return read
  else
    let bytes ← input.read (count - read.size).toUSize
    if bytes.isEmpty then return read else readBytes input count (read ++ bytes)

/-- Serves one client until the input ends. -/
partial def serve (input output : IO.FS.Stream) (s : Server) : IO UInt32 := do
  match ← readHeader input none with
  | none => return 0
  | some length =>
    let bytes ← readBytes input length ByteArray.empty
    match Json.parse? (String.ofList (Text.decode bytes.toList)) with
    | none => serve input output s
    | some message =>
      let (s, replies) := CommandLine.receive (← diskFor s message) s message
      for reply in replies do
        output.putStr (Frame.write reply)
      output.flush
      serve input output s

/-- Does what the arguments ask for. -/
def run (args : List String) : IO UInt32 := do
  match CommandLine.actionOf false args with
  | .usage => IO.print CommandLine.usageText; return 0
  | .version => IO.print CommandLine.versionText; return 0
  | .stats args => stats args
  | .serve => serve (← IO.getStdin) (← IO.getStdout) {}
  | .unknown arg =>
    (← IO.getStderr).putStr (CommandLine.unknownText arg)
    return 1

end Program
end ScriptSymbols

/-- The program. -/
def main (args : List String) : IO UInt32 :=
  ScriptSymbols.Program.run args
