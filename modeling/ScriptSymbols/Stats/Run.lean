import ScriptSymbols.Disk
import ScriptSymbols.Json.Basic
import ScriptSymbols.Stats.Options
import ScriptSymbols.SymbolIndex
import ScriptSymbols.Total

/-!
# Indexing a directory in phases

A directory is indexed once in four phases, each of which can be timed on its own: its files are found,
read, outlined and put into an index.

- `Stats.scan`, `Stats.readFiles`, `Stats.outlineTexts` and `Stats.indexScripts` are the phases.
- `Stats.run` takes all four and says what each did.
- `Stats.peakMemory?` is the peak of memory in use. The operating system describes a running process in
  lines of a name, a colon and a value; the peak is one of them, in units of 1024 bytes.
-/

namespace ScriptSymbols
namespace Stats

open Text

/-- The script files below the directory. -/
def scan (disk : Disk) (o : Options) : Except IndexError (List Path) :=
  Walk.collect disk.listing Walk.defaultExtensions o.path o.includes o.excludes

/-- What the first phase did. -/
def scanDetail (paths : List Path) : String :=
  toString paths.length ++ " files"

/-- What reading the files gives: the texts, the number of bytes read, and how many files were too
large or failed. -/
structure Reading where
  texts : List (Uri × String) := []
  bytes : Nat := 0
  skipped : Nat := 0
  failed : Nat := 0

/-- Reads files. One with more than `limit` bytes is skipped; one without a URI of its own fails. -/
def readFiles (disk : Disk) (limit : Nat) : List Path → Reading
  | [] => {}
  | path :: paths =>
    let r := readFiles disk limit paths
    match Uri.ofPath? path with
    | none => { r with failed := r.failed + 1 }
    | some uri =>
      match disk.read path with
      | .error _ => { r with failed := r.failed + 1 }
      | .ok bytes =>
        if limit < bytes.length then { r with skipped := r.skipped + 1 }
        else
          { r with
            texts := (uri, decodeFile bytes) :: r.texts
            bytes := r.bytes + bytes.length }

/-- What the second phase did. -/
def readDetail (r : Reading) : String :=
  toString r.texts.length ++ " files, " ++ toString r.bytes ++ " bytes, " ++ toString r.skipped
    ++ " skipped, " ++ toString r.failed ++ " failed"

/-- Outlines all texts. -/
def outlineTexts (texts : List (Uri × String)) : List (Uri × Script) :=
  texts.map fun (uri, text) => (uri, Script.ofText uri text)

/-- The number of variables of a script, local ones included. -/
def variableCount (s : Script) : Nat :=
  s.globals.length + total (·.locals.length) s.methods

/-- What the third phase did. -/
def outlineDetail (scripts : List (Uri × Script)) : String :=
  toString (total (·.2.methods.length) scripts) ++ " methods, "
    ++ toString (total (fun s => variableCount s.2) scripts) ++ " variables"

/-- Puts all scripts into a new index. -/
def indexScripts (scripts : List (Uri × Script)) : SymbolIndex :=
  scripts.foldl (fun ix (uri, script) => ix.store uri script) {}

/-- What the fourth phase did. -/
def indexDetail (ix : SymbolIndex) : String :=
  toString ix.size ++ " scripts, " ++ toString ix.methods.length ++ " methods"

/-- The names of the phases with what each did. -/
def run (disk : Disk) (o : Options) : Except IndexError (List (String × String)) :=
  match scan disk o with
  | .error e => .error e
  | .ok paths =>
    let reading := readFiles disk o.maxFileSize paths
    let scripts := outlineTexts reading.texts
    .ok
      [("scan", scanDetail paths), ("read", readDetail reading), ("parse", outlineDetail scripts),
       ("index", indexDetail (indexScripts scripts))]

/-! ## The peak of memory -/

/-- The name of the line that tells the peak. -/
def peakField : List Char :=
  "VmHWM:".toList

/-- The peak in bytes that a line tells, if it is the line for it. -/
def peakOfLine? (line : List Char) : Option Nat :=
  if peakField.isPrefixOf line then
    let value := trim (line.drop peakField.length)
    (Json.natOfDigits? (value.takeWhile (·.isDigit))).map (· * 1024)
  else none

/-- The peak in bytes that a description of a process tells. -/
def peakMemory? (status : String) : Option Nat :=
  (lines status.toList).findSome? peakOfLine?

end Stats
end ScriptSymbols
