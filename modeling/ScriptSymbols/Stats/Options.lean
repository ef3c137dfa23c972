import ScriptSymbols.Settings

/-!
# Options of the indexing report

The arguments of the command that indexes a directory once and reports on it.
-/

namespace ScriptSymbols
namespace Stats

/-- What is to be indexed and how it is reported. -/
structure Options where
  path : Path
  csv : Bool
  includes : List String
  excludes : List String
  maxFileSize : Nat
  deriving DecidableEq

/-- Why arguments are not understood. -/
inductive OptionError
  | includeNeedsGlob
  | excludeNeedsGlob
  | sizeNeedsCount
  | unknownFlag (flag : String)
  | secondPath
  | missingPath
  | notDirectory (path : Path)
  deriving DecidableEq

/-- The error in words. -/
def OptionError.message : OptionError → String
  | .includeNeedsGlob => "--include requires a glob"
  | .excludeNeedsGlob => "--exclude requires a glob"
  | .sizeNeedsCount => "--max-file-size requires a byte count"
  | .unknownFlag flag => "Unknown flag: '" ++ flag ++ "'"
  | .secondPath => "Multiple paths provided; expected exactly one"
  | .missingPath => "Missing required <path> argument"
  | .notDirectory path => "Not a directory: " ++ path.text

/-- The arguments read so far. -/
structure Draft where
  path : Option Path := none
  csv : Bool := false
  includes : List String := []
  excludes : List String := []
  maxFileSize : Nat := ({} : Settings).maxFileSize

/-- A count of bytes: digits, with an optional plus sign, that fit a 64-bit word. -/
def count? (text : String) : Option Nat :=
  let digits :=
    match text.toList with
    | '+' :: digits => digits
    | digits => digits
  (Json.natOfDigits? digits).filter (· < UInt64.size)

/-- Reads arguments one after another. -/
def readArgs (d : Draft) : List String → Except OptionError Draft
  | [] => .ok d
  | "--csv" :: args => readArgs { d with csv := true } args
  | ["--include"] => .error .includeNeedsGlob
  | "--include" :: glob :: args => readArgs { d with includes := d.includes ++ [glob] } args
  | ["--exclude"] => .error .excludeNeedsGlob
  | "--exclude" :: glob :: args => readArgs { d with excludes := d.excludes ++ [glob] } args
  | ["--max-file-size"] => .error .sizeNeedsCount
  | "--max-file-size" :: size :: args =>
    match count? size with
    | none => .error .sizeNeedsCount
    | some maxFileSize => readArgs { d with maxFileSize } args
  | arg :: args =>
    if arg.toList.head? = some '-' then .error (.unknownFlag arg)
    else if d.path.isSome then .error .secondPath
    else readArgs { d with path := some (Path.ofString arg) } args

/-- The options that arguments stand for. Only when all are read is the path looked at, which must be a
directory. -/
def Options.ofArgs (isDirectory : Path → Bool) (args : List String) : Except OptionError Options :=
  match readArgs {} args with
  | .error e => .error e
  | .ok d =>
    match d.path with
    | none => .error .missingPath
    | some path =>
      if isDirectory path then
        .ok
          { path
            csv := d.csv
            includes := d.includes
            excludes := d.excludes
            maxFileSize := d.maxFileSize }
      else .error (.notDirectory path)

end Stats
end ScriptSymbols
