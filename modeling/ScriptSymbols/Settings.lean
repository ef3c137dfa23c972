import ScriptSymbols.Json.Basic
import ScriptSymbols.Walk

/-!
# Settings

Which files are indexed. A client sends settings as JSON; keys that are missing or of another type
keep their defaults.
-/

namespace ScriptSymbols

/-- What is indexed: patterns of relative paths to include and exclude, extensions of scripts, whether
the workspace is indexed at all, and the size in bytes above which a file is left out. -/
structure Settings where
  includes : List String := []
  excludes : List String := []
  extensions : List String := Walk.defaultExtensions
  indexWorkspace : Bool := true
  maxFileSize : Nat := 512 * 1024
  deriving DecidableEq

namespace Settings

/-- The strings in an array under a key, empty ones left out. -/
def strings? (own : Json) (key : String) : Option (List String) :=
  ((own.field? key).bind Json.items?).map fun items =>
    (items.filterMap Json.string?).filter (!·.isEmpty)

/-- The extensions without leading dots, or the default ones if none is left. -/
def extensionsOf (names : List String) : List String :=
  let names := (names.map fun e => e.toList.dropWhile (· == '.')).filter (!·.isEmpty)
  if names.isEmpty then Walk.defaultExtensions else names.map String.ofList

/-- A size that fits a 64-bit word. -/
def size? (value : Json) : Option Nat :=
  value.nat?.filter (· < UInt64.size)

/-- The settings in the program's own section, if there is one. -/
def ofJson? (settings : Json) : Option Settings :=
  (settings.field? "hotscope").map fun own =>
    { includes := (strings? own "include").getD []
      excludes := (strings? own "exclude").getD []
      extensions := extensionsOf ((strings? own "extensions").getD [])
      indexWorkspace := ((own.field? "indexWorkspace").bind Json.bool?).getD true
      maxFileSize := ((own.field? "maxFileSizeBytes").bind size?).getD (512 * 1024) }

end Settings
end ScriptSymbols
