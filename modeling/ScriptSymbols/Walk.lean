import ScriptSymbols.Fault
import ScriptSymbols.Text.Basic
import ScriptSymbols.Total

/-!
# Walking a directory tree

The script files below a root, in the order in which the directories list them; each directory is
walked in full before its next sibling. Directories are listed one at a time from a stack.

- `PathFilter` keeps the relative paths that some include pattern matches, or all if there is none, and
  that no exclude pattern matches.
- `Listing` is a source of directory listings.
- `Walk.run` takes the steps of a walk.
- `Walk.collect` is the whole walk, with filters compiled first.
-/

namespace ScriptSymbols

open Text

/-! ## Path filters -/

/-- The patterns of a filter, compiled. -/
structure PathFilter where
  includes : List (List Glob.Token)
  excludes : List (List Glob.Token)

namespace PathFilter

/-- Compiles patterns up to the first that is bad. -/
def compileAll : List String → Except IndexError (List (List Glob.Token))
  | [] => .ok []
  | pattern :: patterns =>
    match Glob.compile pattern with
    | .error e => .error (.badGlob pattern e)
    | .ok tokens => (compileAll patterns).map (tokens :: ·)

/-- The filter made of patterns; the includes are read first. -/
def compile (includes excludes : List String) : Except IndexError PathFilter :=
  match compileAll includes with
  | .error e => .error e
  | .ok includes => (compileAll excludes).map fun excludes => { includes, excludes }

/-- Whether a filter keeps a relative path. -/
def accepts (f : PathFilter) (relative : String) : Bool :=
  (f.includes.isEmpty || f.includes.any (Glob.isMatch · relative.toList))
    && !f.excludes.any (Glob.isMatch · relative.toList)

end PathFilter

/-! ## Listings -/

/-- What a directory entry is. Links, devices and the like are neither files nor directories. -/
inductive EntryKind
  | file
  | directory
  | other
  deriving DecidableEq

/-- An entry of a directory. -/
structure Entry where
  name : String
  kind : EntryKind
  deriving DecidableEq

/-- A source of directory listings, with a bound on the number of steps that a walk over it takes. -/
structure Listing where
  list : Path → Except IoError (List Entry)
  bound : Nat

/-- The listing that a table of directories gives; any other directory is refused. A chain of nested
directories is no longer than the table, or it has no end. -/
def Listing.ofTable (table : List (Path × List Entry)) (refusal : IoError) : Listing :=
  { list := fun dir =>
      match table.find? (·.1.components == dir.components) with
      | some (_, entries) => .ok entries
      | none => .error refusal
    bound := Nat.pow (total (·.2.length) table + 2) (table.length + 2) }

/-! ## Walks -/

namespace Walk

/-- The extensions of script files unless others are configured. -/
def defaultExtensions : List String :=
  ["ahk", "ah1", "ext"]

/-- Extensions as a walk compares them: without leading dots, in lower case, none of them empty. -/
def normalizeExtensions (extensions : List String) : List String :=
  ((extensions.map fun e => foldCase (e.toList.dropWhile (· == '.'))).filter (!·.isEmpty)).map
    String.ofList

/-- Whether a path has one of the extensions, up to case. -/
def hasExtension (extensions : List String) (p : Path) : Bool :=
  p.extension?.any fun ending => extensions.any fun e => sameFolded e.toList ending

/-- A directory on the stack: its path, its path relative to the root, and the entries that are still
to be visited. -/
structure Frame where
  dir : Path
  relative : String
  entries : List Entry

/-- The relative path of an entry. -/
def relativeOf (dir name : String) : String :=
  if dir.isEmpty then name else dir ++ "/" ++ name

/-- Takes the steps of a walk from a stack of directories, where `found` are the files so far from the
last to the first. There is no result if the steps run out. -/
def run (list : Path → Except IoError (List Entry)) (wanted : String → String → Bool) :
    Nat → List Frame → List Path → Option (Except IndexError (List Path))
  | 0, _, _ => none
  | _ + 1, [], found => some (.ok found.reverse)
  | steps + 1, frame :: stack, found =>
    match frame.entries with
    | [] => run list wanted steps stack found
    | entry :: entries =>
      let path := frame.dir.join (Path.ofString entry.name)
      let relative := relativeOf frame.relative entry.name
      let stack := { frame with entries } :: stack
      match entry.kind with
      | .directory =>
        match list path with
        | .error cause => some (.error (.unlisted path cause))
        | .ok children =>
          run list wanted steps ({ dir := path, relative, entries := children } :: stack) found
      | .file =>
        run list wanted steps stack (if wanted entry.name relative then path :: found else found)
      | .other => run list wanted steps stack found

/-- The script files below a root that have one of the extensions and that the patterns keep. -/
def collect (listing : Listing) (extensions : List String) (root : Path)
    (includes excludes : List String) : Except IndexError (List Path) :=
  match PathFilter.compile includes excludes with
  | .error e => .error e
  | .ok filter =>
    match listing.list root with
    | .error cause => .error (.unlisted root cause)
    | .ok entries =>
      let wanted name relative :=
        hasExtension extensions (Path.ofString name) && filter.accepts relative
      match run listing.list wanted listing.bound [{ dir := root, relative := "", entries }] [] with
      | none => .error (.endless root)
      | some result => result

end Walk
end ScriptSymbols
