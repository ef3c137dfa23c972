import ScriptSymbols.Walk

/-!
# The disk

A snapshot of a file system: which names lead to a file, a directory or a symbolic link. Every
operation on files is a function of such a snapshot.

- `Disk.write` and `Disk.delete` change the disk.
- `Disk.resolve` follows a path through directories and links.
- `Disk.read`, `Disk.isPresent` and `Disk.list` look at what a path leads to.
-/

namespace ScriptSymbols

open Text

/-- The name of an entry in its directory. -/
abbrev FileName := List UInt8

/-- What a name leads to. -/
inductive Node
  | file (contents : List UInt8)
  | directory
  | link (target : Path)
  deriving DecidableEq

/-- A file system: what each list of names from the root leads to, and the working directory. -/
structure Disk where
  nodes : List (List FileName × Node) := []
  workingDirectory : List FileName := []

namespace Disk

/-- What a list of names from the root leads to, links not followed. -/
def node? (disk : Disk) (names : List FileName) : Option Node :=
  if names.isEmpty then some .directory else disk.nodes.lookup names

/-- Puts a node under a list of names. -/
def put (disk : Disk) (names : List FileName) (node : Node) : Disk :=
  { disk with nodes := disk.nodes.filter (·.1 != names) ++ [(names, node)] }

/-- Makes a directory if nothing is there. -/
def makeDirectory (disk : Disk) (names : List FileName) : Disk :=
  if (disk.node? names).isSome then disk else disk.put names .directory

/-- The lists of names of the directories above a place, the outermost first. -/
def ancestors (names : List FileName) : List (List FileName) :=
  (List.range names.length).map fun n => names.take n

/-- Puts a node under a list of names, with all the directories above it. -/
def write (disk : Disk) (names : List FileName) (node : Node) : Disk :=
  ((ancestors names).foldl makeDirectory disk).put names node

/-- Removes what is under a list of names, with all below it. -/
def delete (disk : Disk) (names : List FileName) : Disk :=
  { disk with nodes := disk.nodes.filter fun n => !names.isPrefixOf n.1 }

/-! ## Following paths -/

/-- The steps that a path takes: its names, dots included. A slash at the end asks for a directory,
which a dot does too. -/
def stepsOf (p : Path) : List FileName :=
  let names := (Path.splitSlash p.bytes).filter (!·.isEmpty)
  if p.bytes.getLast? = some Path.slash then names ++ [[Path.dot]] else names

/-- The number of links that may be followed on the way to a file. -/
def maxLinks : Nat := 40

/-- Follows steps from a directory; gives the names of the place that they lead to and what is there.
A link on the way is left to `jump`, with the directory that holds it, its target and the steps behind
it. -/
def followWith (disk : Disk)
    (jump : List FileName → Path → List FileName → Except IoError (List FileName × Node))
    (place : List FileName) : List FileName → Except IoError (List FileName × Node)
  | [] => .ok (place, .directory)
  | step :: steps =>
    if step = [Path.dot] then followWith disk jump place steps
    else if step = [Path.dot, Path.dot] then followWith disk jump place.dropLast steps
    else
      match disk.node? (place ++ [step]) with
      | none => .error .notFound
      | some .directory => followWith disk jump (place ++ [step]) steps
      | some (.file contents) =>
        if steps.isEmpty then .ok (place ++ [step], .file contents) else .error .notDirectory
      | some (.link target) => jump place target steps

/-- Follows steps from a directory, with at most `links` links on the way. -/
def follow (disk : Disk) :
    Nat → List FileName → List FileName → Except IoError (List FileName × Node)
  | 0 => followWith disk fun _ _ _ => .error .tooManyLinks
  | links + 1 =>
    followWith disk fun place target steps =>
      follow disk links (if target.isAbsolute then [] else place) (stepsOf target ++ steps)

/-- What a path leads to. -/
def resolve (disk : Disk) (p : Path) : Except IoError (List FileName × Node) :=
  if p.bytes.contains 0 then .error .nulInName
  else if p.bytes.isEmpty then .error .notFound
  else follow disk maxLinks (if p.isAbsolute then [] else disk.workingDirectory) (stepsOf p)

/-! ## Looking at files -/

/-- The contents of a file. -/
def read (disk : Disk) (p : Path) : Except IoError (List UInt8) :=
  match disk.resolve p with
  | .error cause => .error cause
  | .ok (_, .file contents) => .ok contents
  | .ok (_, _) => .error .isDirectory

/-- Whether a path leads anywhere. -/
def isPresent (disk : Disk) (p : Path) : Bool :=
  match disk.resolve p with
  | .ok _ => true
  | .error _ => false

/-- Whether a path leads to a directory. -/
def isDirectory (disk : Disk) (p : Path) : Bool :=
  match disk.resolve p with
  | .ok (_, .directory) => true
  | _ => false

/-- What kind of entry a node is. -/
def kindOf : Node → EntryKind
  | .file _ => .file
  | .directory => .directory
  | .link _ => .other

/-- The entries of the directory under a list of names. -/
def entriesOf (disk : Disk) (names : List FileName) : List Entry :=
  disk.nodes.filterMap fun (place, node) =>
    if place.dropLast = names then
      place.getLast?.map fun name => { name := String.ofList (decode name), kind := kindOf node }
    else none

/-- The entries of a directory. -/
def list (disk : Disk) (p : Path) : Except IoError (List Entry) :=
  match disk.resolve p with
  | .error cause => .error cause
  | .ok (names, .directory) => .ok (disk.entriesOf names)
  | .ok (_, _) => .error .notDirectory

/-- The number of names that lead to the deepest node. -/
def depth (disk : Disk) : Nat :=
  disk.nodes.foldr (fun entry deepest => max entry.1.length deepest) 0

/-- The disk as a source of listings. On the way to a directory there are at most `maxLinks` links, and no more
than `depth` directories in a row without one. Links are met where the name of a directory is not text and the
text that it is read as is the name of a link. -/
def listing (disk : Disk) : Listing :=
  { list := disk.list
    bound := Nat.pow (disk.nodes.length + 2) ((maxLinks + 1) * (disk.depth + 1) + 2) }

end Disk
end ScriptSymbols
