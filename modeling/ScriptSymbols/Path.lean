import ScriptSymbols.Text.Utf8

/-!
# File paths

A path is a sequence of bytes, cut into components by slashes. Repeated slashes, a slash at the end
and components `.` behind the first carry no meaning, so paths are compared by their components.

- `Path.components` are the components; the root is the component `/`.
- `Path.relativeTo?` is the part of a path below another one.
- `Path.extension?` is the ending of the last component.
-/

namespace ScriptSymbols

open Text

/-- A path as bytes. -/
structure Path where
  bytes : List UInt8
  deriving DecidableEq

namespace Path

/-- The byte of a slash. -/
def slash : UInt8 := 0x2F

/-- The byte of a dot. -/
def dot : UInt8 := 0x2E

/-- The path that a text writes. -/
def ofString (text : String) : Path :=
  { bytes := encode text.toList }

/-- The path as text, with bad bytes replaced. -/
def text (p : Path) : String :=
  String.ofList (decode p.bytes)

/-- Whether a path starts at the root. -/
def isAbsolute (p : Path) : Bool :=
  p.bytes.head? == some slash

/-- The pieces of some bytes between slashes. -/
def splitSlash : List UInt8 → List (List UInt8)
  | [] => [[]]
  | b :: bytes =>
    if b = slash then [] :: splitSlash bytes
    else
      match splitSlash bytes with
      | [] => [[b]]
      | piece :: pieces => (b :: piece) :: pieces

/-- Whether a piece between slashes names something. -/
def isNamed (piece : List UInt8) : Bool :=
  !piece.isEmpty && piece != [dot]

/-- The components of a path. A dot is kept only where it starts a relative path. -/
def components (p : Path) : List (List UInt8) :=
  let pieces := splitSlash p.bytes
  let named := pieces.filter isNamed
  if p.isAbsolute then [slash] :: named
  else if pieces.head? = some [dot] then [dot] :: named
  else named

/-- A name below a directory. An absolute name stands for itself. -/
def join (dir name : Path) : Path :=
  if name.isAbsolute then name
  else if dir.bytes.isEmpty ∨ dir.bytes.getLast? = some slash then
    { bytes := dir.bytes ++ name.bytes }
  else { bytes := dir.bytes ++ slash :: name.bytes }

/-- What follows `root` in a list, if the list starts with it. -/
def dropRoot? : List (List UInt8) → List (List UInt8) → Option (List (List UInt8))
  | [], parts => some parts
  | _ :: _, [] => none
  | r :: root, p :: parts => if r = p then dropRoot? root parts else none

/-- Names joined with slashes, as text. -/
def joinNames : List (List UInt8) → List Char
  | [] => []
  | [name] => decode name
  | name :: rest => decode name ++ '/' :: joinNames rest

/-- The path relative to a root, with slashes between the components, if it lies below the root. -/
def relativeTo? (root p : Path) : Option String :=
  match dropRoot? root.components p.components with
  | none => none
  | some [] => none
  | some parts => some (String.ofList (joinNames parts))

/-- The last component, if it names a file. -/
def fileName? (p : Path) : Option (List UInt8) :=
  match p.components.getLast? with
  | none => none
  | some name => if name = [slash] ∨ name = [dot] ∨ name = [dot, dot] then none else some name

/-- The part of a file name behind its last dot, unless that dot is its first character. -/
def extensionOf? (name : List UInt8) : Option (List UInt8) :=
  let ending := name.reverse.takeWhile (· != dot)
  if ending.length + 1 < name.length then some ending.reverse else none

/-- The extension of a path as text, if it has one that is text. -/
def extension? (p : Path) : Option (List Char) :=
  match p.fileName?.bind extensionOf? with
  | none => none
  | some ending => if isUtf8 ending then some (decode ending) else none

end Path
end ScriptSymbols
