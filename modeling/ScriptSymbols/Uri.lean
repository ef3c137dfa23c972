import ScriptSymbols.Path

/-!
# Uniform resource identifiers

A URI names a script. It is kept in its normal form, so that two URIs are the same when their texts
are.

- `Uri.path?` is the local path that a URI names.
- `Uri.ofPath?` is the URI of an absolute path.
-/

namespace ScriptSymbols

open Text

/-- A URI in normal form. -/
structure Uri where
  text : String
  deriving DecidableEq

namespace Uri

/-! ## From URIs to paths -/

/-- The value of a hexadecimal digit, given as a byte. -/
def hexValue? (b : UInt8) : Option UInt8 :=
  if 0x30 ≤ b ∧ b ≤ 0x39 then some (b - 0x30)
  else if 0x41 ≤ b ∧ b ≤ 0x46 then some (b - 0x41 + 10)
  else if 0x61 ≤ b ∧ b ≤ 0x66 then some (b - 0x61 + 10)
  else none

/-- Reads percent-encoded bytes; a percent sign without two digits stands for itself. -/
def percentDecode : List UInt8 → List UInt8
  | [] => []
  | a :: b :: c :: bytes =>
    if a = 0x25 then
      match hexValue? b, hexValue? c with
      | some x, some y => (x * 16 + y) :: percentDecode bytes
      | _, _ => a :: percentDecode (b :: c :: bytes)
    else a :: percentDecode (b :: c :: bytes)
  | b :: bytes => b :: percentDecode bytes

/-- The host of an authority, without the user before it and the number behind it. -/
def hostOf (authority : List Char) : List Char :=
  let host := (authority.reverse.takeWhile (· != '@')).reverse
  host.takeWhile (· != ':')

/-- The host and the path of a URI. -/
def hostAndPath (u : Uri) : List Char × List Char :=
  let rest := (u.text.toList.dropWhile (· != ':')).drop 1
  let rest := rest.takeWhile fun c => c != '?' && c != '#'
  match rest with
  | '/' :: '/' :: rest => (hostOf (rest.takeWhile (· != '/')), rest.dropWhile (· != '/'))
  | _ => ([], rest)

/-- Adds a slash behind a drive letter at the end of a path. -/
def closeDrive (bytes : List UInt8) : List UInt8 :=
  match bytes.reverse with
  | mark :: letter :: _ :: _ =>
    if (mark = 0x3A ∨ mark = 0x7C) ∧ (Char.ofNat letter.toNat).isAlpha then bytes ++ [Path.slash]
    else bytes
  | _ => bytes

/-- The local path that a URI names: it needs a path from the root and no host but `localhost`. -/
def path? (u : Uri) : Option Path :=
  let (host, path) := u.hostAndPath
  if path.head? = some '/' ∧ (host.isEmpty ∨ host = "localhost".toList) then
    some { bytes := closeDrive (percentDecode (encode path)) }
  else none

/-! ## From paths to URIs -/

/-- The bytes that are written as they are in the path of a URI. -/
def isPlain (b : UInt8) : Bool :=
  0x20 < b && b < 0x7F && !"\"#<>?\x60\x7b\x7d/%\\".toList.contains (Char.ofNat b.toNat)

/-- The upper-case hexadecimal digit of a number below sixteen. -/
def hexDigit (n : Nat) : Char :=
  if n < 10 then Char.ofNat (0x30 + n) else Char.ofNat (0x41 + (n - 10))

/-- A byte as it is written in the path of a URI. -/
def percentEncode (b : UInt8) : List Char :=
  if isPlain b then [Char.ofNat b.toNat]
  else ['%', hexDigit (b.toNat / 16), hexDigit (b.toNat % 16)]

/-- The URI of a path, which must be absolute. -/
def ofPath? (p : Path) : Option Uri :=
  if p.isAbsolute then
    let parts := p.components.drop 1
    let path :=
      if parts.isEmpty then ['/'] else parts.flatMap fun part => '/' :: part.flatMap percentEncode
    some { text := String.ofList ("file://".toList ++ path) }
  else none

end Uri
end ScriptSymbols
