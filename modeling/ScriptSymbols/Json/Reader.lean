import ScriptSymbols.Json.Basic

/-!
# Reading JSON

`Json.parse?` reads a text that holds one JSON value and nothing else but blanks. The recursion is
bounded by twice the length of the text: at most two calls are made for each character.
-/

namespace ScriptSymbols
namespace Json

/-- The text without the blanks at its start. -/
def skipBlanks (cs : List Char) : List Char :=
  cs.dropWhile fun c => c == ' ' || c == '\t' || c == '\n' || c == '\r'

/-- The value of a hexadecimal digit. -/
def hexDigit? (c : Char) : Option Nat :=
  if '0' ≤ c ∧ c ≤ '9' then some (c.toNat - '0'.toNat)
  else if 'a' ≤ c ∧ c ≤ 'f' then some (c.toNat - 'a'.toNat + 10)
  else if 'A' ≤ c ∧ c ≤ 'F' then some (c.toNat - 'A'.toNat + 10)
  else none

/-- The 16-bit unit written by four hexadecimal digits. -/
def unit? (a b c d : Char) : Option Nat := do
  let a ← hexDigit? a
  let b ← hexDigit? b
  let c ← hexDigit? c
  let d ← hexDigit? d
  return ((a * 16 + b) * 16 + c) * 16 + d

/-- The character that a single-letter escape stands for. -/
def escaped? (c : Char) : Option Char :=
  match c with
  | '"' => some '"'
  | '\\' => some '\\'
  | '/' => some '/'
  | 'b' => some '\x08'
  | 'f' => some '\x0c'
  | 'n' => some '\n'
  | 'r' => some '\r'
  | 't' => some '\t'
  | _ => none

/-- Reads the rest of a string behind its opening quote; `read` is what came before, backwards.

A unit of the upper surrogates needs one of the lower surrogates behind it. -/
def readString (read : List Char) : List Char → Option (String × List Char)
  | '"' :: cs => some (String.ofList read.reverse, cs)
  | '\\' :: 'u' :: a :: b :: c :: d :: '\\' :: 'u' :: e :: f :: g :: h :: cs => do
    let u ← unit? a b c d
    if 0xD800 ≤ u ∧ u < 0xDC00 then
      let v ← unit? e f g h
      if 0xDC00 ≤ v ∧ v < 0xE000 then
        readString (Char.ofNat (0x10000 + (u - 0xD800) * 0x400 + (v - 0xDC00)) :: read) cs
      else none
    else if 0xDC00 ≤ u ∧ u < 0xE000 then none
    else readString (Char.ofNat u :: read) ('\\' :: 'u' :: e :: f :: g :: h :: cs)
  | '\\' :: 'u' :: a :: b :: c :: d :: cs => do
    let u ← unit? a b c d
    if 0xD800 ≤ u ∧ u < 0xE000 then none
    else readString (Char.ofNat u :: read) cs
  | '\\' :: c :: cs => do
    let c ← escaped? c
    readString (c :: read) cs
  | c :: cs => if c.toNat < 0x20 then none else readString (c :: read) cs
  | [] => none
termination_by cs => cs.length

/-- Whether a character can stand in a number. -/
def isNumberChar (c : Char) : Bool :=
  c.isDigit || c == '-' || c == '+' || c == '.' || c == 'e' || c == 'E'

/-- Drops one character if it is among the given ones. -/
def skipOne (chars : List Char) : List Char → List Char
  | c :: cs => if chars.contains c then cs else c :: cs
  | [] => []

/-- Drops a run of digits, which must not be empty. -/
def digits? (cs : List Char) : Option (List Char) :=
  if cs.head?.any Char.isDigit then some (cs.dropWhile Char.isDigit) else none

/-- Whether a text is a number: an optional sign, an integer without needless zeros, an optional
fraction, an optional exponent. -/
def isNumberLiteral (cs : List Char) : Bool :=
  let cs := skipOne ['-'] cs
  let whole :=
    match cs with
    | '0' :: rest => some rest
    | _ => digits? cs
  let fraction := whole.bind fun cs =>
    match cs with
    | '.' :: rest => digits? rest
    | _ => some cs
  let exponent := fraction.bind fun cs =>
    match cs with
    | c :: rest => if c == 'e' || c == 'E' then digits? (skipOne ['+', '-'] rest) else some cs
    | [] => some []
  exponent.any List.isEmpty

mutual
/-- Reads one value. -/
def readValue : Nat → List Char → Option (Json × List Char)
  | 0, _ => none
  | fuel + 1, cs =>
    match skipBlanks cs with
    | 'n' :: 'u' :: 'l' :: 'l' :: cs => some (null, cs)
    | 't' :: 'r' :: 'u' :: 'e' :: cs => some (bool true, cs)
    | 'f' :: 'a' :: 'l' :: 's' :: 'e' :: cs => some (bool false, cs)
    | '"' :: cs => (readString [] cs).map fun (s, cs) => (string s, cs)
    | '[' :: cs =>
      match skipBlanks cs with
      | ']' :: cs => some (array [], cs)
      | cs => (readItems fuel [] cs).map fun (items, cs) => (array items, cs)
    | '{' :: cs =>
      match skipBlanks cs with
      | '}' :: cs => some (object [], cs)
      | cs => (readFields fuel [] cs).map fun (fields, cs) => (object fields, cs)
    | cs =>
      let literal := cs.takeWhile isNumberChar
      if isNumberLiteral literal then
        some (number (String.ofList literal), cs.dropWhile isNumberChar)
      else none
/-- Reads the items of an array up to its closing bracket. -/
def readItems : Nat → List Json → List Char → Option (List Json × List Char)
  | 0, _, _ => none
  | fuel + 1, read, cs =>
    match readValue fuel cs with
    | none => none
    | some (item, cs) =>
      match skipBlanks cs with
      | ',' :: cs => readItems fuel (item :: read) cs
      | ']' :: cs => some ((item :: read).reverse, cs)
      | _ => none
/-- Reads the fields of an object up to its closing brace. -/
def readFields : Nat → List (String × Json) → List Char → Option (List (String × Json) × List Char)
  | 0, _, _ => none
  | fuel + 1, read, cs =>
    match skipBlanks cs with
    | '"' :: cs =>
      match readString [] cs with
      | none => none
      | some (key, cs) =>
        match skipBlanks cs with
        | ':' :: cs =>
          match readValue fuel cs with
          | none => none
          | some (value, cs) =>
            match skipBlanks cs with
            | ',' :: cs => readFields fuel ((key, value) :: read) cs
            | '}' :: cs => some (((key, value) :: read).reverse, cs)
            | _ => none
        | _ => none
    | _ => none
end

/-- The value that a text holds. -/
def parse? (text : String) : Option Json :=
  let cs := text.toList
  match readValue (2 * cs.length + 2) cs with
  | some (value, rest) => if (skipBlanks rest).isEmpty then some value else none
  | none => none

end Json
end ScriptSymbols
