/-!
# JSON values

The values that a client sends and receives. A number is kept as it is written, since settings tell
`1` from `1.0`; the fields of an object are kept in order, and of two fields with one key the later
one counts.
-/

namespace ScriptSymbols

/-- A JSON value. -/
inductive Json
  | null
  | bool (value : Bool)
  | number (literal : String)
  | string (value : String)
  | array (items : List Json)
  | object (fields : List (String × Json))

namespace Json

/-- The value of the last field with the given key. -/
def field? (key : String) : Json → Option Json
  | object fields => fields.reverse.lookup key
  | _ => none

/-- The text of a string value. -/
def string? : Json → Option String
  | string value => some value
  | _ => none

/-- The truth value of a boolean value. -/
def bool? : Json → Option Bool
  | bool value => some value
  | _ => none

/-- The items of an array. -/
def items? : Json → Option (List Json)
  | array items => some items
  | _ => none

/-- The value of a digit character. -/
def digit? (c : Char) : Option Nat :=
  if c.isDigit then some (c.toNat - '0'.toNat) else none

/-- The number written by a non-empty run of digits. -/
def natOfDigits? (cs : List Char) : Option Nat :=
  if cs.isEmpty then none
  else cs.foldlM (fun n c => (digit? c).map (n * 10 + ·)) 0

/-- The number that a literal without sign, point and exponent writes. -/
def nat? : Json → Option Nat
  | number literal => natOfDigits? literal.toList
  | _ => none

/-- The number that a literal without point and exponent writes. -/
def int? : Json → Option Int
  | number literal =>
    match literal.toList with
    | '-' :: digits => (natOfDigits? digits).map fun n => -(n : Int)
    | digits => (natOfDigits? digits).map Int.ofNat
  | _ => none

/-- A natural number as a value. -/
def ofNat (n : Nat) : Json :=
  number (toString n)

/-- An integer as a value. -/
def ofInt (n : Int) : Json :=
  number (toString n)

/-- An optional value, where a missing one is null. -/
def ofOption {α : Type} (f : α → Json) : Option α → Json
  | none => null
  | some a => f a

/-- A list of values. -/
def ofList {α : Type} (f : α → Json) (as : List α) : Json :=
  array (as.map f)

/-- A list of strings. -/
def ofStrings (ss : List String) : Json :=
  ofList string ss

end Json
end ScriptSymbols
