import ScriptSymbols.Json.Basic

/-!
# Writing JSON

`Json.render` writes a value without blanks. Quotes, backslashes and control characters are escaped;
all other characters are written as they are.
-/

namespace ScriptSymbols
namespace Json

/-- The hexadecimal digit of a number below sixteen. -/
def hexDigit (n : Nat) : Char :=
  if n < 10 then Char.ofNat ('0'.toNat + n) else Char.ofNat ('a'.toNat + (n - 10))

/-- A character as it is written in a string. -/
def escape (c : Char) : String :=
  if c = '"' then "\\\""
  else if c = '\\' then "\\\\"
  else if c = '\n' then "\\n"
  else if c = '\r' then "\\r"
  else if c = '\t' then "\\t"
  else if c = '\x08' then "\\b"
  else if c = '\x0c' then "\\f"
  else if c.toNat < 0x20 then
    String.ofList ['\\', 'u', '0', '0', hexDigit (c.toNat / 16), hexDigit (c.toNat % 16)]
  else String.singleton c

/-- Appends a string in quotes. -/
def writeString (out s : String) : String :=
  (s.toList.foldl (fun out c => out ++ escape c) (out.push '"')).push '"'

mutual
/-- Appends a value. -/
def write (out : String) : Json → String
  | null => out ++ "null"
  | bool true => out ++ "true"
  | bool false => out ++ "false"
  | number literal => out ++ literal
  | string value => writeString out value
  | array items => (writeItems (out.push '[') true items).push ']'
  | object fields => (writeFields (out.push '\x7b') true fields).push '\x7d'
/-- Appends the items of an array, with a comma before each but the first. -/
def writeItems (out : String) (first : Bool) : List Json → String
  | [] => out
  | item :: items => writeItems (write (if first then out else out.push ',') item) false items
/-- Appends the fields of an object, with a comma before each but the first. -/
def writeFields (out : String) (first : Bool) : List (String × Json) → String
  | [] => out
  | (key, value) :: fields =>
    let out := (writeString (if first then out else out.push ',') key).push ':'
    writeFields (write out value) false fields
end

/-- The value as text. -/
def render (value : Json) : String :=
  write "" value

end Json
end ScriptSymbols
