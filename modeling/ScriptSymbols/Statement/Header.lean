import ScriptSymbols.Name
import ScriptSymbols.Text.Split

/-!
# Method headers

A header is a name with a parameter list in parentheses, on a line of its own or with the brace that
opens the body. The word `static` may stand before it. Without a brace, a header looks like a call;
what follows it decides.

- `keyword?` reads a keyword letter by letter, either as it is written or up to case. Up to case, the
  long s counts as an s and the Kelvin sign as a k, as simple case folding has it.
- `header?` reads a header.
- `paramNames` are the names in a parameter list. A parameter is written with an optional marker, its
  name, an optional star and an optional default.
-/

namespace ScriptSymbols
namespace Statement

open Text

/-! ## Keywords at the start of a text -/

/-- Whether `c` is the lower-case letter `k` of a keyword up to case. -/
def sameLetter (k c : Char) : Bool :=
  c.toLower == k || (k == 's' && c == '\u017f') || (k == 'k' && c == '\u212a')

/-- The text behind a keyword, whose letters are compared by `same`. -/
def keyword? (same : Char → Char → Bool) : List Char → List Char → Option (List Char)
  | [], cs => some cs
  | _ :: _, [] => none
  | k :: ks, c :: cs => if same k c then keyword? same ks cs else none

/-- The text behind the blanks at its start, of which there must be one. -/
def afterBlanks? (cs : List Char) : Option (List Char) :=
  if cs.head?.any isBlank then some (trimStart cs) else none

/-- The text behind a keyword and the blanks that follow it. -/
def afterKeyword? (same : Char → Char → Bool) (word : String) (cs : List Char) :
    Option (List Char) :=
  (keyword? same word.toList cs).bind afterBlanks?

/-- The text behind one given character. -/
def after? (c : Char) : List Char → Option (List Char)
  | [] => none
  | d :: cs => if d = c then some cs else none

/-! ## Headers -/

/-- The parts of a header: the name, the text between the parentheses, and the text behind the brace
if the line opens the body. -/
structure Header where
  name : List Char
  params : List Char
  body : Option (List Char)

/-- Whether a character is no parenthesis. -/
def isNoParen (c : Char) : Bool :=
  c != '(' && c != ')'

/-- What may follow the parameter list: nothing, or a brace and the body's first text. -/
def bodyOf? (cs : List Char) : Option (Option (List Char)) :=
  match trimStart cs with
  | [] => some none
  | c :: body => if c = '{' then some (some body) else none

/-- The header that a line is. -/
def header? (line : List Char) : Option Header := do
  let start := trimStart line
  let (name, cs) ← Name.take? ((afterKeyword? (· == ·) "static" start).getD start)
  let cs ← after? '(' cs
  let params := cs.takeWhile isNoParen
  let cs ← after? ')' (cs.dropWhile isNoParen)
  let body ← bodyOf? cs
  return { name, params, body }

/-! ## Parameter lists -/

/-- A parameter without its default, which starts at the first `:=` or else at the first `=`. -/
def withoutDefault (param : List Char) : List Char :=
  match (before? [':', '='] param).or (before? ['='] param) with
  | some cs => trimEnd cs
  | none => param

/-- The first word of a parameter that is not the marker `ByRef`. -/
def nameWord? (param : List Char) : Option (List Char) :=
  match firstWord? param with
  | none => none
  | some (word, rest) =>
    if sameFolded word "byref".toList then (firstWord? rest).map Prod.fst else some word

/-- The name of one parameter, if it has one. -/
def paramName? (param : List Char) : Option (List Char) :=
  match nameWord? (withoutDefault (trim param)) with
  | none => none
  | some word =>
    let name := (word.dropWhile (· == '&')).takeWhile Name.isIdentChar
    if name.isEmpty then none else some name

/-- The names of the parameters in a list, in order. -/
def paramNames (params : List Char) : List (List Char) :=
  (splitOn ',' params).filterMap paramName?

end Statement
end ScriptSymbols
