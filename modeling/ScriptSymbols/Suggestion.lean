import ScriptSymbols.Script.Basic
import ScriptSymbols.Text.Units

/-!
# Suggestions

What may be typed at a place: every known method, the names local to the method around the place, and
the variables of the file.
-/

namespace ScriptSymbols

open Text

/-- What a suggestion stands for. -/
inductive SuggestionKind
  | method
  | variable
  deriving DecidableEq

/-- What is inserted: a text, or a snippet with a place for the cursor. -/
inductive Insertion
  | plain (text : String)
  | snippet (text : String)
  deriving DecidableEq

/-- One suggestion. -/
structure Suggestion where
  label : String
  kind : SuggestionKind
  insertion : Insertion
  detail : Option String
  deriving DecidableEq

namespace Suggestion

/-- A method; one without parameters is inserted as a finished call. -/
def ofMethod (m : Method) : Suggestion :=
  if m.params.isEmpty then
    { label := m.name, kind := .method, insertion := .plain (m.name ++ "()"), detail := m.comment }
  else
    { label := m.signature
      kind := .method
      insertion := .snippet (m.name ++ " ($1)")
      detail := m.comment }

/-- A name in scope. -/
def ofName (name : String) : Suggestion :=
  { label := name, kind := .variable, insertion := .plain name, detail := none }

/-- The suggestions at a line of a script, where `methods` are those of all scripts and `globals`
the variables of the script. The local names of a method follow it. -/
def compose (methods : List Method) (uri : Uri) (line : Nat) (globals : List Variable) :
    List Suggestion :=
  (methods.flatMap fun m =>
      ofMethod m ::
        (if m.uri = uri ∧ m.containsLine line then m.localNames.map ofName else []))
    ++ globals.map fun v => ofName v.name

/-- Whether a dot stands right before a column, so that a member of an object is being typed. -/
def isMemberAccess (line : List Char) (column : Nat) : Bool :=
  (line.take (indexOfColumn line column)).getLast? == some '.'

end Suggestion
end ScriptSymbols
