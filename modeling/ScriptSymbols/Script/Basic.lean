import ScriptSymbols.Uri

/-!
# Scripts and their symbols

What the index knows of a script: its methods with their parameters and local variables, and the
variables at file scope. Lines are counted from zero.
-/

namespace ScriptSymbols

/-- A variable, with the line that first assigns it and the method that it is local to. -/
structure Variable where
  name : String
  line : Nat
  owner : Option String
  deriving DecidableEq

/-- A method: its name, its signature as written, the names of its parameters, the comment above it,
the script that holds it, its first and last line and its local variables. -/
structure Method where
  name : String
  signature : String
  params : List String
  comment : Option String
  uri : Uri
  line : Nat
  endLine : Nat
  locals : List Variable
  deriving DecidableEq

/-- The symbols of one script. -/
structure Script where
  uri : Uri
  methods : List Method
  globals : List Variable
  deriving DecidableEq

/-- Whether a line is one of the method's. -/
def Method.containsLine (m : Method) (line : Nat) : Bool :=
  m.line ≤ line && line ≤ m.endLine

/-- The names in scope only inside the method: its parameters, then its local variables. -/
def Method.localNames (m : Method) : List String :=
  m.params ++ m.locals.map Variable.name

/-- The first method that holds a line. -/
def Script.methodAt? (s : Script) (line : Nat) : Option Method :=
  s.methods.find? (·.containsLine line)

end ScriptSymbols
