/-!
# Generated workspaces

Scripts generated for measuring: each has file variables assigned to object literals, methods with a
comment, and lines of plain code with commands in between. The same shape always gives the same text.

- `Fixture.Shape` says how many of each there are.
- `Fixture.content` is the text of one file.
-/

namespace ScriptSymbols
namespace Fixture

/-- The shape of a generated workspace. With no subdirectory all files lie at the root. -/
structure Shape where
  files : Nat
  methods : Nat
  globals : Nat
  subdirectories : Nat
  extraLines : Nat
  deriving DecidableEq

/-- Ten files of five methods. -/
def Shape.small : Shape := ⟨10, 5, 2, 0, 5⟩

/-- Fifty files of ten methods. -/
def Shape.medium : Shape := ⟨50, 10, 5, 5, 10⟩

/-- Two hundred files of twenty methods. -/
def Shape.large : Shape := ⟨200, 20, 10, 10, 20⟩

/-- The path of a file relative to the root. -/
def Shape.relativePath (s : Shape) (file : Nat) : String :=
  let name := "file_" ++ toString file ++ ".ahk"
  if s.subdirectories = 0 then name
  else "group_" ++ toString (file % s.subdirectories) ++ "/" ++ name

/-- The number of variables at file scope in each file; one of the commands writes to two more. -/
def Shape.fileVariables (s : Shape) : Nat :=
  s.globals + s.extraLines + (if 0 < s.extraLines then 2 else 0)

/-- The command that writes to two variables. -/
def mouseCommand : String := "MouseGetPos, OutputVarX, OutputVarY"

/-- The commands between the lines of plain code. -/
def commands : List String :=
  ["MsgBox % \"status: \" . state", "Gui, %hwnd%: Color, % color", mouseCommand, "Sleep, 100",
   "SetTitleMatchMode, 2"]

/-- The line of a file variable. -/
def globalLine (file n : Nat) : String :=
  "global_" ++ toString file ++ "_" ++ toString n ++ " := \x7bname: \"g" ++ toString n
    ++ "\", size: " ++ toString n ++ "\x7d"

/-- The lines of a method. -/
def methodLines (file n : Nat) : List String :=
  ["; Computes step " ++ toString n ++ " of file " ++ toString file,
   "method_" ++ toString file ++ "_" ++ toString n ++ "(ByRef x, y := " ++ toString (n + 1)
     ++ ") \x7b",
   "    result := x + y * " ++ toString (n + 1) ++ " ; scale",
   "    if (result = \"\") \x7b",
   "        return 0",
   "    \x7d",
   "    return result",
   "\x7d",
   ""]

/-- A line of plain code, and the command behind it unless it is the one that opens the code. -/
def extraLines (file n : Nat) : List String :=
  let line := "var_" ++ toString file ++ "_" ++ toString n ++ " := \"value " ++ toString n ++ "\""
  let command := commands.getD ((file + n) % commands.length) ""
  if command = mouseCommand then [line] else [line, command]

/-- The lines of a file. -/
def contentLines (s : Shape) (file : Nat) : List String :=
  ["; Generated fixture file " ++ toString file] ++ (List.range s.globals).map (globalLine file)
    ++ [""] ++ (List.range s.methods).flatMap (methodLines file)
    ++ (if 0 < s.extraLines then [mouseCommand] else [])
    ++ (List.range s.extraLines).flatMap (extraLines file)

/-- The text of a file. -/
def content (s : Shape) (file : Nat) : String :=
  String.join ((contentLines s file).map (· ++ "\n"))

/-- The text of the file with a relative path, if there is one. -/
def contentAt? (s : Shape) (path : String) : Option String :=
  ((List.range s.files).find? fun file => s.relativePath file = path).map (content s)

end Fixture
end ScriptSymbols
