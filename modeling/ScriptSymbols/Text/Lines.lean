/-!
# Lines of a script

A line of a script ends at a line feed; a carriage return right before the feed belongs to the end of
the line. A text that ends in a line feed has no further line behind it, and a carriage return
elsewhere is an ordinary character.
-/

namespace ScriptSymbols
namespace Text

/-- Adds a character to the pieces of the text behind it. -/
def consPiece (c : Char) : List (List Char) → List (List Char)
  | [] => [[c]]
  | piece :: pieces => if c = '\n' then [] :: piece :: pieces else (c :: piece) :: pieces

/-- The pieces of a text between its line feeds, of which there is one more than line feeds. -/
def pieces (text : List Char) : List (List Char) :=
  text.foldr consPiece [[]]

/-- The line without a carriage return at its end. -/
def dropReturn (line : List Char) : List Char :=
  if line.getLast? = some '\r' then line.dropLast else line

/-- The lines made of pieces: only the last piece is not ended by a line feed. -/
def linesOfPieces : List (List Char) → List (List Char)
  | [] => []
  | [piece] => if piece.isEmpty then [] else [piece]
  | piece :: rest => dropReturn piece :: linesOfPieces rest

/-- The lines of a text, without their ends. -/
def lines (text : List Char) : List (List Char) :=
  linesOfPieces (pieces text)

end Text
end ScriptSymbols
