import SolidityVetting.Text.Blank

set_option autoImplicit false

namespace SolidityVetting.Text

def dropReturn (line : List Char) : List Char :=
  if line.getLast? = some '\r' then line.dropLast else line

/-- Finishes the pieces between line feeds: all but the last were ended by one. -/
def closeLines : List (List Char) → List (List Char)
  | [] => []
  | [last] => if last.isEmpty then [] else [last]
  | line :: next :: rest => dropReturn line :: closeLines (next :: rest)

def lines (s : List Char) : List (List Char) := closeLines (pieces (· == '\n') s)

def lineAfter (before : List Char) : Nat := before.count '\n' + 1

end SolidityVetting.Text
