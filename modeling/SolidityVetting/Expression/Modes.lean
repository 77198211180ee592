import SolidityVetting.Text.Blank

set_option autoImplicit false

namespace SolidityVetting.Expression

structure Modes where
  spaced : Bool := false
  /-- Sets are sets of characters, not of bytes. -/
  unicode : Bool := true
  deriving DecidableEq

namespace Modes

/-- What follows blanks and comments. A comment runs from a number sign to the end of its line. -/
def skipSpace (inComment : Bool) : List Char → List Char
  | [] => []
  | c :: rest =>
    if inComment then skipSpace (c != '\n') rest
    else if Text.isBlank c then skipSpace false rest
    else if c == '#' then skipSpace true rest
    else c :: rest

def skip (m : Modes) (s : List Char) : List Char := if m.spaced then skipSpace false s else s

/-- The character that counts as the next one when looking ahead: of a comment only its sign is
passed over. -/
def ahead? (m : Modes) (s : List Char) : Option Char :=
  if m.spaced then
    match s.dropWhile Text.isBlank with
    | '#' :: rest => (rest.dropWhile Text.isBlank).head?
    | rest => rest.head?
  else s.head?

def holds (m : Modes) (c : Char) : Bool := m.unicode || c.toNat < 128

end Modes

def depthOf : List Nat → Nat
  | [] => 0
  | [depth] => depth
  | depth :: more => more.foldl max depth + 1

end SolidityVetting.Expression
