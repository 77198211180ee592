import SolidityVetting.Expression.Modes
import SolidityVetting.Hex

set_option autoImplicit false

namespace SolidityVetting.Expression

inductive Atom where
  | char (c : Char)
  | set
  /-- No character, at a place of a certain kind. -/
  | place
  deriving DecidableEq

def hexDigit? (c : Char) : Option Nat :=
  if c.toNat < 128 then Hex.digit? c.toNat.toUInt8 else none

def hexDigits? (m : Modes) (value : Nat) : (count : Nat) → List Char → Option (Nat × List Char)
  | 0, s => some (value, s)
  | count + 1, s =>
    match m.skip s with
    | [] => none
    | c :: rest => do hexDigits? m (value * 16 + (← hexDigit? c)) count rest

def numbered? (m : Modes) (count : Nat) (s : List Char) : Option (Atom × List Char) := do
  let (n, rest) ← hexDigits? m 0 count s
  if n.isValidChar then some (.char (Char.ofNat n), rest) else none

/-- A byte beyond ASCII is no character of its own. -/
def byte? (m : Modes) (s : List Char) : Option (Atom × List Char) :=
  (numbered? m 2 s).filter fun
    | (.char c, _) => m.holds c
    | _ => true

def categories : List Char := "cClLmMnNpPsSzZ".toList

def category? (m : Modes) (s : List Char) : Option (Atom × List Char) :=
  match m.skip s with
  | [] => none
  | c :: rest => if m.unicode && categories.contains c then some (.set, rest) else none

def control? (c : Char) : Option Char :=
  [('a', '\x07'), ('f', '\x0C'), ('t', '\t'), ('n', '\n'), ('r', '\r'), ('v', '\x0B')].lookup c

def isEscapable (c : Char) : Bool := c.toNat < 128 && ! c.isAlphanum && c != '<' && c != '>'

def escape? (m : Modes) : List Char → Option (Atom × List Char)
  | [] => none
  | c :: rest =>
    if c == 'x' then byte? m rest
    else if c == 'u' then numbered? m 4 rest
    else if c == 'U' then numbered? m 8 rest
    else if c == 'p' || c == 'P' then category? m rest
    else if "dsw".toList.contains c then some (.set, rest)
    else if "DSW".toList.contains c then if m.unicode then some (.set, rest) else none
    else if c == 'A' || c == 'z' then some (.place, rest)
    else if "bB<>".toList.contains c then if m.unicode then none else some (.place, rest)
    else match control? c with
      | some d => some (.char d, rest)
      | none => if isEscapable c then some (.char c, rest) else none

end SolidityVetting.Expression
