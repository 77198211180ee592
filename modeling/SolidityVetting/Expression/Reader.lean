import SolidityVetting.Expression.CharSet
import SolidityVetting.Text.Letters
/-! # Well-formed expressions

An expression is read from left to right with a stack of the groups that are open. It is well formed
if every group is closed, every repetition has something to repeat, and no part lies too deep.
-/

set_option autoImplicit false

namespace SolidityVetting.Expression

/-- A part of an alternative. Flags alone are a part that cannot be repeated. -/
structure Part where
  depth : Nat
  repeatable : Bool := true

structure Group where
  /-- The modes to which the end of the group returns. -/
  outside : Modes := {}
  alternatives : List Nat := []
  /-- The parts of the current alternative, the last one first. -/
  parts : List Part := []

namespace Group

def add (g : Group) (part : Part) : Group := { g with parts := part :: g.parts }

def turn (g : Group) : Group :=
  { g with alternatives := depthOf (g.parts.map Part.depth) :: g.alternatives, parts := [] }

def depth (g : Group) : Nat := depthOf g.turn.alternatives

def again? (g : Group) : Option Group :=
  match g.parts with
  | [] => none
  | part :: parts =>
    if part.repeatable then some { g with parts := ⟨part.depth + 1, true⟩ :: parts } else none

end Group

structure Flags where
  modes : Modes
  seen : List Char := []
  negated : Bool := false
  /-- The minus sign still lacks a flag. -/
  dangling : Bool := false

namespace Flags

def letters : List Char := "imsUuRx".toList

def set (f : Flags) (c : Char) : Flags :=
  let modes : Modes :=
    if c == 'x' then { f.modes with spaced := ! f.negated }
    else if c == 'u' then { f.modes with unicode := ! f.negated }
    else f.modes
  ⟨modes, c :: f.seen, f.negated, false⟩

/-- Reads flags, none of them twice, up to a colon or a closing parenthesis, and tells whether a
group follows them. -/
def read? (f : Flags) : List Char → Option (Flags × Bool × List Char)
  | [] => none
  | c :: rest =>
    if c == ':' || c == ')' then if f.dangling then none else some (f, c == ':', rest)
    else if c == '-' then
      if f.negated then none else read? { f with negated := true, dangling := true } rest
    else if letters.contains c && ! f.seen.contains c then read? (f.set c) rest
    else none

end Flags

def startsName (c : Char) : Bool := c == '_' || Text.isAlphabetic c

def continuesName (c : Char) : Bool :=
  c == '_' || c == '.' || c == '[' || c == ']' || Text.isAlphanumeric c

def groupName? (s : List Char) : Option (List Char × List Char) :=
  match s.takeWhile (· != '>'), s.dropWhile (· != '>') with
  | c :: name, '>' :: rest =>
    if startsName c && name.all continuesName then some (c :: name, rest) else none
  | _, _ => none

structure Reading where
  modes : Modes := {}
  names : List (List Char) := []
  inner : Group := {}
  outer : List Group := []

namespace Reading

def add (r : Reading) (part : Part) : Reading := { r with inner := r.inner.add part }

def enter (r : Reading) (inside : Modes) : Reading :=
  { r with modes := inside, inner := { outside := r.modes }, outer := r.inner :: r.outer }

def enterNamed? (r : Reading) (s : List Char) : Option (Reading × List Char) := do
  let (name, rest) ← groupName? s
  if r.names.contains name then none
  else some ({ r with names := name :: r.names }.enter r.modes, rest)

def flags? (r : Reading) (s : List Char) : Option (Reading × List Char) := do
  let (f, opensGroup, rest) ← Flags.read? { modes := r.modes } s
  if opensGroup then some (r.enter f.modes, rest)
  else if f.seen.isEmpty then none
  else some ({ r with modes := f.modes }.add ⟨0, false⟩, rest)

def group? (r : Reading) (s : List Char) : Option (Reading × List Char) :=
  match r.modes.skip s with
  | '?' :: '=' :: _ => none
  | '?' :: '!' :: _ => none
  | '?' :: '<' :: '=' :: _ => none
  | '?' :: '<' :: '!' :: _ => none
  | '?' :: 'P' :: '<' :: rest => r.enterNamed? rest
  | '?' :: '<' :: rest => r.enterNamed? rest
  | '?' :: rest => r.flags? rest
  | rest => some (r.enter r.modes, rest)

def leave? (r : Reading) : Option Reading :=
  match r.outer with
  | [] => none
  | g :: outer =>
    some { r with
      modes := r.inner.outside, inner := g.add ⟨r.inner.depth + 1, true⟩, outer := outer }

/-- Repeats the last part; a question mark directly behind makes the repetition take little. -/
def again? (r : Reading) (s : List Char) : Option (Reading × List Char) := do
  let inner ← r.inner.again?
  let rest := if s.head? == some '?' then s.drop 1 else s
  return ({ r with inner }, rest)

def step? (r : Reading) (c : Char) (rest : List Char) : Option (Reading × List Char) :=
  match c with
  | '(' => r.group? rest
  | ')' => r.leave?.map fun r => (r, rest)
  | '|' => some ({ r with inner := r.inner.turn }, rest)
  | '[' => (charSet? r.modes rest).map fun (depth, rest) => (r.add ⟨depth, true⟩, rest)
  | '?' => r.again? rest
  | '*' => r.again? rest
  | '+' => r.again? rest
  | '{' => none
  | '.' => if r.modes.unicode then some (r.add ⟨0, true⟩, rest) else none
  | '\\' => (escape? r.modes rest).map fun (_, rest) => (r.add ⟨0, true⟩, rest)
  | _ => some (r.add ⟨0, true⟩, rest)

def read? : (fuel : Nat) → Reading → List Char → Option Reading
  | fuel, r, s =>
    match r.modes.skip s with
    | [] => some r
    | c :: rest =>
      match fuel with
      | 0 => none
      | fuel + 1 => do
        let (r, rest) ← r.step? c rest
        read? fuel r rest

end Reading

def maxDepth : Nat := 250

def isWellFormed (s : List Char) : Bool :=
  (Reading.read? s.length {} s).any fun r => r.outer.isEmpty && r.inner.depth ≤ maxDepth

end SolidityVetting.Expression
