import SolidityVetting.Expression.Escape

set_option autoImplicit false

namespace SolidityVetting.Expression

structure OpenSet where
  /-- The depth of what stands in front of the last operator. -/
  left : Option Nat := none
  items : List Nat := []

namespace OpenSet

def depth (s : OpenSet) : Nat :=
  match s.left with
  | none => depthOf s.items
  | some left => max left (depthOf s.items) + 1

def add (s : OpenSet) (depth : Nat) : OpenSet := { s with items := depth :: s.items }

def operator (s : OpenSet) : OpenSet := { left := some s.depth }

end OpenSet

def setNames : List (List Char) :=
  ["alnum", "alpha", "ascii", "blank", "cntrl", "digit", "graph", "lower", "print", "punct",
    "space", "upper", "word", "xdigit"].map String.toList

/-- The name of a set between colons and a bracket, as it stands behind a bracket; a caret in front
of the name excludes the set. -/
def namedSet? : List Char → Option (Bool × List Char)
  | ':' :: rest =>
    let excluded := rest.head? == some '^'
    let rest := if excluded then rest.drop 1 else rest
    match rest.dropWhile (· != ':') with
    | ':' :: ']' :: after =>
      if setNames.contains (rest.takeWhile (· != ':')) then some (excluded, after) else none
    | _ => none
  | _ => none

def setItem? (m : Modes) : List Char → Option (Atom × List Char)
  | [] => none
  | c :: rest => if c == '\\' then escape? m rest else some (.char c, rest)

def setRange? (m : Modes) (s : List Char) : Option (List Char) := do
  let (first, rest) ← setItem? m s
  let alone : Option (List Char) :=
    match first with
    | .char c => if m.holds c then some rest else none
    | .set => some rest
    | .place => none
  match m.skip rest with
  | '-' :: after =>
    if m.ahead? after == some ']' || m.ahead? after == some '-' then alone
    else match first, ← setItem? m (m.skip after) with
      | .char c, (.char d, rest) =>
        if c ≤ d && m.holds c && m.holds d then some rest else none
      | _, _ => none
  | _ => alone

inductive SetStage where
  | opened
  /-- Dashes and a closing bracket stand for themselves. -/
  | leading
  | body
  deriving DecidableEq

structure SetReading where
  stage : SetStage := .opened
  inner : OpenSet := {}
  outer : List OpenSet := []

inductive SetOutcome where
  | done (depth : Nat) (rest : List Char)
  | more (r : SetReading) (rest : List Char)

namespace SetReading

def close (r : SetReading) (rest : List Char) : SetOutcome :=
  match r.outer with
  | [] => .done (r.inner.depth + 1) rest
  | s :: outer => .more ⟨.body, s.add (r.inner.depth + 1), outer⟩ rest

def item (r : SetReading) : SetReading := ⟨.body, r.inner.add 0, r.outer⟩

def readBody? (m : Modes) (r : SetReading) : List Char → Option SetOutcome
  | [] => none
  | ']' :: rest => some (r.close rest)
  | '&' :: '&' :: rest => some (.more ⟨.body, r.inner.operator, r.outer⟩ rest)
  | '-' :: '-' :: rest => some (.more ⟨.body, r.inner.operator, r.outer⟩ rest)
  | '~' :: '~' :: rest => some (.more ⟨.body, r.inner.operator, r.outer⟩ rest)
  | '[' :: rest =>
    match namedSet? rest with
    | some (excluded, rest) => if excluded && ! m.unicode then none else some (.more r.item rest)
    | none => some (.more ⟨.opened, {}, r.inner :: r.outer⟩ rest)
  | s => (setRange? m s).map (.more r.item)

def readLeading? (m : Modes) (r : SetReading) : List Char → Option SetOutcome
  | '-' :: rest => some (.more { r.item with stage := .leading } rest)
  | ']' :: rest =>
    if r.inner.items.isEmpty then some (.more r.item rest) else r.readBody? m (']' :: rest)
  | s => r.readBody? m s

def step? (m : Modes) (r : SetReading) (s : List Char) : Option SetOutcome :=
  match r.stage, s with
  | .opened, '^' :: rest =>
    if m.unicode then some (.more { r with stage := .leading } rest) else none
  | .opened, s => r.readLeading? m s
  | .leading, s => r.readLeading? m s
  | .body, s => r.readBody? m s

/-- Reads up to the bracket that closes the outermost set. Every item takes a character. -/
def read? (m : Modes) : (fuel : Nat) → SetReading → List Char → Option (Nat × List Char)
  | 0, _, _ => none
  | fuel + 1, r, s => do
    match ← r.step? m (m.skip s) with
    | .done depth rest => return (depth, rest)
    | .more r rest => read? m fuel r rest

end SetReading

def charSet? (m : Modes) (s : List Char) : Option (Nat × List Char) :=
  SetReading.read? m s.length {} s

end SolidityVetting.Expression
