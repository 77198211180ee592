import SolidityVetting.Text.Word
/-! # Patterns

A pattern describes a stretch of text. From a place in the text, `ends` lists every place where the
stretch may end, the preferred one first; the first of them is the match. A place keeps what stands
before it, so that word edges and line starts see both sides.
-/

set_option autoImplicit false

namespace SolidityVetting

structure Span where
  fromStart : List Char
  fromEnd : List Char

def Span.chars (s : Span) : List Char := s.fromStart.take (s.fromStart.length - s.fromEnd.length)

/-- A place in a text: the characters before it, nearest first, those after it, the number of those
before it, and the stretch that was last captured on the way there. -/
structure Place where
  before : List Char
  after : List Char
  index : Nat := before.length
  captured : Option Span := none

namespace Place

def start (text : List Char) : Place := { before := [], after := text }

def pass (s : Place) (c : Char) (rest : List Char) : Place :=
  ⟨c :: s.before, rest, s.index + 1, s.captured⟩

def step? (accepts : Char → Bool) (s : Place) : Option Place :=
  match s.after with
  | [] => none
  | c :: rest => if accepts c then some (s.pass c rest) else none

def spanTo (s t : Place) : Span := ⟨s.after, t.after⟩

def touchesWord : List Char → Bool
  | [] => false
  | c :: _ => Text.isWord c

def atWordEdge (s : Place) : Bool := touchesWord s.before != touchesWord s.after

def atLineStart (s : Place) : Bool :=
  match s.before with
  | [] => true
  | c :: _ => c == '\n'

def openCapture (s : Place) : Place := { s with captured := some ⟨s.after, s.after⟩ }

def closeCapture (s : Place) : Place :=
  { s with captured := s.captured.map fun span => ⟨span.fromStart, s.after⟩ }

/-- The places reached by taking accepted characters one by one, nearest first; `after` is what
follows `s`. -/
def stridesOver (accepts : Char → Bool) (s : Place) : (after : List Char) → List Place
  | [] => [s]
  | c :: rest => s :: if accepts c then stridesOver accepts (s.pass c rest) rest else []

def strides (accepts : Char → Bool) (s : Place) : List Place := stridesOver accepts s s.after

end Place

inductive Appetite where
  | most
  | least
  deriving DecidableEq

inductive Pattern where
  | nothing
  | one (accepts : Char → Bool)
  | run (appetite : Appetite) (accepts : Char → Bool)
  | seq (first second : Pattern)
  /-- Either stretch, the first preferred. -/
  | alt (first second : Pattern)
  | many (appetite : Appetite) (body : Pattern)
  /-- No character, between a word character and what is none. -/
  | wordEdge
  | lineStart
  | captureStart
  | captureEnd

namespace Pattern

/-- The ends of up to `rounds` repetitions of a body given by its own ends. As many rounds as there
are characters are enough for a body that takes at least one. -/
def repeated (appetite : Appetite) (body : Place → List Place) : (rounds : Nat) → Place → List Place
  | 0, s => [s]
  | rounds + 1, s =>
    let further := (body s).flatMap (repeated appetite body rounds)
    match appetite with
    | .most => further ++ [s]
    | .least => s :: further

def ends : Pattern → Place → List Place
  | .nothing, s => [s]
  | .one accepts, s => (s.step? accepts).toList
  | .run .most accepts, s => (s.strides accepts).reverse
  | .run .least accepts, s => s.strides accepts
  | .seq first second, s => (first.ends s).flatMap second.ends
  | .alt first second, s => first.ends s ++ second.ends s
  | .many appetite body, s => repeated appetite body.ends s.after.length s
  | .wordEdge, s => if s.atWordEdge then [s] else []
  | .lineStart, s => if s.atLineStart then [s] else []
  | .captureStart, s => [s.openCapture]
  | .captureEnd, s => [s.closeCapture]

instance : Append Pattern := ⟨seq⟩

instance : OrElse Pattern := ⟨fun first second => alt first (second ())⟩

def capture (body : Pattern) : Pattern := captureStart ++ body ++ captureEnd

def exactly (text : String) : Pattern :=
  text.toList.foldr (fun c rest => seq (one (· == c)) rest) nothing

def anyCase (text : String) : Pattern :=
  text.toList.foldr (fun c rest => seq (one fun d => d.toLower == c.toLower) rest) nothing

def oneOrMore (accepts : Char → Bool) : Pattern := one accepts ++ run .most accepts

def zeroOrMore (accepts : Char → Bool) : Pattern := run .most accepts

end Pattern
end SolidityVetting
