import SolidityVetting.Pattern.Frontier
import SolidityVetting.Text.Lines
import SolidityVetting.Text.Utf8

set_option autoImplicit false

namespace SolidityVetting

structure Hit where
  start : Place
  finish : Place

namespace Hit

def line (h : Hit) : Nat := Text.lineAfter h.start.before

def startOffset (h : Hit) : Nat := Utf8.length h.start.before

def endOffset (h : Hit) : Nat := Utf8.length h.finish.before

/-- The captured text, or the whole match where the pattern captures nothing. -/
def text (h : Hit) : List Char := (h.finish.captured.getD (h.start.spanTo h.finish)).chars

end Hit

namespace Pattern

def matchAt? (p : Pattern) (s : Place) : Option Hit :=
  (p.reach [{ s with captured := none }]).head?.map fun t => ⟨s, t⟩

def searchOver? (p : Pattern) (s : Place) : (after : List Char) → Option Hit
  | [] => p.matchAt? s
  | c :: rest =>
    match p.matchAt? s with
    | some hit => some hit
    | none => searchOver? p (s.pass c rest) rest

def searchFrom? (p : Pattern) (s : Place) : Option Hit := p.searchOver? s s.after

def search? (p : Pattern) (text : List Char) : Option Hit := p.searchFrom? (.start text)

def occursIn (p : Pattern) (text : List Char) : Bool := (p.search? text).isSome

/-- The matches from a place on. The list ends after a match that takes no character. -/
def hitsFrom (p : Pattern) (s : Place) : List Hit :=
  match p.searchFrom? s with
  | none => []
  | some hit =>
    if hit.finish.after.length < s.after.length then hit :: hitsFrom p hit.finish else [hit]
termination_by s.after.length

def hits (p : Pattern) (text : List Char) : List Hit := p.hitsFrom (.start text)

end Pattern
end SolidityVetting
