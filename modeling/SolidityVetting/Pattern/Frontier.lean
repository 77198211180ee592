import SolidityVetting.Pattern.Basic
import Std.Data.HashSet
/-! # Matching from several places at once

A pattern is followed from a list of places, the preferred one first. Where a run of characters
leads to one place twice, only the first time counts: whatever follows the second time, follows the
first time already. So the list never holds more places than the text has, however many ways lead
there.
-/

set_option autoImplicit false

namespace SolidityVetting

/-- The strides up to the first place whose index is in `seen`, furthest first, put in front of
`nearer`; `after` is what follows `s`. -/
def Place.freshStrides (accepts : Char → Bool) (seen : Std.HashSet Nat) (s : Place)
    (nearer : List Place) : (after : List Char) → List Place
  | [] => if seen.contains s.index then nearer else s :: nearer
  | c :: rest =>
    if seen.contains s.index then nearer
    else if accepts c then freshStrides accepts seen (s.pass c rest) (s :: nearer) rest
    else s :: nearer

namespace Pattern

def inOrder : Appetite → List Place → List Place
  | .most, places => places
  | .least, places => places.reverse

/-- The ends of a run from each of the places, those in `seen` left out. -/
def runs (appetite : Appetite) (accepts : Char → Bool) (seen : Std.HashSet Nat) :
    List Place → List Place
  | [] => []
  | s :: rest =>
    let fresh := s.freshStrides accepts seen [] s.after
    if rest.isEmpty then inOrder appetite fresh
    else inOrder appetite fresh ++
      runs appetite accepts (fresh.foldl (fun seen t => seen.insert t.index) seen) rest

def repeatedOnto (appetite : Appetite) (body : Place → List Place) :
    (rounds : Nat) → Place → (later : List Place) → List Place
  | 0, s, later => s :: later
  | rounds + 1, s, later =>
    match appetite with
    | .most => (body s).foldr (repeatedOnto appetite body rounds) (s :: later)
    | .least => s :: (body s).foldr (repeatedOnto appetite body rounds) later

def reach : Pattern → List Place → List Place
  | .nothing, places => places
  | .one accepts, places => places.filterMap (Place.step? accepts)
  | .run appetite accepts, places => runs appetite accepts {} places
  | .seq first second, places =>
    match first.reach places with
    | [] => []
    | reached => second.reach reached
  | .alt first second, places => places.flatMap fun s => first.reach [s] ++ second.reach [s]
  | .many appetite body, places =>
    places.foldr (fun s => repeatedOnto appetite (fun t => body.reach [t]) s.after.length s) []
  | .wordEdge, places => places.filter Place.atWordEdge
  | .lineStart, places => places.filter Place.atLineStart
  | .captureStart, places => places.map Place.openCapture
  | .captureEnd, places => places.map Place.closeCapture

end Pattern
end SolidityVetting
