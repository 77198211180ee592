import SolidityVetting.Pattern.Search

set_option autoImplicit false

namespace SolidityVetting.Import

section Patterns
open Pattern

def isQuote (c : Char) : Bool := c == '"' || c == '\''

/-- An import at the start of a line; the path between quotes is captured. -/
def directive : Pattern :=
  lineStart ++ zeroOrMore (fun c => c == ' ' || c == '\t') ++ exactly "import" ++ wordEdge ++
    zeroOrMore (fun c => c != ';' && ! isQuote c) ++ one isQuote ++
    capture (oneOrMore (! isQuote ·)) ++ one isQuote ++ zeroOrMore (· != ';') ++ exactly ";"

end Patterns

def paths (source : String) : List String :=
  (directive.hits source.toList).map fun hit => String.ofList hit.text

def isRelative (path : List Char) : Bool :=
  (Text.dropStart? "./".toList path).isSome || (Text.dropStart? "../".toList path).isSome

def segments (path : List Char) : List (List Char) := Text.pieces (· == '/') path

def directory (unit : List Char) : List (List Char) :=
  (segments unit).dropLast.filter (! ·.isEmpty)

/-- Follows segments from a directory given innermost first; `none` above the root. -/
def follow : (reached : List (List Char)) → List (List Char) → Option (List (List Char))
  | reached, [] => some reached
  | reached, segment :: rest =>
    if segment.isEmpty || segment == ['.'] then follow reached rest
    else if segment == ['.', '.'] then
      match reached with
      | [] => none
      | _ :: outer => follow outer rest
    else follow (segment :: reached) rest

def unit? (importer path : String) : Option String :=
  let origin := if isRelative path.toList then directory importer.toList else []
  (follow origin.reverse (segments path.toList)).map fun reached =>
    String.ofList (Text.join ['/'] reached.reverse)

end SolidityVetting.Import
