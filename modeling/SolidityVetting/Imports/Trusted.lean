import SolidityVetting.Imports.Tree
/-! # Trusted imports

Units whose names lie in one trusted namespace are served from search paths; the first path that
has anything under the name decides. Everything else is refused.
-/

set_option autoImplicit false

namespace SolidityVetting

inductive ImportRefusal where
  | outside (path scope : String)
  /-- The path could leave the search paths. -/
  | escapes (path : String)
  | missing (path : String)
  | unreadable (path : String)
  deriving DecidableEq

def ImportRefusal.message : ImportRefusal → String
  | .outside path scope => path ++ " is outside the trusted namespace " ++ scope
  | .escapes path => path ++ " escapes the import search paths"
  | .missing path => path ++ " not found in any import path"
  | .unreadable path => path ++ " could not be read"

abbrev Resolver := String → Except ImportRefusal String

def Resolver.nothing : Resolver := fun path => .error (.missing path)

structure TrustedImports where
  /-- The namespace, ending in a slash so that it covers whole segments only. -/
  scope : String
  /-- The search paths in order, `none` for one that does not exist. -/
  roots : List (Option Tree)
  /-- The bytes that the name of a search path leaves to a path below it. -/
  longest : Nat

namespace TrustedImports

/-- Trusts the names below `name`; a slash is added where there is none at the end. A whole path has
at most 4095 bytes. -/
def ofNamespace (name : String) (roots : List (Option Tree)) (longest : Nat := 4095) :
    TrustedImports :=
  ⟨if name.toList.getLast? = some '/' then name else name ++ "/", roots, longest⟩

def mayEscape (path : List Char) : Bool :=
  path.contains '\\' || (Import.segments path).contains ['.', '.'] ||
    (Import.segments path).head? == some ['.'] || path.head? == some '/'

def search (longest : Nat) (path : String) : List (Option Tree) → Except ImportRefusal String
  | [] => .error (.missing path)
  | root :: rest =>
    match Tree.openPath longest root path with
    | .missing => search longest path rest
    | .unreadable => .error (.unreadable path)
    | .file bytes =>
      match Utf8.decode? bytes with
      | some text => .ok text
      | none => .error (.unreadable path)

def resolve (t : TrustedImports) : Resolver := fun path =>
  if (Text.dropStart? t.scope.toList path.toList).isNone then .error (.outside path t.scope)
  else if mayEscape path.toList then .error (.escapes path)
  else search t.longest path t.roots

/-- How many units the search paths can add to sources of these names. A unit is a file under a name
that may keep `.` segments of its importer's directory, so no more units than this differ: it is
given by the file and by the part of a name up to the last `.` segment. -/
def servable (t : TrustedImports) (names : List String) : Nat :=
  let files := (t.roots.map fun root => (root.map Tree.fileCount).getD 0).foldr (· + ·) 0
  files * (1 + (names.map fun name => (Import.segments name.toList).length).foldr (· + ·) 0)

end TrustedImports
end SolidityVetting
