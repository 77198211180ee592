import SolidityVetting.Import
/-! # Directory trees

Search paths as finite trees of directories and files, without links. Opening a path walks down the
tree segment by segment: an absent name is told apart from a path that stands but cannot be read as
a file.
-/

set_option autoImplicit false

namespace SolidityVetting

inductive Tree where
  | file (bytes : List UInt8)
  | directory (entries : List (String × Tree))

inductive Opened where
  | file (bytes : List UInt8)
  | missing
  /-- A directory, a path through a file, or a path or name that cannot exist. -/
  | unreadable

namespace Tree

def maxNameLength : Nat := 255

def staysHere (segment : List Char) : Bool := segment.isEmpty || segment == ['.']

def entry? (name : String) : List (String × Tree) → Option Tree
  | [] => none
  | (other, t) :: rest => if other = name then some t else entry? name rest

/-- Follows the segments of a path. Only a directory can be passed through or stayed in. -/
def walk (t : Tree) : List (List Char) → Opened
  | [] => match t with
    | .file bytes => .file bytes
    | .directory _ => .unreadable
  | segment :: rest => match t with
    | .file _ => .unreadable
    | .directory entries =>
      if staysHere segment then walk (.directory entries) rest
      else if Utf8.length segment > maxNameLength then .unreadable
      else match entry? (String.ofList segment) entries with
        | none => .missing
        | some inner => walk inner rest

/-- Opens a path below the root of a tree. A path with the character NUL, or one of more than
`longest` bytes, is not even looked up. -/
def openPath (longest : Nat) (root : Option Tree) (path : String) : Opened :=
  if path.toList.contains '\x00' || path.utf8ByteSize > longest then .unreadable
  else match root with
    | none => .missing
    | some t => t.walk (Import.segments path.toList)

mutual

def fileCount : Tree → Nat
  | .file _ => 1
  | .directory entries => fileCountIn entries

def fileCountIn : List (String × Tree) → Nat
  | [] => 0
  | (_, t) :: rest => fileCount t + fileCountIn rest

end

def changeEntry (name : String) (f : Option Tree → Tree) :
    List (String × Tree) → List (String × Tree)
  | [] => [(name, f none)]
  | (other, t) :: rest =>
    if other = name then (other, f (some t)) :: rest else (other, t) :: changeEntry name f rest

def put (leaf : Tree) : List (List Char) → Option Tree → Tree
  | [], _ => leaf
  | segment :: rest, here =>
    let entries := match here with
      | some (.directory entries) => entries
      | _ => []
    if staysHere segment then put leaf rest (some (.directory entries))
    else .directory (changeEntry (String.ofList segment) (put leaf rest) entries)

def ofPaths (leaves : List (String × Tree)) : Tree :=
  leaves.foldl (fun t leaf => put leaf.2 (Import.segments leaf.1.toList) (some t)) (.directory [])

end Tree
end SolidityVetting
