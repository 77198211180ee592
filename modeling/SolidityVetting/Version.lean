import SolidityVetting.Numeral
import SolidityVetting.Text.Blank
/-! # Compiler versions

The version that a pragma asks for at least, read off its first alternative: the first part that is
no upper bound, without its operator.
-/

set_option autoImplicit false

namespace SolidityVetting

structure Version where
  major : Nat
  minor : Nat
  patch : Nat
  deriving DecidableEq

namespace Version

instance : LT Version where
  lt a b := a.major < b.major ∨
    a.major = b.major ∧ (a.minor < b.minor ∨ a.minor = b.minor ∧ a.patch < b.patch)

instance : LE Version := ⟨fun a b => ¬ b < a⟩

instance (a b : Version) : Decidable (a < b) :=
  inferInstanceAs (Decidable (_ ∨ _ ∧ (_ ∨ _ ∧ _)))

instance (a b : Version) : Decidable (a ≤ b) := inferInstanceAs (Decidable (¬ b < a))

instance : Ord Version := ⟨fun a b => if a < b then .lt else if b < a then .gt else .eq⟩

def minimum : Version := ⟨0, 8, 20⟩

def isSupported (v : Version) : Bool := minimum ≤ v

def text (v : Version) : String := toString v.major ++ "." ++ toString v.minor ++ "." ++ toString v.patch

def firstAlternative : List Char → List Char
  | '|' :: '|' :: _ => []
  | [] => []
  | c :: rest => c :: firstAlternative rest

def isOperator (c : Char) : Bool := c == '^' || c == '~' || c == '>' || c == '=' || c == 'v'

/-- One to three numbers with dots between them; those left out are 0. -/
def ofNumbers? (s : List Char) : Option Version :=
  match Text.pieces (· == '.') s with
  | [major] => do return ⟨← Numeral.word32? major, 0, 0⟩
  | [major, minor] => do return ⟨← Numeral.word32? major, ← Numeral.word32? minor, 0⟩
  | [major, minor, patch] => do
    return ⟨← Numeral.word32? major, ← Numeral.word32? minor, ← Numeral.word32? patch⟩
  | _ => none

def isUpperBound (part : List Char) : Bool := part.head? == some '<'

/-- The least version that the constraint of a pragma names, if one can be read. -/
def ofConstraint? (constraint : List Char) : Option Version :=
  ((Text.words (firstAlternative constraint)).find? (! isUpperBound ·)).bind fun part =>
    ofNumbers? (part.dropWhile isOperator)

end Version
end SolidityVetting
