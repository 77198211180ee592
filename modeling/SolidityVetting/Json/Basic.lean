import SolidityVetting.NameMap

set_option autoImplicit false

namespace SolidityVetting

/-- A number in decimal digits: those before the point, those after it, and a power of ten. -/
structure Json.Number where
  negative : Bool := false
  whole : List Nat
  fraction : List Nat := []
  exponent : Option Int := none
  deriving DecidableEq

namespace Json.Number

def spell (value : Nat) (digits : List Nat) : Nat := digits.foldl (fun n d => n * 10 + d) value

def digitsOf (n : Nat) : List Nat := (Nat.toDigits 10 n).map fun c => c.toNat - '0'.toNat

def ofInt (n : Int) : Number := { negative := n < 0, whole := digitsOf n.natAbs }

def isPlain (n : Number) : Bool := n.fraction.isEmpty && n.exponent.isNone

def magnitude? (n : Number) : Option Nat := if n.isPlain then some (spell 0 n.whole) else none

def nat? (bound : Nat) (n : Number) : Option Nat :=
  if n.negative then none else n.magnitude?.filter (· < bound)

/-- A signed number of 64 bits. A negative zero is no integer. -/
def int64? (n : Number) : Option Int := do
  let m ← n.magnitude?
  if n.negative then if m = 0 ∨ m > Nat.pow 2 63 then none else some (-(m : Int))
  else if m < Nat.pow 2 63 then some m
  else none

end Json.Number

inductive Json where
  | null
  | bool (value : Bool)
  | number (value : Json.Number)
  | text (value : Option String)
  | array (items : List Json)
  | object (fields : List (Option String × Json))

namespace Json

def string (s : String) : Json := .text (some s)

def int (n : Int) : Json := .number (.ofInt n)

def nat (n : Nat) : Json := int n

def strings (ss : List String) : Json := .array (ss.map string)

def record (fields : List (String × Json)) : Json :=
  .object (fields.map fun field => (some field.1, field.2))

def field? (name : String) : Option Json → List (String × Json)
  | some value => [(name, value)]
  | none => []

def orNull : Option Json → Json
  | some value => value
  | none => .null

def ofNameMap {α : Type} (f : α → Json) (m : NameMap α) : Json :=
  record (m.entries.map fun entry => (entry.1, f entry.2))

end Json
end SolidityVetting
