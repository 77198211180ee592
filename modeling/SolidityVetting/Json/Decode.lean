import SolidityVetting.Json.Rounding
/-! # Decoding JSON values

Readers for records and their fields. A record is an object, or an array of its fields in order;
unknown fields are not looked at, a known field may stand there once. Integers are written without
fraction and exponent. What is used of a value may not be nested more than `maxDepth` deep.
-/

set_option autoImplicit false

namespace SolidityVetting.Json

def maxDepth : Nat := 127

def text? : Json → Option String
  | .text s => s
  | _ => none

def bool? : Json → Option Bool
  | .bool b => some b
  | _ => none

def nat? (bound : Nat) : Json → Option Nat
  | .number n => n.nat? bound
  | _ => none

def word32? : Json → Option Nat := nat? (Nat.pow 2 32)

def word64? : Json → Option Nat := nat? (Nat.pow 2 64)

def int64? : Json → Option Int
  | .number n => n.int64?
  | _ => none

def nullable? {α : Type} (f : Json → Option α) : Json → Option (Option α)
  | .null => some none
  | j => (f j).map some

def list? {α : Type} (f : Json → Option α) : Json → Option (List α)
  | .array items => items.mapM f
  | _ => none

/-- A map; of two values under one name the later one counts, but both are read. -/
def map? {α : Type} (f : Json → Option α) : Json → Option (NameMap α)
  | .object fields => do
    let pairs ← fields.mapM fun field => do return (← field.1, ← f field.2)
    return NameMap.ofList pairs
  | _ => none

def valuesOf (name : String) (fields : List (Option String × Json)) : List Json :=
  (fields.filter (·.1 == some name)).map (·.2)

/-- The value under a name, `none` where there is none; two make the record unreadable. -/
def onlyValue? (fields : List (Option String × Json)) (name : String) : Option (Option Json) :=
  match valuesOf name fields with
  | [] => some none
  | [value] => some (some value)
  | _ => none

def record? (fieldNames : List String) : Json → Option (List (Option Json))
  | .object fields =>
    if fields.all (·.1.isSome) then fieldNames.mapM (onlyValue? fields) else none
  | .array items =>
    if items.length ≤ fieldNames.length then
      some (items.map some ++ List.replicate (fieldNames.length - items.length) none)
    else none
  | _ => none

def required {α : Type} (f : Json → Option α) (value : Option Json) : Option α := value.bind f

def defaulting {α : Type} (default : α) (f : Json → Option α) : Option Json → Option α
  | none => some default
  | some value => f value

mutual

/-- Any value, read completely: all strings are texts, all numbers are finite, and at most `depth`
containers lie within one another. Numbers that are no integers of 64 bits are rounded. Of two
fields with one name the later one counts. -/
def settle? : (depth : Nat) → Json → Option Json
  | _, .null => some .null
  | _, .bool b => some (.bool b)
  | _, .number n => n.settle?.map .number
  | _, .text s => s.map string
  | 0, .array _ => none
  | depth + 1, .array items => (settleItems? depth items).map .array
  | 0, .object _ => none
  | depth + 1, .object fields => do
    let pairs ← settleFields? depth fields
    return ofNameMap id (NameMap.ofList pairs)

def settleItems? (depth : Nat) : List Json → Option (List Json)
  | [] => some []
  | item :: rest => do return (← settle? depth item) :: (← settleItems? depth rest)

def settleFields? (depth : Nat) : List (Option String × Json) → Option (List (String × Json))
  | [] => some []
  | (key, value) :: rest => do
    return (← key, ← settle? depth value) :: (← settleFields? depth rest)

end

end SolidityVetting.Json
