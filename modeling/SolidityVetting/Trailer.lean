import SolidityVetting.Instruction
/-! # Metadata trailers

A compiler may put metadata behind the code: the opcode `INVALID`, a CBOR map that names the
compiler, and the map's length in two bytes. The trailer is recognised only where the instructions
before it end exactly, and only if the map is read completely; all else counts as code.
-/

set_option autoImplicit false

namespace SolidityVetting.Trailer

def word16 (high low : UInt8) : Nat := high.toNat * 256 + low.toNat

/-- A length and what follows it. Up to 23 it stands in the five low bits of the head, otherwise in
one or two bytes of its own. -/
def length? (head : UInt8) (rest : List UInt8) : Option (Nat × List UInt8) :=
  let info := head.toNat % 32
  if info ≤ 23 then some (info, rest)
  else if info = 24 then
    match rest with
    | n :: rest => some (n.toNat, rest)
    | [] => none
  else if info = 25 then
    match rest with
    | high :: low :: rest => some (word16 high low, rest)
    | _ => none
  else none

def string? (head : UInt8) (rest : List UInt8) : Option (List UInt8 × List UInt8) := do
  let (n, rest) ← length? head rest
  if n ≤ rest.length then some (rest.take n, rest.drop n) else none

def kind (head : UInt8) : Nat := head.toNat / 32

def key? : List UInt8 → Option (List UInt8 × List UInt8)
  | [] => none
  | head :: rest => if kind head = 3 then string? head rest else none

/-- What follows a value: a small number, a string of bytes or text, or a truth value. -/
def afterValue? : List UInt8 → Option (List UInt8)
  | [] => none
  | head :: rest =>
    if kind head = 0 then if head.toNat ≤ 0x17 then some rest else none
    else if kind head = 2 ∨ kind head = 3 then (string? head rest).map (·.2)
    else if head = 0xF4 ∨ head = 0xF5 then some rest
    else none

def compilerKey : List UInt8 := [0x73, 0x6F, 0x6C, 0x63]

/-- Reads that many entries: whether the compiler is named among them, and what follows. -/
def entries? : Nat → List UInt8 → Option (Bool × List UInt8)
  | 0, rest => some (false, rest)
  | n + 1, bytes => do
    let (key, rest) ← key? bytes
    let rest ← afterValue? rest
    let (named, rest) ← entries? n rest
    return (key == compilerKey || named, rest)

/-- The bytes are exactly one map of 1 to 23 entries that names the compiler. -/
def isMap : List UInt8 → Bool
  | [] => false
  | header :: rest =>
    0xA1 ≤ header.toNat && header.toNat ≤ 0xB7 &&
      entries? (header.toNat - 0xA0) rest == some (true, [])

def declaredLength? (code : List UInt8) : Option Nat :=
  match code.drop (code.length - 2) with
  | [high, low] => some (word16 high low)
  | _ => none

def start? (code : List UInt8) : Option Nat := do
  let declared ← declaredLength? code
  if declared < 2 ∨ code.length < declared + 3 then none
  else
    let start := code.length - 2 - declared
    let last ← (Instruction.walk (code.take start)).getLast?
    if last.opcode = Opcode.invalid ∧ last.offset + 1 = start ∧
        isMap ((code.drop start).take declared) then some start
    else none

end SolidityVetting.Trailer
