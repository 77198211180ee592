import SolidityVetting.Text.Blank
import SolidityVetting.Text.Quoted
import SolidityVetting.Text.Utf8

set_option autoImplicit false

namespace SolidityVetting.Hex

inductive Error where
  | empty
  /-- The number of bytes left after the prefix is odd. -/
  | oddLength (length : Nat)
  /-- The byte at this position after the prefix is no digit. -/
  | notHex (position : Nat) (byte : UInt8)
  deriving DecidableEq

def Error.message : Error → String
  | .empty => "bytecode is empty"
  | .oddLength length => "bytecode hex has odd length (" ++ toString length ++ " characters)"
  | .notHex position byte =>
    "invalid hex character " ++ Text.quoted byte ++ " at position " ++ toString position

def digit? (b : UInt8) : Option Nat :=
  let n := b.toNat
  if 0x30 ≤ n ∧ n ≤ 0x39 then some (n - 0x30)
  else if 0x41 ≤ n ∧ n ≤ 0x46 then some (n - 0x41 + 10)
  else if 0x61 ≤ n ∧ n ≤ 0x66 then some (n - 0x61 + 10)
  else none

def readDigit (position : Nat) (b : UInt8) : Except Error Nat :=
  match digit? b with
  | some d => .ok d
  | none => .error (.notHex position b)

/-- Reads digits in pairs; the first stands at `position`. A digit without a partner is left. -/
def readPairs (position : Nat) : List UInt8 → Except Error (List UInt8)
  | high :: low :: rest => do
    let h ← readDigit position high
    let l ← readDigit (position + 1) low
    let more ← readPairs (position + 2) rest
    return UInt8.ofNat (h * 16 + l) :: more
  | _ => .ok []

def dropMark (s : List Char) : List Char :=
  match s with
  | '0' :: 'x' :: rest => rest
  | '0' :: 'X' :: rest => rest
  | _ => s

def digits (text : String) : List UInt8 :=
  Utf8.encode (String.ofList (dropMark (Text.trim text.toList)))

def decode (text : String) : Except Error (List UInt8) :=
  let ds := digits text
  if ds.isEmpty then .error .empty
  else if ds.length % 2 = 1 then .error (.oddLength ds.length)
  else readPairs 0 ds

def digitChar (n : Nat) : Char := if n < 10 then Char.ofNat (0x30 + n) else Char.ofNat (0x57 + n)

def encodeChars : List UInt8 → List Char
  | [] => []
  | b :: rest => digitChar (b.toNat / 16) :: digitChar (b.toNat % 16) :: encodeChars rest

def encode (bytes : List UInt8) : String := String.ofList (encodeChars bytes)

end SolidityVetting.Hex
