/-! # UTF-8

Texts as bytes and back. Reading yields one item per character or per longest broken part, so the
strict reader and the forgiving one are two views of the same items.
-/

set_option autoImplicit false

namespace SolidityVetting.Utf8

def encode (s : String) : List UInt8 := s.toByteArray.data.toList

def length (s : List Char) : Nat := (s.map Char.utf8Size).foldr (· + ·) 0

structure Lead where
  value : Nat
  owed : Nat
  low : Nat
  high : Nat

inductive Item where
  | char (c : Char)
  | broken
  deriving DecidableEq

/-- The first byte of a longer character. The narrower second bytes keep out overlong forms,
surrogates and values above U+10FFFF. -/
def lead? (b : Nat) : Option Lead :=
  if 0xC2 ≤ b ∧ b ≤ 0xDF then some ⟨b - 0xC0, 1, 0x80, 0xBF⟩
  else if b = 0xE0 then some ⟨0, 2, 0xA0, 0xBF⟩
  else if b = 0xED then some ⟨0xD, 2, 0x80, 0x9F⟩
  else if 0xE1 ≤ b ∧ b ≤ 0xEF then some ⟨b - 0xE0, 2, 0x80, 0xBF⟩
  else if b = 0xF0 then some ⟨0, 3, 0x90, 0xBF⟩
  else if 0xF1 ≤ b ∧ b ≤ 0xF3 then some ⟨b - 0xF0, 3, 0x80, 0xBF⟩
  else if b = 0xF4 then some ⟨4, 3, 0x80, 0x8F⟩
  else none

/-- Reads from inside a character (`some lead`) or between characters (`none`). A byte that cannot
follow ends the broken part and is read afresh. -/
def itemsFrom : Option Lead → List UInt8 → List Item
  | none, [] => []
  | some _, [] => [.broken]
  | none, byte :: rest =>
    let b := byte.toNat
    if b < 0x80 then .char (Char.ofNat b) :: itemsFrom none rest
    else match lead? b with
      | some lead => itemsFrom (some lead) rest
      | none => .broken :: itemsFrom none rest
  | some lead, byte :: rest =>
    let b := byte.toNat
    if lead.low ≤ b ∧ b ≤ lead.high then
      let value := lead.value * 64 + (b - 0x80)
      if lead.owed ≤ 1 then .char (Char.ofNat value) :: itemsFrom none rest
      else itemsFrom (some ⟨value, lead.owed - 1, 0x80, 0xBF⟩) rest
    else if b < 0x80 then .broken :: .char (Char.ofNat b) :: itemsFrom none rest
    else match lead? b with
      | some next => .broken :: itemsFrom (some next) rest
      | none => .broken :: .broken :: itemsFrom none rest

def items (bytes : List UInt8) : List Item := itemsFrom none bytes

def Item.char? : Item → Option Char
  | .char c => some c
  | .broken => none

def decode? (bytes : List UInt8) : Option String :=
  ((items bytes).mapM Item.char?).map String.ofList

def decodeLossy (bytes : List UInt8) : String :=
  String.ofList ((items bytes).map fun item => item.char?.getD '\uFFFD')

end SolidityVetting.Utf8
