import SolidityVetting.Hex
import SolidityVetting.Json.Basic
import SolidityVetting.Text.Utf8
/-! # JSON tokens

The bytes of a document cut into tokens. A string that breaks UTF-8 or holds half of a surrogate
pair is a token without a text; a raw control character or an unknown escape is no token at all.
-/

set_option autoImplicit false

namespace SolidityVetting.Json

inductive Token where
  | openBrace
  | closeBrace
  | openBracket
  | closeBracket
  | comma
  | colon
  | null
  | bool (value : Bool)
  | number (value : Number)
  | text (value : Option String)

namespace Token

def isSpace (b : UInt8) : Bool := b == 0x20 || b == 0x09 || b == 0x0A || b == 0x0D

def isDigit (b : UInt8) : Bool := 0x30 ≤ b && b ≤ 0x39

def escape? (b : UInt8) : Option UInt8 :=
  [(0x22, 0x22), (0x5C, 0x5C), (0x2F, 0x2F), (0x62, 0x08), (0x66, 0x0C), (0x6E, 0x0A),
    (0x72, 0x0D), (0x74, 0x09)].lookup b

/-- A string as far as it has been read: its bytes, the last one first, and the first half of a
surrogate pair that waits for the second. -/
structure Draft where
  bytes : List UInt8 := []
  half : Option Nat := none
  sound : Bool := true

namespace Draft

def add (d : Draft) (bytes : List UInt8) : Draft :=
  ⟨bytes.reverse ++ d.bytes, none, d.sound && d.half.isNone⟩

def unit (d : Draft) (n : Nat) : Draft :=
  if 0xD800 ≤ n ∧ n < 0xDC00 then ⟨d.bytes, some n, d.sound && d.half.isNone⟩
  else if 0xDC00 ≤ n ∧ n < 0xE000 then
    match d.half with
    | some high =>
      let c := Char.ofNat (0x10000 + (high - 0xD800) * 0x400 + (n - 0xDC00))
      ⟨(Utf8.encode c.toString).reverse ++ d.bytes, none, d.sound⟩
    | none => { d with sound := false }
  else d.add (Utf8.encode (Char.ofNat n).toString)

def text (d : Draft) : Option String :=
  if d.sound && d.half.isNone then Utf8.decode? d.bytes.reverse else none

end Draft

def readText (d : Draft) : List UInt8 → Option (Option String × List UInt8)
  | 0x22 :: rest => some (d.text, rest)
  | 0x5C :: 0x75 :: p :: q :: r :: s :: rest => do
    let p ← Hex.digit? p
    let q ← Hex.digit? q
    let r ← Hex.digit? r
    let s ← Hex.digit? s
    readText (d.unit (((p * 16 + q) * 16 + r) * 16 + s)) rest
  | 0x5C :: b :: rest => do
    let c ← escape? b
    readText (d.add [c]) rest
  | b :: rest => if b < 0x20 then none else readText (d.add [b]) rest
  | [] => none

def digits? (bytes : List UInt8) : Option (List Nat × List UInt8) :=
  match bytes.takeWhile isDigit with
  | [] => none
  | ds => some (ds.map fun b => b.toNat - 0x30, bytes.dropWhile isDigit)

def whole? : List UInt8 → Option (List Nat × List UInt8)
  | 0x30 :: rest => some ([0], rest)
  | bytes => digits? bytes

def fraction? : List UInt8 → Option (List Nat × List UInt8)
  | 0x2E :: rest => digits? rest
  | bytes => some ([], bytes)

def exponent? : List UInt8 → Option (Option Int × List UInt8)
  | [] => some (none, [])
  | b :: rest =>
    if b = 0x65 ∨ b = 0x45 then
      match rest with
      | 0x2D :: rest => (digits? rest).map fun (ds, rest) => (some (-(Number.spell 0 ds : Int)), rest)
      | 0x2B :: rest => (digits? rest).map fun (ds, rest) => (some (Number.spell 0 ds : Int), rest)
      | rest => (digits? rest).map fun (ds, rest) => (some (Number.spell 0 ds : Int), rest)
    else some (none, b :: rest)

def readMagnitude? (negative : Bool) (bytes : List UInt8) : Option (Number × List UInt8) := do
  let (whole, rest) ← whole? bytes
  let (fraction, rest) ← fraction? rest
  let (exponent, rest) ← exponent? rest
  return ({ negative, whole, fraction, exponent }, rest)

def readNumber? : List UInt8 → Option (Number × List UInt8)
  | 0x2D :: rest => readMagnitude? true rest
  | bytes => readMagnitude? false bytes

def read? : List UInt8 → Option (Token × List UInt8)
  | 0x7B :: rest => some (.openBrace, rest)
  | 0x7D :: rest => some (.closeBrace, rest)
  | 0x5B :: rest => some (.openBracket, rest)
  | 0x5D :: rest => some (.closeBracket, rest)
  | 0x2C :: rest => some (.comma, rest)
  | 0x3A :: rest => some (.colon, rest)
  | 0x22 :: rest => (readText {} rest).map fun (value, rest) => (.text value, rest)
  | 0x6E :: 0x75 :: 0x6C :: 0x6C :: rest => some (.null, rest)
  | 0x74 :: 0x72 :: 0x75 :: 0x65 :: rest => some (.bool true, rest)
  | 0x66 :: 0x61 :: 0x6C :: 0x73 :: 0x65 :: rest => some (.bool false, rest)
  | bytes => (readNumber? bytes).map fun (value, rest) => (.number value, rest)

def readAll (done : List Token) : (fuel : Nat) → List UInt8 → Option (List Token)
  | 0, bytes => if (bytes.dropWhile isSpace).isEmpty then some done.reverse else none
  | fuel + 1, bytes =>
    match bytes.dropWhile isSpace with
    | [] => some done.reverse
    | bytes => do
      let (token, rest) ← read? bytes
      readAll (token :: done) fuel rest

/-- The tokens of a document. Each takes a byte, so there are no more tokens than bytes. -/
def ofBytes? (bytes : List UInt8) : Option (List Token) := readAll [] bytes.length bytes

end Token
end SolidityVetting.Json
