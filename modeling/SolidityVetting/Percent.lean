import SolidityVetting.Binary64

set_option autoImplicit false

namespace SolidityVetting.Percent
open Binary64

def share (part whole : Nat) : Fraction :=
  if whole = 0 then ⟨0, 1⟩ else quotient (product (ofNat part) (ofNat 100)) (ofNat whole)

def oneDecimal (x : Fraction) : String :=
  let tenths := roundDiv (x.num * 10) x.den
  toString (tenths / 10) ++ "." ++ toString (tenths % 10)

end SolidityVetting.Percent
