import SolidityVetting.Binary64
import SolidityVetting.Json.Basic
/-! # Rounding of JSON numbers

A number that is no integer of 64 bits is held in binary floating point. Its digits are gathered in
a significand of 64 bits, digits that no longer fit being dropped, and the significand is multiplied
or divided by a power of ten, with a rounding at each step. So the result may differ from the number
nearest to the digits, and a number may count as infinite although its nearest one is finite.
-/

set_option autoImplicit false

namespace SolidityVetting.Json.Number
open Binary64

/-- Reads digits behind those of `value` while the number fits in 64 bits; the number, and how many
digits are left. -/
def gather (value : Nat) : List Nat → Nat × Nat
  | [] => (value, 0)
  | d :: rest =>
    if value * 10 + d < Nat.pow 2 64 then gather (value * 10 + d) rest else (value, rest.length + 1)

def maxPower : Nat := 308

def grow? (x : Fraction) (power : Nat) : Option Fraction :=
  if x.num = 0 then some x
  else if power ≤ maxPower then
    let y := product x (ofNat (Nat.pow 10 power))
    if isFinite y then some y else none
  else none

def shrink (x : Fraction) (power : Nat) : Fraction :=
  if power ≤ maxPower then quotient x (ofNat (Nat.pow 10 power))
  else if x.num = 0 then x
  else shrink (quotient x (ofNat (Nat.pow 10 maxPower))) (power - maxPower)
termination_by power
decreasing_by simp only [maxPower] at *; omega

def rounded? (n : Number) : Option Fraction :=
  let (high, excess) := gather 0 n.whole
  let (significand, dropped) := gather high n.fraction
  let power : Int := excess - (n.fraction.length - dropped : Nat) + n.exponent.getD 0
  if 0 ≤ power then grow? (ofNat significand) power.toNat
  else some (shrink (ofNat significand) (-power).toNat)

def ofFraction (negative : Bool) (x : Fraction) : Number :=
  let halvings := x.den.log2
  { negative, whole := digitsOf (x.num * Nat.pow 5 halvings), exponent := some (-(halvings : Int)) }

def settle? (n : Number) : Option Number :=
  if (n.nat? (Nat.pow 2 64)).isSome || n.int64?.isSome then some n
  else n.rounded?.map (ofFraction n.negative)

end SolidityVetting.Json.Number
