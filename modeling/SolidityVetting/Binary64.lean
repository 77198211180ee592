set_option autoImplicit false

namespace SolidityVetting

structure Fraction where
  num : Nat
  den : Nat

namespace Binary64

/-- The whole number nearest to `num / den`, a tie going to the even one. -/
def roundDiv (num den : Nat) : Nat :=
  let q := num / den
  let twice := 2 * (num % den)
  if twice < den then q else if den < twice then q + 1 else q + q % 2

/-- The nearest fraction whose numerator has 53 bits, up to a power of two. -/
def nearest (x : Fraction) : Fraction :=
  if x.num = 0 then ⟨0, 1⟩
  else
    let up := min 1074 (53 + x.den.log2 - x.num.log2)
    let down := x.num.log2 - (53 + x.den.log2)
    let num := x.num * Nat.pow 2 up
    let den := x.den * Nat.pow 2 down
    if num / den < Nat.pow 2 53 then ⟨roundDiv num den * Nat.pow 2 down, Nat.pow 2 up⟩
    else ⟨roundDiv num (den * 2) * Nat.pow 2 (down + 1), Nat.pow 2 up⟩

def ofNat (n : Nat) : Fraction := nearest ⟨n, 1⟩

def product (x y : Fraction) : Fraction := nearest ⟨x.num * y.num, x.den * y.den⟩

def quotient (x y : Fraction) : Fraction := nearest ⟨x.num * y.den, x.den * y.num⟩

def isFinite (x : Fraction) : Bool := x.num < x.den * Nat.pow 2 1024

end Binary64
end SolidityVetting
