set_option autoImplicit false

namespace SolidityVetting.Numeral

def digit? (c : Char) : Option Nat :=
  if '0' ≤ c ∧ c ≤ '9' then some (c.toNat - '0'.toNat) else none

def digits? (value : Nat) : List Char → Option Nat
  | [] => some value
  | c :: rest => (digit? c).bind fun d => digits? (value * 10 + d) rest

def unsigned? (bound : Nat) (s : List Char) : Option Nat :=
  match s with
  | [] => none
  | c :: rest =>
    if c = '+' then
      if rest.isEmpty then none else (digits? 0 rest).filter (· < bound)
    else (digits? 0 (c :: rest)).filter (· < bound)

def word32? (s : List Char) : Option Nat := unsigned? (Nat.pow 2 32) s

def word64? (s : List Char) : Option Nat := unsigned? (Nat.pow 2 64) s

def isExponent : List Char → Bool
  | [] => true
  | c :: rest =>
    let ds := match rest with
      | '+' :: ds => ds
      | '-' :: ds => ds
      | ds => ds
    c.toLower == 'e' && ! ds.isEmpty && ds.all Char.isDigit

def isUnsignedDecimal (s : List Char) : Bool :=
  let whole := s.takeWhile Char.isDigit
  match s.dropWhile Char.isDigit with
  | '.' :: rest =>
    ! (whole.isEmpty && (rest.takeWhile Char.isDigit).isEmpty) &&
      isExponent (rest.dropWhile Char.isDigit)
  | rest => ! whole.isEmpty && isExponent rest

/-- A number with or without a fraction, infinite ones and one that is none included. -/
def isDecimal (s : List Char) : Bool :=
  let magnitude := match s with
    | '+' :: rest => rest
    | '-' :: rest => rest
    | s => s
  ["inf", "infinity", "nan"].contains (String.ofList (magnitude.map Char.toLower)) ||
    isUnsignedDecimal magnitude

end SolidityVetting.Numeral
