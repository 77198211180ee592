set_option autoImplicit false

namespace SolidityVetting.Text

/-- Latin-1 characters that leave no visible mark: controls, the no-break space, the soft hyphen. -/
def isInvisible (n : Nat) : Bool := n < 0x20 || (0x7F ≤ n && n ≤ 0xA0) || n == 0xAD

def escaped (byte : UInt8) : List Char :=
  let n := byte.toNat
  let c := Char.ofNat n
  if n = 0 then ['\\', '0']
  else if c = '\t' then ['\\', 't']
  else if c = '\n' then ['\\', 'n']
  else if c = '\r' then ['\\', 'r']
  else if c = '\'' then ['\\', '\'']
  else if c = '\\' then ['\\', '\\']
  else if isInvisible n then ['\\', 'u', '{'] ++ Nat.toDigits 16 n ++ ['}']
  else [c]

def quoted (byte : UInt8) : String := String.ofList ('\'' :: escaped byte ++ ['\''])

end SolidityVetting.Text
