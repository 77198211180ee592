import SolidityVetting.Severity

set_option autoImplicit false

namespace SolidityVetting

structure Finding where
  severity : Severity
  code : String
  message : String
  /-- The source line, counted from 1. -/
  line : Option Nat := none
  /-- The offset in the decoded bytecode. -/
  offset : Option Nat := none
  deriving DecidableEq

namespace Finding

def atLine (f : Finding) (line : Nat) : Finding := { f with line := some line }

def text (f : Finding) : String := f.code ++ ": " ++ f.message

end Finding
end SolidityVetting
