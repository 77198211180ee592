import SolidityVetting.Hex

set_option autoImplicit false

namespace SolidityVetting

namespace Opcode

def pushSize? (op : UInt8) : Option Nat :=
  if 0x60 ≤ op.toNat ∧ op.toNat ≤ 0x7F then some (op.toNat - 0x60 + 1) else none

def dataWidth (op : UInt8) : Nat := (pushSize? op).getD 0

def invalid : UInt8 := 0xFE

end Opcode

/-- Opcodes that run foreign code in the contract's context or destroy it. -/
inductive Forbidden where
  | callCode
  | delegateCall
  | selfDestruct
  deriving DecidableEq

namespace Forbidden

def all : List Forbidden := [.callCode, .delegateCall, .selfDestruct]

def opcode : Forbidden → UInt8
  | .callCode => 0xF2
  | .delegateCall => 0xF4
  | .selfDestruct => 0xFF

def ofOpcode? (op : UInt8) : Option Forbidden := all.find? (·.opcode == op)

def mnemonic : Forbidden → String
  | .callCode => "CALLCODE"
  | .delegateCall => "DELEGATECALL"
  | .selfDestruct => "SELFDESTRUCT"

def findingCode (f : Forbidden) : String := f.mnemonic ++ "_OPCODE"

def description : Forbidden → String
  | .callCode => "borrowed-context call opcode"
  | .delegateCall => "delegated-context call opcode"
  | .selfDestruct => "self-destruct opcode"

def label (f : Forbidden) : String :=
  f.description ++ " (" ++ f.mnemonic ++ ", 0x" ++ Hex.encode [f.opcode] ++ ")"

end Forbidden
end SolidityVetting
