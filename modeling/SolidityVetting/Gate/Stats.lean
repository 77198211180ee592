import SolidityVetting.Gate.Refusal

set_option autoImplicit false

namespace SolidityVetting

structure Stats where
  runs : Nat := 0
  passed : Nat := 0
  rejectedInput : Nat := 0
  rejectedSource : Nat := 0
  rejectedCompile : Nat := 0
  rejectedBytecode : Nat := 0
  deriving DecidableEq

namespace Stats

def start (s : Stats) : Stats := { s with runs := s.runs + 1 }

def record (s : Stats) : Option Stage → Stats
  | none => { s with passed := s.passed + 1 }
  | some .input => { s with rejectedInput := s.rejectedInput + 1 }
  | some .sourceScan => { s with rejectedSource := s.rejectedSource + 1 }
  | some .compile => { s with rejectedCompile := s.rejectedCompile + 1 }
  | some .bytecodeScan => { s with rejectedBytecode := s.rejectedBytecode + 1 }

def recorded (s : Stats) : Nat :=
  s.passed + s.rejectedInput + s.rejectedSource + s.rejectedCompile + s.rejectedBytecode

end Stats
end SolidityVetting
