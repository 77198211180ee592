import SolidityVetting.Percent
import SolidityVetting.Report
import SolidityVetting.Trailer

set_option autoImplicit false

namespace SolidityVetting

structure CodeScan where
  maxSize : Nat := 24576
  /-- Leave out what follows the start of a metadata trailer. -/
  skipTrailer : Bool := false

namespace CodeScan

def opcodeFinding? (i : Instruction) : Option Finding :=
  (Forbidden.ofOpcode? i.opcode).map fun op =>
    { severity := .critical, code := op.findingCode,
      message := op.label ++ " at byte offset " ++ toString i.offset,
      offset := some i.offset }

def opcodeFindings (code : List UInt8) : List Finding :=
  (Instruction.walk code).filterMap opcodeFinding?

def sizeFindings (limit size : Nat) : List Finding :=
  let tooLarge : List Finding :=
    if size > limit then
      [{ severity := .critical, code := "CONTRACT_TOO_LARGE",
         message := "Bytecode is " ++ toString size ++ " bytes, exceeding the " ++
           toString limit ++ " byte contract size limit" }]
    else []
  tooLarge ++
    [{ severity := .info, code := "BYTECODE_SIZE",
       message := "Bytecode size: " ++ toString size ++ " bytes (" ++
         Percent.oneDecimal (Percent.share size limit) ++ "% of " ++ toString limit ++
         " byte limit)" }]

/-- The part of the code that is read as instructions. -/
def walked (s : CodeScan) (code : List UInt8) : List UInt8 :=
  if s.skipTrailer then code.take ((Trailer.start? code).getD code.length) else code

def scan (s : CodeScan) (code : List UInt8) : Report :=
  .ofFindings .bytecode (opcodeFindings (s.walked code) ++ sizeFindings s.maxSize code.length)

def scanHex (s : CodeScan) (text : String) : Except Hex.Error Report :=
  (Hex.decode text).map s.scan

end CodeScan
end SolidityVetting
