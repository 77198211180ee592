import SolidityVetting.Compiler.Failure
import SolidityVetting.Finding
import SolidityVetting.Hex

set_option autoImplicit false

namespace SolidityVetting

inductive Stage where
  | input
  | sourceScan
  | compile
  | bytecodeScan
  deriving DecidableEq

inductive Refusal where
  | source (findings : List Finding)
  | compile (failure : CompileFailure)
  | bytecode (findings : List Finding)
  /-- Input that cannot be processed at all. -/
  | malformed (reason : String)
  /-- The compiler was given up after so many milliseconds. -/
  | timeout (limit : Nat)
  deriving DecidableEq

namespace Refusal

def ofHexError (e : Hex.Error) : Refusal := .malformed e.message

def stage : Refusal → Stage
  | .malformed _ => .input
  | .source _ => .sourceScan
  | .compile _ => .compile
  | .timeout _ => .compile
  | .bytecode _ => .bytecodeScan

def codes : Refusal → List String
  | .source findings => findings.map (·.code)
  | .bytecode findings => findings.map (·.code)
  | _ => []

def message : Refusal → String
  | .source findings => "\n".intercalate (findings.map (·.text))
  | .bytecode findings => "\n".intercalate (findings.map (·.text))
  | .compile failure => failure.message
  | .malformed reason => "MALFORMED_INPUT: " ++ reason
  | .timeout limit =>
    "COMPILE_TIMEOUT: compiler did not finish within " ++ toString limit ++ "ms"

end Refusal
end SolidityVetting
