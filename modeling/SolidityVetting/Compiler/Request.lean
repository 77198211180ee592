import SolidityVetting.Json.Basic

set_option autoImplicit false

namespace SolidityVetting

structure CompilerRequest where
  sources : Sources
  optimizerRuns : Nat := 200
  /-- The EVM version to compile for, the compiler's own choice if there is none. -/
  evmVersion : Option String := none

namespace CompilerRequest

def outputs : List String :=
  ["abi", "evm.bytecode.object", "evm.deployedBytecode.object", "evm.gasEstimates"]

def toStandardJson (r : CompilerRequest) : Json :=
  let optimizer : Json := .record [("enabled", .bool true), ("runs", .nat r.optimizerRuns)]
  let everything : Json := .record [("*", .record [("*", .strings outputs)])]
  .record
    [("language", .string "Solidity"),
     ("sources", .ofNameMap (fun content => .record [("content", .string content)]) r.sources),
     ("settings", .record ([("optimizer", optimizer)] ++
       Json.field? "evmVersion" (r.evmVersion.map Json.string) ++
       [("outputSelection", everything)]))]

end CompilerRequest
end SolidityVetting
