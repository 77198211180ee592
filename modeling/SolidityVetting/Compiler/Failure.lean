set_option autoImplicit false

namespace SolidityVetting

inductive CompileFailure where
  | diagnostics (entries : List String)
  | unresolvedImports (paths : List String)
  | unavailable (reason : String)
  | invalidOutput (reason : String)
  /-- Two files declare a contract of this name. -/
  | duplicateContract (name : String)
  | noContracts
  | io (reason : String)
  deriving DecidableEq

namespace CompileFailure

def message : CompileFailure → String
  | .diagnostics entries => "\n".intercalate entries
  | .unresolvedImports paths => "\n".intercalate (paths.map ("IMPORT_NOT_FOUND: " ++ ·))
  | .unavailable reason => "COMPILER_UNAVAILABLE: " ++ reason
  | .invalidOutput reason => "INVALID_COMPILER_OUTPUT: " ++ reason
  | .duplicateContract name =>
    "DUPLICATE_CONTRACT: contract " ++ name ++ " is declared in more than one file"
  | .noContracts => "NO_CONTRACTS: compilation produced no contract artifacts"
  | .io reason => "COMPILER_IO: " ++ reason

end CompileFailure
end SolidityVetting
