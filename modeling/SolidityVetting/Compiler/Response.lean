import SolidityVetting.Compiler.Artifact
import SolidityVetting.Compiler.Failure
import SolidityVetting.Json.Parser
/-! # Compiler responses

The standard JSON form of a compiler's answer, and what it means: a failure if the compiler reports
errors, if a contract name is declared twice, if code waits to be linked or if there is no contract;
otherwise the contracts, those of the files asked for first.
-/

set_option autoImplicit false

namespace SolidityVetting

/-- Where a diagnostic points. A negative start is no position. -/
structure SourceLocation where
  file : String
  start : Int := 0

structure Diagnostic where
  severity : String
  kind : Option String := none
  message : String
  formatted : Option String := none
  location : Option SourceLocation := none

structure EmittedContract where
  abi : Json := .null
  creationObject : String := ""
  deployedObject : String := ""
  gas : Option GasEstimates := none

structure CompilerResponse where
  diagnostics : List Diagnostic := []
  contracts : NameMap (NameMap EmittedContract) := .empty

namespace Diagnostic

def summary (d : Diagnostic) : String :=
  let place := match d.location with
    | none => ""
    | some l =>
      if 0 ≤ l.start then " (" ++ l.file ++ ":" ++ toString l.start ++ ")" else " (" ++ l.file ++ ")"
  d.kind.getD "Error" ++ ": " ++ d.message ++ place

def isError (d : Diagnostic) : Bool := d.severity == "error"

def isWarning (d : Diagnostic) : Bool := d.severity == "warning"

def warningText (d : Diagnostic) : String := d.formatted.getD d.message

end Diagnostic

namespace EmittedContract

def placeholder : List Char := ['_', '_', '$']

def holds (part : List Char) : List Char → Bool
  | [] => part.isEmpty
  | c :: rest => (Text.dropStart? part (c :: rest)).isSome || holds part rest

def isUnlinked (c : EmittedContract) : Bool :=
  holds placeholder c.creationObject.toList || holds placeholder c.deployedObject.toList

/-- The hexadecimal text in lower case with exactly one `0x` in front. -/
def normalizeHex (object : String) : String :=
  let digits := (Text.dropStart? ['0', 'x'] object.toList).getD object.toList
  String.ofList ('0' :: 'x' :: digits.map Char.toLower)

def artifact (file name : String) (c : EmittedContract) : Artifact :=
  { name, sourceFile := file, abi := c.abi, creationCode := normalizeHex c.creationObject,
    deployedCode := normalizeHex c.deployedObject, gas := c.gas.getD {} }

end EmittedContract

namespace CompilerResponse

structure Entry where
  file : String
  name : String
  contract : EmittedContract

def Entry.artifact (e : Entry) : Artifact := e.contract.artifact e.file e.name

def Entry.linkNotice (e : Entry) : String :=
  "UNLINKED_LIBRARY: contract " ++ e.name ++ " in " ++ e.file ++ " requires external library linking"

/-- The files of the response: those asked for in their order, then the others by name. -/
def files (r : CompilerResponse) (asked : List String) : List String :=
  asked.filter r.contracts.contains ++ r.contracts.names.filter (! asked.contains ·)

def entriesOf (r : CompilerResponse) (file : String) : List Entry :=
  ((r.contracts.get? file).getD .empty).entries.map fun (name, contract) => ⟨file, name, contract⟩

def entries (r : CompilerResponse) (asked : List String) : List Entry :=
  (r.files asked).flatMap r.entriesOf

def firstRepeated? (seen : List String) : List String → Option String
  | [] => none
  | name :: rest => if seen.contains name then some name else firstRepeated? (name :: seen) rest

def toCompilation (r : CompilerResponse) (asked : List String) :
    Except CompileFailure Compilation :=
  let errors := (r.diagnostics.filter (·.isError)).map (·.summary)
  let all := r.entries asked
  let unlinked := (all.filter (·.contract.isUnlinked)).map (·.linkNotice)
  if ! errors.isEmpty then .error (.diagnostics errors)
  else match firstRepeated? [] (all.map (·.name)) with
    | some name => .error (.duplicateContract name)
    | none =>
      if ! unlinked.isEmpty then .error (.diagnostics unlinked)
      else if all.isEmpty then .error .noContracts
      else .ok
        { artifacts := all.map (·.artifact),
          warnings := (r.diagnostics.filter (·.isWarning)).map (·.warningText) }

end CompilerResponse

namespace SourceLocation

def ofJson? (j : Json) : Option SourceLocation := do
  match ← j.record? ["file", "start"] with
  | [file, start] =>
    return ⟨← Json.required Json.text? file, ← Json.defaulting 0 Json.int64? start⟩
  | _ => none

end SourceLocation

namespace Diagnostic

def ofJson? (j : Json) : Option Diagnostic := do
  match ← j.record? ["severity", "type", "message", "formattedMessage", "sourceLocation"] with
  | [severity, kind, message, formatted, location] =>
    return ⟨← Json.required Json.text? severity,
      ← Json.defaulting none (Json.nullable? Json.text?) kind,
      ← Json.required Json.text? message,
      ← Json.defaulting none (Json.nullable? Json.text?) formatted,
      ← Json.defaulting none (Json.nullable? SourceLocation.ofJson?) location⟩
  | _ => none

end Diagnostic

namespace EmittedContract

/-- The containers around the interface of a contract: document, files, contracts, contract. -/
def abiDepth : Nat := 4

def objectOfJson? (j : Json) : Option String := do
  match ← j.record? ["object"] with
  | [object] => Json.defaulting "" Json.text? object
  | _ => none

def codeOfJson? (j : Json) : Option (String × String × Option GasEstimates) := do
  match ← j.record? ["bytecode", "deployedBytecode", "gasEstimates"] with
  | [creation, deployed, gas] =>
    return (← Json.defaulting "" objectOfJson? creation,
      ← Json.defaulting "" objectOfJson? deployed,
      ← Json.defaulting none (Json.nullable? GasEstimates.ofJson?) gas)
  | _ => none

def ofJson? (j : Json) : Option EmittedContract := do
  match ← j.record? ["abi", "evm"] with
  | [abi, evm] =>
    let abi ← Json.defaulting .null (Json.settle? (Json.maxDepth - abiDepth)) abi
    let (creation, deployed, gas) ← Json.defaulting ("", "", none) codeOfJson? evm
    return ⟨abi, creation, deployed, gas⟩
  | _ => none

end EmittedContract

namespace CompilerResponse

def ofJson? (j : Json) : Option CompilerResponse := do
  match ← j.record? ["errors", "contracts"] with
  | [errors, contracts] =>
    return ⟨← Json.defaulting [] (Json.list? Diagnostic.ofJson?) errors,
      ← Json.defaulting .empty (Json.map? (Json.map? EmittedContract.ofJson?)) contracts⟩
  | _ => none

def ofBytes (bytes : List UInt8) : Except CompileFailure CompilerResponse :=
  match (Json.ofBytes? bytes).bind ofJson? with
  | some r => .ok r
  | none => .error (.invalidOutput "not a standard JSON response")

end CompilerResponse
end SolidityVetting
