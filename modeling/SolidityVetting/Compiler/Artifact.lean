import SolidityVetting.Json.Decode
import SolidityVetting.Text.Blank

set_option autoImplicit false

namespace SolidityVetting

structure CreationGas where
  codeDeposit : String
  execution : String
  total : String
  deriving DecidableEq

/-- Estimates are decimal numbers or the word `infinite`. -/
structure GasEstimates where
  creation : Option CreationGas := none
  external : NameMap String := .empty
  internal : NameMap String := .empty

structure Artifact where
  name : String
  sourceFile : String
  abi : Json
  creationCode : String
  deployedCode : String
  gas : GasEstimates := {}

namespace Artifact

/-- There is runtime code, which interfaces and abstract contracts lack. -/
def isDeployable (a : Artifact) : Bool :=
  let code := a.deployedCode.toList
  ! ((Text.dropStart? ['0', 'x'] code).getD code).isEmpty

end Artifact

structure Compilation where
  artifacts : List Artifact
  warnings : List String := []

namespace Compilation

def find? (c : Compilation) (name : String) : Option Artifact :=
  c.artifacts.find? (·.name == name)

def primary? (c : Compilation) : Option Artifact := c.artifacts.find? (·.isDeployable)

/-- The contracts by name; of two with one name the later one counts. -/
def byName (c : Compilation) : NameMap Artifact :=
  NameMap.ofList (c.artifacts.map fun a => (a.name, a))

end Compilation

namespace CreationGas

def ofJson? (j : Json) : Option CreationGas := do
  match ← j.record? ["codeDepositCost", "executionCost", "totalCost"] with
  | [codeDeposit, execution, total] =>
    return ⟨← Json.required Json.text? codeDeposit, ← Json.required Json.text? execution,
      ← Json.required Json.text? total⟩
  | _ => none

def toJson (g : CreationGas) : Json :=
  .record [("codeDepositCost", .string g.codeDeposit), ("executionCost", .string g.execution),
    ("totalCost", .string g.total)]

end CreationGas

namespace GasEstimates

def ofJson? (j : Json) : Option GasEstimates := do
  match ← j.record? ["creation", "external", "internal"] with
  | [creation, external, internal] =>
    return ⟨← Json.defaulting none (Json.nullable? CreationGas.ofJson?) creation,
      ← Json.defaulting .empty (Json.map? Json.text?) external,
      ← Json.defaulting .empty (Json.map? Json.text?) internal⟩
  | _ => none

def toJson (g : GasEstimates) : Json :=
  .record (Json.field? "creation" (g.creation.map (·.toJson)) ++
    [("external", .ofNameMap .string g.external), ("internal", .ofNameMap .string g.internal)])

end GasEstimates

namespace Artifact

def ofJson? (j : Json) : Option Artifact := do
  let names :=
    ["name", "sourceFile", "abi", "creationBytecode", "deployedBytecode", "gasEstimates"]
  match ← j.record? names with
  | [name, sourceFile, abi, creation, deployed, gas] =>
    return ⟨← Json.required Json.text? name, ← Json.required Json.text? sourceFile,
      ← Json.required (Json.settle? (Json.maxDepth - 1)) abi,
      ← Json.required Json.text? creation, ← Json.required Json.text? deployed,
      ← Json.required GasEstimates.ofJson? gas⟩
  | _ => none

def toJson (a : Artifact) : Json :=
  .record [("name", .string a.name), ("sourceFile", .string a.sourceFile), ("abi", a.abi),
    ("creationBytecode", .string a.creationCode), ("deployedBytecode", .string a.deployedCode),
    ("gasEstimates", a.gas.toJson)]

end Artifact
end SolidityVetting
