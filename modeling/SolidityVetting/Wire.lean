import SolidityVetting.Gate.Run
import SolidityVetting.Gate.Stats
import SolidityVetting.Json.Decode

set_option autoImplicit false

namespace SolidityVetting

namespace Severity

/-- A severity by its name, or as an object with the name as its only key and null under it. -/
def ofJson? : Json → Option Severity
  | .text (some name) => ofName? name
  | .object [(some name, .null)] => ofName? name
  | _ => none

end Severity

namespace Finding

def ofJson? (j : Json) : Option Finding := do
  match ← j.record? ["severity", "code", "message", "line", "offset"] with
  | [severity, code, message, line, offset] =>
    return ⟨← Json.required Severity.ofJson? severity, ← Json.required Json.text? code,
      ← Json.required Json.text? message,
      ← Json.defaulting none (Json.nullable? Json.word64?) line,
      ← Json.defaulting none (Json.nullable? Json.word64?) offset⟩
  | _ => none

def toJson (f : Finding) : Json :=
  .record ([("severity", .string f.severity.name), ("code", .string f.code),
    ("message", .string f.message)] ++ Json.field? "line" (f.line.map Json.nat) ++
    Json.field? "offset" (f.offset.map Json.nat))

def listToJson (fs : List Finding) : Json := .array (fs.map toJson)

end Finding

def Report.toJson (r : Report) : Json :=
  .record
    [("passed", .bool r.passed), ("critical", Finding.listToJson r.critical),
     ("warnings", Finding.listToJson r.warnings), ("info", Finding.listToJson r.info),
     ("scanType", .string r.subject.name), ("score", .nat r.score.toNat)]

namespace Attestation

def ofJson? (j : Json) : Option Attestation := do
  match ← j.record? ["sourceHash", "bytecodeHash", "combinedHash"] with
  | [source, bytecode, combined] =>
    return ⟨← Json.required Json.text? source, ← Json.required Json.text? bytecode,
      ← Json.required Json.text? combined⟩
  | _ => none

def toJson (a : Attestation) : Json :=
  .record [("sourceHash", .string a.source), ("bytecodeHash", .string a.bytecode),
    ("combinedHash", .string a.combined)]

end Attestation

def Verdict.toJson (v : Verdict) : Json :=
  .record
    [("sourceReport", v.sourceReport.toJson), ("bytecodeReport", v.bytecodeReport.toJson),
     ("integrityHashes", v.attestation.toJson), ("combinedScore", .nat v.score.toNat),
     ("primaryContract", .string v.primaryName), ("compilerWarnings", .strings v.warnings),
     ("contracts", .ofNameMap Artifact.toJson v.contracts)]

def Stats.toJson (s : Stats) : Json :=
  .record
    [("runs", .nat s.runs), ("passed", .nat s.passed), ("rejected_input", .nat s.rejectedInput),
     ("rejected_source", .nat s.rejectedSource), ("rejected_compile", .nat s.rejectedCompile),
     ("rejected_bytecode", .nat s.rejectedBytecode)]

end SolidityVetting
