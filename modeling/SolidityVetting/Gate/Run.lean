import SolidityVetting.Attestation
import SolidityVetting.Compiler.Response
import SolidityVetting.Gate.Refusal
import SolidityVetting.Settings
/-! # A run of the gate

Sources are scanned, compiled, and the runtime code of the contract to deploy is scanned; then
source and creation code are attested. Every step runs only if all steps before it passed.
-/

set_option autoImplicit false

namespace SolidityVetting

structure Submission where
  sources : Sources
  /-- The contract to deploy; without a name, the first one that has runtime code. -/
  primary : Option String := none

structure Verdict where
  sourceReport : Report
  bytecodeReport : Report
  attestation : Attestation
  score : UInt8
  primaryName : String
  warnings : List String
  contracts : NameMap Artifact

def Verdict.primary? (v : Verdict) : Option Artifact := v.contracts.get? v.primaryName

inductive Reply where
  | after (delay : Nat) (result : Except CompileFailure Compilation)
  | never

/-- A compiler whose answers and their delays depend on the request only. -/
abbrev Compiler := CompilerRequest → Reply

structure Admitted where
  submission : Submission
  /-- The source texts in the order of their names. -/
  joined : String
  report : Report

namespace Run

/-- The text that is scanned and attested. -/
def joinedText (sources : Sources) : String := "\n".intercalate sources.values

def screen (s : Settings) (submission : Submission) : Except Refusal Admitted :=
  if submission.sources.isEmpty then .error (.malformed "no source files were provided")
  else
    let joined := joinedText submission.sources
    let report := SourceScan.scan s.limits.largeSource joined
    if report.passed then .ok ⟨submission, joined, report⟩ else .error (.source report.critical)

def await (s : Settings) : Reply → Except Refusal Compilation
  | .never => .error (.timeout s.compiler.timeout)
  | .after delay result =>
    if delay > s.compiler.timeout then .error (.timeout s.compiler.timeout)
    else result.mapError .compile

def select (artifacts : List Artifact) : Option String → Except Refusal Artifact
  | some name =>
    match artifacts.find? (·.name == name) with
    | none => .error (.malformed ("contract " ++ name ++ " was not produced by compilation"))
    | some a =>
      if a.isDeployable then .ok a
      else .error (.malformed ("contract " ++ name ++ " has no runtime bytecode"))
  | none =>
    match artifacts.find? (·.isDeployable) with
    | some a => .ok a
    | none => .error (.compile .noContracts)

/-- Scans the runtime code and attests the creation code. -/
def judge (s : Settings) (a : Admitted) (c : Compilation) : Except Refusal Verdict := do
  let primary ← select c.artifacts a.submission.primary
  let report ← (s.codeScan.scanHex primary.deployedCode).mapError Refusal.ofHexError
  if ! report.passed then throw (.bytecode report.critical)
  let creation ← (Hex.decode primary.creationCode).mapError Refusal.ofHexError
  return {
    sourceReport := a.report
    bytecodeReport := report
    attestation := .ofBytes a.joined creation
    score := Score.combine a.report.score report.score
    primaryName := primary.name
    warnings := c.warnings
    contracts := c.byName }

def conclude (s : Settings) (compiler : Compiler) (a : Admitted) : Except Refusal Verdict := do
  judge s a (← await s (compiler (s.request a.submission.sources)))

def vet (s : Settings) (compiler : Compiler) (submission : Submission) :
    Except Refusal Verdict := do
  conclude s compiler (← screen s submission)

end Run
end SolidityVetting
