import SolidityVetting.Compiler.Request
import SolidityVetting.CodeScan
import SolidityVetting.Json.Decode
import SolidityVetting.Numeral
import SolidityVetting.SourceScan

set_option autoImplicit false

namespace SolidityVetting

structure CompilerSettings where
  program : String := "solc"
  /-- Arguments before those that the compiler itself needs. -/
  arguments : List String := []
  optimizerRuns : Nat := 200
  evmVersion : Option String := none
  /-- The time in milliseconds after which a compilation is given up. -/
  timeout : Nat := 60000
  trustedNamespace : String := "@openzeppelin/contracts/"
  importPaths : List String := ["node_modules"]

structure Limits where
  slots : Nat := 4
  maxCodeSize : Nat := 24576
  /-- Sources of more bytes than this get a note. -/
  largeSource : Nat := SourceScan.defaultLargeSize
  skipTrailer : Bool := false

structure Settings where
  compiler : CompilerSettings := {}
  limits : Limits := {}

inductive SettingsFault where
  | noOptimizerRuns
  | noTimeout
  | noNamespace
  | noSlots
  | noCodeSize
  deriving DecidableEq

def SettingsFault.message : SettingsFault → String
  | .noOptimizerRuns => "optimizer_runs cannot be 0"
  | .noTimeout => "compile timeout cannot be 0"
  | .noNamespace => "trusted import namespace cannot be empty"
  | .noSlots => "max_concurrent_compilations cannot be 0"
  | .noCodeSize => "max_code_size cannot be 0"

namespace Settings

def faults (s : Settings) : List SettingsFault :=
  (if s.compiler.optimizerRuns = 0 then [.noOptimizerRuns] else []) ++
  (if s.compiler.timeout = 0 then [.noTimeout] else []) ++
  (if s.compiler.trustedNamespace.toList.all Text.isBlank then [.noNamespace] else []) ++
  (if s.limits.slots = 0 then [.noSlots] else []) ++
  (if s.limits.maxCodeSize = 0 then [.noCodeSize] else [])

def check (s : Settings) : Except SettingsFault Unit :=
  match s.faults.head? with
  | some fault => .error fault
  | none => .ok ()

def codeScan (s : Settings) : CodeScan := ⟨s.limits.maxCodeSize, s.limits.skipTrailer⟩

def request (s : Settings) (sources : Sources) : CompilerRequest :=
  ⟨sources, s.compiler.optimizerRuns, s.compiler.evmVersion⟩

/-- The settings that environment variables ask for; those that are unset or spell no number leave
the default. -/
def ofEnvironment (lookup : String → Option String) : Settings :=
  let plain : Settings := {}
  let number (name : String) (default : Nat) : Nat :=
    ((lookup name).bind fun s => Numeral.word64? s.toList).getD default
  { compiler :=
      { plain.compiler with
        program := (lookup "CG_SOLC_PATH").getD plain.compiler.program,
        evmVersion := lookup "CG_EVM_VERSION",
        timeout := number "CG_COMPILE_TIMEOUT_MS" plain.compiler.timeout,
        importPaths := match lookup "CG_IMPORT_PATHS" with
          | some paths => (Text.pieces (· == ':') paths.toList).map String.ofList
          | none => plain.compiler.importPaths,
        trustedNamespace :=
          (lookup "CG_TRUSTED_NAMESPACE").getD plain.compiler.trustedNamespace },
    limits :=
      { plain.limits with slots := number "CG_MAX_COMPILATIONS" plain.limits.slots } }

end Settings

namespace CompilerSettings

def ofJson? (j : Json) : Option CompilerSettings := do
  let plain : CompilerSettings := {}
  let names :=
    ["solc_path", "solc_args", "optimizer_runs", "evm_version", "timeout_ms", "trusted_namespace",
     "import_paths"]
  match ← j.record? names with
  | [program, arguments, runs, evm, timeout, trusted, paths] =>
    return {
      program := ← Json.defaulting plain.program Json.text? program
      arguments := ← Json.defaulting plain.arguments (Json.list? Json.text?) arguments
      optimizerRuns := ← Json.defaulting plain.optimizerRuns Json.word32? runs
      evmVersion := ← Json.defaulting plain.evmVersion (Json.nullable? Json.text?) evm
      timeout := ← Json.defaulting plain.timeout Json.word64? timeout
      trustedNamespace := ← Json.defaulting plain.trustedNamespace Json.text? trusted
      importPaths := ← Json.defaulting plain.importPaths (Json.list? Json.text?) paths }
  | _ => none

def toJson (s : CompilerSettings) : Json :=
  .record
    [("solc_path", .string s.program), ("solc_args", .strings s.arguments),
     ("optimizer_runs", .nat s.optimizerRuns),
     ("evm_version", .orNull (s.evmVersion.map Json.string)), ("timeout_ms", .nat s.timeout),
     ("trusted_namespace", .string s.trustedNamespace), ("import_paths", .strings s.importPaths)]

end CompilerSettings

namespace Limits

def ofJson? (j : Json) : Option Limits := do
  let plain : Limits := {}
  let names :=
    ["max_concurrent_compilations", "max_code_size", "large_source_bytes", "skip_metadata"]
  match ← j.record? names with
  | [slots, codeSize, largeSource, skip] =>
    return {
      slots := ← Json.defaulting plain.slots Json.word64? slots
      maxCodeSize := ← Json.defaulting plain.maxCodeSize Json.word64? codeSize
      largeSource := ← Json.defaulting plain.largeSource Json.word64? largeSource
      skipTrailer := ← Json.defaulting plain.skipTrailer Json.bool? skip }
  | _ => none

def toJson (l : Limits) : Json :=
  .record
    [("max_concurrent_compilations", .nat l.slots), ("max_code_size", .nat l.maxCodeSize),
     ("large_source_bytes", .nat l.largeSource), ("skip_metadata", .bool l.skipTrailer)]

end Limits

namespace Settings

def ofJson? (j : Json) : Option Settings := do
  match ← j.record? ["compiler", "limits"] with
  | [compiler, limits] =>
    return ⟨← Json.defaulting {} CompilerSettings.ofJson? compiler,
      ← Json.defaulting {} Limits.ofJson? limits⟩
  | _ => none

def toJson (s : Settings) : Json :=
  .record [("compiler", s.compiler.toJson), ("limits", s.limits.toJson)]

end Settings
end SolidityVetting
