import SolidityVetting.Compiler.Request
import SolidityVetting.Gate.Run
import SolidityVetting.Imports.Closure
/-! # The compiler as a program

A compiler program is given a request in standard JSON and answers on its output. Imports are
completed before it starts, so it never reads files of its own accord.
-/

set_option autoImplicit false

namespace SolidityVetting

structure Printed where
  stdout : List UInt8
  stderr : List UInt8
  exitCode : Nat

inductive Execution where
  | printed (p : Printed)
  | hangs

inductive StartFault where
  | missing
  | nameTooLong
  | argumentsTooLong
  | isDirectory
  /-- The name or an argument holds the character NUL, which ends a text for the system. -/
  | nulByte

namespace StartFault

def words : StartFault → String
  | .missing => "No such file or directory (os error 2)"
  | .argumentsTooLong => "Argument list too long (os error 7)"
  | .isDirectory => "Permission denied (os error 13)"
  | .nameTooLong => "File name too long (os error 36)"
  | .nulByte => "nul byte found in provided data"

def maxNameLength : Nat := 4095

/-- The fault of a program that does not exist. Its first real segment is already absent, so those
behind it are not looked at; a name without one denotes a directory. -/
def ofAbsent (name : String) : StartFault :=
  let segments := Import.segments name.toList
  if name.isEmpty then .missing
  else if name.utf8ByteSize > maxNameLength then .nameTooLong
  else match segments.dropWhile fun s => Tree.staysHere s || s == ['.', '.'] with
    | [] => .isDirectory
    | first :: _ => if Utf8.length first > Tree.maxNameLength then .nameTooLong else .missing

end StartFault

structure CompilerProgram where
  name : String
  /-- What the program is called with, the request's format aside. -/
  arguments : List String := []
  /-- Completes the sources with what they import. -/
  complete : Sources → Except CompileFailure Sources
  installed : Except StartFault (Json → Execution)

namespace CompilerProgram

def maxArgumentLength : Nat := 131071

def commandLine (p : CompilerProgram) : List String := p.arguments ++ ["--standard-json"]

/-- Starts the program with a request. A text with NUL is refused before the program is sought, and
the length of an argument counts once it is found. -/
def start (p : CompilerProgram) (request : Json) : Except StartFault Execution :=
  if (p.name :: p.commandLine).any (·.toList.contains '\x00') then .error .nulByte
  else p.installed.bind fun execute =>
    if p.commandLine.any (·.utf8ByteSize > maxArgumentLength) then .error .argumentsTooLong
    else .ok (execute request)

def wireRequest (p : CompilerProgram) (r : CompilerRequest) : Except CompileFailure Json :=
  (p.complete r.sources).map fun sources => { r with sources }.toStandardJson

def read (p : CompilerProgram) (asked : List String) (out : Printed) :
    Except CompileFailure Compilation :=
  if out.exitCode ≠ 0 ∧ out.stdout.isEmpty then
    let complaint := Text.trim (Utf8.decodeLossy out.stderr).toList
    .error (.unavailable (p.name ++ " exited with exit status: " ++ toString out.exitCode ++ ": " ++
      String.ofList complaint))
  else (CompilerResponse.ofBytes out.stdout).bind (·.toCompilation asked)

def compiler (p : CompilerProgram) : Compiler := fun r =>
  match p.wireRequest r with
  | .error failure => .after 0 (.error failure)
  | .ok request =>
    match p.start request with
    | .error fault => .after 0 (.error (.unavailable (p.name ++ ": " ++ fault.words)))
    | .ok .hangs => .never
    | .ok (.printed out) => .after 0 (p.read r.sources.names out)

end CompilerProgram
end SolidityVetting
