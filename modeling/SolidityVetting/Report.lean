import SolidityVetting.Finding
import SolidityVetting.Score

set_option autoImplicit false

namespace SolidityVetting

inductive Subject where
  | source
  | bytecode
  deriving DecidableEq

def Subject.name : Subject → String
  | .source => "source"
  | .bytecode => "bytecode"

structure Report where
  subject : Subject
  critical : List Finding := []
  warnings : List Finding := []
  info : List Finding := []
  deriving DecidableEq

namespace Report

def push (r : Report) (f : Finding) : Report :=
  match f.severity with
  | .critical => { r with critical := r.critical ++ [f] }
  | .warning => { r with warnings := r.warnings ++ [f] }
  | .info => { r with info := r.info ++ [f] }

def pushAll (r : Report) (fs : List Finding) : Report := fs.foldl push r

def ofFindings (subject : Subject) (fs : List Finding) : Report := pushAll { subject } fs

def findings (r : Report) : List Finding := r.critical ++ r.warnings ++ r.info

def find? (r : Report) (code : String) : Option Finding := r.findings.find? (·.code == code)

def hasCode (r : Report) (code : String) : Bool := r.findings.any (·.code == code)

def passed (r : Report) : Bool := r.critical.isEmpty

def score (r : Report) : UInt8 :=
  Score.ofCounts (.ofNat r.critical.length) (.ofNat r.warnings.length) (.ofNat r.info.length)

end Report
end SolidityVetting
