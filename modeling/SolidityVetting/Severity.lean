set_option autoImplicit false

namespace SolidityVetting

inductive Severity where
  | info
  | warning
  | critical
  deriving DecidableEq

namespace Severity

def name : Severity → String
  | .info => "info"
  | .warning => "warning"
  | .critical => "critical"

def all : List Severity := [.info, .warning, .critical]

def ofName? (s : String) : Option Severity := all.find? (·.name == s)

def rank : Severity → Nat
  | .info => 0
  | .warning => 1
  | .critical => 2

instance : Ord Severity := ⟨fun a b => compare a.rank b.rank⟩

end Severity
end SolidityVetting
