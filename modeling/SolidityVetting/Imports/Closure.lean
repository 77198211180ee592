import SolidityVetting.Compiler.Failure
import SolidityVetting.Imports.Trusted
import SolidityVetting.NameMap
/-! # The closure of imports

Sources are completed with all units that they import, directly or through others. Units are taken
up in the order in which they were first asked for. What the caller brings is never replaced, a unit
is asked for once, and everything that cannot be served is collected before the run fails.
-/

set_option autoImplicit false

namespace SolidityVetting.Closure

structure Progress where
  units : Sources
  pending : List String
  unresolved : List String := []

def takeUp (resolve : Resolver) (importer : String) (p : Progress) (path : String) : Progress :=
  match Import.unit? importer path with
  | none =>
    if p.unresolved.contains path then p else { p with unresolved := p.unresolved ++ [path] }
  | some unit =>
    if p.units.contains unit || p.unresolved.contains unit then p
    else match resolve unit with
      | .ok text => { p with units := p.units.insert unit text, pending := p.pending ++ [unit] }
      | .error _ => { p with unresolved := p.unresolved ++ [unit] }

def step (resolve : Resolver) (p : Progress) : Progress :=
  match p.pending with
  | [] => p
  | importer :: rest =>
    (Import.paths ((p.units.get? importer).getD "")).foldl (takeUp resolve importer)
      { p with pending := rest }

def run (resolve : Resolver) : (rounds : Nat) → Progress → Option Progress
  | rounds, p =>
    if p.pending.isEmpty then some p
    else match rounds with
      | 0 => none
      | rounds + 1 => run resolve rounds (step resolve p)

def start (sources : Sources) : Progress := ⟨sources, sources.names, []⟩

def outcome (p : Progress) : Except CompileFailure Sources :=
  if p.unresolved.isEmpty then .ok p.units else .error (.unresolvedImports p.unresolved)

/-- Completes the sources with the help of a resolver that can serve up to `servable` units: every
unit is read once, so there are no more rounds than units. -/
def complete (resolve : Resolver) (servable : Nat) (sources : Sources) :
    Except CompileFailure Sources :=
  match run resolve (sources.size + servable) (start sources) with
  | some p => outcome p
  | none => .error (.unresolvedImports [])

end Closure

def TrustedImports.complete (t : TrustedImports) (sources : Sources) :
    Except CompileFailure Sources :=
  Closure.complete t.resolve (t.servable sources.names) sources

end SolidityVetting
