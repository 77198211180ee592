import SolidityVetting.Gate.Run
import SolidityVetting.Gate.Stats
/-! # Runs side by side

Any number of runs share one gate. A run that has passed the source scan waits for one of the
compile slots and gives it back when its compilation ends in whatever way. The floor holds all runs
with the phase each one is in; `step` is one move of one run, and any interleaving of moves is
possible.
-/

set_option autoImplicit false

namespace SolidityVetting

inductive Phase where
  | fresh
  | waiting (a : Admitted)
  | compiling (a : Admitted)
  /-- Ended, and not yet counted. -/
  | ended (result : Except Refusal Verdict)
  | counted (result : Except Refusal Verdict)

structure Ticket where
  submission : Submission
  phase : Phase := .fresh

inductive Move where
  | start (run : Nat)
  | takeSlot (run : Nat)
  | finish (run : Nat)
  | count (run : Nat)

structure Floor where
  free : Nat
  stats : Stats := {}
  tickets : List Ticket := []
  /-- The requests that compilers have been given, the last one first. -/
  requests : List CompilerRequest := []

def refusedAt (result : Except Refusal Verdict) : Option Stage :=
  match result with
  | .ok _ => none
  | .error e => some e.stage

namespace Phase

def isCompiling : Phase → Bool
  | .compiling _ => true
  | _ => false

def result? : Phase → Option (Except Refusal Verdict)
  | .ended result => some result
  | .counted result => some result
  | _ => none

end Phase

namespace Floor

def empty (s : Settings) : Floor := { free := s.limits.slots }

def compiling (f : Floor) : Nat := f.tickets.countP (·.phase.isCompiling)

def setPhase (f : Floor) (run : Nat) (t : Ticket) (phase : Phase) : Floor :=
  { f with tickets := f.tickets.set run { t with phase } }

def step? (s : Settings) (compiler : Compiler) (f : Floor) : Move → Option Floor
  | .start run => do
    let t ← f.tickets[run]?
    match t.phase with
    | .fresh =>
      let f := { f with stats := f.stats.start }
      match Run.screen s t.submission with
      | .ok a => return f.setPhase run t (.waiting a)
      | .error e => return f.setPhase run t (.ended (.error e))
    | _ => none
  | .takeSlot run => do
    let t ← f.tickets[run]?
    match t.phase, f.free with
    | .waiting a, free + 1 =>
      return { f.setPhase run t (.compiling a) with
        free, requests := s.request a.submission.sources :: f.requests }
    | _, _ => none
  | .finish run => do
    let t ← f.tickets[run]?
    match t.phase with
    | .compiling a =>
      return { f.setPhase run t (.ended (Run.conclude s compiler a)) with free := f.free + 1 }
    | _ => none
  | .count run => do
    let t ← f.tickets[run]?
    match t.phase with
    | .ended result =>
      return { f.setPhase run t (.counted result) with stats := f.stats.record (refusedAt result) }
    | _ => none

/-- The move where it is possible, and otherwise nothing. -/
def attempt (s : Settings) (compiler : Compiler) (f : Floor) (m : Move) : Floor :=
  (f.step? s compiler m).getD f

def trace (s : Settings) (compiler : Compiler) : Floor → List Move → List Floor
  | f, [] => [f]
  | f, m :: rest => f :: trace s compiler (f.attempt s compiler m) rest

end Floor
end SolidityVetting
