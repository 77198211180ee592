import SolidityVetting.Gate.Floor

set_option autoImplicit false

namespace SolidityVetting

inductive OpeningFault where
  | settings (fault : SettingsFault)
  /-- There may be no more than `Gate.maxSlots` slots. -/
  | tooManySlots
  deriving DecidableEq

structure Gate where
  settings : Settings
  stats : Stats := {}
  requests : List CompilerRequest := []

namespace Gate

def maxSlots : Nat := Nat.pow 2 61 - 1

def «open» (s : Settings) : Except OpeningFault Gate :=
  match s.check with
  | .error fault => .error (.settings fault)
  | .ok () => if s.limits.slots > maxSlots then .error .tooManySlots else .ok { settings := s }

def floor (g : Gate) (submissions : List Submission) : Floor :=
  { free := g.settings.limits.slots, stats := g.stats, requests := g.requests,
    tickets := submissions.map fun submission => { submission } }

/-- The moves of runs that arrive together at a compiler that keeps them waiting: all start and take
what slots there are; then one after another they end and make room. -/
def crowd (n : Nat) : List Move :=
  let all := List.range n
  all.flatMap (fun run => [.start run, .takeSlot run]) ++
    all.flatMap fun run => [.finish run, .count run] ++ all.map .takeSlot

/-- The moves of runs that go through one after another. -/
def queue (n : Nat) : List Move :=
  (List.range n).flatMap fun run => [.start run, .takeSlot run, .finish run, .count run]

def suspends (g : Gate) (compiler : Compiler) (submission : Submission) : Bool :=
  match compiler (g.settings.request submission.sources) with
  | .never => true
  | .after delay _ => delay > 0

structure Outcome where
  gate : Gate
  results : List (Except Refusal Verdict)
  /-- The greatest number of compilations at one time. -/
  peak : Nat

def send (g : Gate) (compiler : Compiler) (submissions : List Submission) : Outcome :=
  let moves :=
    if submissions.any (g.suspends compiler) then crowd submissions.length
    else queue submissions.length
  let trace := (g.floor submissions).trace g.settings compiler moves
  let last := trace.getLast?.getD (g.floor submissions)
  { gate := { g with stats := last.stats, requests := last.requests },
    results := last.tickets.filterMap (·.phase.result?),
    peak := (trace.map (·.compiling)).foldl max 0 }

end Gate
end SolidityVetting
