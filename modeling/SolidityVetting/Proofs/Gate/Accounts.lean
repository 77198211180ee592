import SolidityVetting.Proofs.Gate.Verdict

set_option autoImplicit false

namespace SolidityVetting

def Phase.isOpen : Phase → Bool
  | .fresh => false
  | .counted _ => false
  | _ => true

theorem Phase.hasStarted_of_toGo_lt {earlier later : Phase} (h : later.toGo < earlier.toGo) :
    later.hasStarted = true := by
  cases later with
  | fresh => cases earlier <;> simp [toGo] at h
  | _ => rfl

theorem Phase.not_isCountedAs_of_toGo_lt {earlier later : Phase} (h : later.toGo < earlier.toGo)
    (outcome : Option Stage) : earlier.isCountedAs outcome = false := by
  cases earlier with
  | counted result => exact absurd h (Nat.not_lt_zero _)
  | _ => rfl

/-- A run that has started is recorded with exactly one outcome, or open. -/
theorem Phase.hasStarted_split (phase : Phase) :
    (if phase.hasStarted then 1 else 0) =
      (if phase.isCountedAs none then 1 else 0) + (if phase.isCountedAs (some .input) then 1 else 0) +
        (if phase.isCountedAs (some .sourceScan) then 1 else 0) +
        (if phase.isCountedAs (some .compile) then 1 else 0) +
        (if phase.isCountedAs (some .bytecodeScan) then 1 else 0) +
        if phase.isOpen then 1 else 0 := by
  cases phase with
  | counted result =>
    have counts (outcome : Option Stage) :
        (counted result).isCountedAs outcome = decide (refusedAt result = outcome) := rfl
    simp only [counts]
    rcases refusedAt result with _ | _ | _ | _ | _ <;> rfl
  | _ => rfl

/-- How many of the tickets are counted with this outcome. -/
def countedAs (tickets : List Ticket) (outcome : Option Stage) : Nat :=
  tickets.countP (·.phase.isCountedAs outcome)

theorem countP_hasStarted (tickets : List Ticket) :
    tickets.countP (·.phase.hasStarted) =
      countedAs tickets none + countedAs tickets (some .input) +
        countedAs tickets (some .sourceScan) + countedAs tickets (some .compile) +
        countedAs tickets (some .bytecodeScan) + tickets.countP (·.phase.isOpen) := by
  unfold countedAs
  induction tickets with
  | nil => rfl
  | cons t rest ih =>
    have split := t.phase.hasStarted_split
    simp only [List.countP_cons]
    omega

namespace Floor

variable {s : Settings} {compilers : Nat → Compiler} {compiler : Compiler} {first f f' : Floor}
  {run : Nat} {t : Ticket} {phase : Phase}

theorem Advance.counters_le (h : Advance s compiler f f' run t phase) :
    f.stats.runs ≤ f'.stats.runs ∧
      ∀ outcome, f.stats.tally outcome ≤ f'.stats.tally outcome := by
  constructor
  · have runs := h.runs
    rw [Phase.hasStarted_of_toGo_lt h.closer] at runs
    rw [if_pos rfl] at runs
    split at runs <;> omega
  · intro outcome
    have tally := h.tally outcome
    rw [Phase.not_isCountedAs_of_toGo_lt h.closer outcome] at tally
    rw [if_neg Bool.false_ne_true] at tally
    omega

theorem counters_le_of_reached (h : Reached s compilers f f') :
    f.stats.runs ≤ f'.stats.runs ∧
      ∀ outcome, f.stats.tally outcome ≤ f'.stats.tally outcome := by
  induction h with
  | here => exact ⟨Nat.le_refl _, fun _ => Nat.le_refl _⟩
  | move _ moved ih =>
    obtain ⟨_, _, advance⟩ := (step_of_step? moved).advances
    have step := advance.counters_le
    exact ⟨Nat.le_trans ih.1 step.1, fun outcome => Nat.le_trans (ih.2 outcome) (step.2 outcome)⟩

theorem countP_floor (g : Gate) (submissions : List Submission) {counts : Phase → Bool}
    (h : counts .fresh = false) : (g.floor submissions).tickets.countP (counts ·.phase) = 0 := by
  refine List.countP_eq_zero.2 fun t mem => ?_
  rw [fresh_of_mem_floor g submissions t mem, h]
  decide

end Floor

namespace Gate

variable {s : Settings} {compilers : Nat → Compiler} {submissions : List Submission} {f : Floor}

theorem runs_eq (h : Floor.Reached s compilers (floor { settings := s } submissions) f) :
    f.stats.runs = f.tickets.countP (·.phase.hasStarted) := by
  have law := Floor.number_of_reached (·.stats.runs) (·.phase.hasStarted)
    (fun advance => advance.runs) h
  rw [Floor.countP_floor { settings := s } submissions rfl] at law
  exact law.trans (Nat.zero_add _)

theorem tally_eq (h : Floor.Reached s compilers (floor { settings := s } submissions) f)
    (outcome : Option Stage) : f.stats.tally outcome = countedAs f.tickets outcome := by
  have law := Floor.number_of_reached (·.stats.tally outcome) (·.phase.isCountedAs outcome)
    (fun advance => advance.tally outcome) h
  rw [Floor.countP_floor { settings := s } submissions rfl] at law
  have none_yet : (floor { settings := s } submissions).stats.tally outcome = 0 := by
    rcases outcome with _ | _ | _ | _ | _ <;> rfl
  rw [none_yet] at law
  exact law.trans (Nat.zero_add _)

/-- However the runs on a gate are interleaved, the runs started are those recorded with an outcome
and those still open, and no counter ever falls. When all have come to their end, each outcome was
recorded as often as runs came out that way. -/
theorem runs_accounted {g : Gate} (opened : Gate.open s = .ok g) (submissions : List Submission)
    (compilers : Nat → Compiler) {f : Floor}
    (reached : Floor.Reached s compilers (g.floor submissions) f) :
    f.stats.runs = f.stats.recorded + f.tickets.countP (·.phase.isOpen) ∧
    (∀ f', Floor.Reached s compilers f f' → f.stats.runs ≤ f'.stats.runs ∧
      ∀ outcome, f.stats.tally outcome ≤ f'.stats.tally outcome) ∧
    ((∀ t ∈ f.tickets, ∃ result, t.phase = .counted result) →
      f.stats.runs = submissions.length ∧
      ∀ outcome, f.stats.tally outcome =
        f.tickets.countP fun t => t.phase.result?.any fun result => refusedAt result = outcome) := by
  obtain ⟨rfl, -⟩ := open_eq_ok opened
  refine ⟨?_, fun f' further => Floor.counters_le_of_reached further, fun all => ⟨?_, ?_⟩⟩
  · rw [runs_eq reached, countP_hasStarted]
    simp only [← tally_eq reached]
    rfl
  · have started (t : Ticket) (mem : t ∈ f.tickets) : t.phase.hasStarted = true := by
      obtain ⟨result, counted⟩ := all t mem
      rw [counted]
      rfl
    have count := congrArg List.length (Floor.submissions_of_reached reached)
    rw [runs_eq reached, List.countP_eq_length.2 started]
    simpa [Gate.floor] using count
  · intro outcome
    rw [tally_eq reached]
    unfold countedAs
    refine List.countP_congr fun t mem => ?_
    obtain ⟨result, counted⟩ := all t mem
    rw [counted]
    rfl

theorem runs_accounted_two :
    let pair : List Submission := [{ sources := .ofList [] }, coinSubmission]
    Gate.open {} = .ok { settings := {} } ∧
    ∃ f f', Floor.Reached {} (fun _ => coinCompiler) (floor { settings := {} } pair) f ∧
      Floor.Reached {} (fun _ => coinCompiler) f f' ∧
      f.stats.runs = f.stats.recorded + 1 ∧ f.stats.passed ≤ f'.stats.passed ∧
      f'.stats.runs = 2 ∧ f'.stats.rejectedInput = 1 ∧ f'.stats.passed = 1 := by
  intro pair
  have opened : Gate.open {} = .ok { settings := {} } := open_of_faultless (by decide) (by decide)
  have refused : Run.screen {} { sources := .ofList [] } =
      .error (.malformed "no source files were provided") := rfl
  obtain ⟨a, screened⟩ := coin_screened {}
  obtain ⟨v, concluded⟩ :=
    coin_concluded a (congrArg Admitted.submission (Run.screen_eq_ok screened).1)
  let refusal : Ticket :=
    ⟨{ sources := .ofList [] }, .counted (.error (.malformed "no source files were provided"))⟩
  let f : Floor :=
    { free := 4, stats := { runs := 2, rejectedInput := 1 },
      tickets := [refusal, ⟨coinSubmission, .waiting a⟩] }
  have here (f : Floor) : Floor.Reached {} (fun _ => coinCompiler) f f := .here
  have before := (here (floor { settings := {} } pair)).step (.start 0) (.refuse rfl rfl refused)
  have before := before.step (.count 0) (.count rfl rfl)
  have before := before.step (.start 1) (.enter rfl rfl screened)
  have after := (here f).step (.takeSlot 1) (.takeSlot rfl rfl rfl)
  have after := after.step (.finish 1) (.finish rfl rfl)
  rw [concluded] at after
  have after := after.step (.count 1) (.count rfl rfl)
  obtain ⟨opens, grows, -⟩ := runs_accounted opened pair _ before
  obtain ⟨-, -, ends⟩ := runs_accounted opened pair _ (before.trans after)
  have all : ∀ t ∈ [refusal, ⟨coinSubmission, .counted (.ok v)⟩],
      ∃ result, t.phase = .counted result := by
    simp [refusal]
  obtain ⟨runs, tally⟩ := ends all
  exact ⟨opened, f, _, before, after, opens, (grows _ after).2 none, runs, tally (some .input),
    tally none⟩

end Gate
end SolidityVetting
