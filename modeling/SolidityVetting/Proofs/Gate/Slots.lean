import SolidityVetting.Proofs.Gate.Verdict

set_option autoImplicit false

namespace SolidityVetting

namespace Floor

variable {s : Settings} {compilers : Nat → Compiler} {compiler : Compiler} {first f f' : Floor}
  {run : Nat} {t : Ticket} {phase : Phase}

theorem slots_of_reached (h : Reached s compilers first f) :
    f.free + f.compiling = first.free + first.compiling := by
  have idle := number_of_reached free (fun t => ! t.phase.isCompiling) (fun advance => advance.free) h
  have split (tickets : List Ticket) :
      tickets.countP (·.phase.isCompiling) + tickets.countP (fun t => ! t.phase.isCompiling) =
        tickets.length := by
    rw [tickets.length_eq_countP_add_countP (·.phase.isCompiling)]
    simp
  have all := congrArg List.length (submissions_of_reached h)
  rw [List.length_map, List.length_map] at all
  have now := split f.tickets
  have before := split first.tickets
  unfold compiling
  omega

theorem compiling_floor (g : Gate) (submissions : List Submission) :
    (g.floor submissions).compiling = 0 := by
  refine List.countP_eq_zero.2 fun t mem => ?_
  rw [fresh_of_mem_floor g submissions t mem]
  decide

theorem Sound.of_refused {submission : Submission} (h : Sound s compiler submission phase)
    {e : Refusal} (refused : Run.screen s submission = .error e) :
    phase = .fresh ∨ phase = .ended (.error e) ∨ phase = .counted (.error e) := by
  have result : Run.vet s compiler submission = .error e := Run.vet_of_screen_error refused
  cases phase with
  | fresh => exact .inl rfl
  | waiting a => cases refused.symm.trans h
  | compiling a => cases refused.symm.trans h
  | ended other => exact .inr (.inl (congrArg _ (h.trans result)))
  | counted other => exact .inr (.inr (congrArg _ (h.trans result)))

def toGo (f : Floor) : Nat := f.tickets.foldr (fun t rest => t.phase.toGo + rest) 0

theorem Advance.toGo_lt (h : Advance s compiler f f' run t phase) : f'.toGo < f.toGo := by
  have comm : ∀ t₁ ∈ t :: f'.tickets, ∀ t₂ ∈ t :: f'.tickets, ∀ rest : Nat,
      t₂.phase.toGo + (t₁.phase.toGo + rest) = t₁.phase.toGo + (t₂.phase.toGo + rest) :=
    fun _ _ _ _ _ => Nat.add_left_comm ..
  have same : t.phase.toGo + f'.toGo = phase.toGo + f.toGo := h.perm.foldr_eq' comm 0
  have closer := h.closer
  omega

theorem exists_step_of_compiling (compilers : Nat → Compiler) (h : 0 < f.compiling) :
    ∃ m f', Step s (compilers m.run) f m f' := by
  obtain ⟨t, mem, busy⟩ := List.countP_pos_iff.1 h
  obtain ⟨run, here⟩ := List.mem_iff_getElem?.1 mem
  cases phase : t.phase with
  | compiling a => exact ⟨.finish run, _, .finish here phase⟩
  | _ =>
    rw [phase] at busy
    cases busy

/-- As long as a run is not counted, some run can move: one that waits finds a slot, or another run
holds one and can give it back. -/
theorem exists_step (compilers : Nat → Compiler) (slots : 0 < f.free + f.compiling)
    (mem : t ∈ f.tickets) (h : ∀ result, t.phase ≠ .counted result) :
    ∃ m f', Step s (compilers m.run) f m f' := by
  obtain ⟨run, here⟩ := List.mem_iff_getElem?.1 mem
  cases phase : t.phase with
  | fresh =>
    cases screened : Run.screen s t.submission with
    | ok a => exact ⟨.start run, _, .enter here phase screened⟩
    | error e => exact ⟨.start run, _, .refuse here phase screened⟩
  | waiting a =>
    cases room : f.free with
    | zero =>
      rw [room, Nat.zero_add] at slots
      exact exists_step_of_compiling compilers slots
    | succ free => exact ⟨.takeSlot run, _, .takeSlot here phase room⟩
  | compiling a => exact ⟨.finish run, _, .finish here phase⟩
  | ended result => exact ⟨.count run, _, .count here phase⟩
  | counted result => exact absurd phase (h result)

theorem exists_reached_counted (f : Floor) (slots : 0 < f.free + f.compiling) :
    ∃ f', Reached s compilers f f' ∧ ∀ t ∈ f'.tickets, ∃ result, t.phase = .counted result := by
  by_cases done : ∀ t ∈ f.tickets, ∃ result, t.phase = .counted result
  · exact ⟨f, .here, done⟩
  · simp only [not_forall, not_exists] at done
    obtain ⟨t, mem, left⟩ := done
    obtain ⟨m, f₁, step⟩ := exists_step (s := s) compilers slots mem left
    have moved : Reached s compilers f f₁ := Reached.here.step m step
    obtain ⟨_, _, advance⟩ := step.advances
    have closer := advance.toGo_lt
    obtain ⟨f', further, all⟩ := exists_reached_counted f₁ (by rw [slots_of_reached moved]; exact slots)
    exact ⟨f', moved.trans further, all⟩
termination_by f.toGo

theorem attempt_of_counted (all : ∀ t ∈ f.tickets, ∃ result, t.phase = .counted result)
    (m : Move) : f.attempt s compiler m = f := by
  unfold attempt
  cases moved : f.step? s compiler m with
  | none => rfl
  | some f' =>
    obtain ⟨t, phase, advance⟩ := (step_of_step? moved).advances
    obtain ⟨result, counted⟩ := all t (List.mem_of_getElem? advance.here)
    have closer := advance.closer
    rw [counted] at closer
    exact absurd closer (Nat.not_lt_zero _)

theorem getLast?_trace (f : Floor) (moves : List Move) :
    (f.trace s compiler moves).getLast? = some (moves.foldl (attempt s compiler) f) := by
  induction moves generalizing f with
  | nil => rfl
  | cons m rest ih =>
    rw [trace, List.getLast?_cons, ih, List.foldl_cons]
    rfl

theorem foldl_alone {submission : Submission} (alone : f.tickets = [⟨submission, .fresh⟩])
    (room : 0 < f.free) :
    ([.start 0, .takeSlot 0, .finish 0, .count 0].foldl (attempt s compiler) f).tickets =
      [⟨submission, .counted (Run.vet s compiler submission)⟩] := by
  rcases f with ⟨_ | free, stats, tickets, requests⟩
  · cases room
  obtain rfl : tickets = [⟨submission, .fresh⟩] := alone
  cases screened : Run.screen s submission with
  | error e =>
    simp [attempt, step?, setPhase, screened, Run.vet_of_screen_error screened]
  | ok a =>
    simp [attempt, step?, setPhase, screened, Run.vet_of_screen_ok screened]

end Floor

namespace Gate

theorem results_send_alone (g : Gate) (room : 0 < g.settings.limits.slots) (compiler : Compiler)
    (submission : Submission) :
    (g.send compiler [submission]).results = [Run.vet g.settings compiler submission] := by
  let last := [.start 0, .takeSlot 0, .finish 0, .count 0].foldl
    (Floor.attempt g.settings compiler) (g.floor [submission])
  have counted : last.tickets = [⟨submission, .counted (Run.vet g.settings compiler submission)⟩] :=
    Floor.foldl_alone rfl room
  have still : last.attempt g.settings compiler (.takeSlot 0) = last := by
    apply Floor.attempt_of_counted
    rw [counted]
    intro t mem
    exact ⟨_, congrArg Ticket.phase (List.mem_singleton.1 mem)⟩
  unfold send
  dsimp only
  rw [Floor.getLast?_trace, Option.getD_some]
  split
  · change (last.attempt g.settings compiler (.takeSlot 0)).tickets.filterMap _ = _
    rw [still, counted]
    rfl
  · change last.tickets.filterMap _ = _
    rw [counted]
    rfl

/-- On every floor that runs lead to, free slots and compilations under way make up the configured
number. A run that fails the check of its input or the source scan goes straight to its end. A run
that has ended came out as it does when it is sent through the gate alone with the same compiler,
and from every floor all runs can be brought to their end. -/
theorem slots_bounded {s : Settings} {g : Gate} (opened : Gate.open s = .ok g)
    (submissions : List Submission) (compilers : Nat → Compiler) {f : Floor}
    (reached : Floor.Reached s compilers (g.floor submissions) f) :
    f.free + f.compiling = s.limits.slots ∧ f.compiling ≤ s.limits.slots ∧
    (∀ t ∈ f.tickets, ∀ e, Run.screen s t.submission = .error e →
      t.phase = .fresh ∨ t.phase = .ended (.error e) ∨ t.phase = .counted (.error e)) ∧
    (∀ run t result, f.tickets[run]? = some t → t.phase.result? = some result →
      (g.send (compilers run) [t.submission]).results = [result]) ∧
    ∃ f', Floor.Reached s compilers f f' ∧
      ∀ t ∈ f'.tickets, ∃ result, t.phase = .counted result := by
  obtain ⟨rfl, room⟩ := open_eq_ok opened
  have slots : f.free + f.compiling = s.limits.slots := by
    rw [Floor.slots_of_reached reached, Floor.compiling_floor]
    rfl
  refine ⟨slots, by omega, ?_, ?_, Floor.exists_reached_counted f (by omega)⟩
  · intro t mem e refused
    obtain ⟨run, here⟩ := List.mem_iff_getElem?.1 mem
    exact (Floor.sound_of_reached reached (Floor.fresh_of_mem_floor _ submissions) here).of_refused
      refused
  · intro run t result here ended
    rw [Floor.result_of_reached reached here ended]
    exact results_send_alone { settings := s } room (compilers run) t.submission

def oneSlot : Settings := { limits := { slots := 1 } }

theorem open_oneSlot : Gate.open oneSlot = .ok { settings := oneSlot } :=
  open_of_faultless (by decide) (by decide)

theorem slots_bounded_one :
    let crowd : List Submission := [coinSubmission, coinSubmission, { sources := .ofList [] }]
    Gate.open oneSlot = .ok { settings := oneSlot } ∧
    ∃ f, Floor.Reached oneSlot (fun _ => coinCompiler) (floor { settings := oneSlot } crowd) f ∧
      f.free = 0 ∧ f.compiling = 1 ∧
      (send { settings := oneSlot } coinCompiler [{ sources := .ofList [] }]).results =
        [.error (.malformed "no source files were provided")] := by
  intro crowd
  obtain ⟨a, screened⟩ := coin_screened oneSlot
  have refused : Run.screen oneSlot { sources := .ofList [] } =
      .error (.malformed "no source files were provided") := rfl
  have reached : Floor.Reached oneSlot (fun _ => coinCompiler) (floor { settings := oneSlot } crowd)
      (floor { settings := oneSlot } crowd) := .here
  have reached := reached.step (.start 0) (.enter rfl rfl screened)
  have reached := reached.step (.start 1) (.enter rfl rfl screened)
  have reached := reached.step (.start 2) (.refuse rfl rfl refused)
  have reached := reached.step (.takeSlot 0) (.takeSlot rfl rfl rfl)
  obtain ⟨slots, -, -, alone, -⟩ := slots_bounded open_oneSlot crowd (fun _ => coinCompiler) reached
  refine ⟨open_oneSlot, _, reached, Nat.add_right_cancel (m := 1) slots, rfl, ?_⟩
  exact alone 2 ⟨_, .ended (.error _)⟩ _ rfl rfl

end Gate
end SolidityVetting
