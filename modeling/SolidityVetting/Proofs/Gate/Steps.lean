import SolidityVetting.Gate.Service
import SolidityVetting.Proofs.Gate.Stages

set_option autoImplicit false

namespace SolidityVetting

def Move.run : Move → Nat
  | .start run => run
  | .takeSlot run => run
  | .finish run => run
  | .count run => run

namespace Phase

def toGo : Phase → Nat
  | .fresh => 4
  | .waiting _ => 3
  | .compiling _ => 2
  | .ended _ => 1
  | .counted _ => 0

def hasStarted : Phase → Bool
  | .fresh => false
  | _ => true

def isCountedAs (outcome : Option Stage) : Phase → Bool
  | .counted result => refusedAt result = outcome
  | _ => false

end Phase

def Stats.tally (stats : Stats) : Option Stage → Nat
  | none => stats.passed
  | some .input => stats.rejectedInput
  | some .sourceScan => stats.rejectedSource
  | some .compile => stats.rejectedCompile
  | some .bytecodeScan => stats.rejectedBytecode

theorem Stats.tally_record (stats : Stats) (outcome other : Option Stage) :
    (stats.record outcome).tally other =
      stats.tally other + if outcome = other then 1 else 0 := by
  rcases outcome with _ | _ | _ | _ | _ <;> rcases other with _ | _ | _ | _ | _ <;> rfl

theorem Stats.runs_record (stats : Stats) (outcome : Option Stage) :
    (stats.record outcome).runs = stats.runs := by
  rcases outcome with _ | _ | _ | _ | _ <;> rfl

def Ticket.asked (s : Settings) (t : Ticket) : List CompilerRequest :=
  if Run.isAdmitted s t.submission && decide (t.phase.toGo ≤ 2) then [s.request t.submission.sources]
  else []

namespace Floor

variable {s : Settings} {compiler : Compiler}

/-- Everything that a move can do. -/
inductive Step (s : Settings) (compiler : Compiler) (f : Floor) : Move → Floor → Prop where
  | enter {run : Nat} {t : Ticket} {a : Admitted} (here : f.tickets[run]? = some t)
      (phase : t.phase = .fresh) (screened : Run.screen s t.submission = .ok a) :
      Step s compiler f (.start run)
        ({ f with stats := f.stats.start }.setPhase run t (.waiting a))
  | refuse {run : Nat} {t : Ticket} {e : Refusal} (here : f.tickets[run]? = some t)
      (phase : t.phase = .fresh) (screened : Run.screen s t.submission = .error e) :
      Step s compiler f (.start run)
        ({ f with stats := f.stats.start }.setPhase run t (.ended (.error e)))
  | takeSlot {run free : Nat} {t : Ticket} {a : Admitted} (here : f.tickets[run]? = some t)
      (phase : t.phase = .waiting a) (room : f.free = free + 1) :
      Step s compiler f (.takeSlot run)
        { f.setPhase run t (.compiling a) with
          free, requests := s.request a.submission.sources :: f.requests }
  | finish {run : Nat} {t : Ticket} {a : Admitted} (here : f.tickets[run]? = some t)
      (phase : t.phase = .compiling a) :
      Step s compiler f (.finish run)
        { f.setPhase run t (.ended (Run.conclude s compiler a)) with free := f.free + 1 }
  | count {run : Nat} {t : Ticket} {result : Except Refusal Verdict}
      (here : f.tickets[run]? = some t) (phase : t.phase = .ended result) :
      Step s compiler f (.count run)
        { f.setPhase run t (.counted result) with stats := f.stats.record (refusedAt result) }

theorem step_of_step? {f f' : Floor} {m : Move} (h : f.step? s compiler m = some f') :
    Step s compiler f m f' := by
  cases m with
  | start run =>
    simp only [step?, Option.bind_eq_bind, Option.bind_eq_some_iff] at h
    rcases h with ⟨t, here, h⟩
    split at h
    · next phase =>
      split at h
      · next a screened =>
        cases h
        exact .enter here phase screened
      · next e screened =>
        cases h
        exact .refuse here phase screened
    · cases h
  | takeSlot run =>
    simp only [step?, Option.bind_eq_bind, Option.bind_eq_some_iff] at h
    rcases h with ⟨t, here, h⟩
    split at h
    · next a free phase room =>
      cases h
      exact .takeSlot here phase room
    · cases h
  | finish run =>
    simp only [step?, Option.bind_eq_bind, Option.bind_eq_some_iff] at h
    rcases h with ⟨t, here, h⟩
    split at h
    · next a phase =>
      cases h
      exact .finish here phase
    · cases h
  | count run =>
    simp only [step?, Option.bind_eq_bind, Option.bind_eq_some_iff] at h
    rcases h with ⟨t, here, h⟩
    split at h
    · next result phase =>
      cases h
      exact .count here phase
    · cases h

theorem step?_of_step {f f' : Floor} {m : Move} (h : Step s compiler f m f') :
    f.step? s compiler m = some f' := by
  cases h with
  | enter here phase screened => simp [step?, here, phase, screened]
  | refuse here phase screened => simp [step?, here, phase, screened]
  | takeSlot here phase room => simp [step?, here, phase, room]
  | finish here phase => simp [step?, here, phase]
  | count here phase => simp [step?, here, phase]

theorem attempt_of_step {f f' : Floor} {m : Move} (h : Step s compiler f m f') :
    f.attempt s compiler m = f' := by
  rw [attempt, step?_of_step h]
  rfl

theorem forall_mem_trace {P : Floor → Prop}
    (keeps : ∀ f m f', P f → Step s compiler f m f' → P f') {f : Floor} (start : P f)
    (moves : List Move) : ∀ f' ∈ f.trace s compiler moves, P f' := by
  induction moves generalizing f with
  | nil =>
    intro f' hf
    rw [List.mem_singleton.1 hf]
    exact start
  | cons m rest ih =>
    intro f' hf
    rcases List.mem_cons.1 hf with rfl | hf
    · exact start
    have next : P (f.attempt s compiler m) := by
      unfold attempt
      cases h : f.step? s compiler m with
      | none => exact start
      | some f₁ => exact keeps f m f₁ start (step_of_step? h)
    exact ih next f' hf

/-- The phase is one that the submission leads to. -/
def Sound (s : Settings) (compiler : Compiler) (submission : Submission) : Phase → Prop
  | .fresh => True
  | .waiting a => Run.screen s submission = .ok a
  | .compiling a => Run.screen s submission = .ok a
  | .ended result => result = Run.vet s compiler submission
  | .counted result => result = Run.vet s compiler submission

theorem Sound.result_eq {submission : Submission} {phase : Phase}
    (h : Sound s compiler submission phase) {result : Except Refusal Verdict}
    (ended : phase.result? = some result) : result = Run.vet s compiler submission := by
  cases phase with
  | ended other =>
    cases ended
    exact h
  | counted other =>
    cases ended
    exact h
  | _ => cases ended

/-- What a move of the run does: its ticket goes from one phase to a later one that its submission
leads to, and the numbers kept beside the tickets follow the change of phase. -/
structure Advance (s : Settings) (compiler : Compiler) (f f' : Floor) (run : Nat) (t : Ticket)
    (phase : Phase) : Prop where
  here : f.tickets[run]? = some t
  tickets : f'.tickets = f.tickets.set run { t with phase }
  sound : Sound s compiler t.submission t.phase → Sound s compiler t.submission phase
  closer : phase.toGo < t.phase.toGo
  free : f'.free + (if ! t.phase.isCompiling then 1 else 0) =
    f.free + if ! phase.isCompiling then 1 else 0
  runs : f'.stats.runs + (if t.phase.hasStarted then 1 else 0) =
    f.stats.runs + if phase.hasStarted then 1 else 0
  tally (outcome : Option Stage) :
    f'.stats.tally outcome + (if t.phase.isCountedAs outcome then 1 else 0) =
      f.stats.tally outcome + if phase.isCountedAs outcome then 1 else 0
  requests : Sound s compiler t.submission t.phase →
    t.asked s ++ f'.requests = Ticket.asked s { t with phase } ++ f.requests

theorem Step.advances {f f' : Floor} {m : Move} (step : Step s compiler f m f') :
    ∃ t phase, Advance s compiler f f' m.run t phase := by
  cases step with
  | @enter run t a here phase screened =>
    obtain ⟨submission, _⟩ := t
    obtain rfl : _ = Phase.fresh := phase
    refine ⟨_, .waiting a, here, rfl, fun _ => screened, ?_, rfl, rfl, fun _ => rfl, fun _ => ?_⟩
    · exact Nat.lt_succ_self 3
    · simp [Ticket.asked, Phase.toGo, setPhase]
  | @refuse run t e here phase screened =>
    obtain ⟨submission, _⟩ := t
    obtain rfl : _ = Phase.fresh := phase
    have screened : Run.screen s submission = .error e := screened
    refine ⟨_, .ended (.error e), here, rfl, fun _ => ?_, ?_, rfl, rfl, fun _ => rfl, fun _ => ?_⟩
    · exact (Run.vet_of_screen_error screened).symm
    · change 1 < 4
      omega
    · simp [Ticket.asked, Run.isAdmitted_eq, screened, Except.isOk, Except.toBool, setPhase]
  | @takeSlot run free t a here phase room =>
    obtain ⟨submission, _⟩ := t
    obtain rfl : _ = Phase.waiting a := phase
    refine ⟨_, .compiling a, here, rfl, id, ?_, room.symm, rfl, fun _ => rfl, fun sound => ?_⟩
    · exact Nat.lt_succ_self 2
    · have screened : Run.screen s submission = .ok a := sound
      obtain ⟨rfl, -⟩ := Run.screen_eq_ok screened
      simp [Ticket.asked, Run.isAdmitted_eq, screened, Except.isOk, Except.toBool, Phase.toGo]
  | @finish run t a here phase =>
    obtain ⟨submission, _⟩ := t
    obtain rfl : _ = Phase.compiling a := phase
    refine ⟨_, .ended (Run.conclude s compiler a), here, rfl, fun sound => ?_, ?_, rfl, rfl,
      fun _ => rfl, fun _ => ?_⟩
    · exact (Run.vet_of_screen_ok sound).symm
    · exact Nat.lt_succ_self 1
    · simp [Ticket.asked, Phase.toGo, setPhase]
  | @count run t result here phase =>
    obtain ⟨submission, _⟩ := t
    obtain rfl : _ = Phase.ended result := phase
    refine ⟨_, .counted result, here, rfl, id, ?_, rfl, ?_, fun outcome => ?_, fun _ => ?_⟩
    · exact Nat.lt_succ_self 0
    · exact congrArg (· + 1) (Stats.runs_record f.stats (refusedAt result))
    · have law := Stats.tally_record f.stats (refusedAt result) outcome
      simpa [Phase.isCountedAs] using law
    · simp [Ticket.asked, Phase.toGo, setPhase]

end Floor
end SolidityVetting
