import Mathlib.Data.List.Perm.Basic
import SolidityVetting.Proofs.Gate.Steps
/-! # Floors that runs lead to

Every run has a compiler of its own here, so that two runs may be answered differently even where
they ask for the same; nothing is said about the order of their moves. A move exchanges one ticket
for another, and a number that follows the phase of that ticket follows a count over all of them.
-/

set_option autoImplicit false

namespace SolidityVetting

namespace Gate

variable {s : Settings}

theorem open_eq_ok {g : Gate} (h : Gate.open s = .ok g) :
    g = { settings := s } ∧ 0 < s.limits.slots := by
  unfold Gate.open Settings.check at h
  split at h
  · cases h
  next sound =>
  split at h
  · cases h
  cases h
  refine ⟨rfl, Nat.pos_of_ne_zero fun none_free => ?_⟩
  split at sound
  · cases sound
  next faultless =>
  rw [List.head?_eq_none_iff] at faultless
  simp [Settings.faults, none_free] at faultless

theorem open_of_faultless (faultless : s.faults = []) (few : s.limits.slots ≤ maxSlots) :
    Gate.open s = .ok { settings := s } := by
  unfold Gate.open Settings.check
  rw [faultless]
  exact if_neg (Nat.not_lt.2 few)

end Gate

namespace Floor

variable {s : Settings} {compilers : Nat → Compiler} {compiler : Compiler} {first f f' : Floor}
  {run : Nat} {t : Ticket} {phase : Phase}

inductive Reached (s : Settings) (compilers : Nat → Compiler) (first : Floor) : Floor → Prop where
  | here : Reached s compilers first first
  | move {f f' : Floor} {m : Move} (before : Reached s compilers first f)
      (moved : f.step? s (compilers m.run) m = some f') : Reached s compilers first f'

theorem Reached.step (h : Reached s compilers first f) (m : Move)
    (step : Step s (compilers m.run) f m f') : Reached s compilers first f' :=
  .move h (step?_of_step step)

theorem Reached.trans (h : Reached s compilers first f) (further : Reached s compilers f f') :
    Reached s compilers first f' := by
  induction further with
  | here => exact h
  | move _ moved ih => exact .move ih moved

theorem reached_of_mem_trace (moves : List Move) (h : f ∈ first.trace s compiler moves) :
    Reached s (fun _ => compiler) first f := by
  have keeps : ∀ f m f', Reached s (fun _ => compiler) first f → Step s compiler f m f' →
      Reached s (fun _ => compiler) first f' :=
    fun _ m _ before step => before.step m step
  exact forall_mem_trace keeps .here moves f h

theorem Advance.perm (h : Advance s compiler f f' run t phase) :
    (t :: f'.tickets).Perm ({ t with phase } :: f.tickets) := by
  obtain ⟨inside, rfl⟩ := List.getElem?_eq_some_iff.1 h.here
  have put_in := List.set_perm_cons_eraseIdx inside { f.tickets[run] with phase }
  have taken_out := List.getElem_cons_eraseIdx_perm inside
  rw [h.tickets]
  exact (put_in.cons _).trans ((List.Perm.swap _ _ _).trans (taken_out.cons _))

theorem Advance.countP (h : Advance s compiler f f' run t phase) (counts : Ticket → Bool) :
    f'.tickets.countP counts + (if counts t then 1 else 0) =
      f.tickets.countP counts + if counts { t with phase } then 1 else 0 := by
  have same := h.perm.countP_eq counts
  rwa [List.countP_cons, List.countP_cons] at same

theorem Advance.submissions (h : Advance s compiler f f' run t phase) :
    f'.tickets.map (·.submission) = f.tickets.map (·.submission) := by
  obtain ⟨inside, rfl⟩ := List.getElem?_eq_some_iff.1 h.here
  have inside' : run < (f.tickets.map (·.submission)).length := by simpa using inside
  have kept : f.tickets[run].submission = (f.tickets.map (·.submission))[run] := by simp
  rw [h.tickets, List.map_set, kept, List.set_getElem_self inside']

theorem Advance.ticket (h : Advance s compiler f f' run t phase) {other : Nat} {t' : Ticket}
    (there : f'.tickets[other]? = some t') :
    f.tickets[other]? = some t' ∨ other = run ∧ t' = { t with phase } := by
  obtain ⟨inside, -⟩ := List.getElem?_eq_some_iff.1 h.here
  rw [h.tickets] at there
  by_cases same : run = other
  · subst same
    rw [List.getElem?_set_self inside] at there
    cases there
    exact .inr ⟨rfl, rfl⟩
  · rw [List.getElem?_set_ne same] at there
    exact .inl there

theorem submissions_of_reached (h : Reached s compilers first f) :
    f.tickets.map (·.submission) = first.tickets.map (·.submission) := by
  induction h with
  | here => rfl
  | move _ moved ih =>
    obtain ⟨t, phase, advance⟩ := (step_of_step? moved).advances
    rw [advance.submissions, ih]

/-- A number that each move changes as a count over the tickets does, differs from it by the same
amount for ever. -/
theorem number_of_reached (number : Floor → Nat) (counts : Ticket → Bool)
    (law : ∀ {compiler f f' run t phase}, Advance s compiler f f' run t phase →
      number f' + (if counts t then 1 else 0) =
        number f + if counts { t with phase } then 1 else 0)
    (h : Reached s compilers first f) :
    number f + first.tickets.countP counts = number first + f.tickets.countP counts := by
  induction h with
  | here => rfl
  | move _ moved ih =>
    obtain ⟨t, phase, advance⟩ := (step_of_step? moved).advances
    have numbers := law advance
    have count := advance.countP counts
    omega

/-- However moves follow one another, every run is in a phase that its submission and its own
compiler lead to. -/
theorem sound_of_reached (h : Reached s compilers first f)
    (fresh : ∀ t ∈ first.tickets, t.phase = .fresh) (here : f.tickets[run]? = some t) :
    Sound s (compilers run) t.submission t.phase := by
  induction h generalizing run t with
  | here =>
    rw [fresh t (List.mem_of_getElem? here)]
    trivial
  | move _ moved ih =>
    obtain ⟨t₀, phase, advance⟩ := (step_of_step? moved).advances
    obtain before | ⟨rfl, rfl⟩ := advance.ticket here
    · exact ih before
    · exact advance.sound (ih advance.here)

theorem fresh_of_mem_floor (g : Gate) (submissions : List Submission) :
    ∀ t ∈ (g.floor submissions).tickets, t.phase = .fresh := by
  intro t mem
  obtain ⟨submission, -, rfl⟩ := List.mem_map.1 mem
  rfl

theorem result_of_reached {g : Gate} {submissions : List Submission}
    (h : Reached s compilers (g.floor submissions) f) (here : f.tickets[run]? = some t)
    {result : Except Refusal Verdict} (ended : t.phase.result? = some result) :
    result = Run.vet s (compilers run) t.submission :=
  (sound_of_reached h (fresh_of_mem_floor g submissions) here).result_eq ended

theorem result_eq_vet (g : Gate) (submissions : List Submission) (moves : List Move) {f : Floor}
    (hf : f ∈ (g.floor submissions).trace s compiler moves) {t : Ticket} (ht : t ∈ f.tickets)
    {result : Except Refusal Verdict} (h : t.phase.result? = some result) :
    result = Run.vet s compiler t.submission := by
  obtain ⟨run, here⟩ := List.mem_iff_getElem?.1 ht
  exact result_of_reached (reached_of_mem_trace moves hf) here h

end Floor
end SolidityVetting
