import SolidityVetting.Proofs.Gate.Slots
/-! # The first check that fails

Each check of a run is described by itself, as if it were the only one. The result of a run is then
settled by the first check that fails, and a run on which none fails gets its verdict.
-/

set_option autoImplicit false

namespace SolidityVetting

inductive Check where
  | sources
  | sourceScan
  | compilation
  | selection
  | runtimeCode
  | codeScan
  | creationCode

def Check.rank : Check → Nat
  | .sources => 0
  | .sourceScan => 1
  | .compilation => 2
  | .selection => 3
  | .runtimeCode => 4
  | .codeScan => 5
  | .creationCode => 6

theorem Check.rank_injective {check other : Check} (h : check.rank = other.rank) :
    check = other := by
  cases check <;> cases other <;> first | rfl | cases h

namespace Run

variable {s : Settings} {reply : Reply} {submission : Submission} {c : Compilation} {a : Artifact}
  {e : Refusal}

def sourceReport (s : Settings) (submission : Submission) : Report :=
  SourceScan.scan s.limits.largeSource (joinedText submission.sources)

/-- The check fails with this refusal, whatever becomes of the other checks. -/
inductive Fails (s : Settings) (reply : Reply) (submission : Submission) : Check → Refusal → Prop
    where
  | noSources (h : submission.sources.isEmpty = true) :
      Fails s reply submission .sources (.malformed "no source files were provided")
  | source (h : (sourceReport s submission).critical ≠ []) :
      Fails s reply submission .sourceScan (.source (sourceReport s submission).critical)
  | compiler {failure : CompileFailure} (answer : Answers s reply (.error failure)) :
      Fails s reply submission .compilation (.compile failure)
  | late {delay : Nat} {result : Except CompileFailure Compilation}
      (h : reply = .after delay result) (exceeds : s.compiler.timeout < delay) :
      Fails s reply submission .compilation (.timeout s.compiler.timeout)
  | silent (h : reply = .never) :
      Fails s reply submission .compilation (.timeout s.compiler.timeout)
  | absent {c : Compilation} {name : String} (answer : Answers s reply (.ok c))
      (named : submission.primary = some name) (h : ∀ a ∈ c.artifacts, a.name ≠ name) :
      Fails s reply submission .selection
        (.malformed ("contract " ++ name ++ " was not produced by compilation"))
  | withoutCode {c : Compilation} {name : String} {a : Artifact} (answer : Answers s reply (.ok c))
      (named : submission.primary = some name) (found : c.find? name = some a)
      (h : a.isDeployable = false) :
      Fails s reply submission .selection
        (.malformed ("contract " ++ name ++ " has no runtime bytecode"))
  | noneDeployable {c : Compilation} (answer : Answers s reply (.ok c))
      (unnamed : submission.primary = none) (h : ∀ a ∈ c.artifacts, a.isDeployable = false) :
      Fails s reply submission .selection (.compile .noContracts)
  | runtimeCode {c : Compilation} {a : Artifact} {fault : Hex.Error}
      (answer : Answers s reply (.ok c)) (chosen : Chosen c submission.primary a)
      (h : Hex.decode a.deployedCode = .error fault) :
      Fails s reply submission .runtimeCode (.malformed fault.message)
  | codeScan {c : Compilation} {a : Artifact} {code : List UInt8}
      (answer : Answers s reply (.ok c)) (chosen : Chosen c submission.primary a)
      (decoded : Hex.decode a.deployedCode = .ok code)
      (h : (s.codeScan.scan code).critical ≠ []) :
      Fails s reply submission .codeScan (.bytecode (s.codeScan.scan code).critical)
  | creationCode {c : Compilation} {a : Artifact} {fault : Hex.Error}
      (answer : Answers s reply (.ok c)) (chosen : Chosen c submission.primary a)
      (h : Hex.decode a.creationCode = .error fault) :
      Fails s reply submission .creationCode (.malformed fault.message)

def Clear (s : Settings) (reply : Reply) (submission : Submission) (rank : Nat) : Prop :=
  ∀ check e, check.rank < rank → ¬ Fails s reply submission check e

def FirstFailure (s : Settings) (reply : Reply) (submission : Submission) (e : Refusal) : Prop :=
  ∃ check, Fails s reply submission check e ∧ Clear s reply submission check.rank

theorem Clear.next (check : Check) (clear : Clear s reply submission check.rank)
    (passes : ∀ e, ¬ Fails s reply submission check e) :
    Clear s reply submission (check.rank + 1) := by
  intro other e before
  obtain lower | same := Nat.lt_succ_iff_lt_or_eq.1 before
  · exact clear other e lower
  · rw [Check.rank_injective same]
    exact passes e

theorem sources_fails_iff : Fails s reply submission .sources e ↔
    submission.sources.isEmpty = true ∧ .malformed "no source files were provided" = e := by
  constructor
  · intro h
    cases h with
    | noSources h => exact ⟨h, rfl⟩
  · rintro ⟨h, rfl⟩
    exact .noSources h

theorem sourceScan_fails_iff : Fails s reply submission .sourceScan e ↔
    (sourceReport s submission).passed = false ∧
      .source (sourceReport s submission).critical = e := by
  rw [← Bool.not_eq_true, Report.passed_iff]
  constructor
  · intro h
    cases h with
    | source h => exact ⟨h, rfl⟩
  · rintro ⟨h, rfl⟩
    exact .source h

theorem await_eq_error_iff : await s reply = .error e ↔ Fails s reply submission .compilation e := by
  constructor
  · intro h
    cases reply with
    | never =>
      cases h
      exact .silent rfl
    | after delay result =>
      unfold await at h
      dsimp only at h
      split at h
      · next exceeds =>
        cases h
        exact .late rfl exceeds
      next in_time =>
      cases result with
      | ok c => cases h
      | error failure =>
        cases h
        exact .compiler ⟨delay, rfl, Nat.not_lt.1 in_time⟩
  · intro h
    cases h with
    | compiler answer => exact await_of_answers answer
    | late h exceeds =>
      rw [h]
      exact if_pos exceeds
    | silent h => rw [h, await]

theorem select_eq_error_iff (answer : Answers s reply (.ok c)) :
    select c.artifacts submission.primary = .error e ↔ Fails s reply submission .selection e := by
  constructor
  · intro h
    cases request : submission.primary with
    | some name =>
      rw [request] at h
      unfold select at h
      dsimp only at h
      split at h
      · next missing =>
        cases h
        refine .absent answer request fun a mem same => ?_
        exact List.find?_eq_none.1 missing a mem (beq_iff_eq.2 same)
      next found here =>
      split at h
      · cases h
      · next bare =>
        cases h
        exact .withoutCode answer request here (eq_false_of_ne_true bare)
    | none =>
      rw [request] at h
      unfold select at h
      dsimp only at h
      split at h
      · cases h
      · next missing =>
        cases h
        refine .noneDeployable answer request fun a mem => ?_
        exact eq_false_of_ne_true (List.find?_eq_none.1 missing a mem)
  · intro h
    cases h with
    | absent answer' named h =>
      cases answer.unique answer'
      have missing : c.artifacts.find? (·.name == _) = none :=
        List.find?_eq_none.2 fun a mem same => h a mem (beq_iff_eq.1 same)
      simp only [select, named, missing]
    | withoutCode answer' named found h =>
      cases answer.unique answer'
      unfold Compilation.find? at found
      simp [select, named, found, h]
    | noneDeployable answer' unnamed h =>
      cases answer.unique answer'
      have missing : c.artifacts.find? (·.isDeployable) = none :=
        List.find?_eq_none.2 fun a mem => ne_true_of_eq_false (h a mem)
      simp only [select, unnamed, missing]

theorem decode_of_scanHex {scan : CodeScan} {text : String} {report : Report}
    (h : scan.scanHex text = .ok report) :
    ∃ code, Hex.decode text = .ok code ∧ scan.scan code = report := by
  unfold CodeScan.scanHex at h
  cases decoded : Hex.decode text with
  | error fault =>
    rw [decoded] at h
    cases h
  | ok code =>
    rw [decoded] at h
    cases h
    exact ⟨code, rfl, rfl⟩

theorem runtimeCode_eq_error_iff (answer : Answers s reply (.ok c))
    (chosen : Chosen c submission.primary a) :
    (s.codeScan.scanHex a.deployedCode).mapError Refusal.ofHexError = .error e ↔
      Fails s reply submission .runtimeCode e := by
  constructor
  · intro h
    unfold CodeScan.scanHex at h
    cases decoded : Hex.decode a.deployedCode with
    | ok code =>
      rw [decoded] at h
      cases h
    | error fault =>
      rw [decoded] at h
      cases h
      exact .runtimeCode answer chosen decoded
  · intro h
    cases h with
    | runtimeCode answer' chosen' undecodable =>
      cases answer.unique answer'
      cases chosen.unique chosen'
      rw [CodeScan.scanHex, undecodable]
      rfl

theorem codeScan_fails_iff (answer : Answers s reply (.ok c)) (chosen : Chosen c submission.primary a)
    {code : List UInt8} (decoded : Hex.decode a.deployedCode = .ok code) :
    Fails s reply submission .codeScan e ↔
      (s.codeScan.scan code).passed = false ∧ .bytecode (s.codeScan.scan code).critical = e := by
  rw [← Bool.not_eq_true, Report.passed_iff]
  constructor
  · intro h
    cases h with
    | codeScan answer' chosen' decoded' h =>
      cases answer.unique answer'
      cases chosen.unique chosen'
      cases decoded.symm.trans decoded'
      exact ⟨h, rfl⟩
  · rintro ⟨h, rfl⟩
    exact .codeScan answer chosen decoded h

theorem creationCode_eq_error_iff (answer : Answers s reply (.ok c))
    (chosen : Chosen c submission.primary a) :
    (Hex.decode a.creationCode).mapError Refusal.ofHexError = .error e ↔
      Fails s reply submission .creationCode e := by
  constructor
  · intro h
    cases decoded : Hex.decode a.creationCode with
    | ok code =>
      rw [decoded] at h
      cases h
    | error fault =>
      rw [decoded] at h
      cases h
      exact .creationCode answer chosen decoded
  · intro h
    cases h with
    | creationCode answer' chosen' undecodable =>
      cases answer.unique answer'
      cases chosen.unique chosen'
      rw [undecodable]
      rfl

def Decided {α : Type} (s : Settings) (reply : Reply) (submission : Submission)
    (result : Except Refusal α) : Prop :=
  (∀ e, result = .error e ↔ FirstFailure s reply submission e) ∧
    ((∃ v, result = .ok v) ↔ ∀ check e, ¬ Fails s reply submission check e)

theorem decided_error {α : Type} (check : Check) (clear : Clear s reply submission check.rank)
    (exact_e : ∀ e', e = e' ↔ Fails s reply submission check e') :
    Decided s reply submission (.error e : Except Refusal α) := by
  have fails := (exact_e e).1 rfl
  refine ⟨fun e' => ⟨fun same => ?_, fun first => ?_⟩, ⟨fun ok => ?_, fun passes => ?_⟩⟩
  · cases same
    exact ⟨check, fails, clear⟩
  · obtain ⟨other, fails', clear'⟩ := first
    -- of two different checks, the later one would not be the first to fail
    obtain lower | same | higher := Nat.lt_trichotomy other.rank check.rank
    · exact absurd fails' (clear other e' lower)
    · rw [Check.rank_injective same] at fails'
      rw [(exact_e e').2 fails']
    · exact absurd fails (clear' check e higher)
  · obtain ⟨v, ok⟩ := ok
    cases ok
  · exact absurd fails (passes check e)

theorem decided_bind {α β : Type} (check : Check) (clear : Clear s reply submission check.rank)
    {x : Except Refusal α} {next : α → Except Refusal β}
    (exact_x : ∀ e, x = .error e ↔ Fails s reply submission check e)
    (rest : ∀ a, x = .ok a → Clear s reply submission (check.rank + 1) →
      Decided s reply submission (next a)) :
    Decided s reply submission (x >>= next) := by
  cases x with
  | error e => exact decided_error check clear fun e' => Except.error.injEq e e' ▸ exact_x e'
  | ok a => exact rest a rfl (clear.next check fun e fails => nomatch (exact_x e).2 fails)

theorem decided_ok {α : Type} (v : α)
    (clear : Clear s reply submission (Check.creationCode.rank + 1)) :
    Decided s reply submission (.ok v : Except Refusal α) := by
  have passes (check : Check) (e : Refusal) : ¬ Fails s reply submission check e := by
    refine clear check e ?_
    cases check <;> decide
  refine ⟨fun e => ⟨(nomatch ·), fun first => ?_⟩, fun _ => passes, fun _ => ⟨v, rfl⟩⟩
  obtain ⟨check, fails, -⟩ := first
  exact absurd fails (passes check e)

theorem decided_judge {a : Admitted} (here : a.submission = submission)
    (answer : Answers s reply (.ok c)) (clear : Clear s reply submission Check.selection.rank) :
    Decided s reply submission (judge s a c) := by
  unfold judge
  rw [here]
  refine decided_bind .selection clear (fun _ => select_eq_error_iff answer)
    fun primary selected clear => ?_
  have chosen := select_eq_ok_iff.1 selected
  refine decided_bind .runtimeCode clear (fun _ => runtimeCode_eq_error_iff answer chosen)
    fun report scanned clear => ?_
  obtain ⟨code, decoded, rfl⟩ := decode_of_scanHex (ok_of_mapError scanned)
  have code_scan (e : Refusal) := codeScan_fails_iff (e := e) answer chosen decoded
  dsimp only
  split
  · next found =>
    rw [Bool.not_eq_true'] at found
    refine decided_error .codeScan clear fun e => ?_
    rw [code_scan, found, eq_self, true_and]
  next clean =>
  rw [Bool.not_eq_true', Bool.not_eq_false] at clean
  have clear := clear.next .codeScan fun e fails => by
    rw [code_scan, clean] at fails
    cases fails.1
  exact decided_bind .creationCode clear (fun _ => creationCode_eq_error_iff answer chosen)
    fun creation _ clear => decided_ok _ clear

theorem decided_vet (s : Settings) (compiler : Compiler) (submission : Submission) :
    Decided s (compiler (s.request submission.sources)) submission (vet s compiler submission) := by
  have clear : Clear s (compiler (s.request submission.sources)) submission Check.sources.rank :=
    fun check e before => absurd before (Nat.not_lt_zero _)
  unfold vet screen
  split
  · next empty =>
    refine decided_error .sources clear fun e => ?_
    rw [sources_fails_iff, empty, eq_self, true_and]
  next filled =>
  have clear := clear.next .sources fun e fails => filled (sources_fails_iff.1 fails).1
  dsimp only
  split
  · next passed =>
    have clear := clear.next .sourceScan fun e fails => by
      have failed := (sourceScan_fails_iff.1 fails).1
      exact absurd (passed.symm.trans failed) (by decide)
    change Decided s _ submission (conclude s compiler _)
    exact decided_bind .compilation clear (fun _ => await_eq_error_iff) fun c awaited clear =>
      decided_judge rfl (await_eq_ok_iff.1 awaited) clear
  · next failed =>
    have failed : (sourceReport s submission).passed = false := eq_false_of_ne_true failed
    refine decided_error .sourceScan clear fun e => ?_
    rw [sourceScan_fails_iff, failed, eq_self, true_and]
    rfl

theorem isAdmitted_iff (s : Settings) (reply : Reply) (submission : Submission) :
    isAdmitted s submission = true ↔ Clear s reply submission Check.compilation.rank := by
  have first_two : isAdmitted s submission = true ↔
      submission.sources.isEmpty = false ∧ (sourceReport s submission).passed = true := by
    rw [isAdmitted, Bool.and_eq_true, Bool.not_eq_true', sourceReport]
  rw [first_two]
  constructor
  · rintro ⟨filled, passed⟩ check e before fails
    cases check with
    | sources =>
      rw [sources_fails_iff, filled] at fails
      cases fails.1
    | sourceScan =>
      rw [sourceScan_fails_iff, passed] at fails
      cases fails.1
    | _ => exact absurd before (by decide)
  · intro clear
    constructor
    · refine eq_false_of_ne_true fun empty => ?_
      exact clear .sources _ (by decide) (sources_fails_iff.2 ⟨empty, rfl⟩)
    · refine Bool.of_not_eq_false fun failed => ?_
      exact clear .sourceScan _ (by decide) (sourceScan_fails_iff.2 ⟨failed, rfl⟩)

end Run

variable {s : Settings} {compilers : Nat → Compiler} {submissions : List Submission}
  {first f : Floor}

theorem Ticket.asked_of_fresh {t : Ticket} (h : t.phase = .fresh) : t.asked s = [] := by
  rw [asked, h]
  simp [Phase.toGo]

theorem Floor.requests_of_reached (h : Reached s compilers first f)
    (fresh : ∀ t ∈ first.tickets, t.phase = .fresh) (unasked : first.requests = []) :
    f.requests.Perm (f.tickets.flatMap (·.asked s)) := by
  induction h with
  | here =>
    rw [unasked, List.flatMap_eq_nil_iff.2 fun t mem => Ticket.asked_of_fresh (fresh t mem)]
  | @move f f' m before moved ih =>
    obtain ⟨t, phase, advance⟩ := (step_of_step? moved).advances
    have sound := sound_of_reached before fresh advance.here
    have exchanged := advance.perm.flatMap_right (Ticket.asked s)
    rw [List.flatMap_cons, List.flatMap_cons] at exchanged
    rw [← List.perm_append_left_iff (t.asked s), advance.requests sound]
    exact (ih.append_left _).trans exchanged.symm

theorem flatMap_asked_of_counted (tickets : List Ticket)
    (all : ∀ t ∈ tickets, ∃ result, t.phase = .counted result) :
    tickets.flatMap (·.asked s) = ((tickets.map (·.submission)).filter (Run.isAdmitted s)).map
      fun submission => s.request submission.sources := by
  induction tickets with
  | nil => rfl
  | cons t rest ih =>
    obtain ⟨result, counted⟩ := all t List.mem_cons_self
    rw [List.flatMap_cons, List.map_cons, List.filter_cons, Ticket.asked, counted,
      ih fun t' mem => all t' (List.mem_cons_of_mem t mem)]
    cases Run.isAdmitted s t.submission <;> rfl

namespace Gate

/-- Whatever the compilers do and however the runs are interleaved, each run that has ended was
decided by its first failing check. The compiler is asked once for each run that no check in front of
the compilation refuses, when that run gets its slot, and for no other. -/
theorem first_failure_decides {g : Gate} (opened : Gate.open s = .ok g)
    (submissions : List Submission) (compilers : Nat → Compiler) {f : Floor}
    (reached : Floor.Reached s compilers (g.floor submissions) f) :
    (∀ run t result, f.tickets[run]? = some t → t.phase.result? = some result →
      Run.Decided s (compilers run (s.request t.submission.sources)) t.submission result) ∧
    f.requests.Perm (f.tickets.flatMap (·.asked s)) ∧
    ((∀ t ∈ f.tickets, ∃ result, t.phase = .counted result) →
      f.requests.Perm ((submissions.filter (Run.isAdmitted s)).map
        fun submission => s.request submission.sources)) ∧
    (∀ submission reply, Run.isAdmitted s submission = true ↔
      Run.Clear s reply submission Check.compilation.rank) ∧
    ∃ f', Floor.Reached s compilers f f' ∧
      ∀ t ∈ f'.tickets, ∃ result, t.phase = .counted result := by
  obtain ⟨rfl, room⟩ := open_eq_ok opened
  have requests := Floor.requests_of_reached reached (Floor.fresh_of_mem_floor _ submissions) rfl
  refine ⟨?_, requests, fun all => ?_, fun submission reply => Run.isAdmitted_iff s reply submission,
    Floor.exists_reached_counted f ?_⟩
  · intro run t result here ended
    rw [Floor.result_of_reached reached here ended]
    exact Run.decided_vet s (compilers run) t.submission
  · rw [flatMap_asked_of_counted f.tickets all, Floor.submissions_of_reached reached] at requests
    simpa [Gate.floor, Function.comp_def] using requests
  · rw [Floor.slots_of_reached reached]
    exact Nat.add_pos_left room _

theorem first_failure_decides_two :
    let compilers : Nat → Compiler := fun run => if run = 0 then fun _ => .never else coinCompiler
    let empty : Submission := { sources := .ofList [] }
    let refusal : Refusal := .malformed "no source files were provided"
    Gate.open {} = .ok { settings := {} } ∧
    ∃ f, Floor.Reached {} compilers (floor { settings := {} } [empty, coinSubmission]) f ∧
      Run.Fails {} .never empty .compilation (.timeout 60000) ∧
      Run.FirstFailure {} .never empty refusal ∧
      (∀ check e, ¬ Run.Fails {} (coinCompiler (Settings.request {} coinSubmission.sources))
        coinSubmission check e) ∧
      f.requests.length = 1 := by
  intro compilers empty refusal
  have opened : Gate.open {} = .ok { settings := {} } := open_of_faultless (by decide) (by decide)
  have refused : Run.screen {} empty = .error refusal := rfl
  obtain ⟨a, screened⟩ := coin_screened {}
  obtain ⟨v, concluded⟩ :=
    coin_concluded a (congrArg Admitted.submission (Run.screen_eq_ok screened).1)
  have reached : Floor.Reached {} compilers (floor { settings := {} } [empty, coinSubmission])
      (floor { settings := {} } [empty, coinSubmission]) := .here
  have reached := reached.step (.start 0) (.refuse rfl rfl refused)
  have reached := reached.step (.start 1) (.enter rfl rfl screened)
  have reached := reached.step (.takeSlot 1) (.takeSlot rfl rfl rfl)
  have reached := reached.step (.finish 1) (.finish rfl rfl)
  obtain ⟨decided, -⟩ :=
    first_failure_decides opened [empty, coinSubmission] compilers reached
  obtain ⟨first, -⟩ := decided 0 ⟨empty, .ended (.error refusal)⟩ _ rfl rfl
  obtain ⟨-, passes⟩ := decided 1 ⟨coinSubmission, .ended (Run.conclude {} coinCompiler a)⟩ _ rfl rfl
  exact ⟨opened, _, reached, .silent rfl, (first refusal).1 rfl, passes.1 ⟨v, concluded⟩, rfl⟩

end Gate
end SolidityVetting
