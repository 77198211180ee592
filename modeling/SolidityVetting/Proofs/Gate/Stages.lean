import SolidityVetting.Gate.Run
import SolidityVetting.Proofs.NameMap

set_option autoImplicit false

namespace SolidityVetting.Run

theorem ok_of_bind {ε α β : Type} {x : Except ε α} {next : α → Except ε β} {b : β}
    (h : x >>= next = .ok b) : ∃ a, x = .ok a ∧ next a = .ok b := by
  cases x with
  | error e => cases h
  | ok a => exact ⟨a, rfl, h⟩

theorem ok_of_mapError {ε δ α : Type} {x : Except ε α} {f : ε → δ} {a : α}
    (h : x.mapError f = .ok a) : x = .ok a := by
  cases x with
  | error e => cases h
  | ok b =>
    cases h
    rfl

/-- The texts of all files, in the order of the names and with a line feed between any two. -/
theorem joinedText_of_lists {sources : Sources} {files : List (String × String)}
    (h : sources.Lists files) : joinedText sources = "\n".intercalate (files.map (·.2)) := by
  rw [(sources.lists_iff files).1 h]
  rfl

variable {s : Settings} {compiler : Compiler} {submission : Submission} {reply : Reply}
  {c : Compilation} {a : Artifact}

theorem screen_eq_ok {a : Admitted} (h : screen s submission = .ok a) :
    a = ⟨submission, joinedText submission.sources,
        SourceScan.scan s.limits.largeSource (joinedText submission.sources)⟩ ∧
      a.report.passed = true := by
  unfold screen at h
  split at h
  · cases h
  dsimp only at h
  split at h
  · next passed =>
    cases h
    exact ⟨rfl, passed⟩
  · cases h

def isAdmitted (s : Settings) (submission : Submission) : Bool :=
  ! submission.sources.isEmpty &&
    (SourceScan.scan s.limits.largeSource (joinedText submission.sources)).passed

theorem isAdmitted_eq (s : Settings) (submission : Submission) :
    isAdmitted s submission = (screen s submission).isOk := by
  unfold isAdmitted screen
  cases submission.sources.isEmpty with
  | true => rfl
  | false =>
    cases passed :
      (SourceScan.scan s.limits.largeSource (joinedText submission.sources)).passed with
    | true =>
      rw [if_neg (by decide), if_pos passed]
      rfl
    | false =>
      rw [if_neg (by decide), if_neg (by rw [passed]; decide)]
      rfl

theorem vet_of_screen_ok {a : Admitted} (h : screen s submission = .ok a) :
    vet s compiler submission = conclude s compiler a := by
  rw [vet, h]
  rfl

theorem vet_of_screen_error {e : Refusal} (h : screen s submission = .error e) :
    vet s compiler submission = .error e := by
  rw [vet, h]
  rfl

def Answers (s : Settings) (reply : Reply) (result : Except CompileFailure Compilation) : Prop :=
  ∃ delay, reply = .after delay result ∧ delay ≤ s.compiler.timeout

theorem Answers.unique {result other : Except CompileFailure Compilation}
    (h : Answers s reply result) (h' : Answers s reply other) : result = other := by
  obtain ⟨delay, rfl, -⟩ := h
  obtain ⟨delay', same, -⟩ := h'
  cases same
  rfl

theorem await_of_answers {result : Except CompileFailure Compilation}
    (h : Answers s reply result) : await s reply = result.mapError .compile := by
  obtain ⟨delay, rfl, in_time⟩ := h
  exact if_neg (Nat.not_lt.2 in_time)

theorem await_eq_ok_iff : await s reply = .ok c ↔ Answers s reply (.ok c) := by
  constructor
  · intro h
    cases reply with
    | never => cases h
    | after delay result =>
      unfold await at h
      dsimp only at h
      split at h
      · cases h
      next in_time =>
      exact ⟨delay, by rw [ok_of_mapError h], Nat.not_lt.1 in_time⟩
  · exact await_of_answers

/-- The contract to deploy among those of a compilation. -/
inductive Chosen (c : Compilation) : Option String → Artifact → Prop where
  | named {name : String} {a : Artifact} (found : c.find? name = some a)
      (deployable : a.isDeployable = true) : Chosen c (some name) a
  | first {a : Artifact} (found : c.primary? = some a) : Chosen c none a

theorem select_eq_ok_iff {request : Option String} :
    select c.artifacts request = .ok a ↔ Chosen c request a := by
  constructor
  · intro h
    cases request with
    | some name =>
      unfold select at h
      dsimp only at h
      split at h
      · cases h
      next found here =>
      split at h
      · next deployable =>
        cases h
        exact .named here deployable
      · cases h
    | none =>
      unfold select at h
      dsimp only at h
      split at h
      · next found here =>
        cases h
        exact .first here
      · cases h
  · intro h
    cases h with
    | named found deployable =>
      unfold Compilation.find? at found
      simp only [select, found, deployable, if_true]
    | first found =>
      unfold Compilation.primary? at found
      simp only [select, found]

theorem Chosen.unique {request : Option String} {a' : Artifact} (h : Chosen c request a)
    (h' : Chosen c request a') : a = a' := by
  have selected := select_eq_ok_iff.2 h
  rw [select_eq_ok_iff.2 h'] at selected
  cases selected
  rfl

end SolidityVetting.Run
