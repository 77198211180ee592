import SolidityVetting.Proofs.Report

set_option autoImplicit false

namespace SolidityVetting

namespace Score

def clamped (critical warnings info : Nat) : Int :=
  max 0 (min 100 (100 - 50 * critical - 10 * warnings - 2 * info))

theorem toNat_saturate (n : Nat) : (saturate n).toNat = min n (UInt64.size - 1) := by
  have fits : min n (UInt64.size - 1) < UInt64.size := by
    have some_word : 0 < UInt64.size := by decide
    omega
  exact UInt64.toNat_ofNat_of_lt' fits

/-- However often the sum is cut off, it is what the true sum is cut off to. -/
theorem toNat_penalty (critical warnings info : UInt64) :
    (penalty critical warnings info).toNat =
      min (50 * critical.toNat + 10 * warnings.toNat + 2 * info.toNat) (UInt64.size - 1) := by
  simp only [penalty, List.foldl_cons, List.foldl_nil, toNat_saturate, criticalPenalty,
    warningPenalty, infoPenalty, UInt64.toNat_zero]
  omega

theorem toNat_ofCounts (critical warnings info : UInt64) :
    ((ofCounts critical warnings info).toNat : Int) =
      clamped critical.toNat warnings.toNat info.toNat := by
  have fits : 100 - (penalty critical warnings info).toNat < UInt8.size :=
    Nat.lt_of_le_of_lt (Nat.sub_le ..) (by decide)
  have room : 100 ≤ UInt64.size - 1 := by decide
  rw [ofCounts, UInt8.toNat_ofNat_of_lt' fits, toNat_penalty, clamped]
  omega

theorem clamped_le_of_critical {critical : Nat} (some_critical : 0 < critical) (warnings info : Nat) :
    clamped critical warnings info ≤ 50 := by
  unfold clamped
  omega

end Score

namespace Report

def Countable (r : Report) : Prop := ∀ severity, (r.listed severity).length < UInt64.size

def exactScore (r : Report) : Int :=
  Score.clamped r.critical.length r.warnings.length r.info.length

variable {r : Report} {code : String} {f : Finding}

theorem score_eq (h : r.Countable) : (r.score.toNat : Int) = r.exactScore := by
  have critical : r.critical.length < UInt64.size := h .critical
  have warnings : r.warnings.length < UInt64.size := h .warning
  have info : r.info.length < UInt64.size := h .info
  rw [score, Score.toNat_ofCounts, UInt64.toNat_ofNat_of_lt' critical,
    UInt64.toNat_ofNat_of_lt' warnings, UInt64.toNat_ofNat_of_lt' info, exactScore]

theorem score_le_of_failed (h : r.Countable) (failed : r.passed = false) : r.score.toNat ≤ 50 := by
  have some_critical : r.critical ≠ [] := by
    intro none
    rw [(passed_iff r).2 none] at failed
    cases failed
  have low := Score.clamped_le_of_critical (List.length_pos_iff.2 some_critical)
    r.warnings.length r.info.length
  have same := score_eq h
  rw [exactScore] at same
  omega

theorem hasCode_iff_find? : r.hasCode code = true ↔ (r.find? code).isSome = true := by
  rw [hasCode, List.any_eq_true, find?, List.find?_isSome]

/-- The first of these findings that bears the code. -/
def IsFirst (fs : List Finding) (code : String) (f : Finding) : Prop :=
  f.code = code ∧ ∃ before after, fs = before ++ f :: after ∧ ∀ other ∈ before, other.code ≠ code

theorem find?_eq_some_iff : r.find? code = some f ↔ IsFirst r.findings code f := by
  rw [find?, List.find?_eq_some_iff_append, IsFirst]
  simp

/-- The report is what the findings make it, in the order in which they were made. -/
structure MadeFrom (fs : List Finding) (r : Report) : Prop where
  listed : ∀ severity, r.listed severity = ofSeverity severity fs
  passed : r.passed = true ↔ ∀ f ∈ fs, f.severity ≠ .critical
  known : ∀ code, r.hasCode code = true ↔ ∃ f ∈ fs, f.code = code
  found : ∀ code, r.hasCode code = true ↔ (r.find? code).isSome = true
  first : ∀ code f, r.find? code = some f ↔
    IsFirst (ofSeverity .critical fs ++ ofSeverity .warning fs ++ ofSeverity .info fs) code f
  scored : r.Countable → (r.score.toNat : Int) = r.exactScore
  failed : r.Countable → r.passed = false → r.score.toNat ≤ 50

/-- A report is made from the findings that were pushed, and no count that a word can hold makes its
score differ from the exact one. -/
theorem madeFrom_ofFindings (subject : Subject) (fs : List Finding) :
    (ofFindings subject fs).MadeFrom fs ∧ ∀ critical warnings info : UInt64,
      ((Score.ofCounts critical warnings info).toNat : Int) =
        Score.clamped critical.toNat warnings.toNat info.toNat := by
  refine ⟨?_, Score.toNat_ofCounts⟩
  have perm := perm_findings_ofFindings subject fs
  constructor
  case listed => exact listed_ofFindings subject fs
  case passed =>
    rw [passed_iff, ofFindings_eq]
    exact List.filter_eq_nil_iff.trans (by simp)
  case known =>
    intro code
    rw [hasCode_iff]
    simp only [perm.mem_iff]
  case found => exact fun code => hasCode_iff_find?
  case first =>
    intro code f
    rw [find?_eq_some_iff, findings, ofFindings_eq]
  case scored => exact score_eq
  case failed => exact score_le_of_failed

theorem madeFrom_ofFindings_twice :
    let note : Finding := ⟨.info, "A", "a note", none, none⟩
    let warning : Finding := ⟨.warning, "A", "a warning", some 3, none⟩
    let bad : Finding := ⟨.critical, "B", "critical", none, some 7⟩
    let r := ofFindings .source [note, bad, warning]
    r.Countable ∧ r.passed = false ∧ r.find? "A" = some warning ∧ r.exactScore = 38 ∧
      (r.score.toNat : Int) = 38 := by
  intro note warning bad r
  have made := (madeFrom_ofFindings .source [note, bad, warning]).1
  have countable : r.Countable := fun severity => by cases severity <;> decide
  have first : IsFirst [bad, warning, note] "A" warning := ⟨rfl, [bad], [note], rfl, by decide⟩
  exact ⟨countable, by decide, (made.first "A" warning).2 first, by decide, made.scored countable⟩

end Report
end SolidityVetting
