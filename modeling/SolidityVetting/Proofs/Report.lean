import SolidityVetting.Report

set_option autoImplicit false

namespace SolidityVetting.Report

def ofSeverity (severity : Severity) (fs : List Finding) : List Finding :=
  fs.filter (·.severity == severity)

theorem mem_ofSeverity {severity : Severity} {fs : List Finding} {f : Finding} :
    f ∈ ofSeverity severity fs ↔ f ∈ fs ∧ f.severity = severity := by
  simp [ofSeverity]

theorem ofSeverity_append (severity : Severity) (fs gs : List Finding) :
    ofSeverity severity (fs ++ gs) = ofSeverity severity fs ++ ofSeverity severity gs :=
  List.filter_append ..

theorem pushAll_eq (r : Report) (fs : List Finding) :
    r.pushAll fs = { r with
      critical := r.critical ++ ofSeverity .critical fs
      warnings := r.warnings ++ ofSeverity .warning fs
      info := r.info ++ ofSeverity .info fs } := by
  induction fs generalizing r with
  | nil => simp [pushAll, ofSeverity]
  | cons f rest ih =>
    change (r.push f).pushAll rest = _
    rw [ih]
    cases h : f.severity <;> simp [push, ofSeverity, h]

theorem ofFindings_eq (subject : Subject) (fs : List Finding) :
    ofFindings subject fs =
      ⟨subject, ofSeverity .critical fs, ofSeverity .warning fs, ofSeverity .info fs⟩ := by
  rw [ofFindings, pushAll_eq]
  simp

theorem mem_findings_push (r : Report) (f g : Finding) :
    g ∈ (r.push f).findings ↔ g ∈ r.findings ∨ g = f := by
  unfold push findings
  cases f.severity <;> simp [or_comm, or_left_comm]

theorem critical_push (r : Report) (f : Finding) :
    (r.push f).critical = r.critical ++ ofSeverity .critical [f] := by
  unfold push ofSeverity
  cases h : f.severity <;> simp [h]

theorem hasCode_iff (r : Report) (code : String) :
    r.hasCode code = true ↔ ∃ f ∈ r.findings, f.code = code := by
  simp [hasCode]

def withCode (r : Report) (code : String) : List Finding := r.findings.filter (·.code == code)

theorem withCode_pushAll {r : Report} {code : String} (new : r.withCode code = [])
    {fs : List Finding} (h : ∀ f ∈ fs, f.code = code → f.severity = .critical) :
    (r.pushAll fs).withCode code = fs.filter (·.code == code) := by
  have kept : (ofSeverity .critical fs).filter (·.code == code) = fs.filter (·.code == code) := by
    rw [ofSeverity, List.filter_filter]
    refine List.filter_congr fun f hf => ?_
    by_cases hc : f.code = code
    · rw [h f hf hc, hc]
      simp
    · simp [hc]
  have other {severity : Severity} (hs : severity ≠ .critical) :
      (ofSeverity severity fs).filter (·.code == code) = [] := by
    refine List.filter_eq_nil_iff.2 fun f hf hc => hs ?_
    obtain ⟨mem, same⟩ := List.mem_filter.1 hf
    rw [← h f mem (beq_iff_eq.1 hc), beq_iff_eq.1 same]
  have warning := other (by decide : Severity.warning ≠ .critical)
  have info := other (by decide : Severity.info ≠ .critical)
  unfold withCode findings at new ⊢
  rw [List.filter_append, List.filter_append, List.append_eq_nil_iff, List.append_eq_nil_iff] at new
  rw [pushAll_eq]
  simp only [List.filter_append, new, kept, warning, info, List.nil_append, List.append_nil]

theorem perm_findings_push (r : Report) (f : Finding) :
    (r.push f).findings.Perm (f :: r.findings) := by
  unfold push findings
  cases f.severity with
  | critical => simp
  | warning =>
    have middle : (r.critical ++ r.warnings ++ f :: r.info).Perm
        (f :: (r.critical ++ r.warnings ++ r.info)) := List.perm_middle
    simpa using middle
  | info =>
    have last := List.perm_append_singleton f (r.critical ++ r.warnings ++ r.info)
    simpa using last

theorem perm_findings_pushAll (r : Report) (fs : List Finding) :
    (r.pushAll fs).findings.Perm (r.findings ++ fs) := by
  induction fs generalizing r with
  | nil => simp [pushAll]
  | cons f rest ih =>
    have first := (perm_findings_push r f).append_right rest
    exact (ih (r.push f)).trans (first.trans List.perm_middle.symm)

theorem perm_findings_ofFindings (subject : Subject) (fs : List Finding) :
    (ofFindings subject fs).findings.Perm fs := perm_findings_pushAll { subject } fs

def listed (r : Report) : Severity → List Finding
  | .critical => r.critical
  | .warning => r.warnings
  | .info => r.info

theorem listed_ofFindings (subject : Subject) (fs : List Finding) (severity : Severity) :
    (ofFindings subject fs).listed severity = ofSeverity severity fs := by
  rw [ofFindings_eq]
  cases severity <;> rfl

theorem filter_findings_ofFindings (subject : Subject) (keeps : Finding → Bool)
    (fs : List Finding) : (ofFindings subject fs).findings.filter keeps =
      (ofFindings subject (fs.filter keeps)).findings := by
  have commutes (severity : Severity) : (ofSeverity severity fs).filter keeps =
      ofSeverity severity (fs.filter keeps) := by
    simp only [ofSeverity, List.filter_filter, Bool.and_comm]
  simp only [ofFindings_eq, findings, List.filter_append, commutes]

theorem passed_iff (r : Report) : r.passed = true ↔ r.critical = [] := List.isEmpty_iff

theorem passed_eq_false_of_critical {r : Report} {f : Finding} (h : f ∈ r.critical) :
    r.passed = false := by
  rw [← Bool.not_eq_true, passed_iff]
  exact List.ne_nil_of_mem h

end SolidityVetting.Report
