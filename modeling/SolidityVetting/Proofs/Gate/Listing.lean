import SolidityVetting.Proofs.Code.Scan
import SolidityVetting.Proofs.Gate.Checks
import SolidityVetting.Proofs.Gate.Verdict
import SolidityVetting.Proofs.Source.Joined
import SolidityVetting.Proofs.Source.Wording
import SolidityVetting.Proofs.Text.Pieces
/-! # What a refusal lists

The text of a refusal for findings has the lines of the findings, one finding after another. What a
scan of bytecode finds takes one line each. So does what a scan of sources finds, unless a pragma
that cannot be read has a constraint which goes over lines: that one is quoted as it is written.
-/

set_option autoImplicit false

namespace SolidityVetting

/-- The lines that the finding takes in the text of a refusal. -/
def Finding.lines (f : Finding) : List (List Char) := Text.pieces (· == '\n') f.text.toList

theorem Finding.lines_eq_singleton_iff (f : Finding) :
    f.lines = [f.text.toList] ↔ OneLine f.text := by
  constructor
  · intro alone feed
    have mem : f.text.toList ∈ f.lines := by rw [alone]; exact List.mem_singleton_self _
    simpa using Text.free_of_mem_pieces mem '\n' feed
  · intro one
    refine Text.pieces_of_free fun c mem => ?_
    rw [beq_eq_false_iff_ne]
    rintro rfl
    exact one mem

namespace Refusal

def lines (r : Refusal) : List (List Char) := Text.pieces (· == '\n') r.message.toList

/-- The text has one line for each finding, in order: its code and its message. -/
def Lists (r : Refusal) (findings : List Finding) : Prop :=
  r.lines = findings.map fun f => (f.code ++ ": " ++ f.message).toList

variable {r : Refusal} {findings : List Finding}

theorem lines_eq_flatMap (joined : r.message = "\n".intercalate (findings.map (·.text)))
    (some_finding : findings ≠ []) : r.lines = findings.flatMap Finding.lines := by
  have some_text : findings.map (·.text.toList) ≠ [] := by simpa using some_finding
  have chars : r.message.toList = ['\n'].intercalate (findings.map (·.text.toList)) := by
    have feed : "\n".toList = ['\n'] := by decide
    rw [joined, String.toList_intercalate, List.map_map, feed]
    rfl
  have cut := @Text.pieces_intercalate (· == '\n') '\n' (beq_self_eq_true '\n') _ some_text
  rw [lines, chars, cut, List.flatMap_map]
  rfl

theorem lists_iff (joined : r.message = "\n".intercalate (findings.map (·.text)))
    (some_finding : findings ≠ []) : r.Lists findings ↔ ∀ f ∈ findings, OneLine f.text := by
  constructor
  · intro listed f mem feed
    have piece : f.text.toList ∈ r.lines := by
      rw [listed]
      exact List.mem_map_of_mem mem
    simpa using Text.free_of_mem_pieces piece '\n' feed
  · intro all
    rw [Lists, lines_eq_flatMap joined some_finding, List.map_eq_flatMap]
    exact List.flatMap_congr fun f mem => (Finding.lines_eq_singleton_iff f).2 (all f mem)

end Refusal

namespace CodeScan

theorem oneLine_opcode (op : Forbidden) : OneLine op.findingCode ∧ OneLine op.label := by
  cases op <;> decide

theorem oneLine_of_mem_critical {s : CodeScan} {code : List UInt8} {f : Finding}
    (h : f ∈ (s.scan code).critical) : OneLine f.text := by
  rw [Finding.oneLine_text_iff]
  rw [scan_eq, critical_sizeFindings, List.mem_append] at h
  obtain h | h := h
  · obtain ⟨i, -, found⟩ := List.mem_filterMap.1 h
    obtain ⟨op, -, rfl⟩ := Option.map_eq_some_iff.1 found
    simp +decide only [oneLine_append, oneLine_opcode, oneLine_toString]
  · split at h
    · rw [List.mem_singleton.1 h]
      simp +decide only [tooLarge, oneLine_append, oneLine_toString]
    · cases h

end CodeScan

namespace Run
open SourceScan Rule

def pragmas (submission : Submission) : List Hit :=
  versionPragma.hits (joinedText submission.sources).toList

theorem judge_of_failed {s : Settings} {a : Admitted} {c : Compilation} {primary : Artifact}
    {report : Report} (selected : select c.artifacts a.submission.primary = .ok primary)
    (scanned : s.codeScan.scanHex primary.deployedCode = .ok report)
    (failed : report.passed = false) : judge s a c = .error (.bytecode report.critical) := by
  unfold judge
  rw [selected]
  dsimp only [bind, Except.bind]
  rw [scanned]
  dsimp only [Except.mapError]
  rw [failed]
  rfl

/-- A refusal for the sources has the lines of its findings, and lists them one on a line exactly if
the constraint that it quotes, if any, keeps to one line. A refusal for the bytecode always does. -/
theorem refusal_lists (s : Settings) (compiler : Compiler) (submission : Submission)
    (findings : List Finding) :
    (vet s compiler submission = .error (.source findings) →
      findings = (sourceReport s submission).critical ∧ findings ≠ [] ∧
      (Refusal.source findings).lines = findings.flatMap Finding.lines ∧
      (∀ f ∈ findings, f.lines = [f.text.toList] ∨
        ∃ hit, FirstUnreadable (pragmas submission) hit ∧ f = unreadablePragma hit) ∧
      ((Refusal.source findings).Lists findings ↔
        ∀ hit, FirstUnreadable (pragmas submission) hit → '\n' ∉ Text.trim hit.text)) ∧
    (vet s compiler submission = .error (.bytecode findings) →
      findings ≠ [] ∧ (Refusal.bytecode findings).Lists findings) := by
  constructor
  · intro refused
    obtain ⟨check, fails, -⟩ := ((decided_vet s compiler submission).1 _).1 refused
    cases fails with
    | source some_finding =>
    refine ⟨rfl, some_finding, Refusal.lines_eq_flatMap rfl some_finding, ?_, ?_⟩
    · intro f mem
      rw [Finding.lines_eq_singleton_iff]
      exact oneLine_or_unreadable_of_critical mem
    · rw [Refusal.lists_iff rfl some_finding]
      exact forall_oneLine_critical_iff _ _
  · intro refused
    obtain ⟨check, fails, -⟩ := ((decided_vet s compiler submission).1 _).1 refused
    cases fails with
    | codeScan answer chosen decoded some_finding =>
    refine ⟨some_finding, (Refusal.lists_iff rfl some_finding).2 fun f mem => ?_⟩
    exact CodeScan.oneLine_of_mem_critical mem

theorem coin_refused :
    let tight : Settings := { limits := { maxCodeSize := 1 } }
    vet tight Gate.coinCompiler Gate.coinSubmission =
      .error (.bytecode (tight.codeScan.scan [0x60, 0x01]).critical) := by
  intro tight
  obtain ⟨a, screened⟩ := Gate.coin_screened tight
  have submitted : a.submission = Gate.coinSubmission :=
    congrArg Admitted.submission (screen_eq_ok screened).1
  have failed : (tight.codeScan.scan [0x60, 0x01]).passed = false := by
    refine Report.passed_eq_false_of_critical (f := CodeScan.tooLarge 1 2) ?_
    rw [CodeScan.scan_eq, CodeScan.critical_sizeFindings]
    exact List.mem_append_right _ List.mem_cons_self
  rw [vet_of_screen_ok screened, conclude, submitted]
  refine @judge_of_failed _ _ _ Gate.coinArtifact _ ?_ rfl failed
  rw [submitted]
  rfl

theorem refusal_lists_broken :
    let submission : Submission :=
      { sources := .ofList [("A.sol", "pragma solidity latest\nstable;")] }
    let tight : Settings := { limits := { maxCodeSize := 1 } }
    (∃ hit, vet {} (fun _ => .never) submission = .error (.source [unreadablePragma hit]) ∧
      ¬ (Refusal.source [unreadablePragma hit]).Lists [unreadablePragma hit]) ∧
    ∃ findings, vet tight Gate.coinCompiler Gate.coinSubmission = .error (.bytecode findings) ∧
      (Refusal.bytecode findings).Lists findings := by
  intro submission tight
  constructor
  · obtain ⟨hit, alone, quoted⟩ : ∃ hit, pragmas submission = [hit] ∧
        hit.text = "latest\nstable".toList := Pattern.exists_hits_eq_singleton (by decide +kernel)
    have unreadable : Version.ofConstraint? hit.text = none := by
      rw [quoted]
      decide +kernel
    have critical : (sourceReport {} submission).critical = [unreadablePragma hit] := by
      have clean : (ofRules (joinedText submission.sources).toList).critical = [] :=
        (Report.passed_iff _).1 (passed_ofRules_of_isClean (by decide +kernel))
      rw [sourceReport, critical_scan, clean, versionFindings_of_unreadable alone unreadable,
        List.nil_append]
    have mem : unreadablePragma hit ∈ (sourceReport {} submission).critical := by simp [critical]
    have refused : vet {} (fun _ => .never) submission =
        .error (.source (sourceReport {} submission).critical) :=
      vet_of_screen_error (screen_of_critical none rfl mem)
    rw [critical] at refused
    obtain ⟨-, -, -, -, lists_iff⟩ := (refusal_lists {} _ submission _).1 refused
    refine ⟨hit, refused, fun listed => ?_⟩
    have one := lists_iff.1 listed hit ⟨unreadable, [], [], alone, by simp⟩
    rw [quoted] at one
    exact one (by decide +kernel)
  · obtain ⟨-, listed⟩ := (refusal_lists tight _ _ _).2 coin_refused
    exact ⟨_, coin_refused, listed⟩

end Run
end SolidityVetting
