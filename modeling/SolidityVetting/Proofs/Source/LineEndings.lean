import SolidityVetting.Proofs.Pattern.Returns
import SolidityVetting.Proofs.Source.Wording

set_option autoImplicit false

namespace SolidityVetting

def returned (source : String) : String := String.ofList (Text.withReturns source.toList)

namespace SourceScan
open Pattern Rule Text

def isJudgement (f : Finding) : Bool :=
  (table.any (·.code == f.code) && f.severity != .info) || f.code == "REENTRANCY_RISK"

variable {rule : Rule} {text : List Char}

theorem overlooks_of_mem_table (h : rule ∈ table) (grave : rule.severity ≠ .info) :
    rule.wholePattern.overlooks = true := by
  have all : ∀ r ∈ table, r.severity ≠ .info → r.wholePattern.overlooks = true := by decide
  exact all rule h grave

theorem ofLines_withReturns (plain : '\r' ∉ text) : ofLines (withReturns text) = ofLines text := by
  rw [ofLines, ofLines, lines_withReturns plain]

theorem found_onText_of_fixed {words : String} (fixed : rule.wording = .fixed words)
    (text : List Char) : (Attempt.onText text rule).found =
      ((rule.wholePattern.search? text).map Hit.line).map fun n =>
        ⟨rule.severity, rule.code, words, some n, none⟩ := by
  simp only [Attempt.onText, Option.map_map, finding_of_fixed fixed]
  rfl

theorem isJudgement_of_structural {f : Finding} (h : f.code ∈ structuralCodes) :
    isJudgement f = (f.code == "REENTRANCY_RISK") := by
  have foreign : table.any (·.code == f.code) = false := by
    rw [List.any_eq_false]
    intro rule mem same
    exact code_not_structural mem (eq_of_beq same ▸ h)
  rw [isJudgement, foreign, Bool.false_and, Bool.false_or]

theorem isJudgement_of_info {f : Finding} (h : rule ∈ table) (code : f.code = rule.code)
    (info : f.severity = .info) : isJudgement f = false := by
  have other : f.code ≠ "REENTRANCY_RISK" := by
    intro same
    apply code_not_structural h
    rw [← code, same]
    decide
  simp [isJudgement, info, other]

theorem filter_found_onText (plain : '\r' ∉ text) (h : rule ∈ table) :
    (Attempt.onText (withReturns text) rule).found.filter isJudgement =
      (Attempt.onText text rule).found.filter isJudgement := by
  by_cases grave : rule.severity = .info
  · have passed_over (s : List Char) :
        (Attempt.onText s rule).found.filter isJudgement = none := by
      rw [Option.filter_eq_none_iff]
      intro f found
      have sound := sound_onText s h
      rw [isJudgement_of_info h (sound.code f found) ((sound.severity f found).trans grave)]
      decide
    rw [passed_over, passed_over]
  · obtain ⟨words, fixed, -⟩ := fixed_of_mem_table h grave
    rw [found_onText_of_fixed fixed, found_onText_of_fixed fixed,
      map_line_search?_withReturns (overlooks_of_mem_table h grave) plain]

theorem filter_ofWhole_withReturns (plain : '\r' ∉ text) :
    (ofWhole (withReturns text)).filter isJudgement = (ofWhole text).filter isJudgement := by
  have distinct (s : List Char) :
      ((table.map (Attempt.onText s)).map (·.rule.code)).Nodup := by
    rw [List.map_map]
    exact (by decide : (table.map (·.code)).Nodup)
  rw [ofWhole, ofWhole, ofLines_withReturns plain, kept_eq_filterMap (distinct _),
    kept_eq_filterMap (distinct _), List.filter_map, List.filter_map, List.filterMap_map,
    List.filterMap_map, List.filter_filterMap, List.filter_filterMap]
  refine List.filterMap_congr fun rule mem => ?_
  exact filter_found_onText plain (List.mem_filter.1 mem).1

theorem reentrancyFindings_withReturns (plain : '\r' ∉ text) :
    reentrancyFindings (withReturns text) = reentrancyFindings text := by
  have overlooked : valueTransfer.overlooks = true ∧ reentrancyGuard.overlooks = true := by decide
  have same_line := map_line_search?_withReturns overlooked.1 plain
  have same_guard := occursIn_withReturns overlooked.2 plain
  unfold reentrancyFindings
  cases found : valueTransfer.search? text with
  | none =>
    rw [found, Option.map_none, Option.map_eq_none_iff] at same_line
    rw [same_line]
  | some site =>
    rw [found, Option.map_some, Option.map_eq_some_iff] at same_line
    obtain ⟨site', found', line⟩ := same_line
    rw [found']
    dsimp only
    rw [same_guard, line]

theorem filter_checks (threshold : Nat) (text : List Char) :
    (checks threshold text).filter isJudgement = reentrancyFindings text := by
  have version : (versionFindings text).filter isJudgement = [] := by
    rw [List.filter_eq_nil_iff]
    intro f mem
    rw [isJudgement_of_structural (code_mem_of_version mem)]
    have code := (codes_versionFindings_sublist text).subset (List.mem_map_of_mem mem)
    intro same
    rw [eq_of_beq same] at code
    exact absurd code (by decide)
  have reentrancy : (reentrancyFindings text).filter isJudgement = reentrancyFindings text := by
    rw [List.filter_eq_self]
    intro f mem
    rw [isJudgement_of_structural (code_mem_of_reentrancy mem), code_of_reentrancy mem]
    exact beq_self_eq_true _
  have size : (sizeFindings threshold text).filter isJudgement = [] := by
    rw [List.filter_eq_nil_iff]
    intro f mem
    rw [isJudgement_of_structural (code_mem_of_size mem), code_of_size mem]
    decide
  rw [checks, List.filter_append, List.filter_append, version, reentrancy, size, List.nil_append,
    List.append_nil]

/-- The findings of the rules that are more than notes, and the one about reentrancy, are the same
for both kinds of line endings, with their messages and their lines. -/
theorem judgements_of_returned (threshold : Nat) (source : String) (plain : '\r' ∉ source.toList) :
    (scan threshold (returned source)).findings.filter isJudgement =
      (scan threshold source).findings.filter isJudgement := by
  rw [scan_eq_ofFindings, scan_eq_ofFindings, Report.filter_findings_ofFindings,
    Report.filter_findings_ofFindings, returned, String.toList_ofList]
  simp only [List.filter_append, filter_checks, ofLines_withReturns plain,
    filter_ofWhole_withReturns plain, reentrancyFindings_withReturns plain]

theorem judgements_of_returned_import :
    let source := "import\n'upgradeable';"
    returned source = "import\r\n'upgradeable';" ∧ '\r' ∉ source.toList ∧
      (∃ f ∈ (scan 0 source).findings.filter isJudgement, f.code = "UPGRADEABLE_IMPORT") ∧
      (scan 0 (returned source)).findings.filter isJudgement =
        (scan 0 source).findings.filter isJudgement := by
  intro source
  have plain : '\r' ∉ source.toList := by decide
  refine ⟨by decide, plain, ?_, judgements_of_returned 0 source plain⟩
  have rule : table[6] ∈ table := List.getElem_mem _
  have ends : (upgradeableDirective.ends (.start source.toList)).head?.isSome = true := by
    decide +kernel
  obtain ⟨t, ht⟩ := Option.isSome_iff_exists.1 ends
  have occurs : upgradeableDirective.occursIn source.toList = true :=
    occursIn_iff.2 ⟨.start source.toList, Place.isIn_start _, t, List.mem_of_mem_head? ht⟩
  have reported := (hasCode_scan_iff 0 source rule).2 (.inr occurs)
  obtain ⟨f, hf, code⟩ := exists_critical_of_hasCode rule rfl reported
  have own : f.code = "UPGRADEABLE_IMPORT" := code
  refine ⟨f, List.mem_filter.2 ⟨List.mem_append_left _ (List.mem_append_left _ hf), ?_⟩, own⟩
  rw [scan_eq_ofFindings, Report.ofFindings_eq] at hf
  rw [isJudgement, own, (Report.mem_ofSeverity.1 hf).2]
  decide

end SourceScan
end SolidityVetting
