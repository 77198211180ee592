import Mathlib.Data.List.Nodup
import SolidityVetting.Proofs.Pattern.Surroundings
import SolidityVetting.Proofs.Source.Versions

set_option autoImplicit false

namespace SolidityVetting.SourceScan

variable {r : Report} {rule : Rule}

theorem hasCode_push (r : Report) (f : Finding) (code : String) :
    (r.push f).hasCode code = true ↔ r.hasCode code = true ∨ f.code = code := by
  rw [Report.hasCode_iff, Report.hasCode_iff]
  simp only [Report.mem_findings_push]
  constructor
  · rintro ⟨g, hg | rfl, hc⟩
    · exact .inl ⟨g, hg, hc⟩
    · exact .inr hc
  · rintro (⟨g, hg, hc⟩ | hc)
    · exact ⟨g, .inl hg, hc⟩
    · exact ⟨f, .inr rfl, hc⟩

theorem hasCode_pushAll (r : Report) (fs : List Finding) (code : String) :
    (r.pushAll fs).hasCode code = true ↔ r.hasCode code = true ∨ ∃ f ∈ fs, f.code = code := by
  induction fs generalizing r with
  | nil => simp [Report.pushAll]
  | cons f rest ih =>
    change ((r.push f).pushAll rest).hasCode code = true ↔ _
    rw [ih, hasCode_push, or_assoc]
    simp only [List.mem_cons, exists_eq_or_imp]

theorem hasCode_record_iff {a : Attempt} (ha : a.Sound) (code : String) :
    (record r a).hasCode code = true ↔
      r.hasCode code = true ∨ a.rule.code = code ∧ a.found.isSome = true := by
  unfold record
  split
  · next known =>
    constructor
    · exact .inl
    · rintro (h | ⟨rfl, -⟩)
      · exact h
      · exact known
  split
  · next f hf => rw [hasCode_push, ha.code f hf, hf, Option.isSome_some, and_iff_left rfl]
  · next hf => simp [hf]

theorem hasCode_foldl_record_iff {as : List Attempt} (ha : ∀ a ∈ as, a.Sound) (code : String) :
    (as.foldl record r).hasCode code = true ↔
      r.hasCode code = true ∨ ∃ a ∈ as, a.rule.code = code ∧ a.found.isSome = true := by
  induction as generalizing r with
  | nil => simp
  | cons a rest ih =>
    rw [List.foldl_cons, ih fun b hb => ha b (List.mem_cons_of_mem a hb),
      hasCode_record_iff (ha a List.mem_cons_self), or_assoc]
    simp only [List.mem_cons, exists_eq_or_imp]

theorem rule_eq_of_code {other : Rule} (h : rule ∈ Rule.table) (g : other ∈ Rule.table)
    (hc : rule.code = other.code) : rule = other := by
  have distinct : (Rule.table.map (·.code)).Nodup := by decide
  exact List.inj_on_of_nodup_map distinct h g hc

def Fires (rule : Rule) (text : List Char) : Prop :=
  (∃ line ∈ Text.lines text, rule.linePattern.occursIn line = true) ∨
    rule.wholePattern.occursIn text = true

theorem hasCode_ofRules_iff (text : List Char) (h : rule ∈ Rule.table) :
    (ofRules text).hasCode rule.code = true ↔ Fires rule text := by
  rw [ofRules_eq, hasCode_foldl_record_iff fun a ha => sound_of_mem_attempts ha]
  constructor
  · rintro (none | ⟨a, ha, hc, found⟩)
    · cases none
    · obtain ha | ha := List.mem_append.1 ha
      · obtain ⟨line, hl, n, other, ho, rfl⟩ := mem_attemptsFrom ha
        obtain rfl := rule_eq_of_code ho h hc
        exact .inl ⟨line, hl, (Option.isSome_map).symm.trans found⟩
      · obtain ⟨other, ho, rfl⟩ := List.mem_map.1 ha
        obtain rfl := rule_eq_of_code ho h hc
        exact .inr ((Option.isSome_map).symm.trans found)
  · rintro (⟨line, hl, found⟩ | found)
    · obtain ⟨n, hn⟩ := mem_attemptsFrom_of_mem 1 hl h
      exact .inr ⟨_, List.mem_append_left _ hn, rfl, (Option.isSome_map).trans found⟩
    · exact .inr ⟨.onText text rule, List.mem_append_right _ (List.mem_map_of_mem h), rfl,
        (Option.isSome_map).trans found⟩

def structuralCodes : List String :=
  ["NO_PRAGMA", "UNPARSEABLE_PRAGMA", "OLD_SOLIDITY", "REENTRANCY_RISK", "LARGE_SOURCE"]

theorem code_mem_of_version {text : List Char} {f : Finding} (h : f ∈ versionFindings text) :
    f.code ∈ structuralCodes := by
  unfold versionFindings at h
  split at h
  · rw [List.mem_singleton.1 h]
    decide
  · obtain h | h := List.mem_append.1 h
    · obtain ⟨hit, -, rfl⟩ := Option.map_eq_some_iff.1 (Option.mem_toList.1 h)
      simp [unreadablePragma, structuralCodes]
    · obtain ⟨low, -, rfl⟩ := Option.map_eq_some_iff.1 (Option.mem_toList.1 h)
      simp [oldVersion, structuralCodes]

theorem code_of_reentrancy {text : List Char} {f : Finding} (h : f ∈ reentrancyFindings text) :
    f.code = "REENTRANCY_RISK" := by
  unfold reentrancyFindings at h
  split at h
  · cases h
  split at h
  · cases h
  · rw [List.mem_singleton.1 h]

theorem code_mem_of_reentrancy {text : List Char} {f : Finding}
    (h : f ∈ reentrancyFindings text) : f.code ∈ structuralCodes := by
  rw [code_of_reentrancy h]
  decide

theorem code_of_size {threshold : Nat} {text : List Char} {f : Finding}
    (h : f ∈ sizeFindings threshold text) : f.code = "LARGE_SOURCE" := by
  unfold sizeFindings at h
  dsimp only at h
  split at h
  · rw [List.mem_singleton.1 h]
  · cases h

theorem code_mem_of_size {threshold : Nat} {text : List Char} {f : Finding}
    (h : f ∈ sizeFindings threshold text) : f.code ∈ structuralCodes := by
  rw [code_of_size h]
  decide

theorem code_not_structural (h : rule ∈ Rule.table) : rule.code ∉ structuralCodes := by
  have all : ∀ code ∈ Rule.table.map (·.code), code ∉ structuralCodes := by decide
  exact all rule.code (List.mem_map_of_mem h)

theorem hasCode_scan_eq_ofRules (threshold : Nat) (source : String) (h : rule ∈ Rule.table) :
    (scan threshold source).hasCode rule.code = true ↔
      (ofRules source.toList).hasCode rule.code = true := by
  rw [scan_eq, hasCode_pushAll, or_iff_left]
  rintro ⟨f, hf, hc⟩
  apply code_not_structural h
  rw [← hc]
  obtain hf | hf := List.mem_append.1 hf
  · obtain hf | hf := List.mem_append.1 hf
    · exact code_mem_of_version hf
    · exact code_mem_of_reentrancy hf
  · exact code_mem_of_size hf

theorem hasCode_scan_iff (threshold : Nat) (source : String) (h : rule ∈ Rule.table) :
    (scan threshold source).hasCode rule.code = true ↔ Fires rule source.toList :=
  (hasCode_scan_eq_ofRules threshold source h).trans (hasCode_ofRules_iff source.toList h)

theorem hasCode_scan_iff_occursIn (threshold : Nat) (source : String) (h : rule ∈ Rule.table)
    (one : rule.spanning = none) : (scan threshold source).hasCode rule.code = true ↔
      rule.linePattern.occursIn source.toList = true := by
  have whole : rule.wholePattern = rule.linePattern := by
    rw [Rule.wholePattern, one]
    rfl
  rw [hasCode_scan_iff threshold source h, Fires, whole]
  constructor
  · rintro (⟨line, hl, found⟩ | found)
    · exact Pattern.occursIn_of_mem_lines hl found
    · exact found
  · exact .inr

/-- A rule reports what one of its patterns describes somewhere in the text, the one for lines with
no line feed in it, if that pattern needs no carriage return at its end. -/
theorem hasCode_scan_iff_describes (threshold : Nat) (source : String) (h : rule ∈ Rule.table)
    (elsewhere : ∀ before taken rest, rule.linePattern.Describes before taken rest →
      taken ≠ [] ∧ taken.getLast? ≠ some '\r') :
    (scan threshold source).hasCode rule.code = true ↔
      ∃ front taken rest, source.toList = front ++ (taken ++ rest) ∧
        ('\n' ∉ taken ∧ rule.linePattern.Describes front.reverse taken rest ∨
          rule.wholePattern.Describes front.reverse taken rest) := by
  rw [hasCode_scan_iff threshold source h]
  constructor
  · rintro (⟨line, hl, found⟩ | found)
    · have ⟨front, taken, rest, whole, one_line, described⟩ :=
        Pattern.exists_describes_of_mem_lines hl found
      exact ⟨front, taken, rest, whole, .inl ⟨one_line, described⟩⟩
    · have ⟨front, taken, rest, whole, described⟩ := Pattern.occursIn_iff_describes.1 found
      exact ⟨front, taken, rest, whole, .inr described⟩
  · intro ⟨front, taken, rest, whole, described⟩
    rcases described with ⟨one_line, described⟩ | described
    · have ⟨some_text, last⟩ := elsewhere _ _ _ described
      rw [Fires, whole]
      exact .inl (Pattern.exists_line_of_describes some_text one_line last described)
    · exact .inr (Pattern.occursIn_iff_describes.2 ⟨front, taken, rest, whole, described⟩)

theorem fromTable_foldl {as : List Attempt} (h : FromTable r) (ha : ∀ a ∈ as, a.Sound) :
    FromTable (as.foldl record r) := by
  induction as generalizing r with
  | nil => exact h
  | cons a rest ih =>
    apply ih (fromTable_record h (ha a List.mem_cons_self))
    intro b hb
    exact ha b (List.mem_cons_of_mem a hb)

theorem fromTable_ofRules (text : List Char) : FromTable (ofRules text) := by
  rw [ofRules_eq]
  apply fromTable_foldl
  · intro f hf
    cases hf
  · intro a ha
    exact sound_of_mem_attempts ha

theorem exists_critical_of_hasCode {threshold : Nat} {source : String} (h : rule ∈ Rule.table)
    (hs : rule.severity = .critical) (hc : (scan threshold source).hasCode rule.code = true) :
    ∃ f ∈ (scan threshold source).critical, f.code = rule.code := by
  rw [hasCode_scan_eq_ofRules threshold source h, Report.hasCode_iff] at hc
  obtain ⟨f, hf, code⟩ := hc
  obtain ⟨⟨other, ho, hcode, hseverity⟩, listed⟩ := fromTable_ofRules source.toList f hf
  have same := severity_of_code ho h (hcode.trans code)
  refine ⟨f, ?_, code⟩
  rw [critical_scan]
  exact List.mem_append_left _ (listed (by rw [← hseverity, same, hs]))

end SolidityVetting.SourceScan
