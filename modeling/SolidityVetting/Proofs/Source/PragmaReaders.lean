import SolidityVetting.Precheck
import SolidityVetting.Proofs.Pattern.Words
import SolidityVetting.Proofs.Source.Merge

set_option autoImplicit false

namespace SolidityVetting
open Place Pattern Text Rule

def MentionsPragma (text : List Char) : Prop :=
  ∃ gap, gap ≠ [] ∧ (∀ b ∈ gap, isBlank b = true) ∧ StandsFree (pragmaWords gap) text

/-- A version pragma stands in the text: its words, behind them a blank and a constraint, and a
semicolon. -/
def DeclaresVersion (text : List Char) : Prop :=
  ∃ front pragma constraint rest, text = front ++ pragma ∧ EndsFree front ∧
    Announces pragma (constraint ++ ';' :: rest) ∧
    (∃ b more, constraint = b :: more ∧ isBlank b = true ∧ more ≠ []) ∧ ';' ∉ constraint

variable {text : List Char}

def blankCodes : List Nat :=
  [9, 10, 11, 12, 13, 0x20, 0x85, 0xA0, 0x1680, 0x2000, 0x2001, 0x2002, 0x2003, 0x2004, 0x2005,
    0x2006, 0x2007, 0x2008, 0x2009, 0x200A, 0x2028, 0x2029, 0x202F, 0x205F, 0x3000]

theorem toNat_mem_blankCodes {c : Char} (h : isBlank c = true) : c.toNat ∈ blankCodes := by
  simp [isBlank] at h
  simp [blankCodes]
  omega

theorem isWord_of_isBlank {c : Char} (h : isBlank c = true) : isWord c = false := by
  have none_is_word : ∀ n ∈ blankCodes, isWord (Char.ofNat n) = false := by decide +kernel
  have same := none_is_word c.toNat (toNat_mem_blankCodes h)
  rwa [Char.ofNat_toNat] at same

theorem occursIn_versionPragma_iff : versionPragma.occursIn text = true ↔ DeclaresVersion text := by
  rw [occursIn_iff]
  constructor
  · intro ⟨u, hu, t, ht⟩
    have ⟨lead, body, pragma, _, _⟩ := isPragma_of_ends ht
    have ⟨gap, _, _, words⟩ := pragma.announced
    have free : touchesWord u.before = false := (atWordEdge_iff words).1 pragma.edge
    refine ⟨u.before.reverse, u.after, lead ++ body, t.after, hu.1.symm, ?_, pragma.announced,
      pragma.blank_first, pragma.open_till⟩
    rwa [endsFree_iff, List.reverse_reverse]
  · intro ⟨front, pragma, constraint, rest, whole, free, announced, blank_first, open_till⟩
    let u : Place := ⟨front.reverse, pragma, front.length, none⟩
    have ⟨gap, _, _, words⟩ := announced
    have edge : u.atWordEdge = true := (atWordEdge_iff words).2 (endsFree_iff.1 free)
    have here : IsPragma u constraint rest := ⟨edge, announced, blank_first, open_till⟩
    have some_end := ends_ne_nil_of_isPragma (isPragma_bare_iff.2 here)
    exact ⟨u, ⟨by simp [u, whole], by simp [u]⟩, List.exists_mem_of_ne_nil _ some_end⟩

theorem touchesWord_pragma (rest : List Char) : touchesWord ("pragma".toList ++ rest) = true := rfl

theorem touchesWord_reverse_pragmaWords (gap before : List Char) :
    touchesWord ((pragmaWords gap).reverse ++ before) = true := by
  rw [pragmaWords_eq, List.reverse_append, List.reverse_append, List.append_assoc, List.append_assoc]
  exact touchesWord_append_of_touchesWord (by decide) _

theorem describes_pragmaWords {before taken rest : List Char} :
    (wordEdge ++ exactly "pragma" ++ someBlanks ++ exactly "solidity").Describes before taken rest ↔
      touchesWord before = false ∧
        ∃ gap, gap ≠ [] ∧ (∀ b ∈ gap, isBlank b = true) ∧ taken = pragmaWords gap := by
  constructor
  · intro ⟨_, second, split, ⟨_, gap, split₂, ⟨edge, first, split₁, hedge, hfirst⟩, hgap⟩, hsecond⟩
    have ⟨some_gap, blank⟩ := describes_oneOrMore.1 hgap
    rw [describes_exactly] at hfirst hsecond
    subst hfirst hsecond
    have ⟨empty, free⟩ := (describes_wordEdge_of_touchesWord (touchesWord_pragma _)).1 hedge
    subst empty split₁ split₂
    refine ⟨free, gap, some_gap, blank, ?_⟩
    rw [split, pragmaWords_eq, List.nil_append, List.append_assoc]
  · intro ⟨free, gap, some_gap, blank, words⟩
    refine ⟨"pragma".toList ++ gap, _, ?_, ⟨_, gap, rfl, ⟨[], _, rfl, ?_, describes_exactly.2 rfl⟩,
      describes_oneOrMore.2 ⟨some_gap, blank⟩⟩, describes_exactly.2 rfl⟩
    · rw [words, pragmaWords_eq, List.append_assoc]
    · exact (describes_wordEdge_of_touchesWord (touchesWord_pragma _)).2 ⟨rfl, free⟩

theorem occursIn_anyPragma_iff : Precheck.anyPragma.occursIn text = true ↔ MentionsPragma text := by
  rw [occursIn_iff_describes]
  constructor
  · intro ⟨front, _, rest, whole, words, _, split, described, edge⟩
    have ⟨free, gap, some_gap, blank, spelled⟩ := describes_pragmaWords.1 described
    subst spelled
    have stops := touchesWord_reverse_pragmaWords gap front.reverse
    have ⟨empty, free'⟩ := (describes_wordEdge_behind stops).1 edge
    subst empty
    rw [split, List.append_nil] at whole
    exact ⟨gap, some_gap, blank, front, rest, whole, endsFree_iff.2 free, startsFree_iff.2 free'⟩
  · intro ⟨gap, some_gap, blank, front, rest, whole, free, free'⟩
    have stops := touchesWord_reverse_pragmaWords gap front.reverse
    refine ⟨front, pragmaWords gap, rest, whole, pragmaWords gap, [], (List.append_nil _).symm, ?_,
      (describes_wordEdge_behind stops).2 ⟨rfl, startsFree_iff.1 free'⟩⟩
    exact describes_pragmaWords.2 ⟨endsFree_iff.1 free, gap, some_gap, blank, rfl⟩

theorem DeclaresVersion.mentionsPragma (h : DeclaresVersion text) : MentionsPragma text := by
  have ⟨front, pragma, constraint, rest, whole, free, ⟨gap, some_gap, blank, words⟩,
    ⟨b, more, first, blank_first, _⟩, _⟩ := h
  refine ⟨gap, some_gap, blank, front, constraint ++ ';' :: rest, words ▸ whole, free, ?_⟩
  rw [startsFree_iff, first]
  exact isWord_of_isBlank blank_first

theorem Precheck.mem_complaints_iff {demand : Pattern × String} (h : demand ∈ Precheck.demands)
    (source : String) :
    demand.2 ∈ Precheck.complaints source ↔ ¬ demand.1.occursIn source.toList = true := by
  have distinct : (Precheck.demands.map (·.2)).Nodup := by decide
  rw [Precheck.complaints, List.mem_map]
  constructor
  · intro ⟨other, mem, same⟩
    have ⟨mem, absent⟩ := List.mem_filter.1 mem
    rw [← List.inj_on_of_nodup_map distinct mem h same]
    simpa using absent
  · intro absent
    exact ⟨demand, List.mem_filter.2 ⟨h, by simpa using absent⟩, rfl⟩

namespace SourceScan

theorem nodup_code_scan (threshold : Nat) (source : String) :
    ((scan threshold source).findings.map (·.code)).Nodup := by
  rw [scan_eq_ofFindings]
  exact ((Report.perm_findings_ofFindings .source _).map _).nodup_iff.2 (code_nodup threshold _)

theorem withCode_cases (threshold : Nat) (source code : String) :
    (scan threshold source).hasCode code = false ∧ (scan threshold source).withCode code = [] ∨
      (scan threshold source).hasCode code = true ∧
        ∃ f, (scan threshold source).withCode code = [f] := by
  cases h : (scan threshold source).hasCode code with
  | true =>
    have ⟨f, hf, same⟩ := (Report.hasCode_iff _ code).1 h
    exact .inr ⟨rfl, f, same ▸ filter_eq_singleton (nodup_code_scan threshold source) hf⟩
  | false =>
    refine .inl ⟨rfl, List.filter_eq_nil_iff.2 fun f hf same => ?_⟩
    have reported := (Report.hasCode_iff _ code).2 ⟨f, hf, eq_of_beq same⟩
    rw [h] at reported
    cases reported

theorem hasCode_version_iff (threshold : Nat) (source : String) :
    (scan threshold source).hasCode "SOLIDITY_VERSION" = true ↔ DeclaresVersion source.toList := by
  have mem : table[9] ∈ table := List.getElem_mem _
  exact (hasCode_scan_iff_occursIn threshold source mem rfl).trans occursIn_versionPragma_iff

theorem hits_versionPragma_eq_nil_iff :
    versionPragma.hits text = [] ↔ ¬ DeclaresVersion text := by
  rw [← occursIn_versionPragma_iff, Bool.not_eq_true, occursIn_eq_false_iff]
  exact hitsFrom_eq_nil_iff

theorem hasCode_missing_iff (threshold : Nat) (source : String) :
    (scan threshold source).hasCode "NO_PRAGMA" = true ↔ ¬ DeclaresVersion source.toList := by
  have missing := withCode_missing threshold source
  rw [← hits_versionPragma_eq_nil_iff]
  rcases withCode_cases threshold source "NO_PRAGMA" with ⟨absent, none⟩ | ⟨reported, f, one⟩
  · rw [none] at missing
    rw [absent, iff_of_false Bool.false_ne_true]
    intro empty
    rw [if_pos empty] at missing
    cases missing
  · rw [one] at missing
    rw [reported, iff_of_true rfl]
    by_contra some_pragma
    rw [if_neg some_pragma] at missing
    cases missing

/-- Every report has either a note on the first version pragma or the finding that there is none, each
once, and only where there is none the pre-check complains. -/
theorem scan_reads_pragmas (threshold : Nat) (source : String) :
    let r := scan threshold source
    let complaint := "Missing pragma solidity version declaration"
    (DeclaresVersion source.toList ∧ r.withCode "NO_PRAGMA" = [] ∧
        (∃ f, r.withCode "SOLIDITY_VERSION" = [f]) ∨
      ¬ DeclaresVersion source.toList ∧ r.withCode "NO_PRAGMA" = [missingPragma] ∧
        r.withCode "SOLIDITY_VERSION" = []) ∧
    (complaint ∈ Precheck.complaints source ↔ ¬ MentionsPragma source.toList) ∧
    (r.hasCode "NO_PRAGMA" = false → complaint ∉ Precheck.complaints source) := by
  intro r complaint
  have version := hasCode_version_iff threshold source
  have missing := withCode_missing threshold source
  have complains : complaint ∈ Precheck.complaints source ↔ ¬ MentionsPragma source.toList := by
    have demanded : (Precheck.anyPragma, complaint) ∈ Precheck.demands :=
      List.mem_cons_of_mem _ List.mem_cons_self
    rw [Precheck.mem_complaints_iff demanded, occursIn_anyPragma_iff]
  refine ⟨?exactly_one, complains, ?agree⟩
  case exactly_one =>
    by_cases declared : DeclaresVersion source.toList
    · rw [if_neg (mt hits_versionPragma_eq_nil_iff.1 (not_not_intro declared))] at missing
      rcases withCode_cases threshold source "SOLIDITY_VERSION" with ⟨absent, _⟩ | ⟨_, one⟩
      · rw [version.2 declared] at absent
        cases absent
      · exact .inl ⟨declared, missing, one⟩
    · rw [if_pos (hits_versionPragma_eq_nil_iff.2 declared)] at missing
      rcases withCode_cases threshold source "SOLIDITY_VERSION" with ⟨_, absent⟩ | ⟨noted, _⟩
      · exact .inr ⟨declared, missing, absent⟩
      · exact absurd (version.1 noted) declared
  case agree =>
    intro present complained
    have declared : DeclaresVersion source.toList := by
      by_contra undeclared
      rw [(hasCode_missing_iff threshold source).2 undeclared] at present
      cases present
    exact complains.1 complained declared.mentionsPragma

theorem scan_reads_pragmas_bare :
    let source := "pragma solidity 0.8.20;"
    (scan 0 source).hasCode "NO_PRAGMA" = false ∧
      "Missing pragma solidity version declaration" ∉ Precheck.complaints source := by
  intro source
  have declared : DeclaresVersion source.toList :=
    ⟨[], source.toList, " 0.8.20".toList, [], rfl, by decide,
      ⟨[' '], by decide, List.forall_mem_singleton.2 rfl, by decide⟩, ⟨' ', "0.8.20".toList, by decide⟩, by decide⟩
  have present : (scan 0 source).hasCode "NO_PRAGMA" = false := by
    rw [← Bool.not_eq_true, hasCode_missing_iff]
    exact not_not_intro declared
  exact ⟨present, (scan_reads_pragmas 0 source).2.2 present⟩

end SourceScan
end SolidityVetting
