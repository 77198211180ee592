import SolidityVetting.Gate.Run
import SolidityVetting.Proofs.NameMap
import SolidityVetting.Proofs.Pattern.Surroundings
import SolidityVetting.Proofs.Source.Codes

set_option autoImplicit false

namespace SolidityVetting

open Place Pattern Text

namespace Pattern

def EndsElsewhere (p : Pattern) : Prop :=
  ∀ s t, t ∈ p.ends s → ∃ c rest, t.before = c :: rest ∧ c ≠ '\r'

theorem occursIn_dropReturn {p : Pattern} (flat : p.isFlat = true) (elsewhere : p.EndsElsewhere)
    {line : List Char} (found : p.occursIn line = true) : p.occursIn (dropReturn line) = true := by
  obtain same | cut := dropReturn_cases line
  · rw [same]
    exact found
  · rw [cut] at found
    apply occursIn_of_append flat (by decide) _ found
    intro u hu t ht
    obtain ⟨c, rest, hc, other⟩ := elsewhere u.bare t ht
    have inText := (isIn_ends p (isIn_bare hu) ht).1
    cases ha : t.after with
    | cons d more =>
      rw [List.length_cons, List.length_cons]
      exact Nat.succ_le_succ (Nat.zero_le _)
    | nil =>
      rw [hc, ha, List.append_nil, List.reverse_cons] at inText
      have last := (List.append_inj' inText rfl).2
      exact absurd (List.cons.inj last).1 other

theorem endsElsewhere_exactly (p : Pattern) (text : String) (init : List Char) (c : Char)
    (hc : c ≠ '\r') (spelled : text.toList = init ++ [c]) : (p ++ exactly text).EndsElsewhere := by
  intro s t ht
  obtain ⟨u, -, ht⟩ := mem_ends_seq.1 ht
  obtain ⟨rest, -, rfl⟩ := mem_ends_exactly.1 ht
  refine ⟨c, init.reverse ++ u.before, ?_, hc⟩
  rw [past_before, spelled, List.reverse_append]
  rfl

theorem endsElsewhere_seq (p : Pattern) {q : Pattern} (h : q.EndsElsewhere) :
    (p ++ q).EndsElsewhere := by
  intro s t ht
  obtain ⟨u, -, ht⟩ := mem_ends_seq.1 ht
  exact h u t ht

theorem endsElsewhere_anyCase (p : Pattern) (text : String) (init : List Char) (c : Char)
    (hc : c.toLower ≠ '\r') (spelled : text.toList = init ++ [c]) :
    (p ++ anyCase text).EndsElsewhere := by
  intro s t ht
  obtain ⟨u, -, ht⟩ := mem_ends_seq.1 ht
  obtain ⟨taken, rest, -, same, rfl⟩ := mem_ends_anyCase.1 ht
  rw [spelled, List.map_append] at same
  obtain ⟨front, last, rfl, -, hl⟩ := List.map_eq_append_iff.1 same
  obtain ⟨d, more, rfl, lower, hm⟩ := List.map_eq_cons_iff.1 hl
  obtain rfl := List.map_eq_nil_iff.1 hm
  refine ⟨d, front.reverse ++ u.before, by simp, ?_⟩
  rintro rfl
  exact hc lower.symm

end Pattern

namespace SourceScan
open Rule

variable {rule : Rule}

theorem spanning_cases (h : rule ∈ table) : rule.spanning = none ∨
    rule.linePattern = upgradeableImport ∨ rule.linePattern = create2Near := by
  have all : ∀ r ∈ table, r.spanning = none ∨ r.linePattern = upgradeableImport ∨
      r.linePattern = create2Near := by
    unfold table
    simp only [List.forall_mem_cons, List.not_mem_nil, false_implies, implies_true, and_true,
      true_or, or_true]
  exact all rule h

theorem occursIn_dropReturn_of_spanning (h : rule ∈ table) (own : rule.spanning ≠ none)
    {line : List Char} (found : rule.linePattern.occursIn line = true) :
    rule.linePattern.occursIn (dropReturn line) = true := by
  obtain none | same | same := spanning_cases h
  · exact absurd none own
  · rw [same] at found ⊢
    apply occursIn_dropReturn rfl _ found
    exact endsElsewhere_anyCase _ "upgradeable" "upgradeabl".toList 'e' (by decide) (by decide)
  · rw [same] at found ⊢
    apply occursIn_dropReturn rfl _ found
    apply endsElsewhere_seq
    exact endsElsewhere_exactly _ "(" [] '(' (by decide) (by decide)

theorem fires_around {front text back : List Char} (hf : EndsLine front) (hb : StartsBreak back)
    (h : rule ∈ table) (fires : Fires rule text) : Fires rule (front ++ text ++ back) := by
  have apart := apart_of_lines hf hb
  obtain ⟨line, hl, found⟩ | found := fires
  · cases own : rule.spanning with
    | none =>
      -- the same pattern is tried on the whole text, where no line end is taken away
      have whole : rule.wholePattern = rule.linePattern := by rw [wholePattern, own]; rfl
      right
      rw [whole]
      exact occursIn_within apart (occursIn_of_mem_lines hl found)
    | some pattern =>
      have shortened :=
        occursIn_dropReturn_of_spanning h (by rw [own]; exact Option.some_ne_none _) found
      obtain kept | cut := mem_lines_around hf hb hl
      · exact .inl ⟨line, kept, found⟩
      · exact .inl ⟨dropReturn line, cut, shortened⟩
  · exact .inr (occursIn_within apart found)

end SourceScan

namespace Run

theorem exists_around_of_source {sources : Sources} {name text : String}
    (h : sources.get? name = some text) : ∃ front back,
      (joinedText sources).toList = front ++ text.toList ++ back ∧ EndsLine front ∧
        StartsBreak back := by
  have mem : text ∈ sources.values :=
    List.mem_map.2 ⟨(name, text), (sources.get?_eq_some_iff name text).1 h, rfl⟩
  rw [joinedText, String.toList_intercalate]
  exact exists_around_of_mem_intercalate (List.mem_map_of_mem mem)

theorem screen_of_critical {s : Settings} {sources : Sources} (primary : Option String)
    {f : Finding} (some_source : sources.isEmpty = false)
    (h : f ∈ (SourceScan.scan s.limits.largeSource (joinedText sources)).critical) :
    screen s ⟨sources, primary⟩ =
      .error (.source (SourceScan.scan s.limits.largeSource (joinedText sources)).critical) := by
  have failed : (SourceScan.scan s.limits.largeSource (joinedText sources)).passed = false :=
    Report.passed_eq_false_of_critical h
  unfold screen
  rw [some_source]
  dsimp only
  rw [failed]
  rfl

/-- What a rule finds in one file, it finds in the joined text; if the rule is critical, every run
on the set of files is refused by the source scan, which lists the code. -/
theorem hasCode_joinedText {sources : Sources} {name text : String}
    (h : sources.get? name = some text) {rule : Rule} (hr : rule ∈ Rule.table) {threshold : Nat}
    (found : (SourceScan.scan threshold text).hasCode rule.code = true) :
    (∀ bound, (SourceScan.scan bound (joinedText sources)).hasCode rule.code = true) ∧
      (rule.severity = .critical → ∀ s compiler primary, ∃ findings,
        vet s compiler ⟨sources, primary⟩ = .error (.source findings) ∧
          ∃ f ∈ findings, f.code = rule.code) := by
  have joined : ∀ bound,
      (SourceScan.scan bound (joinedText sources)).hasCode rule.code = true := by
    intro bound
    obtain ⟨front, back, around, ended, broken⟩ := exists_around_of_source h
    rw [SourceScan.hasCode_scan_iff _ _ hr] at found ⊢
    rw [around]
    exact SourceScan.fires_around ended broken hr found
  refine ⟨joined, ?_⟩
  intro critical s compiler primary
  obtain ⟨f, hf, code⟩ :=
    SourceScan.exists_critical_of_hasCode hr critical (joined s.limits.largeSource)
  refine ⟨_, ?_, f, hf, code⟩
  have some_source : sources.isEmpty = false := by
    have mem := (sources.get?_eq_some_iff name text).1 h
    rw [NameMap.isEmpty, List.isEmpty_eq_false_iff]
    exact List.ne_nil_of_mem mem
  unfold vet
  rw [screen_of_critical primary some_source hf]
  rfl

theorem hasCode_joinedText_import :
    let text := "import \"./Upgradeable.sol\"\r"
    let sources : Sources := .ofList [("Token.sol", "pragma solidity ^0.8.24;"), ("Base.sol", text)]
    let rule := Rule.table[6]
    sources.get? "Base.sol" = some text ∧ (SourceScan.scan 0 text).hasCode rule.code = true ∧
      (∀ bound, (SourceScan.scan bound (joinedText sources)).hasCode rule.code = true) ∧
      ∀ s compiler primary, ∃ findings,
        vet s compiler ⟨sources, primary⟩ = .error (.source findings) ∧
          ∃ f ∈ findings, f.code = "UPGRADEABLE_IMPORT" := by
  intro text sources rule
  have here : sources.get? "Base.sol" = some text :=
    (NameMap.get?_ofList_iff (by decide) "Base.sol" text).2
      (List.mem_cons_of_mem _ List.mem_cons_self)
  have mem : rule ∈ Rule.table := List.getElem_mem _
  have found : (SourceScan.scan 0 text).hasCode rule.code = true := by
    rw [SourceScan.hasCode_scan_iff 0 text mem]
    left
    refine ⟨text.toList, by decide, occursIn_iff.2 ⟨.start text.toList, isIn_start _, ?_⟩⟩
    apply List.exists_mem_of_ne_nil
    rw [← List.isEmpty_eq_false_iff]
    decide +kernel
  have all := hasCode_joinedText here mem found
  exact ⟨here, found, all.1, all.2 rfl⟩

end Run
end SolidityVetting
