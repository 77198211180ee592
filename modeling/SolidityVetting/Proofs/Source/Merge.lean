import SolidityVetting.Proofs.Source.DeclaredVersions
import SolidityVetting.Proofs.Source.Kept
import SolidityVetting.Proofs.Text.Lines

set_option autoImplicit false

namespace SolidityVetting.SourceScan
open Pattern Rule

section
variable {rule : Rule} {text : List Char} {f : Finding}

def rank (code : String) : Nat := (table.map (·.code)).idxOf code

/-- On an earlier line, or on the same line for an earlier rule of the table. -/
def StandsBefore (f g : Finding) : Prop := ∃ m n, f.line = some m ∧ g.line = some n ∧
  (m < n ∨ m = n ∧ rank f.code < rank g.code)

theorem table_sorted : table.Pairwise fun r s => rank r.code < rank s.code := by
  have codes : (table.map (·.code)).Pairwise fun c d => rank c < rank d := by decide
  rwa [List.pairwise_map] at codes

theorem zipIdx_sorted {α : Type} (xs : List α) (first : Nat) :
    (xs.zipIdx first).Pairwise fun a b => a.2 < b.2 := by
  have numbers := List.pairwise_lt_range' (s := first) (n := xs.length) 1
  rw [← List.zipIdx_map_snd] at numbers
  exact List.pairwise_map.1 numbers

theorem onLine_found {line : List Char} {number : Nat}
    (h : (Attempt.onLine line number rule).found = some f) :
    f.line = some number ∧ f.code = rule.code := by
  have ⟨hit, _, hf⟩ := Option.map_eq_some_iff.1 h
  rw [← hf]
  exact ⟨rfl, rfl⟩

theorem ofLines_sorted (text : List Char) : (ofLines text).Pairwise StandsBefore := by
  refine List.Pairwise.sublist kept_sublist ?_
  rw [List.pairwise_filterMap, attemptsFrom_eq, List.pairwise_flatMap]
  constructor
  · intro numbered _
    refine List.pairwise_map.2 (table_sorted.imp fun {r s} before f hf g hg => ?_)
    have ⟨line, code⟩ := onLine_found hf
    have ⟨line', code'⟩ := onLine_found hg
    exact ⟨_, _, line, line', .inr ⟨rfl, by rw [code, code']; exact before⟩⟩
  · refine (zipIdx_sorted _ 1).imp fun {n m} before a ha b hb f hf g hg => ?_
    have ⟨r, _, own⟩ := List.mem_map.1 ha
    have ⟨r', _, own'⟩ := List.mem_map.1 hb
    subst own own'
    exact ⟨_, _, (onLine_found hf).1, (onLine_found hg).1, .inl before⟩

theorem ofWhole_sorted (text : List Char) :
    (ofWhole text).Pairwise fun f g => rank f.code < rank g.code := by
  refine List.Pairwise.sublist kept_sublist ?_
  rw [List.pairwise_filterMap, List.pairwise_map]
  refine table_sorted.imp_of_mem fun {r s} hr hs before f hf g hg => ?_
  rw [(sound_onText text hr).code f hf, (sound_onText text hs).code g hg]
  exact before

def LineIn (text : List Char) (f : Finding) : Prop :=
  ∀ n, f.line = some n → 1 ≤ n ∧ n ≤ text.count '\n' + 1

theorem lineIn_of_isIn {hit : Hit} (inText : hit.start.IsIn text 0 0)
    (h : f.line = some hit.line) : LineIn text f := by
  intro n hn
  rw [h] at hn
  cases hn
  have whole := congrArg (List.count '\n') inText.1
  rw [List.count_append, List.count_reverse] at whole
  unfold Hit.line Text.lineAfter
  omega

theorem OnLine.lineIn (h : OnLine rule text f) : LineIn text f := by
  have ⟨front, line, back, hit, whole, _, _, hf⟩ := h
  intro n hn
  rw [hf] at hn
  cases hn
  have few := Text.length_lines_le text
  rw [whole, List.length_append, List.length_cons] at few
  omega

theorem OnText.lineIn (h : OnText rule text f) : LineIn text f := by
  have ⟨_, hit, _, leftmost, hf⟩ := h
  exact lineIn_of_isIn leftmost.start_isIn (by rw [hf]; rfl)

def checks (threshold : Nat) (text : List Char) : List Finding :=
  versionFindings text ++ reentrancyFindings text ++ sizeFindings threshold text

theorem scan_eq_ofFindings (threshold : Nat) (source : String) : scan threshold source =
    .ofFindings .source (ofLines source.toList ++ ofWhole source.toList ++
      checks threshold source.toList) := by
  rw [scan_eq, ofRules_eq_ofFindings]
  exact (List.foldl_append ..).symm

theorem codes_toList_sublist {α : Type} (finding : α → Finding) {own : String}
    (h : ∀ a, (finding a).code = own) (o : Option α) :
    (((o.map finding).toList).map (·.code)).Sublist [own] := by
  cases o with
  | none => simp
  | some a => simp [h a]

theorem codes_versionFindings_sublist (text : List Char) :
    ((versionFindings text).map (·.code)).Sublist
      ["NO_PRAGMA", "UNPARSEABLE_PRAGMA", "OLD_SOLIDITY"] := by
  unfold versionFindings
  split
  · exact .cons_cons _ (List.nil_sublist _)
  · rw [List.map_append]
    exact .cons _ ((codes_toList_sublist unreadablePragma (fun _ => rfl) _).append
      (codes_toList_sublist oldVersion (fun _ => rfl) _))

theorem codes_checks_sublist (threshold : Nat) (text : List Char) :
    ((checks threshold text).map (·.code)).Sublist structuralCodes := by
  have reentrancy : ((reentrancyFindings text).map (·.code)).Sublist ["REENTRANCY_RISK"] := by
    unfold reentrancyFindings
    split
    · exact List.nil_sublist _
    · split
      · exact List.nil_sublist _
      · exact List.Sublist.refl _
  have size : ((sizeFindings threshold text).map (·.code)).Sublist ["LARGE_SOURCE"] := by
    unfold sizeFindings
    dsimp only
    split
    · exact List.Sublist.refl _
    · exact List.nil_sublist _
  unfold checks
  rw [List.map_append, List.map_append]
  exact ((codes_versionFindings_sublist text).append reentrancy).append size

theorem line_of_mem_versionFindings (h : f ∈ versionFindings text) :
    f.line = none ∨ ∃ hit ∈ versionPragma.hits text, f.line = some hit.line := by
  unfold versionFindings at h
  split at h
  · rw [List.mem_singleton.1 h]
    exact .inl rfl
  · right
    rcases List.mem_append.1 h with h | h
    · have ⟨hit, found, hf⟩ := Option.map_eq_some_iff.1 (Option.mem_toList.1 h)
      exact ⟨hit, List.mem_of_find?_eq_some found, by rw [← hf]; rfl⟩
    · have ⟨low, kept, hf⟩ := Option.map_eq_some_iff.1 (Option.mem_toList.1 h)
      have ⟨least, _⟩ := Option.filter_eq_some_iff.1 kept
      have ⟨hit, first, line⟩ := least ▸ keeps_lowest (versionPragma.hits text)
      have ⟨_, before, after, split, _⟩ := first
      exact ⟨hit, by simp [split], by rw [← hf, oldVersion, line]⟩

theorem lineIn_of_mem_checks {threshold : Nat} (h : f ∈ checks threshold text) :
    LineIn text f := by
  have unplaced (none : f.line = none) : LineIn text f := fun n hn => by
    rw [none] at hn
    cases hn
  rcases List.mem_append.1 h with h | h
  · rcases List.mem_append.1 h with h | h
    · rcases line_of_mem_versionFindings h with none | ⟨hit, mem, line⟩
      · exact unplaced none
      · exact lineIn_of_isIn (of_mem_hitsFrom (Place.isIn_start text) mem).1 line
    · unfold reentrancyFindings at h
      split at h
      · cases h
      · next site found =>
        split at h
        · cases h
        · rw [List.mem_singleton.1 h]
          exact lineIn_of_isIn (leftmost_of_searchFrom? (Place.isIn_start text) found).start_isIn rfl
  · apply unplaced
    unfold sizeFindings at h
    dsimp only at h
    split at h
    · rw [List.mem_singleton.1 h]
    · cases h

end

/-- The findings of one severity, cut into those of the lines, those of the whole text and others. -/
structure Passes (text : List Char) (severity : Severity)
    (onLines onText others : List Finding) : Prop where
  mem_onLines (f : Finding) :
    f ∈ onLines ↔ ∃ rule ∈ table, rule.severity = severity ∧ OnLine rule text f
  onLines_sorted : onLines.Pairwise StandsBefore
  mem_onText (f : Finding) :
    f ∈ onText ↔ ∃ rule ∈ table, rule.severity = severity ∧ OnText rule text f
  onText_sorted : onText.Pairwise fun f g => rank f.code < rank g.code
  others_foreign : ∀ f ∈ others, ∀ rule ∈ table, f.code ≠ rule.code

/-- The report is what the two passes over the text find, and the checks behind them. -/
structure Merges (text : List Char) (r : Report) : Prop where
  one_each : (r.findings.map (·.code)).Nodup
  reported_iff : ∀ rule ∈ table, (∃ f ∈ r.findings, f.code = rule.code) ↔
    (∃ line ∈ Text.lines text, rule.linePattern.occursIn line = true) ∨
      rule.wholePattern.occursIn text = true
  placed : ∀ rule ∈ table, ∀ f ∈ r.findings, f.code = rule.code →
    OnLine rule text f ∨ OnText rule text f
  lines_exist : ∀ f ∈ r.findings, ∀ n, f.line = some n → 1 ≤ n ∧ n ≤ text.count '\n' + 1
  ordered : ∀ severity, ∃ onLines onText others,
    r.listed severity = onLines ++ onText ++ others ∧
      Passes text severity onLines onText others

theorem code_ne_of_mem_checks {threshold : Nat} {text : List Char} {f : Finding}
    (h : f ∈ checks threshold text) {rule : Rule} (hr : rule ∈ table) : f.code ≠ rule.code := by
  intro same
  apply code_not_structural hr
  rw [← same]
  exact (codes_checks_sublist threshold text).subset (List.mem_map_of_mem h)

theorem code_nodup (threshold : Nat) (text : List Char) :
    ((ofLines text ++ ofWhole text ++ checks threshold text).map (·.code)).Nodup := by
  rw [← kept_attempts, List.map_append, List.nodup_append]
  have sound : ∀ a ∈ attempts text, a.Sound := fun a ha => sound_of_mem_attempts ha
  refine ⟨nodup_kept sound, (codes_checks_sublist threshold text).nodup (by decide), ?_⟩
  intro c hc d hd same
  have ⟨f, hf, code⟩ := List.mem_map.1 hc
  have ⟨g, hg, code'⟩ := List.mem_map.1 hd
  have ⟨rule, hr, own⟩ := exists_rule_of_mem_kept sound hf
  exact code_ne_of_mem_checks hg hr (code'.trans (same.symm.trans (code.symm.trans own)))

/-- Every code is reported once, at the first place where its rule matches, line by line if it
matches a line and else in the whole text, and the findings stand in the order of these passes. -/
theorem scan_merges_passes (threshold : Nat) (source : String) :
    Merges source.toList (scan threshold source) := by
  let text := source.toList
  let pushed := ofLines text ++ ofWhole text ++ checks threshold text
  -- a report is sorted by severity, so it is what was pushed only up to order
  have perm : (scan threshold source).findings.Perm pushed := by
    rw [scan_eq_ofFindings]
    exact Report.perm_findings_ofFindings .source pushed
  have cases_of_mem {f : Finding} (h : f ∈ (scan threshold source).findings) :
      (f ∈ ofLines text ∨ f ∈ ofWhole text) ∨ f ∈ checks threshold text := by
    have mem := perm.mem_iff.1 h
    rwa [List.mem_append, List.mem_append] at mem
  constructor
  case one_each => exact (perm.map (·.code)).nodup_iff.2 (code_nodup threshold text)
  case reported_iff =>
    intro rule hr
    rw [← Report.hasCode_iff]
    exact hasCode_scan_iff threshold source hr
  case placed =>
    intro rule hr f hf code
    rcases cases_of_mem hf with (mem | mem) | mem
    · exact .inl ((mem_ofLines_iff hr code).1 mem)
    · exact .inr ((mem_ofWhole_iff hr code).1 mem)
    · exact absurd code (code_ne_of_mem_checks mem hr)
  case lines_exist =>
    intro f hf
    rcases cases_of_mem hf with (mem | mem) | mem
    · have ⟨_, _, onLine⟩ := mem_ofLines_iff_exists.1 mem
      exact onLine.lineIn
    · have ⟨_, _, onText⟩ := mem_ofWhole_iff_exists.1 mem
      exact onText.lineIn
    · exact lineIn_of_mem_checks mem
  case ordered =>
    intro severity
    refine ⟨Report.ofSeverity severity (ofLines text), Report.ofSeverity severity (ofWhole text),
      Report.ofSeverity severity (checks threshold text), ?_, ?_⟩
    · rw [scan_eq_ofFindings, Report.listed_ofFindings, Report.ofSeverity_append,
        Report.ofSeverity_append]
    · exact {
        mem_onLines := fun f =>
          mem_ofSeverity_iff mem_ofLines_iff_exists (fun _ => OnLine.severity) severity
        onLines_sorted := (ofLines_sorted text).filter _
        mem_onText := fun f =>
          mem_ofSeverity_iff mem_ofWhole_iff_exists (fun _ => OnText.severity) severity
        onText_sorted := (ofWhole_sorted text).filter _
        others_foreign := fun f hf rule => code_ne_of_mem_checks (List.mem_of_mem_filter hf) }

end SolidityVetting.SourceScan
