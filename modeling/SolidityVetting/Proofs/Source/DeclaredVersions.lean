import SolidityVetting.Proofs.Source.Codes
import SolidityVetting.Proofs.Source.Pragma

set_option autoImplicit false

namespace SolidityVetting
open Version

theorem versionPragma_takes (s : Place) : ∀ t ∈ Rule.versionPragma.ends s,
    t.after.length < s.after.length := by
  intro t ht
  obtain ⟨lead, body, pragma, -, -⟩ := isPragma_of_ends ht
  exact pragma.length_lt

theorem successive_pragmas (text : List Char) : Pattern.Successive Rule.versionPragma text
    (.start text) (Rule.versionPragma.hits text) :=
  Pattern.successive_hitsFrom versionPragma_takes (Place.isIn_start text)

namespace SourceScan

structure FirstLeast (pragmas : List Hit) (hit : Hit) (v : Version) : Prop where
  declares : ofConstraint? hit.text = some v
  least : ∃ before after, pragmas = before ++ hit :: after ∧
    (∀ other ∈ before, ∀ w, ofConstraint? other.text = some w → v < w) ∧
    ∀ other ∈ after, ∀ w, ofConstraint? other.text = some w → v ≤ w

def Keeps (seen : List Hit) (low : Option Declared) : Prop :=
  match low with
  | none => ∀ hit ∈ seen, ofConstraint? hit.text = none
  | some d => ∃ hit, FirstLeast seen hit d.version ∧ d.line = hit.line

theorem FirstLeast.snoc {seen : List Hit} {hit next : Hit} {v : Version}
    (h : FirstLeast seen hit v) (hn : ∀ w, ofConstraint? next.text = some w → v ≤ w) :
    FirstLeast (seen ++ [next]) hit v := by
  obtain ⟨before, after, rfl, above, notBelow⟩ := h.least
  refine ⟨h.declares, before, after ++ [next], by simp, above, fun other ho => ?_⟩
  obtain ho | ho := List.mem_append.1 ho
  · exact notBelow other ho
  · rw [List.mem_singleton.1 ho]
    exact hn

theorem FirstLeast.snoc_of_lt {seen : List Hit} {next : Hit} {w : Version}
    (declares : ofConstraint? next.text = some w)
    (above : ∀ other ∈ seen, ∀ u, ofConstraint? other.text = some u → w < u) :
    FirstLeast (seen ++ [next]) next w :=
  ⟨declares, seen, [], rfl, above, fun _ ho => absurd ho List.not_mem_nil⟩

theorem FirstLeast.lt_of_lt {seen : List Hit} {hit : Hit} {v w : Version}
    (h : FirstLeast seen hit v) (hw : w < v) :
    ∀ other ∈ seen, ∀ u, ofConstraint? other.text = some u → w < u := by
  obtain ⟨before, after, rfl, above, notBelow⟩ := h.least
  intro other ho u hu
  obtain ho | ho := List.mem_append.1 ho
  · exact lt_of_lt_of_le hw (le_of_lt (above other ho u hu))
  obtain rfl | ho := List.mem_cons.1 ho
  · rw [h.declares] at hu
    exact Option.some.inj hu ▸ hw
  · exact lt_of_lt_of_le hw (notBelow other ho u hu)

theorem keeps_lower {seen : List Hit} {low : Option Declared} (h : Keeps seen low) (next : Hit) :
    Keeps (seen ++ [next]) (lower low next) := by
  unfold lower
  cases hn : ofConstraint? next.text with
  | none =>
    cases low with
    | none =>
      intro hit hm
      obtain hm | hm := List.mem_append.1 hm
      · exact h hit hm
      · rw [List.mem_singleton.1 hm]
        exact hn
    | some d =>
      obtain ⟨hit, first, line⟩ := h
      refine ⟨hit, first.snoc fun w hw => ?_, line⟩
      rw [hn] at hw
      cases hw
  | some w =>
    cases low with
    | none =>
      refine ⟨next, .snoc_of_lt hn fun other ho u hu => ?_, rfl⟩
      rw [h other ho] at hu
      cases hu
    | some d =>
      obtain ⟨hit, first, line⟩ := h
      dsimp only
      by_cases hw : w < d.version
      · rw [if_pos hw]
        exact ⟨next, .snoc_of_lt hn (first.lt_of_lt hw), rfl⟩
      · rw [if_neg hw]
        refine ⟨hit, first.snoc fun u hu => ?_, line⟩
        rw [hn] at hu
        exact Option.some.inj hu ▸ hw

theorem keeps_foldl {seen : List Hit} {low : Option Declared} (h : Keeps seen low)
    (rest : List Hit) : Keeps (seen ++ rest) (rest.foldl lower low) := by
  induction rest generalizing seen low with
  | nil => rwa [List.append_nil]
  | cons next rest ih =>
    have step := ih (keeps_lower h next)
    rwa [List.append_assoc] at step

theorem keeps_lowest (pragmas : List Hit) : Keeps pragmas (lowest pragmas) := by
  have start : Keeps [] none := fun _ hm => absurd hm List.not_mem_nil
  exact keeps_foldl start pragmas

/-- The first pragma whose constraint names no version. -/
structure FirstUnreadable (pragmas : List Hit) (hit : Hit) : Prop where
  unreadable : ofConstraint? hit.text = none
  first : ∃ before after, pragmas = before ++ hit :: after ∧
    ∀ other ∈ before, ofConstraint? other.text ≠ none

theorem firstUnreadable_of_unreadable? {pragmas : List Hit} {hit : Hit}
    (h : unreadable? pragmas = some hit) : FirstUnreadable pragmas hit := by
  obtain ⟨unreadable, before, after, cut, first⟩ := List.find?_eq_some_iff_append.1 h
  refine ⟨Option.isNone_iff_eq_none.1 unreadable, before, after, cut, fun other ho hn => ?_⟩
  have readable := first other ho
  rw [hn] at readable
  cases readable

theorem withCode_ofRules {code : String} (h : code ∈ structuralCodes) (text : List Char) :
    (ofRules text).withCode code = [] := by
  refine List.filter_eq_nil_iff.2 fun f hf hc => ?_
  obtain ⟨⟨rule, hr, same, -⟩, -⟩ := fromTable_ofRules text f hf
  apply code_not_structural hr
  rwa [same, beq_iff_eq.1 hc]

theorem withCode_scan {code : String} (h : code ∈ structuralCodes) (guard : "REENTRANCY_RISK" ≠ code)
    (size : "LARGE_SOURCE" ≠ code) (threshold : Nat) (source : String) :
    (scan threshold source).withCode code =
      (versionFindings source.toList).filter (·.code == code) := by
  have noGuard : (reentrancyFindings source.toList).filter (·.code == code) = [] :=
    List.filter_eq_nil_iff.2 fun f hf hc =>
      guard ((code_of_reentrancy hf).symm.trans (beq_iff_eq.1 hc))
  have noSize : (sizeFindings threshold source.toList).filter (·.code == code) = [] :=
    List.filter_eq_nil_iff.2 fun f hf hc => size ((code_of_size hf).symm.trans (beq_iff_eq.1 hc))
  rw [scan_eq, Report.withCode_pushAll (withCode_ofRules h source.toList), List.filter_append,
    List.filter_append, noGuard, noSize, List.append_nil, List.append_nil]
  intro f hf hc
  obtain hf | hf := List.mem_append.1 hf
  · obtain hf | hf := List.mem_append.1 hf
    · rw [← versionFindings_critical] at hf
      exact beq_iff_eq.1 (List.mem_filter.1 hf).2
    · exact absurd ((code_of_reentrancy hf).symm.trans hc) guard
  · exact absurd ((code_of_size hf).symm.trans hc) size

theorem filter_toList_map {α : Type} (finding : α → Finding) {own : String}
    (h : ∀ a, (finding a).code = own) (o : Option α) (code : String) :
    ((o.map finding).toList).filter (·.code == code) =
      if own = code then (o.map finding).toList else [] := by
  cases o with
  | none => simp
  | some a => simp [h a, List.filter_cons]

theorem versionFindings_of_nil {text : List Char} (h : Rule.versionPragma.hits text = []) :
    versionFindings text = [missingPragma] := by
  rw [versionFindings, h]

theorem filter_versionFindings (text : List Char) (code : String) :
    (versionFindings text).filter (·.code == code) =
      (if "NO_PRAGMA" = code ∧ Rule.versionPragma.hits text = [] then [missingPragma] else []) ++
      ((if "UNPARSEABLE_PRAGMA" = code then
        ((unreadable? (Rule.versionPragma.hits text)).map unreadablePragma).toList else []) ++
      if "OLD_SOLIDITY" = code then
        (((lowest (Rule.versionPragma.hits text)).filter (! ·.version.isSupported)).map
          oldVersion).toList
      else []) := by
  by_cases absent : Rule.versionPragma.hits text = []
  · have own : missingPragma.code = "NO_PRAGMA" := rfl
    have readable : unreadable? [] = none := rfl
    have unread : lowest [] = none := rfl
    rw [versionFindings_of_nil absent, absent, readable, unread]
    simp [List.filter_cons, own]
  · rw [if_neg fun both => absent both.2, List.nil_append]
    unfold versionFindings
    split
    · next none => exact absurd none absent
    · rw [List.filter_append, filter_toList_map unreadablePragma fun _ => rfl,
        filter_toList_map oldVersion fun _ => rfl]

section
variable (threshold : Nat) (source : String)

theorem withCode_missing : (scan threshold source).withCode "NO_PRAGMA" =
    if Rule.versionPragma.hits source.toList = [] then [missingPragma] else [] := by
  rw [withCode_scan (by decide) (by decide) (by decide), filter_versionFindings]
  simp

theorem withCode_unreadable : (scan threshold source).withCode "UNPARSEABLE_PRAGMA" =
    ((unreadable? (Rule.versionPragma.hits source.toList)).map unreadablePragma).toList := by
  rw [withCode_scan (by decide) (by decide) (by decide), filter_versionFindings]
  simp

theorem withCode_old : (scan threshold source).withCode "OLD_SOLIDITY" =
    (((lowest (Rule.versionPragma.hits source.toList)).filter (! ·.version.isSupported)).map
      oldVersion).toList := by
  rw [withCode_scan (by decide) (by decide) (by decide), filter_versionFindings]
  simp

end

theorem missingPragma_eq : missingPragma =
    { severity := .critical
      code := "NO_PRAGMA"
      message := "Missing `pragma solidity` version declaration (>= 0.8.20 required)" } := by
  decide

theorem unreadablePragma_eq (hit : Hit) : unreadablePragma hit =
    { severity := .critical
      code := "UNPARSEABLE_PRAGMA"
      message := "Cannot determine compiler version from pragma `" ++
        String.ofList (Text.trim hit.text) ++ "`"
      line := some (hit.start.before.count '\n' + 1) } :=
  rfl

theorem oldVersion_eq (v : Version) (hit : Hit) : oldVersion ⟨v, hit.line⟩ =
    { severity := .critical
      code := "OLD_SOLIDITY"
      message := "Solidity " ++ (toString v.major ++ "." ++ toString v.minor ++ "." ++
        toString v.patch) ++ " is below the minimum supported version 0.8.20"
      line := some (hit.start.before.count '\n' + 1) } := by
  have minimum_text : " is below the minimum supported version " ++ Version.minimum.text =
      " is below the minimum supported version 0.8.20" := by decide
  rw [← minimum_text, ← String.append_assoc]
  rfl

/-- What a report says of the versions that the pragmas of a text declare. A pragma stands on the
line after as many line feeds as there are in front of it. -/
structure JudgesVersions (pragmas : List Hit) (r : Report) : Prop where
  missing : pragmas = [] ∧ r.withCode "NO_PRAGMA" =
      [{ severity := .critical
         code := "NO_PRAGMA"
         message := "Missing `pragma solidity` version declaration (>= 0.8.20 required)" }] ∨
    pragmas ≠ [] ∧ r.withCode "NO_PRAGMA" = []
  unreadable : (∀ hit ∈ pragmas, ofConstraint? hit.text ≠ none) ∧
      r.withCode "UNPARSEABLE_PRAGMA" = [] ∨
    ∃ hit, FirstUnreadable pragmas hit ∧ r.withCode "UNPARSEABLE_PRAGMA" =
      [{ severity := .critical
         code := "UNPARSEABLE_PRAGMA"
         message := "Cannot determine compiler version from pragma `" ++
           String.ofList (Text.trim hit.text) ++ "`"
         line := some (hit.start.before.count '\n' + 1) }]
  old : (∀ hit ∈ pragmas, ofConstraint? hit.text = none) ∧ r.withCode "OLD_SOLIDITY" = [] ∨
    ∃ hit v, FirstLeast pragmas hit v ∧
      (v < ⟨0, 8, 20⟩ ∧ r.withCode "OLD_SOLIDITY" =
          [{ severity := .critical
             code := "OLD_SOLIDITY"
             message := "Solidity " ++ (toString v.major ++ "." ++ toString v.minor ++ "." ++
               toString v.patch) ++ " is below the minimum supported version 0.8.20"
             line := some (hit.start.before.count '\n' + 1) }] ∨
        ⟨0, 8, 20⟩ ≤ v ∧ r.withCode "OLD_SOLIDITY" = [])
  accepted : r.critical = [] → pragmas ≠ [] ∧
    ∀ hit ∈ pragmas, ∃ v, ofConstraint? hit.text = some v ∧ ⟨0, 8, 20⟩ ≤ v

theorem accepted_of_critical_eq_nil {threshold : Nat} {source : String}
    (h : (scan threshold source).critical = []) : Rule.versionPragma.hits source.toList ≠ [] ∧
      ∀ hit ∈ Rule.versionPragma.hits source.toList,
        ∃ v, ofConstraint? hit.text = some v ∧ ⟨0, 8, 20⟩ ≤ v := by
  obtain ⟨-, some_pragma, accepts⟩ := (passed_scan_iff threshold source).1
    ((Report.passed_iff _).2 h)
  refine ⟨some_pragma, fun hit hm => ?_⟩
  obtain ⟨v, read, supported⟩ := accepts hit hm
  exact ⟨v, read, (isSupported_iff v).1 supported⟩

theorem unreadable?_cases (pragmas : List Hit) :
    (∀ hit ∈ pragmas, ofConstraint? hit.text ≠ none) ∧ unreadable? pragmas = none ∨
      ∃ hit, FirstUnreadable pragmas hit ∧ unreadable? pragmas = some hit := by
  cases h : unreadable? pragmas with
  | none => exact .inl ⟨(unreadable?_eq_none_iff pragmas).1 h, rfl⟩
  | some hit => exact .inr ⟨hit, firstUnreadable_of_unreadable? h, rfl⟩

theorem lowest_cases (pragmas : List Hit) :
    (∀ hit ∈ pragmas, ofConstraint? hit.text = none) ∧ lowest pragmas = none ∨
      ∃ hit v, FirstLeast pragmas hit v ∧ lowest pragmas = some ⟨v, hit.line⟩ := by
  have kept := keeps_lowest pragmas
  cases h : lowest pragmas with
  | none =>
    rw [h] at kept
    exact .inl ⟨kept, rfl⟩
  | some d =>
    rw [h] at kept
    obtain ⟨hit, first, line⟩ := kept
    exact .inr ⟨hit, d.version, first, congrArg some (congrArg (Declared.mk d.version) line)⟩

/-- A missing pragma, the first one that cannot be read and the first of the least versions are each
reported exactly when there is one, once and at the line where the pragma starts. -/
theorem scan_judges_versions (threshold : Nat) (source : String) :
    Pattern.Successive Rule.versionPragma source.toList (.start source.toList)
        (Rule.versionPragma.hits source.toList) ∧
      JudgesVersions (Rule.versionPragma.hits source.toList) (scan threshold source) := by
  refine ⟨successive_pragmas source.toList, ?missing, ?unreadable, ?old,
    accepted_of_critical_eq_nil⟩
  case missing =>
    rw [withCode_missing]
    by_cases none : Rule.versionPragma.hits source.toList = []
    · exact .inl ⟨none, by rw [if_pos none, missingPragma_eq]⟩
    · exact .inr ⟨none, if_neg none⟩
  case unreadable =>
    rw [withCode_unreadable]
    obtain ⟨readable, h⟩ | ⟨hit, first, h⟩ := unreadable?_cases _
    · exact .inl ⟨readable, by rw [h]; rfl⟩
    · refine .inr ⟨hit, first, ?_⟩
      rw [h, ← unreadablePragma_eq]
      rfl
  case old =>
    rw [withCode_old]
    obtain ⟨unread, h⟩ | ⟨hit, v, first, h⟩ := lowest_cases _
    · exact .inl ⟨unread, by rw [h]; rfl⟩
    · refine .inr ⟨hit, v, first, ?_⟩
      rw [h]
      by_cases low : v < minimum
      · have old : v.isSupported = false := by
          rw [← Bool.not_eq_true, isSupported_iff, not_not]
          exact low
        refine .inl ⟨low, ?_⟩
        rw [← oldVersion_eq]
        simp [Option.filter, old]
      · have supported : v.isSupported = true := (isSupported_iff v).2 low
        exact .inr ⟨low, by simp [Option.filter, supported]⟩

end SourceScan
end SolidityVetting
