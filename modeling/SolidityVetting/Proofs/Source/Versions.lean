import SolidityVetting.Proofs.Source.Rules
import SolidityVetting.Proofs.Version

set_option autoImplicit false

namespace SolidityVetting.SourceScan
open Version

def lower (low : Option Declared) (hit : Hit) : Option Declared :=
  match ofConstraint? hit.text, low with
  | none, low => low
  | some version, none => some ⟨version, hit.line⟩
  | some version, some low => some (if version < low.version then ⟨version, hit.line⟩ else low)

theorem lowest_eq (pragmas : List Hit) : lowest pragmas = pragmas.foldl lower none := rfl

def Supported (low : Option Declared) : Prop := ∀ d ∈ low, d.version.isSupported = true

theorem supported_lower_iff (low : Option Declared) (hit : Hit) :
    Supported (lower low hit) ↔ Supported low ∧
      ∀ v, ofConstraint? hit.text = some v → v.isSupported = true := by
  unfold lower Supported
  cases hv : ofConstraint? hit.text with
  | none => simp
  | some version =>
    cases low with
    | none => simp
    | some low =>
      by_cases hlt : version < low.version
      · have raised : version.isSupported = true → low.version.isSupported = true :=
          isSupported_of_not_lt (not_lt_of_lt hlt)
        simpa [hlt] using raised
      · have raised : low.version.isSupported = true → version.isSupported = true :=
          isSupported_of_not_lt hlt
        simpa [hlt] using raised

theorem supported_foldl_iff (pragmas : List Hit) (low : Option Declared) :
    Supported (pragmas.foldl lower low) ↔ Supported low ∧
      ∀ hit ∈ pragmas, ∀ v, ofConstraint? hit.text = some v → v.isSupported = true := by
  induction pragmas generalizing low with
  | nil => simp
  | cons hit rest ih =>
    rw [List.foldl_cons, ih, supported_lower_iff, List.forall_mem_cons, and_assoc]

theorem supported_lowest_iff (pragmas : List Hit) : Supported (lowest pragmas) ↔
    ∀ hit ∈ pragmas, ∀ v, ofConstraint? hit.text = some v → v.isSupported = true := by
  rw [lowest_eq, supported_foldl_iff]
  simp [Supported]

theorem unreadable?_eq_none_iff (pragmas : List Hit) :
    unreadable? pragmas = none ↔ ∀ hit ∈ pragmas, ofConstraint? hit.text ≠ none := by
  simp [unreadable?]

theorem oldVersion_eq_nil_iff (low : Option Declared) :
    ((low.filter (! ·.version.isSupported)).map oldVersion).toList = [] ↔ Supported low := by
  cases low <;> simp [Supported]

theorem versionFindings_eq_nil_iff (text : List Char) : versionFindings text = [] ↔
    Rule.versionPragma.hits text ≠ [] ∧
      ∀ hit ∈ Rule.versionPragma.hits text, Accepts hit.text := by
  unfold versionFindings
  split
  · next h => simp [h]
  · next h =>
    rw [List.append_eq_nil_iff, oldVersion_eq_nil_iff, supported_lowest_iff,
      Option.toList_eq_nil_iff, Option.map_eq_none_iff, unreadable?_eq_none_iff]
    constructor
    · rintro ⟨readable, supported⟩
      exact ⟨h, fun hit hm => (accepts_iff _).2 ⟨readable hit hm, supported hit hm⟩⟩
    · rintro ⟨-, all⟩
      exact ⟨fun hit hm => ((accepts_iff _).1 (all hit hm)).1,
        fun hit hm => ((accepts_iff _).1 (all hit hm)).2⟩

theorem scan_eq (threshold : Nat) (source : String) : scan threshold source =
    (ofRules source.toList).pushAll (versionFindings source.toList ++
      reentrancyFindings source.toList ++ sizeFindings threshold source.toList) := rfl

theorem versionFindings_critical (text : List Char) :
    Report.ofSeverity .critical (versionFindings text) = versionFindings text := by
  rw [Report.ofSeverity, List.filter_eq_self]
  intro f hf
  unfold versionFindings at hf
  split at hf
  · rw [List.mem_singleton.1 hf]
    rfl
  · obtain hf | hf := List.mem_append.1 hf
    · obtain ⟨hit, -, rfl⟩ := Option.map_eq_some_iff.1 (Option.mem_toList.1 hf)
      rfl
    · obtain ⟨low, -, rfl⟩ := Option.map_eq_some_iff.1 (Option.mem_toList.1 hf)
      rfl

theorem reentrancyFindings_critical (text : List Char) :
    Report.ofSeverity .critical (reentrancyFindings text) = [] := by
  unfold reentrancyFindings
  split
  · rfl
  · split <;> rfl

theorem sizeFindings_critical (threshold : Nat) (text : List Char) :
    Report.ofSeverity .critical (sizeFindings threshold text) = [] := by
  unfold sizeFindings
  dsimp only
  split <;> rfl

theorem critical_scan (threshold : Nat) (source : String) : (scan threshold source).critical =
    (ofRules source.toList).critical ++ versionFindings source.toList := by
  rw [scan_eq, Report.pushAll_eq]
  simp only [Report.ofSeverity_append, versionFindings_critical, reentrancyFindings_critical,
    sizeFindings_critical, List.append_nil]

theorem passed_scan_iff (threshold : Nat) (source : String) :
    (scan threshold source).passed = true ↔ (ofRules source.toList).passed = true ∧
      Rule.versionPragma.hits source.toList ≠ [] ∧
      ∀ hit ∈ Rule.versionPragma.hits source.toList, Accepts hit.text := by
  rw [Report.passed_iff, critical_scan, List.append_eq_nil_iff, versionFindings_eq_nil_iff,
    Report.passed_iff]

def isDeclared (text : List Char) : Bool :=
  let reached := ((Place.start text).onwards text).flatMap fun v => Rule.versionPragma.ends v.bare
  ! reached.isEmpty && reached.all fun t =>
    t.captured.any fun span => (ofConstraint? span.chars).any (·.isSupported)

theorem passed_scan_of_places {threshold : Nat} {source : String}
    (clean : isClean source.toList = true) (declared : isDeclared source.toList = true) :
    (scan threshold source).passed = true := by
  rcases Bool.and_eq_true_iff.1 declared with ⟨some_reached, all_read⟩
  have inText := Place.isIn_start source.toList
  have reads : ∀ v ∈ (Place.start source.toList).onwards source.toList,
      ∀ t ∈ Rule.versionPragma.ends v.bare,
        (t.captured.any fun span => (ofConstraint? span.chars).any (·.isSupported)) = true := by
    intro v hv t ht
    exact List.all_eq_true.1 all_read t (List.mem_flatMap.2 ⟨v, hv, ht⟩)
  rw [passed_scan_iff]
  refine ⟨passed_ofRules_of_isClean clean, ?_, ?_⟩
  · intro none
    have absent := Pattern.search?_eq_none_iff.1 (Pattern.hitsFrom_eq_nil_iff.1 none)
    have reached : ((Place.start source.toList).onwards source.toList).flatMap
        (fun v => Rule.versionPragma.ends v.bare) = [] := by
      rw [List.flatMap_eq_nil_iff]
      intro v hv
      exact absent v (Place.isIn_onwards inText rfl hv)
    rw [reached] at some_reached
    cases some_reached
  · intro hit mem
    rcases Pattern.of_mem_hitsFrom inText mem with ⟨startIn, hle, ends⟩
    have read := Pattern.forall_ends_of_onwards inText reads startIn hle _ ends
    rcases (Option.any_eq_true _ _).1 read with ⟨span, captured, read⟩
    rcases (Option.any_eq_true _ _).1 read with ⟨version, named, supported⟩
    have text : hit.text = span.chars := by
      rw [Hit.text, captured]
      rfl
    exact ⟨version, by rw [text, named], supported⟩

end SolidityVetting.SourceScan
