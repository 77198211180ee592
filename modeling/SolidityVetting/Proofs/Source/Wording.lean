import SolidityVetting.Proofs.Source.Merge

set_option autoImplicit false

namespace SolidityVetting

def OneLine (s : String) : Prop := '\n' ∉ s.toList

instance (s : String) : Decidable (OneLine s) := inferInstanceAs (Decidable (¬ _))

theorem OneLine.of_chars {s : String} {chars : List Char} (h : s = String.ofList chars)
    (free : '\n' ∉ chars) : OneLine s := by
  rw [OneLine, h, String.toList_ofList]
  exact free

theorem oneLine_append (s t : String) : OneLine (s ++ t) ↔ OneLine s ∧ OneLine t := by
  simp [OneLine, not_or]

theorem oneLine_toString (n : Nat) : OneLine (toString n) := by
  intro feed
  rw [Nat.toString_eq_repr, Nat.toList_repr] at feed
  have digit := Nat.isDigit_of_mem_toDigits (by decide) (by decide) feed
  exact absurd digit (by decide)

theorem Version.oneLine_text (v : Version) : OneLine v.text := by
  have dot : OneLine "." := by decide
  simp only [Version.text, oneLine_append, oneLine_toString, dot, and_self]

theorem Finding.oneLine_text_iff (f : Finding) :
    OneLine f.text ↔ OneLine f.code ∧ OneLine f.message := by
  have colon : OneLine ": " := by decide
  simp only [Finding.text, oneLine_append, colon, and_true]

namespace Rule

variable {rule : Rule} {words : String}

theorem fixed_of_mem_table (h : rule ∈ table) (grave : rule.severity ≠ .info) :
    ∃ words, rule.wording = .fixed words ∧ OneLine rule.code ∧ OneLine words := by
  unfold table at h
  simp only [List.mem_cons, List.not_mem_nil, or_false] at h
  rcases h with rfl | rfl | rfl | rfl | rfl | rfl | rfl | rfl | rfl | rfl
  case inr.inr.inr.inr.inr.inr.inr.inr.inr => exact absurd rfl grave
  all_goals exact ⟨_, rfl, .of_chars rfl (by decide), .of_chars rfl (by decide)⟩

theorem finding_of_fixed (fixed : rule.wording = .fixed words) (hit : Hit) :
    rule.finding hit = ⟨rule.severity, rule.code, words, none, none⟩ := by
  unfold finding message
  rw [fixed]

theorem oneLine_finding (h : rule ∈ table) (grave : rule.severity ≠ .info) (hit : Hit) (n : Nat) :
    OneLine ((rule.finding hit).atLine n).text := by
  obtain ⟨words, fixed, code, one⟩ := fixed_of_mem_table h grave
  rw [finding_of_fixed fixed, Finding.oneLine_text_iff]
  exact ⟨code, one⟩

end Rule

namespace SourceScan
open Pattern Rule

variable {text : List Char} {f : Finding}

theorem oneLine_of_mem_ofRules (h : f ∈ (ofRules text).critical) : OneLine f.text := by
  rw [ofRules_eq_ofFindings, Report.ofFindings_eq, Report.mem_ofSeverity, List.mem_append] at h
  obtain ⟨onLine | onText, critical⟩ := h
  · obtain ⟨rule, hr, found⟩ := mem_ofLines_iff_exists.1 onLine
    have grave : rule.severity ≠ .info := by rw [← found.severity, critical]; decide
    obtain ⟨_, _, _, hit, _, _, _, rfl⟩ := found
    exact oneLine_finding hr grave hit _
  · obtain ⟨rule, hr, found⟩ := mem_ofWhole_iff_exists.1 onText
    have grave : rule.severity ≠ .info := by rw [← found.severity, critical]; decide
    obtain ⟨_, hit, _, _, rfl⟩ := found
    exact oneLine_finding hr grave hit _

theorem oneLine_missingPragma : OneLine missingPragma.text := by decide

theorem oneLine_oldVersion (declared : Declared) : OneLine (oldVersion declared).text := by
  simp +decide only [oldVersion, Finding.oneLine_text_iff, oneLine_append, Version.oneLine_text]

theorem oneLine_unreadablePragma_iff (hit : Hit) :
    OneLine (unreadablePragma hit).text ↔ '\n' ∉ Text.trim hit.text := by
  simp +decide only [unreadablePragma, Finding.oneLine_text_iff, oneLine_append]
  simp [OneLine]

theorem unreadable?_eq_some_iff {pragmas : List Hit} {hit : Hit} :
    unreadable? pragmas = some hit ↔ FirstUnreadable pragmas hit := by
  constructor
  · exact firstUnreadable_of_unreadable?
  · rintro ⟨unreadable, before, after, cut, readable⟩
    refine List.find?_eq_some_iff_append.2 ⟨by rw [unreadable]; rfl, before, after, cut, ?_⟩
    intro other mem
    simpa [Option.isSome_iff_ne_none] using readable other mem

theorem mem_versionFindings_unreadable {hit : Hit}
    (h : FirstUnreadable (versionPragma.hits text) hit) :
    unreadablePragma hit ∈ versionFindings text := by
  have some_pragma : versionPragma.hits text ≠ [] := by
    obtain ⟨before, after, cut, -⟩ := h.first
    simp [cut]
  unfold versionFindings
  split
  · next none => exact absurd none some_pragma
  · simp [unreadable?_eq_some_iff.2 h]

theorem oneLine_or_unreadable (h : f ∈ versionFindings text) :
    OneLine f.text ∨ ∃ hit, FirstUnreadable (versionPragma.hits text) hit ∧
      f = unreadablePragma hit := by
  unfold versionFindings at h
  split at h
  · rw [List.mem_singleton.1 h]
    exact .inl oneLine_missingPragma
  · obtain h | h := List.mem_append.1 h
    · obtain ⟨hit, found, rfl⟩ := Option.map_eq_some_iff.1 (Option.mem_toList.1 h)
      exact .inr ⟨hit, unreadable?_eq_some_iff.1 found, rfl⟩
    · obtain ⟨low, -, rfl⟩ := Option.map_eq_some_iff.1 (Option.mem_toList.1 h)
      exact .inl (oneLine_oldVersion low)

theorem versionFindings_of_unreadable {hit : Hit} (alone : versionPragma.hits text = [hit])
    (unreadable : Version.ofConstraint? hit.text = none) :
    versionFindings text = [unreadablePragma hit] := by
  simp [versionFindings, alone, unreadable?, lowest, unreadable]

/-- Of the critical findings only the one that quotes a constraint can have more than one line. -/
theorem oneLine_or_unreadable_of_critical {threshold : Nat} {source : String}
    (h : f ∈ (scan threshold source).critical) :
    OneLine f.text ∨ ∃ hit, FirstUnreadable (versionPragma.hits source.toList) hit ∧
      f = unreadablePragma hit := by
  rw [critical_scan, List.mem_append] at h
  obtain byRule | byVersion := h
  · exact .inl (oneLine_of_mem_ofRules byRule)
  · exact oneLine_or_unreadable byVersion

theorem forall_oneLine_critical_iff (threshold : Nat) (source : String) :
    (∀ f ∈ (scan threshold source).critical, OneLine f.text) ↔
      ∀ hit, FirstUnreadable (versionPragma.hits source.toList) hit →
        '\n' ∉ Text.trim hit.text := by
  constructor
  · intro all hit first
    rw [← oneLine_unreadablePragma_iff]
    apply all
    rw [critical_scan]
    exact List.mem_append_right _ (mem_versionFindings_unreadable first)
  · intro quoted f mem
    obtain one | ⟨hit, first, rfl⟩ := oneLine_or_unreadable_of_critical mem
    · exact one
    · exact (oneLine_unreadablePragma_iff hit).2 (quoted hit first)

end SourceScan
end SolidityVetting
