import Mathlib.Data.List.Infix
import SolidityVetting.Proofs.Imports.Directives
import SolidityVetting.Proofs.Imports.Path
import SolidityVetting.Proofs.Pattern.Words
import SolidityVetting.Proofs.Source.Codes

set_option autoImplicit false

namespace SolidityVetting
open Place Pattern Text Rule

structure Mention where
  /-- What stands between the keyword and the name. -/
  words : List Char
  name : List Char
  edge : StartsFree (words ++ name)
  unfinished : ';' ∉ words
  spelled : name.map Char.toLower = "upgradeable".toList

namespace Mention

def text (m : Mention) : List Char := "import".toList ++ (m.words ++ m.name)

-- stated apart, since unfolding by equations evaluates the keyword
theorem text_eq (m : Mention) : m.text = "import".toList ++ (m.words ++ m.name) := rfl

theorem name_ne_nil (m : Mention) : m.name ≠ [] := by
  intro empty
  have spelled := m.spelled
  rw [empty] at spelled
  exact absurd spelled (by decide)

theorem text_ne_nil (m : Mention) : m.text ≠ [] := List.append_ne_nil_of_left_ne_nil (by decide) _

theorem getLast?_text (m : Mention) : m.text.getLast? ≠ some '\r' := by
  intro ends
  rw [text_eq, ← List.append_assoc, List.getLast?_append,
    List.getLast?_eq_some_getLast m.name_ne_nil] at ends
  have last : '\r' ∈ m.name := Option.some.inj ends ▸ List.getLast_mem m.name_ne_nil
  have letter : '\r'.toLower ∈ "upgradeable".toList := m.spelled ▸ List.mem_map_of_mem last
  exact absurd letter (by decide)

end Mention

variable {before taken rest : List Char}

theorem describes_mention {appetite : Appetite} :
    (wordEdge ++ exactly "import" ++ wordEdge ++ run appetite (· != ';') ++
        anyCase "upgradeable").Describes before taken rest ↔
      touchesWord before = false ∧ ∃ m : Mention, taken = m.text := by
  constructor
  · intro ⟨_, name, split, ⟨_, words, split', hkeyword, hwords⟩, hname⟩
    have ⟨keyword, free, edge⟩ := (describes_keyword (by decide) (by decide)).1 hkeyword
    subst keyword split' split
    rw [← startsFree_iff, ← List.append_assoc] at edge
    exact ⟨free, ⟨words, name, edge.of_append, describes_run_ne.1 hwords,
      describes_anyCase.1 hname⟩, List.append_assoc ..⟩
  · intro ⟨free, m, split⟩
    subst split
    have edge : touchesWord (m.words ++ (m.name ++ rest)) = false := by
      have starts := m.edge
      have ⟨c, more, cut⟩ := List.exists_cons_of_ne_nil m.name_ne_nil
      rw [startsFree_iff, cut, touchesWord_append_cons] at starts
      rw [cut, List.cons_append, touchesWord_append_cons, starts]
    exact ⟨_, m.name, (List.append_assoc ..).symm,
      ⟨_, m.words, rfl, (describes_keyword (by decide) (by decide)).2 ⟨rfl, free, edge⟩,
        describes_run_ne.2 m.unfinished⟩, describes_anyCase.2 m.spelled⟩

theorem describes_upgradeableDirective :
    upgradeableDirective.Describes before taken rest ↔ touchesWord before = false ∧
      ∃ m : Mention, ∃ more, taken = m.text ++ (more ++ [';']) ∧ ';' ∉ more := by
  constructor
  · intro ⟨_, _, split, ⟨_, more, split', hmention, hmore⟩, hclose⟩
    have ⟨free, m, same⟩ := describes_mention.1 hmention
    have closes := describes_exactly.1 hclose
    subst same closes split' split
    exact ⟨free, m, more, List.append_assoc .., describes_run_ne.1 hmore⟩
  · intro ⟨free, m, more, split, unfinished⟩
    subst split
    exact ⟨m.text ++ more, [';'], (List.append_assoc ..).symm,
      ⟨m.text, more, rfl, describes_mention.2 ⟨free, m, rfl⟩, describes_run_ne.2 unfinished⟩,
      describes_exactly.2 rfl⟩

namespace SourceScan

/-- An upgradeable name behind an import is reported exactly if it stands on the line of the import
or in front of a semicolon. -/
theorem hasCode_mention_iff (threshold : Nat) (source : String) :
    (scan threshold source).hasCode "UPGRADEABLE_IMPORT" = true ↔
      ∃ front back, ∃ m : Mention, source.toList = front ++ (m.text ++ back) ∧ EndsFree front ∧
        ('\n' ∉ m.text ∨ ';' ∈ back) := by
  have mem : table[6] ∈ table := List.getElem_mem _
  refine (hasCode_scan_iff_describes threshold source mem ?_).trans ?_
  · intro before taken rest h
    have ⟨_, m, split⟩ := describes_mention.1 h
    rw [split]
    exact ⟨m.text_ne_nil, m.getLast?_text⟩
  constructor
  · intro ⟨front, _, rest, whole, described⟩
    rcases described with ⟨one_line, h⟩ | h
    · have ⟨free, m, split⟩ := describes_mention.1 h
      subst split
      exact ⟨front, rest, m, whole, endsFree_iff.2 free, .inl one_line⟩
    · have ⟨free, m, more, split, _⟩ := describes_upgradeableDirective.1 h
      subst split
      exact ⟨front, more ++ ';' :: rest, m, by simpa using whole, endsFree_iff.2 free,
        .inr (by simp)⟩
  · intro ⟨front, back, m, whole, free, sight⟩
    rw [endsFree_iff] at free
    rcases sight with one_line | closed
    · exact ⟨front, m.text, back, whole, .inl ⟨one_line, describes_mention.2 ⟨free, m, rfl⟩⟩⟩
    · have ⟨more, rest, cut, unfinished⟩ := List.eq_append_cons_of_mem closed
      exact ⟨front, m.text ++ (more ++ [';']), rest, by simp [whole, cut],
        .inr (describes_upgradeableDirective.2 ⟨free, m, more, rfl, unfinished⟩)⟩

theorem endsFree_of_indent {s : Place} {indent : List Char} (line_start : s.atLineStart = true)
    (indented : ∀ c ∈ indent, Import.isIndent c = true) : EndsFree (s.before.reverse ++ indent) := by
  rw [endsFree_iff, List.reverse_append, List.reverse_reverse]
  rcases List.eq_nil_or_concat indent with empty | ⟨more, c, last⟩
  · subst empty
    rcases atLineStart_iff.1 line_start with first | ⟨more, first⟩
    · simp [first, touchesWord]
    · rw [first]
      rfl
  · have blank := indented c (by simp [last])
    rw [last, List.concat_eq_append, List.reverse_concat]
    change isWord c = false
    rcases Bool.or_eq_true_iff.1 blank with space | tab
    · rw [eq_of_beq space]
      rfl
    · rw [eq_of_beq tab]
      rfl

theorem exists_mention_of_reads {text path front name back rest : List Char} {s : Place}
    (hs : s.IsIn text 0 0) (reads : Import.Reads s path rest)
    (split : path = front ++ (name ++ back)) (spelled : name.map Char.toLower = "upgradeable".toList)
    (plain : ';' ∉ front) : ∃ before behind, ∃ m : Mention,
      text = before ++ (m.text ++ behind) ∧ EndsFree before ∧ ';' ∈ behind := by
  have ⟨line_start, _, _, indent, words, mark, mark', more, indented, edge, unfinished, quote, _, _,
    written⟩ := reads
  have starts : StartsFree (words ++ mark :: front ++ name) := by
    rwa [startsFree_iff, List.append_assoc, List.cons_append, touchesWord_append_cons]
  have open_yet : ';' ∉ words ++ mark :: front := by
    intro mem
    rcases List.mem_append.1 mem with mem | mem
    · exact (unfinished _ mem).1 rfl
    rcases List.mem_cons.1 mem with same | mem
    · exact absurd (same ▸ quote) (by decide)
    · exact plain mem
  let m : Mention := ⟨words ++ mark :: front, name, starts, open_yet, spelled⟩
  refine ⟨s.before.reverse ++ indent, back ++ mark' :: (more ++ ';' :: rest), m, ?_,
    endsFree_of_indent line_start indented, ?_⟩
  · have whole := hs.1
    rw [written, split] at whole
    rw [← whole, m.text_eq]
    simp only [m, List.append_assoc, List.cons_append]
  · simp

/-- Where an imported path holds an upgradeable name with no semicolon in front of it, the import is
reported and the report does not pass. -/
theorem scan_sees_upgradeable_imports (threshold : Nat) (source : String) :
    let r := scan threshold source
    (∀ path ∈ Import.paths source, ∀ front name back, path.toList = front ++ (name ++ back) →
      name.map Char.toLower = "upgradeable".toList → ';' ∉ front →
        r.hasCode "UPGRADEABLE_IMPORT" = true ∧ r.passed = false) ∧
    (r.hasCode "UPGRADEABLE_IMPORT" = true ↔ ∃ front back, ∃ m : Mention,
      source.toList = front ++ (m.text ++ back) ∧ EndsFree front ∧
        ('\n' ∉ m.text ∨ ';' ∈ back)) := by
  intro r
  refine ⟨fun path mem front name back split spelled plain => ?_, hasCode_mention_iff ..⟩
  have ⟨s, rest, hs, reads⟩ := Import.exists_reads_of_mem_paths mem
  have ⟨before, behind, m, whole, free, closed⟩ :=
    exists_mention_of_reads hs reads split spelled plain
  have reported : r.hasCode "UPGRADEABLE_IMPORT" = true :=
    (hasCode_mention_iff threshold source).2 ⟨before, behind, m, whole, free, .inr closed⟩
  have rule : table[6] ∈ table := List.getElem_mem _
  have ⟨f, hf, _⟩ := exists_critical_of_hasCode rule rfl reported
  exact ⟨reported, Report.passed_eq_false_of_critical hf⟩

theorem scan_sees_upgradeable_imports_semicolon :
    let seen := "import \"./Upgradeable.sol\";"
    let hidden := "import \"a;upgradeable.sol\";"
    (Import.paths seen = ["./Upgradeable.sol"] ∧
      (scan 0 seen).hasCode "UPGRADEABLE_IMPORT" = true ∧ (scan 0 seen).passed = false) ∧
    Import.paths hidden = ["a;upgradeable.sol"] ∧
      (scan 0 hidden).hasCode "UPGRADEABLE_IMPORT" = false := by
  intro seen hidden
  have read : Import.paths seen = ["./Upgradeable.sol"] :=
    Import.paths_eq_singleton (by decide +kernel)
  have read' : Import.paths hidden = ["a;upgradeable.sol"] :=
    Import.paths_eq_singleton (by decide +kernel)
  refine ⟨⟨read, (scan_sees_upgradeable_imports 0 seen).1 "./Upgradeable.sol" ?_
    "./".toList "Upgradeable".toList ".sol".toList (by decide) (by decide) (by decide)⟩, read', ?_⟩
  · rw [read]
    exact List.mem_singleton_self _
  · apply Bool.eq_false_iff.2
    intro reported
    have ⟨front, back, m, whole, _⟩ := (scan_sees_upgradeable_imports 0 hidden).2.1 reported
    have only : ∀ n < hidden.toList.length, ∀ k < hidden.toList.length,
        "import".toList <:+ hidden.toList.take n ∧
          "upgradeable".toList <+: ((hidden.toList.drop n).drop k).map Char.toLower →
        ';' ∈ (hidden.toList.drop n).take k := by decide +kernel
    let lead := front ++ "import".toList
    have layout : hidden.toList = lead ++ (m.words ++ (m.name ++ back)) := by
      simp [whole, lead, m.text_eq]
    have past : hidden.toList.drop lead.length = m.words ++ (m.name ++ back) := by
      rw [layout, List.drop_left]
    have lengths := congrArg List.length layout
    have some_name := List.length_pos_of_ne_nil m.name_ne_nil
    have behind : "import".toList <:+ hidden.toList.take lead.length := by
      rw [layout, List.take_left]
      exact List.suffix_append _ _
    have keyword : "import".toList.length = 6 := rfl
    simp only [lead, List.length_append] at lengths
    have hides := only lead.length (by simp [lead]; omega) m.words.length (by omega)
    rw [past, List.drop_left, List.take_left, List.map_append, m.spelled] at hides
    exact m.unfinished (hides ⟨behind, List.prefix_append _ _⟩)

end SourceScan
end SolidityVetting
