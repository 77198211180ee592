import SolidityVetting.Import
import SolidityVetting.Proofs.Pattern.Search
import SolidityVetting.Proofs.Text.Pieces

set_option autoImplicit false

namespace SolidityVetting.Import

variable {importer path unit : String} {reached left : List (List Char)}

def Plain (name : String) : Prop := ['.', '.'] ∉ segments name.toList

theorem segments_join {parts : List (List Char)} (some_part : parts ≠ [])
    (free : ∀ part ∈ parts, '/' ∉ part) : segments (Text.join ['/'] parts) = parts := by
  apply Text.pieces_join (by decide) some_part
  intro part hm c hc
  rw [beq_eq_false_iff_ne]
  rintro rfl
  exact free part hm hc

theorem slash_not_mem_of_mem_segments {text segment : List Char} (h : segment ∈ segments text) :
    '/' ∉ segment := by
  intro hc
  have other := Text.free_of_mem_pieces h '/' hc
  simp at other

theorem mem_of_mem_follow {path : List (List Char)} (h : follow reached path = some left)
    {segment : List Char} (hm : segment ∈ left) :
    segment ∈ reached ∨
      segment ∈ path ∧ segment ≠ [] ∧ segment ≠ ['.'] ∧ segment ≠ ['.', '.'] := by
  induction path generalizing reached with
  | nil =>
    cases h
    exact .inl hm
  | cons first rest ih =>
    have later (found : segment ∈ rest ∧ segment ≠ [] ∧ segment ≠ ['.'] ∧ segment ≠ ['.', '.']) :
        segment ∈ first :: rest ∧ segment ≠ [] ∧ segment ≠ ['.'] ∧ segment ≠ ['.', '.'] :=
      ⟨List.mem_cons_of_mem first found.1, found.2⟩
    unfold follow at h
    split at h
    · exact (ih h).imp_right later
    · next named =>
      split at h
      · -- going up only takes a segment away
        cases reached with
        | nil => cases h
        | cons inner outer => exact (ih h).imp (List.mem_cons_of_mem inner) later
      · next down =>
        obtain before | found := ih h
        · obtain rfl | before := List.mem_cons.1 before
          · simp at named down
            exact .inr ⟨List.mem_cons_self, named.1, named.2, down⟩
          · exact .inl before
        · exact .inr (later found)

theorem climbs_of_follow_eq_none {path : List (List Char)} (h : follow reached path = none) :
    ['.', '.'] ∈ path := by
  induction path generalizing reached with
  | nil => cases h
  | cons first rest ih =>
    unfold follow at h
    split at h
    · exact List.mem_cons_of_mem first (ih h)
    · split at h
      · next up =>
        rw [beq_iff_eq] at up
        rw [up]
        exact List.mem_cons_self
      · exact List.mem_cons_of_mem first (ih h)

theorem mem_segments_of_mem_directory {unit segment : List Char} (h : segment ∈ directory unit) :
    segment ∈ segments unit :=
  List.dropLast_subset _ (List.mem_filter.1 h).1

theorem not_plain_of_unit?_eq_none (h : unit? importer path = none) : ¬ Plain path := by
  intro plain
  exact plain (climbs_of_follow_eq_none (Option.map_eq_none_iff.1 h))

theorem exists_follow_of_unit? (h : unit? importer path = some unit) :
    ∃ origin left, (∀ segment ∈ origin, segment ∈ segments importer.toList) ∧
      follow origin (segments path.toList) = some left ∧
      unit = String.ofList (Text.join ['/'] left.reverse) := by
  obtain ⟨left, hf, rfl⟩ := Option.map_eq_some_iff.1 h
  refine ⟨_, left, ?_, hf, rfl⟩
  intro segment hm
  rw [List.mem_reverse] at hm
  split at hm
  · exact mem_segments_of_mem_directory hm
  · cases hm

theorem mem_segments_of_unit? (h : unit? importer path = some unit) {segment : List Char}
    (hm : segment ∈ segments unit.toList) :
    segment = [] ∨ segment ∈ segments importer.toList ∨
      segment ∈ segments path.toList ∧ segment ≠ ['.'] ∧ segment ≠ ['.', '.'] := by
  obtain ⟨origin, left, within, hf, rfl⟩ := exists_follow_of_unit? h
  have parts : ∀ part ∈ left, part ∈ segments importer.toList ∨
      part ∈ segments path.toList ∧ part ≠ ['.'] ∧ part ≠ ['.', '.'] := by
    intro part hp
    exact (mem_of_mem_follow hf hp).imp (within part) fun found => ⟨found.1, found.2.2⟩
  rw [String.toList_ofList] at hm
  by_cases none_left : left = []
  · rw [none_left] at hm
    exact .inl (List.mem_singleton.1 hm)
  · rw [segments_join (by simpa using none_left), List.mem_reverse] at hm
    · exact .inr (parts segment hm)
    · intro part hp
      rw [List.mem_reverse] at hp
      exact (parts part hp).elim slash_not_mem_of_mem_segments
        fun found => slash_not_mem_of_mem_segments found.1

theorem plain_of_unit? (h : unit? importer path = some unit) (plain : Plain importer) :
    Plain unit := by
  intro hm
  obtain empty | before | found := mem_segments_of_unit? h hm
  · simp at empty
  · exact plain before
  · exact found.2.2 rfl

theorem paths_eq_singleton {source : String}
    (h : (directive.ends (.start source.toList)).head?.map (fun t =>
      (Hit.text ⟨.start source.toList, t⟩, t.after, (directive.ends t.bare).isEmpty)) =
        some (path.toList, [], true)) :
    paths source = [path] := by
  obtain ⟨hit, alone, captured⟩ := Pattern.exists_hits_eq_singleton h
  rw [paths, alone, List.map_singleton, captured, String.ofList_toList]

theorem paths_eq_nil {source : String} (h : directive.isAbsentFrom source.toList = true) :
    paths source = [] := by
  have none_found : directive.searchFrom? (.start source.toList) = none :=
    Pattern.search?_eq_none_of_isAbsentFrom h
  unfold paths
  rw [Pattern.hits, Pattern.hitsFrom_eq_nil_iff.2 none_found, List.map_nil]

end SolidityVetting.Import
