import Mathlib.Data.List.Induction
import SolidityVetting.Proofs.Imports.Path
/-! # The unit that a path denotes

A path is followed segment by segment from the directory of its importer as that is written. Empty
segments and `.` lead nowhere and `..` removes the segment before it, so a path denotes nothing
exactly if some `..` finds nothing to remove. Dot segments in the name of the importer are not
followed but kept, and count as segments that `..` can remove. Where there are none, following the
path is the same as following the importer's directory and the path as one row from the root.
-/

set_option autoImplicit false

namespace SolidityVetting.Import

def Names (segment : List Char) : Prop := segment ≠ [] ∧ segment ≠ ['.'] ∧ segment ≠ ['.', '.']

instance (segment : List Char) : Decidable (Names segment) :=
  inferInstanceAs (Decidable (_ ∧ _ ∧ _))

/-- What is left of a row of segments that starts in the directory `origin`. -/
inductive Leaves (origin : List (List Char)) : (row left : List (List Char)) → Prop where
  | start : Leaves origin [] origin
  | stay {row left : List (List Char)} {segment : List Char} (h : Leaves origin row left)
      (idle : segment = [] ∨ segment = ['.']) : Leaves origin (row ++ [segment]) left
  | down {row left : List (List Char)} {segment : List Char} (h : Leaves origin row left)
      (named : Names segment) : Leaves origin (row ++ [segment]) (left ++ [segment])
  | up {row left : List (List Char)} {inner : List Char} (h : Leaves origin row (left ++ [inner])) :
      Leaves origin (row ++ [['.', '.']]) left

def Climbs (origin row : List (List Char)) : Prop :=
  ∃ front back, row = front ++ ['.', '.'] :: back ∧ Leaves origin front []

/-- The unit, if any, that a row of segments leads to. -/
inductive Denotes (origin row : List (List Char)) : Option String → Prop where
  | unit {left : List (List Char)} (h : Leaves origin row left) :
      Denotes origin row (some (String.ofList (Text.join ['/'] left)))
  | nothing (h : Climbs origin row) : Denotes origin row none

def Relative (path : String) : Prop :=
  "./".toList <+: path.toList ∨ "../".toList <+: path.toList

instance (path : String) : Decidable (Relative path) := inferInstanceAs (Decidable (_ ∨ _))

def leading (importer path : String) : List (List Char) :=
  if Relative path then (segments importer.toList).dropLast else []

def base (importer path : String) : List (List Char) := (leading importer path).filter (· ≠ [])

variable {reached origin row left left' : List (List Char)} {importer path unit : String}

theorem segment_cases (segment : List Char) :
    (segment = [] ∨ segment = ['.']) ∨ segment = ['.', '.'] ∨ Names segment := by
  by_cases idle : segment = [] ∨ segment = ['.']
  · exact .inl idle
  by_cases up : segment = ['.', '.']
  · exact .inr (.inl up)
  · rw [not_or] at idle
    exact .inr (.inr ⟨idle.1, idle.2, up⟩)

theorem follow_stay {segment : List Char} (idle : segment = [] ∨ segment = ['.']) :
    follow reached (segment :: row) = follow reached row := by
  have passed : (segment.isEmpty || segment == ['.']) = true := by simpa using idle
  rw [follow.eq_def]
  exact if_pos passed

theorem follow_down {segment : List Char} (named : Names segment) :
    follow reached (segment :: row) = follow (segment :: reached) row := by
  have counts : ¬ (segment.isEmpty || segment == ['.']) = true := by
    simp [named.1, named.2.1]
  have down : ¬ (segment == ['.', '.']) = true := by
    simp [named.2.2]
  rw [follow.eq_def]
  exact (if_neg counts).trans (if_neg down)

theorem follow_up (inner : List Char) :
    follow (inner :: reached) (['.', '.'] :: row) = follow reached row := rfl

theorem follow_append (front back : List (List Char)) :
    follow reached (front ++ back) = (follow reached front).bind (follow · back) := by
  induction front generalizing reached with
  | nil => rfl
  | cons segment front ih =>
    rw [List.cons_append]
    rcases segment_cases segment with idle | up | named
    · rw [follow_stay idle, follow_stay idle, ih]
    · subst up
      cases reached with
      | nil => rfl
      | cons inner outer => rw [follow_up, follow_up, ih]
    · rw [follow_down named, follow_down named, ih]

theorem follow_filter (row : List (List Char)) :
    follow reached (row.filter (· ≠ [])) = follow reached row := by
  induction row generalizing reached with
  | nil => rfl
  | cons segment row ih =>
    by_cases empty : segment = []
    · rw [List.filter_cons_of_neg (by simpa using empty), follow_stay (.inl empty), ih]
    rw [List.filter_cons_of_pos (by simpa using empty)]
    rcases segment_cases segment with idle | up | named
    · rw [follow_stay idle, follow_stay idle, ih]
    · subst up
      cases reached with
      | nil => rfl
      | cons inner outer => rw [follow_up, follow_up, ih]
    · rw [follow_down named, follow_down named, ih]

theorem follow_eq_some_iff :
    follow origin.reverse row = some left.reverse ↔ Leaves origin row left := by
  constructor
  · intro h
    induction row using List.reverseRecOn generalizing left with
    | nil =>
      have same : origin = left := List.reverse_inj.1 (Option.some.inj h)
      exact same ▸ .start
    | append_singleton row segment ih =>
      rw [follow_append] at h
      obtain ⟨mid, hm, hs⟩ := Option.bind_eq_some_iff.1 h
      rw [← mid.reverse_reverse] at hm
      have before := ih hm
      rcases segment_cases segment with idle | up | named
      · rw [follow_stay idle] at hs
        have same : mid.reverse = left := by rw [Option.some.inj hs, List.reverse_reverse]
        exact .stay (same ▸ before) idle
      · subst up
        cases mid with
        | nil => cases hs
        | cons inner outer =>
          have same : outer.reverse = left := by rw [Option.some.inj hs, List.reverse_reverse]
          rw [List.reverse_cons, same] at before
          exact .up before
      · rw [follow_down named] at hs
        have same : left = mid.reverse ++ [segment] := by
          rw [← List.reverse_cons, Option.some.inj hs, List.reverse_reverse]
        exact same ▸ .down before named
  · intro h
    induction h with
    | start => rfl
    | stay _ idle ih => rw [follow_append, ih, Option.bind_some, follow_stay idle, follow]
    | down _ named ih =>
      rw [follow_append, ih, Option.bind_some, follow_down named, follow, List.reverse_concat]
    | up _ ih => rw [follow_append, ih, Option.bind_some, List.reverse_concat, follow_up, follow]

theorem follow_eq_none_iff : follow origin.reverse row = none ↔ Climbs origin row := by
  constructor
  · intro h
    induction row using List.reverseRecOn with
    | nil => cases h
    | append_singleton row segment ih =>
      cases hf : follow origin.reverse row with
      | none =>
        have ⟨front, back, cut, before⟩ := ih hf
        exact ⟨front, back ++ [segment], by rw [cut, List.append_assoc, List.cons_append], before⟩
      | some mid =>
        rw [follow_append, hf, Option.bind_some] at h
        rcases segment_cases segment with idle | up | named
        · rw [follow_stay idle] at h
          cases h
        · subst up
          cases mid with
          | nil => exact ⟨row, [], rfl, follow_eq_some_iff.1 hf⟩
          | cons inner outer => cases h
        · rw [follow_down named] at h
          cases h
  · intro ⟨front, back, cut, before⟩
    rw [cut, follow_append, follow_eq_some_iff.2 before]
    rfl

theorem Leaves.unique (h : Leaves origin row left) (h' : Leaves origin row left') :
    left = left' := by
  have same := (follow_eq_some_iff.2 h).symm.trans (follow_eq_some_iff.2 h')
  exact List.reverse_inj.1 (Option.some.inj same)

theorem Leaves.not_climbs (h : Leaves origin row left) : ¬ Climbs origin row := by
  intro climbs
  rw [← follow_eq_none_iff, follow_eq_some_iff.2 h] at climbs
  cases climbs

theorem leaves_or_climbs (origin row : List (List Char)) :
    (∃ left, Leaves origin row left) ∨ Climbs origin row := by
  cases h : follow origin.reverse row with
  | none => exact .inr (follow_eq_none_iff.1 h)
  | some left =>
    rw [← left.reverse_reverse] at h
    exact .inl ⟨left.reverse, follow_eq_some_iff.1 h⟩

theorem leaves_append_iff {front back : List (List Char)} :
    Leaves origin (front ++ back) left ↔
      ∃ mid, Leaves origin front mid ∧ Leaves mid back left := by
  rw [← follow_eq_some_iff, follow_append, Option.bind_eq_some_iff]
  constructor
  · intro ⟨mid, hf, hb⟩
    rw [← mid.reverse_reverse] at hf hb
    exact ⟨mid.reverse, follow_eq_some_iff.1 hf, follow_eq_some_iff.1 hb⟩
  · intro ⟨mid, hf, hb⟩
    exact ⟨mid.reverse, follow_eq_some_iff.2 hf, follow_eq_some_iff.2 hb⟩

theorem leaves_filter_iff :
    Leaves origin (row.filter (· ≠ [])) left ↔ Leaves origin row left := by
  rw [← follow_eq_some_iff, ← follow_eq_some_iff, follow_filter]

theorem leaves_of_names (named : ∀ segment ∈ row, Names segment) :
    Leaves origin row (origin ++ row) := by
  induction row using List.reverseRecOn with
  | nil => rw [List.append_nil]; exact .start
  | append_singleton row segment ih =>
    rw [List.forall_mem_append, List.forall_mem_singleton] at named
    rw [← List.append_assoc]
    exact .down (ih named.1) named.2

theorem Leaves.mem (h : Leaves origin row left) {segment : List Char} (hm : segment ∈ left) :
    segment ∈ origin ∨ segment ∈ row ∧ Names segment := by
  have found := mem_of_mem_follow (follow_eq_some_iff.2 h) (List.mem_reverse.2 hm)
  rwa [List.mem_reverse] at found

theorem Leaves.length_add (h : Leaves origin row left) :
    left.length + row.count ['.', '.'] = origin.length + row.countP (Names ·) := by
  induction h with
  | start => rfl
  | stay _ idle ih =>
    rw [List.count_append, List.countP_append, ← Nat.add_assoc, ih]
    rcases idle with rfl | rfl <;> rfl
  | @down row left segment _ named ih =>
    have counted : [segment].countP (Names ·) = 1 := by simp [named]
    have other : [segment].count ['.', '.'] = 0 := by
      rw [List.count_singleton, if_neg (by simpa using named.2.2)]
    rw [List.count_append, List.countP_append, List.length_append, List.length_singleton, counted,
      other]
    omega
  | up _ ih =>
    rw [List.length_append, List.length_singleton] at ih
    have counted : [['.', '.']].countP (Names ·) = 0 := rfl
    have removed : [['.', '.']].count ['.', '.'] = 1 := rfl
    rw [List.count_append, List.countP_append, counted, removed]
    omega

theorem Leaves.length_shift {other : List (List Char)} (h : Leaves origin row left)
    (h' : Leaves other row left') : left.length + other.length = left'.length + origin.length := by
  have count := h.length_add
  have count' := h'.length_add
  omega

theorem Leaves.length_le (h : Leaves [] row left) : left.length ≤ row.length := by
  have count := h.length_add
  have most : row.countP (Names ·) ≤ row.length := List.countP_le_length
  rw [List.length_nil] at count
  omega

theorem Leaves.length_lt (h : Leaves [] row left) (dotted : ¬ ∀ segment ∈ row, Names segment) :
    left.length < row.length := by
  have count := h.length_add
  have most : row.countP (Names ·) ≤ row.length := List.countP_le_length
  have some_dots : row.countP (Names ·) ≠ row.length := by
    rw [ne_eq, List.countP_eq_length]
    simpa using dotted
  rw [List.length_nil] at count
  omega

theorem Climbs.of_length_le {other : List (List Char)} (h : Climbs origin row)
    (shallow : other.length ≤ origin.length) : Climbs other row := by
  have ⟨front, back, cut, before⟩ := h
  rcases leaves_or_climbs other front with ⟨left, leaves⟩ | ⟨first, more, split, first_leaves⟩
  · have shift := before.length_shift leaves
    rw [List.length_nil] at shift
    have empty : left = [] := List.eq_nil_of_length_eq_zero (by omega)
    exact ⟨front, back, cut, empty ▸ leaves⟩
  · exact ⟨first, more ++ ['.', '.'] :: back, by simp [cut, split], first_leaves⟩

theorem Climbs.append (h : Climbs origin row) (back : List (List Char)) :
    Climbs origin (row ++ back) := by
  have ⟨front, more, cut, before⟩ := h
  exact ⟨front, more ++ back, by simp [cut], before⟩

theorem Climbs.behind {front mid : List (List Char)} (h : Climbs mid row)
    (before : Leaves origin front mid) : Climbs origin (front ++ row) := by
  have ⟨inner, back, cut, leaves⟩ := h
  exact ⟨front ++ inner, back, by simp [cut], leaves_append_iff.2 ⟨mid, before, leaves⟩⟩

theorem Denotes.unique {answer other : Option String} (h : Denotes origin row answer)
    (h' : Denotes origin row other) : answer = other := by
  cases h with
  | unit h =>
    cases h' with
    | unit h' => rw [h.unique h']
    | nothing climbs => exact absurd climbs h.not_climbs
  | nothing climbs =>
    cases h' with
    | unit h' => exact absurd climbs h'.not_climbs
    | nothing => rfl

theorem Denotes.behind {front mid : List (List Char)} {answer : Option String}
    (h : Denotes mid row answer) (before : Leaves origin front mid) :
    Denotes origin (front ++ row) answer := by
  cases h with
  | unit h => exact .unit (leaves_append_iff.2 ⟨mid, before, h⟩)
  | nothing climbs => exact .nothing (climbs.behind before)

theorem isRelative_iff : isRelative path.toList = true ↔ Relative path := by
  have starts (start : List Char) :
      (Text.dropStart? start path.toList).isSome = true ↔ start <+: path.toList := by
    rw [Option.isSome_iff_exists]
    apply exists_congr
    intro rest
    rw [Text.dropStart?_eq_some_iff]
    exact eq_comm
  rw [isRelative, Bool.or_eq_true, starts, starts, Relative]

theorem base_eq (importer path : String) :
    base importer path = if isRelative path.toList then directory importer.toList else [] := by
  unfold base leading directory
  by_cases relative : Relative path
  · rw [if_pos relative, if_pos (isRelative_iff.2 relative)]
    exact List.filter_congr fun segment _ => by cases segment <;> rfl
  · rw [if_neg relative, if_neg (mt isRelative_iff.1 relative)]
    rfl

theorem denotes_unit? (importer path : String) :
    Denotes (base importer path) (segments path.toList) (unit? importer path) := by
  rw [unit?, ← base_eq]
  cases h : follow (base importer path).reverse (segments path.toList) with
  | none => exact .nothing (follow_eq_none_iff.1 h)
  | some left =>
    rw [← left.reverse_reverse] at h
    exact .unit (follow_eq_some_iff.1 h)

def Proper (segment : List Char) : Prop := segment ≠ [] ∧ '/' ∉ segment

theorem proper_of_mem_base {segment : List Char} (h : segment ∈ base importer path) :
    Proper segment := by
  rw [base_eq] at h
  split at h
  · have ⟨_, some_text⟩ := List.mem_filter.1 h
    exact ⟨by simpa using some_text, slash_not_mem_of_mem_segments (mem_segments_of_mem_directory h)⟩
  · cases h

theorem slash_not_mem_of_mem_leading {segment : List Char} (h : segment ∈ leading importer path) :
    '/' ∉ segment := by
  rw [leading] at h
  split at h
  · exact slash_not_mem_of_mem_segments (List.dropLast_subset _ h)
  · cases h

theorem proper_of_leaves (h : Leaves (base importer path) (segments path.toList) left) :
    ∀ segment ∈ left, Proper segment := by
  intro segment hm
  rcases h.mem hm with mem | ⟨mem, named⟩
  · exact proper_of_mem_base mem
  · exact ⟨named.1, slash_not_mem_of_mem_segments mem⟩

theorem segments_join_of_proper (proper : ∀ segment ∈ left, Proper segment) (some_left : left ≠ []) :
    segments (Text.join ['/'] left) = left :=
  segments_join some_left fun segment hm => (proper segment hm).2

theorem join_injective (proper : ∀ segment ∈ left, Proper segment)
    (proper' : ∀ segment ∈ left', Proper segment)
    (h : Text.join ['/'] left = Text.join ['/'] left') : left = left' := by
  have nothing {row : List (List Char)} (proper : ∀ segment ∈ row, Proper segment)
      (h : Text.join ['/'] row = []) : row = [] := by
    by_contra some_row
    have only : [[]] = row := by
      rw [← segments_join_of_proper proper some_row, h]
      rfl
    exact (proper [] (only ▸ List.mem_singleton_self [])).1 rfl
  by_cases empty : left = []
  · rw [empty] at h
    rw [empty, nothing proper' h.symm]
  by_cases empty' : left' = []
  · rw [empty'] at h
    rw [empty', nothing proper h]
  rw [← segments_join_of_proper proper empty, h, segments_join_of_proper proper' empty']

theorem segments_of_cut {first : List Char} (free : '/' ∉ first) (rest : List Char) :
    segments (first ++ '/' :: rest) = first :: segments rest := by
  apply Text.pieces_of_cut (by decide)
  intro c hc
  rw [beq_eq_false_iff_ne]
  rintro rfl
  exact free hc

theorem not_relative_of_names (named : ∀ segment ∈ segments path.toList, Names segment) :
    ¬ Relative path := by
  intro relative
  rcases relative with ⟨rest, cut⟩ | ⟨rest, cut⟩
  · have first : segments path.toList = ['.'] :: segments rest :=
      cut ▸ segments_of_cut (by decide : '/' ∉ ['.']) rest
    exact (named ['.'] (first ▸ List.mem_cons_self)).2.1 rfl
  · have first : segments path.toList = ['.', '.'] :: segments rest :=
      cut ▸ segments_of_cut (by decide : '/' ∉ ['.', '.']) rest
    exact (named ['.', '.'] (first ▸ List.mem_cons_self)).2.2 rfl

theorem unit?_join (other : String) (same : segments (Text.join ['/'] left) = left)
    (named : ∀ segment ∈ left, Names segment) :
    unit? other (String.ofList (Text.join ['/'] left)) =
      some (String.ofList (Text.join ['/'] left)) := by
  have denoted := denotes_unit? other (String.ofList (Text.join ['/'] left))
  have absolute : ¬ Relative (String.ofList (Text.join ['/'] left)) := by
    apply not_relative_of_names
    rwa [String.toList_ofList, same]
  rw [base, leading, if_neg absolute, String.toList_ofList, same] at denoted
  exact denoted.unique (.unit (leaves_of_names named))

theorem Denotes.leaves (h : Denotes origin row (some unit)) :
    ∃ left, Leaves origin row left ∧ unit = String.ofList (Text.join ['/'] left) := by
  cases h with
  | unit leaves => exact ⟨_, leaves, rfl⟩

/-- If it makes no difference for a unit whether the directory is followed, there are no dot segments
in it: with them, fewer segments would be left. -/
theorem names_of_denotes_row (h : unit? importer path = some unit)
    (together : Denotes [] (leading importer path ++ segments path.toList) (some unit)) :
    ∀ segment ∈ base importer path, Names segment := by
  by_contra dotted
  have ⟨left, leaves, joined⟩ := (h ▸ denotes_unit? importer path).leaves
  have ⟨left', leaves', joined'⟩ := together.leaves
  have proper' : ∀ segment ∈ left', Proper segment := by
    intro segment hm
    rcases leaves'.mem hm with mem | ⟨mem, named⟩
    · cases mem
    rcases List.mem_append.1 mem with mem | mem
    · exact ⟨named.1, slash_not_mem_of_mem_leading mem⟩
    · exact ⟨named.1, slash_not_mem_of_mem_segments mem⟩
  have same : left = left' := by
    apply join_injective (proper_of_leaves leaves) proper'
    simpa using congrArg String.toList (joined.symm.trans joined')
  have ⟨mid, before, behind⟩ := leaves_append_iff.1 leaves'
  have shallow : mid.length < (base importer path).length :=
    (leaves_filter_iff.2 before).length_lt dotted
  have shift := leaves.length_shift behind
  rw [same] at shift
  omega

theorem denotes_row_iff (importer path : String) :
    Denotes [] (leading importer path ++ segments path.toList) (unit? importer path) ↔
      (∀ segment ∈ base importer path, Names segment) ∨ unit? importer path = none := by
  have apart := denotes_unit? importer path
  constructor
  · intro together
    cases h : unit? importer path with
    | none => exact .inr rfl
    | some unit => exact .inl (names_of_denotes_row h (h ▸ together))
  · rintro (named | climbing)
    · exact apart.behind (leaves_filter_iff.1 (leaves_of_names named))
    · rw [climbing] at apart ⊢
      have climbs : Climbs (base importer path) (segments path.toList) := by
        cases apart with
        | nothing climbs => exact climbs
      rcases leaves_or_climbs [] (leading importer path) with ⟨mid, before⟩ | early
      · have shallow : mid.length ≤ (base importer path).length :=
          (leaves_filter_iff.2 before).length_le
        exact .nothing ((climbs.of_length_le shallow).behind before)
      · exact .nothing (early.append _)

/-- A path denotes what its segments lead to from the directory of the importer as it is written, and
this is what directory and path lead to as one row exactly if no dot segment stands in the directory
or the path climbs out of it. Without dot segments, a unit is made of segments that name something,
and its name denotes it from everywhere. -/
theorem unit?_lexical_iff (importer path : String) :
    (∀ answer, unit? importer path = answer ↔
      Denotes (base importer path) (segments path.toList) answer) ∧
    (Denotes [] (leading importer path ++ segments path.toList) (unit? importer path) ↔
      (∀ segment ∈ base importer path, Names segment) ∨ unit? importer path = none) ∧
    (∀ unit, unit? importer path = some unit → unit ≠ "" →
      (∀ segment ∈ base importer path, Names segment) →
        (∀ segment ∈ segments unit.toList, Names segment) ∧
          ∀ other, unit? other unit = some unit) := by
  have apart := denotes_unit? importer path
  refine ⟨fun answer => ?exact, denotes_row_iff importer path, fun unit h some_text named => ?normal⟩
  case exact =>
    constructor
    · intro h
      exact h ▸ apart
    · exact apart.unique
  case normal =>
    have ⟨left, leaves, joined⟩ := (h ▸ apart).leaves
    have some_left : left ≠ [] := by
      intro empty
      rw [empty] at joined
      exact some_text joined
    have read : segments unit.toList = left := by
      rw [joined, String.toList_ofList]
      exact segments_join_of_proper (proper_of_leaves leaves) some_left
    have all_named : ∀ segment ∈ left, Names segment := by
      intro segment hm
      rcases leaves.mem hm with mem | ⟨_, here⟩
      · exact named segment mem
      · exact here
    refine ⟨read.symm ▸ all_named, fun other => ?_⟩
    rw [joined, String.toList_ofList] at read
    exact joined ▸ unit?_join other read all_named

theorem unit?_lexical_iff_dotted :
    unit? "a/../A.sol" "../B.sol" = some "a/B.sol" ∧
    Denotes [] (leading "a/../A.sol" "../B.sol" ++ segments "../B.sol".toList) none ∧
    ¬ Denotes [] (leading "a/../A.sol" "../B.sol" ++ segments "../B.sol".toList) (some "a/B.sol") ∧
    ∀ other, unit? other "utils/Context.sol" = some "utils/Context.sol" := by
  have written : unit? "a/../A.sol" "../B.sol" = some "a/B.sol" := by decide +kernel
  have row : leading "a/../A.sol" "../B.sol" ++ segments "../B.sol".toList =
      ["a".toList, ['.', '.'], ['.', '.'], "B.sol".toList] := by decide +kernel
  have named : unit? "token/ERC20.sol" "../utils/Context.sol" = some "utils/Context.sol" := by
    decide +kernel
  refine ⟨written, ?_, ?_, ?_⟩
  · rw [row]
    have inside : Leaves [] ["a".toList] ["a".toList] := leaves_of_names (by decide)
    have root : Leaves [] (["a".toList] ++ [['.', '.']]) [] := .up inside
    exact .nothing ⟨_, ["B.sol".toList], rfl, root⟩
  · rw [← written, (unit?_lexical_iff "a/../A.sol" "../B.sol").2.1]
    decide +kernel
  · exact ((unit?_lexical_iff "token/ERC20.sol" "../utils/Context.sol").2.2 _ named (by decide)
      (by decide +kernel)).2

end SolidityVetting.Import
