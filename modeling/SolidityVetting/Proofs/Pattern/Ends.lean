import SolidityVetting.Pattern.Basic

set_option autoImplicit false

namespace SolidityVetting

namespace Place

def past (s : Place) (taken rest : List Char) : Place :=
  ⟨taken.reverse ++ s.before, rest, s.index + taken.length, s.captured⟩

@[simp] theorem past_before (s : Place) (taken rest : List Char) :
    (s.past taken rest).before = taken.reverse ++ s.before := rfl

@[simp] theorem past_after (s : Place) (taken rest : List Char) :
    (s.past taken rest).after = rest := rfl

theorem past_nil {s : Place} {rest : List Char} (hs : s.after = rest) : s.past [] rest = s := by
  rw [← hs]
  rfl

theorem past_past (s : Place) (first middle second rest : List Char) :
    (s.past first middle).past second rest = s.past (first ++ second) rest := by
  simp [past, Nat.add_assoc]

theorem past_cons (s : Place) (c : Char) (taken rest : List Char) :
    s.past (c :: taken) rest = (s.pass c (taken ++ rest)).past taken rest := by
  simp [past, pass, Nat.add_comm 1, Nat.add_assoc]

theorem pass_eq_past (s : Place) (c : Char) (rest : List Char) : s.pass c rest = s.past [c] rest :=
  rfl

theorem mem_stridesOver {accepts : Char → Bool} {after : List Char} {s t : Place}
    (hs : s.after = after) :
    t ∈ s.stridesOver accepts after ↔
      ∃ taken rest, after = taken ++ rest ∧ (∀ c ∈ taken, accepts c = true) ∧
        t = s.past taken rest := by
  induction after generalizing s t with
  | nil =>
    simp only [stridesOver, List.mem_singleton]
    constructor
    · rintro rfl
      exact ⟨[], [], rfl, by simp, (past_nil hs).symm⟩
    · rintro ⟨taken, rest, he, _, rfl⟩
      obtain ⟨rfl, rfl⟩ := List.append_eq_nil_iff.1 he.symm
      exact past_nil hs
  | cons c rest ih =>
    simp only [stridesOver, List.mem_cons]
    constructor
    · rintro (rfl | h)
      · exact ⟨[], c :: rest, rfl, by simp, (past_nil hs).symm⟩
      · split at h
        · next hc =>
          obtain ⟨taken, more, rfl, ht, rfl⟩ := (ih rfl).1 h
          refine ⟨c :: taken, more, rfl, ?_, (past_cons s c taken more).symm⟩
          simpa [hc] using ht
        · cases h
    · rintro ⟨taken, more, he, ht, rfl⟩
      cases taken with
      | nil =>
        rw [List.nil_append] at he
        exact .inl (past_nil (hs.trans he))
      | cons d taken =>
        rw [List.cons_append] at he
        obtain ⟨rfl, rfl⟩ := List.cons.inj he
        have hc : accepts c = true := ht c (by simp)
        rw [if_pos hc, past_cons]
        exact .inr ((ih rfl).2 ⟨taken, more, rfl, fun d hd => ht d (by simp [hd]), rfl⟩)

theorem touchesWord_append_cons {words rest : List Char} {mark : Char} :
    touchesWord (words ++ mark :: rest) = touchesWord (words ++ [mark]) := by
  cases words <;> rfl

end Place

namespace Pattern
open Place

variable {s t : Place}

theorem mem_ends_nothing : t ∈ nothing.ends s ↔ t = s := List.mem_singleton

theorem mem_ends_one {accepts : Char → Bool} :
    t ∈ (one accepts).ends s ↔
      ∃ c rest, s.after = c :: rest ∧ accepts c = true ∧ t = s.past [c] rest := by
  simp only [ends, step?, Option.mem_toList]
  constructor
  · intro h
    split at h
    · cases h
    · next c rest hs =>
      split at h
      · next hc =>
        cases h
        exact ⟨c, rest, hs, hc, rfl⟩
      · cases h
  · rintro ⟨c, rest, hs, hc, rfl⟩
    simp [hs, hc, pass_eq_past]

theorem mem_ends_run {appetite : Appetite} {accepts : Char → Bool} :
    t ∈ (run appetite accepts).ends s ↔
      ∃ taken rest, s.after = taken ++ rest ∧ (∀ c ∈ taken, accepts c = true) ∧
        t = s.past taken rest := by
  cases appetite with
  | most => rw [ends, List.mem_reverse, strides, mem_stridesOver rfl]
  | least => rw [ends, strides, mem_stridesOver rfl]

theorem mem_ends_seq {first second : Pattern} :
    t ∈ (first ++ second).ends s ↔ ∃ u ∈ first.ends s, t ∈ second.ends u := List.mem_flatMap

theorem mem_ends_alt {first second : Pattern} :
    t ∈ (first <|> second).ends s ↔ t ∈ first.ends s ∨ t ∈ second.ends s := List.mem_append

theorem mem_ends_wordEdge : t ∈ wordEdge.ends s ↔ s.atWordEdge = true ∧ t = s := by
  rw [ends]
  split <;> simp_all

theorem mem_ends_exactly {text : String} :
    t ∈ (exactly text).ends s ↔
      ∃ rest, s.after = text.toList ++ rest ∧ t = s.past text.toList rest := by
  unfold exactly
  generalize text.toList = chars
  induction chars generalizing s with
  | nil =>
    change t ∈ nothing.ends s ↔ _
    rw [mem_ends_nothing]
    constructor
    · rintro rfl
      exact ⟨t.after, rfl, rfl⟩
    · rintro ⟨rest, hs, rfl⟩
      exact past_nil hs
  | cons c chars ih =>
    change t ∈ (one _ ++ _).ends s ↔ _
    rw [mem_ends_seq]
    constructor
    · rintro ⟨u, hu, ht⟩
      obtain ⟨d, rest, hs, hd, rfl⟩ := mem_ends_one.1 hu
      obtain ⟨more, hm, rfl⟩ := ih.1 ht
      rw [past_after] at hm
      obtain rfl : d = c := by simpa using hd
      exact ⟨more, by rw [hs, hm, List.cons_append], past_past s [d] rest chars more⟩
    · rintro ⟨rest, hs, rfl⟩
      refine ⟨s.past [c] (chars ++ rest), mem_ends_one.2 ⟨c, chars ++ rest, hs, ?_, rfl⟩, ?_⟩
      · simp
      · exact ih.2 ⟨rest, rfl, (past_past s [c] (chars ++ rest) chars rest).symm⟩

theorem mem_ends_anyCase {text : String} :
    t ∈ (anyCase text).ends s ↔ ∃ taken rest, s.after = taken ++ rest ∧
      taken.map Char.toLower = text.toList.map Char.toLower ∧ t = s.past taken rest := by
  unfold anyCase
  generalize text.toList = chars
  induction chars generalizing s with
  | nil =>
    change t ∈ nothing.ends s ↔ _
    rw [mem_ends_nothing]
    constructor
    · rintro rfl
      exact ⟨[], t.after, rfl, rfl, (past_nil rfl).symm⟩
    · rintro ⟨taken, rest, hs, same, rfl⟩
      rw [List.map_nil, List.map_eq_nil_iff] at same
      subst same
      exact past_nil hs
  | cons c chars ih =>
    change t ∈ (one _ ++ _).ends s ↔ _
    rw [mem_ends_seq]
    constructor
    · rintro ⟨u, hu, ht⟩
      obtain ⟨d, rest, hs, hd, rfl⟩ := mem_ends_one.1 hu
      obtain ⟨taken, more, hm, same, rfl⟩ := ih.1 ht
      rw [past_after] at hm
      have lower : d.toLower = c.toLower := by simpa using hd
      refine ⟨d :: taken, more, by rw [hs, hm, List.cons_append], ?_,
        past_past s [d] rest taken more⟩
      rw [List.map_cons, List.map_cons, lower, same]
    · rintro ⟨taken, rest, hs, same, rfl⟩
      obtain ⟨d, taken, rfl⟩ : ∃ d more, taken = d :: more := by
        apply List.exists_cons_of_ne_nil
        rintro rfl
        cases same
      rw [List.map_cons, List.map_cons] at same
      obtain ⟨lower, same⟩ := List.cons.inj same
      refine ⟨s.past [d] (taken ++ rest), mem_ends_one.2 ⟨d, taken ++ rest, hs, ?_, rfl⟩, ?_⟩
      · simpa using lower
      · exact ih.2 ⟨taken, rest, rfl, same, (past_past s [d] (taken ++ rest) taken rest).symm⟩

theorem mem_ends_oneOrMore {accepts : Char → Bool} :
    t ∈ (oneOrMore accepts).ends s ↔
      ∃ taken rest, s.after = taken ++ rest ∧ taken ≠ [] ∧ (∀ c ∈ taken, accepts c = true) ∧
        t = s.past taken rest := by
  rw [oneOrMore, mem_ends_seq]
  constructor
  · rintro ⟨u, hu, ht⟩
    obtain ⟨c, rest, hs, hc, rfl⟩ := mem_ends_one.1 hu
    obtain ⟨taken, more, hm, htaken, rfl⟩ := mem_ends_run.1 ht
    rw [past_after] at hm
    refine ⟨c :: taken, more, by rw [hs, hm, List.cons_append], by simp, ?_,
      past_past s [c] rest taken more⟩
    simpa [hc] using htaken
  · rintro ⟨taken, rest, hs, hne, htaken, rfl⟩
    obtain ⟨c, taken, rfl⟩ := List.exists_cons_of_ne_nil hne
    refine ⟨s.past [c] (taken ++ rest), mem_ends_one.2 ⟨c, taken ++ rest, hs, ?_, rfl⟩, ?_⟩
    · exact htaken c (by simp)
    · exact mem_ends_run.2 ⟨taken, rest, rfl, fun d hd => htaken d (by simp [hd]),
        (past_past s [c] (taken ++ rest) taken rest).symm⟩

theorem mem_ends_capture {body : Pattern} :
    t ∈ (capture body).ends s ↔ ∃ u ∈ body.ends s.openCapture, t = u.closeCapture := by
  simp only [capture, mem_ends_seq, ends, List.mem_singleton]
  constructor
  · rintro ⟨u, ⟨_, rfl, hu⟩, rfl⟩
    exact ⟨u, hu, rfl⟩
  · rintro ⟨u, hu, rfl⟩
    exact ⟨u, ⟨_, rfl, hu⟩, rfl⟩

theorem mem_repeated_succ {appetite : Appetite} {body : Place → List Place} {rounds : Nat} :
    t ∈ repeated appetite body (rounds + 1) s ↔
      t = s ∨ ∃ u ∈ body s, t ∈ repeated appetite body rounds u := by
  cases appetite with
  | most => rw [repeated, List.mem_append, List.mem_singleton, List.mem_flatMap, or_comm]
  | least => rw [repeated, List.mem_cons, List.mem_flatMap]

theorem mem_ends_lineStart : t ∈ lineStart.ends s ↔ s.atLineStart = true ∧ t = s := by
  rw [ends]
  split <;> simp_all

end Pattern
end SolidityVetting
