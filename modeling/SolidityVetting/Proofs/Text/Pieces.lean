import SolidityVetting.Text.Blank

set_option autoImplicit false

namespace SolidityVetting.Text

variable {separates : Char → Bool} {s : List Char}

theorem pieces_cons_of_separates {c : Char} (hc : separates c = true) (s : List Char) :
    pieces separates (c :: s) = [] :: pieces separates s := by
  rw [pieces, if_pos hc]

theorem pieces_of_free (h : ∀ c ∈ s, separates c = false) : pieces separates s = [s] := by
  induction s with
  | nil => rfl
  | cons c rest ih =>
    have hc : ¬ separates c = true := by simp [h c List.mem_cons_self]
    rw [pieces, if_neg hc, ih fun d hd => h d (List.mem_cons_of_mem c hd)]

theorem pieces_append_cons {c : Char} (hc : separates c = true) (a b : List Char) :
    pieces separates (a ++ c :: b) = pieces separates a ++ pieces separates b := by
  induction a with
  | nil => exact pieces_cons_of_separates hc b
  | cons x a ih =>
    by_cases hx : separates x = true
    · rw [List.cons_append, pieces_cons_of_separates hx, pieces_cons_of_separates hx, ih]
      rfl
    · rw [List.cons_append, pieces, pieces, if_neg hx, if_neg hx, ih]
      cases h : pieces separates a with
      | nil => exact absurd h (pieces_ne_nil separates a)
      | cons piece more => rfl

theorem length_pieces (separates : Char → Bool) (s : List Char) :
    (pieces separates s).length = s.countP separates + 1 := by
  induction s with
  | nil => rfl
  | cons c rest ih =>
    by_cases hc : separates c = true
    · rw [pieces_cons_of_separates hc, List.length_cons, ih, List.countP_cons_of_pos hc]
    · rw [pieces, if_neg hc, List.countP_cons_of_neg hc, ← ih]
      cases h : pieces separates rest with
      | nil => exact absurd h (pieces_ne_nil separates rest)
      | cons piece more => rfl

theorem free_or_first_cut (separates : Char → Bool) (s : List Char) :
    (∀ c ∈ s, separates c = false) ∨ ∃ a c b, s = a ++ c :: b ∧ separates c = true ∧
      ∀ x ∈ a, separates x = false := by
  induction s with
  | nil => exact .inl fun c hc => absurd hc List.not_mem_nil
  | cons x s ih =>
    by_cases hx : separates x = true
    · exact .inr ⟨[], x, s, rfl, hx, fun y hy => absurd hy List.not_mem_nil⟩
    · rw [Bool.not_eq_true] at hx
      obtain free | ⟨a, c, b, rfl, hc, free⟩ := ih
      · exact .inl (List.forall_mem_cons.2 ⟨hx, free⟩)
      · exact .inr ⟨x :: a, c, b, rfl, hc, List.forall_mem_cons.2 ⟨hx, free⟩⟩

theorem first_cut_unique {a b a' b' : List Char} {c c' : Char}
    (free : ∀ x ∈ a, separates x = false) (free' : ∀ x ∈ a', separates x = false)
    (hc : separates c = true) (hc' : separates c' = true) (h : a ++ c :: b = a' ++ c' :: b') :
    a = a' ∧ c = c' ∧ b = b' := by
  induction a generalizing a' with
  | nil =>
    cases a' with
    | nil =>
      obtain ⟨rfl, rfl⟩ := List.cons.inj h
      exact ⟨rfl, rfl, rfl⟩
    | cons x a' =>
      obtain ⟨rfl, -⟩ := List.cons.inj h
      exact absurd (free' c List.mem_cons_self) (by simp [hc])
  | cons x a ih =>
    cases a' with
    | nil =>
      obtain ⟨rfl, -⟩ := List.cons.inj h
      exact absurd (free x List.mem_cons_self) (by simp [hc'])
    | cons y a' =>
      obtain ⟨rfl, tails⟩ := List.cons.inj h
      obtain ⟨rfl, same⟩ := ih (fun z hz => free z (List.mem_cons_of_mem x hz))
        (fun z hz => free' z (List.mem_cons_of_mem x hz)) tails
      exact ⟨rfl, same⟩

theorem eq_of_first_cut {x : Char} {a b c d : List Char} (ha : x ∉ a) (hc : x ∉ c)
    (h : a ++ x :: b = c ++ x :: d) : a = c ∧ b = d := by
  have free {s : List Char} (hs : x ∉ s) : ∀ y ∈ s, (y == x) = false := by
    intro y hy
    rw [beq_eq_false_iff_ne]
    rintro rfl
    exact hs hy
  obtain ⟨fronts, -, backs⟩ := first_cut_unique (free ha) (free hc) (beq_self_eq_true x)
    (beq_self_eq_true x) h
  exact ⟨fronts, backs⟩

theorem cases_of_cut {c : Char} {a b front word rest : List Char} (some_word : word ≠ [])
    (free : c ∉ word) (h : a ++ c :: b = front ++ (word ++ rest)) :
    (∃ more, a = front ++ (word ++ more) ∧ rest = more ++ c :: b) ∨
      ∃ more, front = a ++ c :: more ∧ b = more ++ (word ++ rest) := by
  rcases List.append_eq_append_iff.1 h with ⟨more, cut, behind⟩ | ⟨more, cut, behind⟩
  · cases more with
    | nil =>
      cases word with
      | nil => exact absurd rfl some_word
      | cons d word =>
        have ⟨same, _⟩ := List.cons.inj behind
        exact absurd List.mem_cons_self (same ▸ free)
    | cons d more =>
      have ⟨same, later⟩ := List.cons.inj behind
      exact .inr ⟨more, by rw [cut, same], later⟩
  · rcases List.append_eq_append_iff.1 behind with ⟨tail, cut', behind'⟩ | ⟨tail, cut', behind'⟩
    · exact .inl ⟨tail, by rw [cut, cut'], behind'⟩
    · cases tail with
      | nil => exact .inl ⟨[], by rw [cut, cut', List.append_nil, List.append_nil], behind'.symm⟩
      | cons d tail =>
        have ⟨same, _⟩ := List.cons.inj behind'
        exact absurd (by simp [cut', same]) free

theorem pieces_of_cut {a b : List Char} {c : Char} (hc : separates c = true)
    (free : ∀ x ∈ a, separates x = false) :
    pieces separates (a ++ c :: b) = a :: pieces separates b := by
  rw [pieces_append_cons hc, pieces_of_free free]
  rfl

theorem free_of_mem_pieces {s piece : List Char} (h : piece ∈ pieces separates s) :
    ∀ c ∈ piece, separates c = false := by
  obtain free | ⟨a, c, b, cut, hc, free⟩ := free_or_first_cut separates s
  · rw [pieces_of_free free, List.mem_singleton] at h
    rw [h]
    exact free
  · have shorter : b.length < s.length := by simp [cut]; omega
    rw [cut, pieces_of_cut hc free, List.mem_cons] at h
    obtain rfl | h := h
    · exact free
    · exact free_of_mem_pieces h
termination_by s.length

theorem exists_around_of_mem_pieces {s piece : List Char} (h : piece ∈ pieces separates s) :
    ∃ front back, s = front ++ (piece ++ back) ∧
      (front = [] ∨ ∃ more c, separates c = true ∧ front = more ++ [c]) ∧
      (back = [] ∨ ∃ c more, separates c = true ∧ back = c :: more) := by
  obtain free | ⟨a, c, b, cut, hc, free⟩ := free_or_first_cut separates s
  · rw [pieces_of_free free, List.mem_singleton] at h
    exact ⟨[], [], by simp [h], .inl rfl, .inl rfl⟩
  · have shorter : b.length < s.length := by simp [cut]; omega
    rw [cut, pieces_of_cut hc free, List.mem_cons] at h
    obtain rfl | h := h
    · exact ⟨[], c :: b, cut, .inl rfl, .inr ⟨c, b, hc, rfl⟩⟩
    · obtain ⟨front, back, around, before, behind⟩ := exists_around_of_mem_pieces h
      refine ⟨a ++ c :: front, back, by simp [cut, around], .inr ?_, behind⟩
      obtain rfl | ⟨more, d, hd, rfl⟩ := before
      · exact ⟨a, c, hc, rfl⟩
      · exact ⟨a ++ c :: more, d, hd, by simp⟩
termination_by s.length

theorem join_cons {separator first : List Char} {rest : List (List Char)} (h : rest ≠ []) :
    join separator (first :: rest) = first ++ separator ++ join separator rest := by
  cases rest with
  | nil => exact absurd rfl h
  | cons second rest => rfl

/-- Cutting undoes joining if no piece holds the separator. -/
theorem pieces_join {c : Char} (hc : separates c = true) {parts : List (List Char)}
    (some_part : parts ≠ []) (free : ∀ part ∈ parts, ∀ x ∈ part, separates x = false) :
    pieces separates (join [c] parts) = parts := by
  induction parts with
  | nil => exact absurd rfl some_part
  | cons part rest ih =>
    obtain ⟨here, later⟩ := List.forall_mem_cons.1 free
    by_cases more : rest = []
    · rw [more]
      exact pieces_of_free here
    · rw [join_cons more, List.append_assoc, List.singleton_append, pieces_of_cut hc here,
        ih more later]

theorem pieces_intercalate {c : Char} (hc : separates c = true) {parts : List (List Char)}
    (some_part : parts ≠ []) :
    pieces separates ([c].intercalate parts) = parts.flatMap (pieces separates) := by
  induction parts with
  | nil => exact absurd rfl some_part
  | cons part rest ih =>
    cases rest with
    | nil => simp
    | cons next rest =>
      rw [List.intercalate_cons_cons, List.append_assoc, List.singleton_append,
        pieces_append_cons hc, ih (List.cons_ne_nil next rest)]
      rfl

end SolidityVetting.Text
