import SolidityVetting.Proofs.Text.Pieces
import SolidityVetting.Text.Lines

set_option autoImplicit false

namespace SolidityVetting.Text

def EndsLine (front : List Char) : Prop := front = [] ∨ ∃ more, front = more ++ ['\n']

def StartsBreak (back : List Char) : Prop := back = [] ∨ ∃ more, back = '\n' :: more

theorem closeLines_append (xs : List (List Char)) {ys : List (List Char)} (h : ys ≠ []) :
    closeLines (xs ++ ys) = xs.map dropReturn ++ closeLines ys := by
  induction xs with
  | nil => rfl
  | cons x xs ih =>
    have more : xs ++ ys ≠ [] := List.append_ne_nil_of_right_ne_nil xs h
    obtain ⟨next, rest, hr⟩ := List.exists_cons_of_ne_nil more
    rw [List.cons_append, hr, closeLines, ← hr, ih]
    rfl

theorem length_closeLines_le (parts : List (List Char)) :
    (closeLines parts).length ≤ parts.length := by
  induction parts with
  | nil => exact Nat.le_refl 0
  | cons part rest ih =>
    cases rest with
    | nil =>
      rw [closeLines]
      split <;> simp
    | cons next rest => simpa [closeLines] using ih

theorem length_lines_le (s : List Char) : (lines s).length ≤ s.count '\n' + 1 := by
  have pieces := length_pieces (· == '\n') s
  have lines := length_closeLines_le (Text.pieces (· == '\n') s)
  rw [pieces] at lines
  exact lines

theorem lines_append_cons (a b : List Char) :
    lines (a ++ '\n' :: b) = (pieces (· == '\n') a).map dropReturn ++ lines b := by
  unfold lines
  rw [pieces_append_cons (by decide), closeLines_append _ (pieces_ne_nil _ b)]

theorem mem_pieces_of_mem_closeLines {parts : List (List Char)} {line : List Char}
    (h : line ∈ closeLines parts) :
    ∃ part ∈ parts, line = dropReturn part ∨ line = part := by
  induction parts with
  | nil => cases h
  | cons part rest ih =>
    cases rest with
    | nil =>
      rw [closeLines] at h
      split at h
      · cases h
      · exact ⟨part, List.mem_cons_self, .inr (List.mem_singleton.1 h)⟩
    | cons next rest =>
      rw [closeLines, List.mem_cons] at h
      obtain rfl | h := h
      · exact ⟨part, List.mem_cons_self, .inl rfl⟩
      · obtain ⟨other, hm, same⟩ := ih h
        exact ⟨other, List.mem_cons_of_mem part hm, same⟩

theorem dropReturn_cases (line : List Char) :
    dropReturn line = line ∨ line = dropReturn line ++ ['\r'] := by
  unfold dropReturn
  split
  · next last =>
    obtain ⟨kept, rfl⟩ := List.getLast?_eq_some_iff.1 last
    exact .inr (by rw [List.dropLast_concat])
  · exact .inl rfl

theorem exists_around_of_mem_lines {s line : List Char} (h : line ∈ lines s) :
    ∃ front back, s = front ++ line ++ back ∧ EndsLine front ∧
      (StartsBreak back ∨ ∃ more, back = '\r' :: more) := by
  obtain ⟨piece, hp, same⟩ := mem_pieces_of_mem_closeLines h
  obtain ⟨front, back, rfl, before, behind⟩ := exists_around_of_mem_pieces hp
  have ended : EndsLine front := by
    apply before.imp id
    rintro ⟨more, c, hc, rfl⟩
    exact ⟨more, by rw [eq_of_beq hc]⟩
  have broken : StartsBreak back := by
    apply behind.imp id
    rintro ⟨c, more, hc, rfl⟩
    exact ⟨more, by rw [eq_of_beq hc]⟩
  by_cases whole : line = piece
  · rw [whole]
    exact ⟨front, back, (List.append_assoc ..).symm, ended, .inl broken⟩
  · have cut : line = dropReturn piece := same.resolve_right whole
    have tail := (dropReturn_cases piece).resolve_left fun e => whole (cut.trans e)
    refine ⟨front, '\r' :: back, ?_, ended, .inr ⟨back, rfl⟩⟩
    rw [cut, List.append_assoc]
    conv => lhs; rw [tail]
    rw [List.append_assoc]
    rfl

theorem newline_not_mem_of_mem_lines {s line : List Char} (h : line ∈ lines s) : '\n' ∉ line := by
  have ⟨piece, hp, same⟩ := mem_pieces_of_mem_closeLines h
  have free : '\n' ∉ piece := fun mem => absurd (free_of_mem_pieces hp _ mem) (by decide)
  rcases same with rfl | rfl
  · intro mem
    rcases dropReturn_cases piece with same | same
    · exact free (same ▸ mem)
    · exact free (same ▸ List.mem_append_left _ mem)
  · exact free

theorem mem_lines_around {front text back line : List Char} (hf : EndsLine front)
    (hb : StartsBreak back) (h : line ∈ lines text) :
    line ∈ lines (front ++ text ++ back) ∨ dropReturn line ∈ lines (front ++ text ++ back) := by
  have behind : line ∈ lines (text ++ back) ∨ dropReturn line ∈ lines (text ++ back) := by
    obtain rfl | ⟨more, rfl⟩ := hb
    · rw [List.append_nil]
      exact .inl h
    · obtain ⟨piece, hp, same⟩ := mem_pieces_of_mem_closeLines h
      have kept : dropReturn piece ∈ lines (text ++ '\n' :: more) := by
        rw [lines_append_cons]
        exact List.mem_append_left _ (List.mem_map_of_mem hp)
      obtain rfl | rfl := same
      · exact .inl kept
      · exact .inr kept
  obtain rfl | ⟨more, rfl⟩ := hf
  · exact behind
  · have later : ∀ other ∈ lines (text ++ back),
        other ∈ lines (more ++ ['\n'] ++ text ++ back) := by
      intro other hm
      have layout : more ++ ['\n'] ++ text ++ back = more ++ '\n' :: (text ++ back) := by simp
      rw [layout, lines_append_cons]
      exact List.mem_append_right _ hm
    exact behind.imp (later line) (later (dropReturn line))

theorem exists_cut_before (front : List Char) :
    ∃ earlier before, front = earlier ++ before ∧ EndsLine earlier ∧ '\n' ∉ before := by
  induction front with
  | nil => exact ⟨[], [], rfl, .inl rfl, List.not_mem_nil⟩
  | cons c rest ih =>
    have ⟨earlier, before, cut, ended, free⟩ := ih
    rcases ended with empty | ⟨more, same⟩
    · by_cases hc : c = '\n'
      · exact ⟨['\n'], before, by rw [hc, cut, empty]; rfl, .inr ⟨[], rfl⟩, free⟩
      · refine ⟨[], c :: before, by rw [cut, empty]; rfl, .inl rfl, ?_⟩
        exact List.not_mem_cons_of_ne_of_not_mem (Ne.symm hc) free
    · exact ⟨c :: earlier, before, by rw [cut]; rfl, .inr ⟨c :: more, by rw [same]; rfl⟩, free⟩

theorem exists_cut_behind (back : List Char) :
    ∃ behind later, back = behind ++ later ∧ StartsBreak later ∧ '\n' ∉ behind := by
  rcases free_or_first_cut (· == '\n') back with free | ⟨behind, c, later, cut, hc, free⟩
  · exact ⟨back, [], (List.append_nil back).symm, .inl rfl, fun mem => absurd (free _ mem) (by simp)⟩
  · exact ⟨behind, c :: later, cut, .inr ⟨later, by rw [eq_of_beq hc]⟩,
      fun mem => absurd (free _ mem) (by simp)⟩

theorem exists_dropReturn_append {s : List Char} (last : s.getLast? ≠ some '\r')
    (behind : List Char) : ∃ kept rest, behind = kept ++ rest ∧ (rest = [] ∨ rest = ['\r']) ∧
      dropReturn (s ++ behind) = s ++ kept := by
  rcases List.eq_nil_or_concat behind with empty | ⟨kept, c, split⟩
  · refine ⟨[], [], empty, .inl rfl, ?_⟩
    rw [empty, List.append_nil, dropReturn, if_neg last]
  · rw [split, List.concat_eq_append, ← List.append_assoc]
    by_cases hc : c = '\r'
    · refine ⟨kept, [c], rfl, .inr (by rw [hc]), ?_⟩
      rw [dropReturn, List.getLast?_concat, if_pos (by rw [hc]), List.dropLast_concat]
    · refine ⟨kept ++ [c], [], (List.append_nil _).symm, .inl rfl, ?_⟩
      rw [dropReturn, List.getLast?_concat, if_neg (by simpa using hc), List.append_assoc]

/-- A text without line feeds stands on one line of the text around it, if it does not end with a
carriage return. -/
theorem exists_line_around {s : List Char} (front back : List Char) (some_text : s ≠ [])
    (one_line : '\n' ∉ s) (last : s.getLast? ≠ some '\r') :
    ∃ earlier before behind later, front = earlier ++ before ∧ back = behind ++ later ∧
      EndsLine earlier ∧ (StartsBreak later ∨ ∃ more, later = '\r' :: more) ∧
      before ++ (s ++ behind) ∈ lines (front ++ (s ++ back)) := by
  have ⟨earlier, before, cut, ended, free⟩ := exists_cut_before front
  have ⟨behind, later, cut', broken, free'⟩ := exists_cut_behind back
  have single : before ++ s ++ behind ∈ lines (before ++ s ++ behind) := by
    have plain : ∀ c ∈ before ++ s ++ behind, (c == '\n') = false := by
      intro c hc
      rw [beq_eq_false_iff_ne]
      intro same
      subst same
      simp [free, one_line, free'] at hc
    rw [lines, pieces_of_free plain, closeLines, if_neg (by simp [some_text])]
    exact List.mem_singleton_self _
  have last' : (before ++ s).getLast? ≠ some '\r' := by
    rw [List.getLast?_eq_some_getLast some_text] at last
    rw [List.getLast?_append, List.getLast?_eq_some_getLast some_text]
    exact last
  have whole : front ++ (s ++ back) = earlier ++ (before ++ s ++ behind) ++ later := by
    simp [cut, cut']
  rw [whole]
  -- the return that a line may lose belongs to the text behind, as `s` does not end with one
  rcases mem_lines_around ended broken single with mem | mem
  · refine ⟨earlier, before, behind, later, cut, cut', ended, .inl broken, ?_⟩
    rwa [← List.append_assoc before]
  · have ⟨kept, rest, split, dropped, line⟩ := exists_dropReturn_append last' behind
    refine ⟨earlier, before, kept, rest ++ later, cut, by simp [cut', split], ended, ?_, ?_⟩
    · rcases dropped with none | ret
      · rw [none]
        exact .inl broken
      · rw [ret]
        exact .inr ⟨later, rfl⟩
    · rwa [← List.append_assoc before, ← line]

theorem exists_around_of_mem_intercalate {texts : List (List Char)} {text : List Char}
    (h : text ∈ texts) : ∃ front back, ['\n'].intercalate texts = front ++ text ++ back ∧
      EndsLine front ∧ StartsBreak back := by
  induction texts with
  | nil => cases h
  | cons first rest ih =>
    cases rest with
    | nil =>
      rw [List.mem_singleton.1 h]
      exact ⟨[], [], by simp, .inl rfl, .inl rfl⟩
    | cons second rest =>
      rw [List.intercalate_cons_cons]
      obtain rfl | h := List.mem_cons.1 h
      · exact ⟨[], '\n' :: ['\n'].intercalate (second :: rest), by simp, .inl rfl, .inr ⟨_, rfl⟩⟩
      · obtain ⟨front, back, whole, ended, broken⟩ := ih h
        refine ⟨first ++ ['\n'] ++ front, back, by rw [whole]; simp, .inr ?_, broken⟩
        obtain rfl | ⟨more, rfl⟩ := ended
        · exact ⟨first, by simp⟩
        · exact ⟨first ++ ['\n'] ++ more, by simp⟩

end SolidityVetting.Text
