import SolidityVetting.Proofs.Text.Lines

set_option autoImplicit false

namespace SolidityVetting.Text

def withReturns (s : List Char) : List Char :=
  s.flatMap fun c => if c = '\n' then ['\r', '\n'] else [c]

def withoutReturns (s : List Char) : List Char := s.filter (· != '\r')

/-- Every carriage return stands in front of a line feed. -/
def Paired (s : List Char) : Prop :=
  ∀ front back, s = front ++ '\r' :: back → ∃ more, back = '\n' :: more

variable {s t : List Char} {c : Char}

theorem withReturns_append (s t : List Char) :
    withReturns (s ++ t) = withReturns s ++ withReturns t := List.flatMap_append

theorem withReturns_feed (s : List Char) :
    withReturns ('\n' :: s) = '\r' :: '\n' :: withReturns s := rfl

theorem withReturns_cons (h : c ≠ '\n') (s : List Char) :
    withReturns (c :: s) = c :: withReturns s := by
  simp [withReturns, h]

theorem withReturns_of_free (h : '\n' ∉ s) : withReturns s = s := by
  induction s with
  | nil => rfl
  | cons c rest ih =>
    rw [List.mem_cons, not_or] at h
    rw [withReturns_cons (Ne.symm h.1), ih h.2]

theorem mem_withReturns (h : c ∈ withReturns s) : c ∈ s ∨ c = '\r' ∧ '\n' ∈ s := by
  obtain ⟨d, hd, hc⟩ := List.mem_flatMap.1 h
  split at hc
  · next feed =>
    subst feed
    obtain rfl | hc := List.mem_cons.1 hc
    · exact .inr ⟨rfl, hd⟩
    · exact .inl (List.mem_singleton.1 hc ▸ hd)
  · exact .inl (List.mem_singleton.1 hc ▸ hd)

theorem withoutReturns_cons (h : c ≠ '\r') (s : List Char) :
    withoutReturns (c :: s) = c :: withoutReturns s := List.filter_cons_of_pos (bne_iff_ne.2 h)

theorem withoutReturns_append (s t : List Char) :
    withoutReturns (s ++ t) = withoutReturns s ++ withoutReturns t := List.filter_append ..

theorem withoutReturns_reverse (s : List Char) :
    withoutReturns s.reverse = (withoutReturns s).reverse := List.filter_reverse ..

theorem withoutReturns_withReturns (h : '\r' ∉ s) : withoutReturns (withReturns s) = s := by
  induction s with
  | nil => rfl
  | cons c rest ih =>
    rw [List.mem_cons, not_or] at h
    by_cases feed : c = '\n'
    · rw [feed, withReturns_feed]
      exact congrArg _ (ih h.2)
    · rw [withReturns_cons feed, withoutReturns_cons (Ne.symm h.1), ih h.2]

theorem paired_withReturns (h : '\r' ∉ s) : Paired (withReturns s) := by
  induction s with
  | nil =>
    intro front back cut
    simp [withReturns] at cut
  | cons c rest ih =>
    rw [List.mem_cons, not_or] at h
    have later := ih h.2
    intro front back cut
    by_cases feed : c = '\n'
    · rw [feed, withReturns_feed] at cut
      match front, cut with
      | [], cut => exact ⟨_, (List.cons.inj cut).2.symm⟩
      | [_], cut => simp at cut
      | _ :: _ :: front, cut =>
        exact later front back (List.cons.inj (List.cons.inj cut).2).2
    · rw [withReturns_cons feed] at cut
      match front, cut with
      | [], cut => exact absurd (List.cons.inj cut).1.symm h.1
      | _ :: front, cut => exact later front back (List.cons.inj cut).2

theorem Paired.of_append (h : Paired (s ++ t)) : Paired t := fun front back cut =>
  h (s ++ front) back (by rw [cut, List.append_assoc])

theorem lineAfter_withReturns (s : List Char) : lineAfter (withReturns s) = lineAfter s := by
  unfold lineAfter
  induction s with
  | nil => rfl
  | cons c rest ih =>
    by_cases feed : c = '\n'
    · rw [feed, withReturns_feed]
      simpa using ih
    · rw [withReturns_cons feed]
      simpa [List.count_cons, feed] using ih

theorem lineAfter_withoutReturns (s : List Char) : lineAfter (withoutReturns s) = lineAfter s := by
  rw [lineAfter, withoutReturns, List.count_filter (by decide)]
  rfl

theorem dropReturn_of_free (h : '\r' ∉ s) : dropReturn s = s :=
  if_neg fun last => h (List.mem_of_getLast? last)

theorem dropReturn_concat (s : List Char) : dropReturn (s ++ ['\r']) = s := by
  simp [dropReturn]

theorem lines_of_cut (free : '\n' ∉ s) (t : List Char) :
    lines (s ++ '\n' :: t) = dropReturn s :: lines t := by
  have alone : pieces (· == '\n') s = [s] :=
    pieces_of_free fun c hc => beq_eq_false_iff_ne.2 fun same => free (same ▸ hc)
  rw [lines_append_cons, alone]
  rfl

theorem lines_withReturns {s : List Char} (h : '\r' ∉ s) : lines (withReturns s) = lines s := by
  obtain free | ⟨a, c, b, cut, hc, free⟩ := free_or_first_cut (· == '\n') s
  · rw [withReturns_of_free fun feed => absurd (free '\n' feed) (by decide)]
  · have feed : c = '\n' := eq_of_beq hc
    have one_line : '\n' ∉ a := fun mem => absurd (free '\n' mem) (by decide)
    have shorter : b.length < s.length := by simp [cut]; omega
    rw [cut, feed] at h ⊢
    have plain : '\r' ∉ a ∧ '\r' ∉ b := by simpa using h
    have ended : withReturns (a ++ '\n' :: b) = (a ++ ['\r']) ++ '\n' :: withReturns b := by
      rw [withReturns_append, withReturns_of_free one_line, withReturns_feed, List.append_assoc]
      rfl
    rw [ended, lines_of_cut (by simpa using one_line), lines_of_cut one_line, dropReturn_concat,
      dropReturn_of_free plain.1, lines_withReturns plain.2]
termination_by s.length

end SolidityVetting.Text
