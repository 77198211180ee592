import SolidityVetting.Proofs.Pattern.Stretches
import SolidityVetting.Proofs.Text.Lines

set_option autoImplicit false

namespace SolidityVetting

open Place Pattern

/-- Text that can stand around another without joining its lines in front or its words behind. -/
structure Apart (front back : List Char) : Prop where
  line_ended : Text.EndsLine front
  no_word : touchesWord back = false

theorem Apart.front_edge {front back : List Char} (h : Apart front back) :
    touchesWord front.reverse = false := by
  obtain rfl | ⟨more, rfl⟩ := h.line_ended
  · rfl
  · rw [List.reverse_append]
    rfl

theorem apart_of_lines {front back : List Char} (hf : Text.EndsLine front) (hb : Text.StartsBreak back) :
    Apart front back := by
  refine ⟨hf, ?_⟩
  obtain rfl | ⟨more, rfl⟩ := hb
  · rfl
  · rfl

theorem apart_of_line {front back : List Char} (hf : Text.EndsLine front)
    (hb : Text.StartsBreak back ∨ ∃ more, back = '\r' :: more) : Apart front back := by
  obtain hb | ⟨more, rfl⟩ := hb
  · exact apart_of_lines hf hb
  · exact ⟨hf, rfl⟩

namespace Place

variable {front back : List Char} {s t : Place}

def within (front back : List Char) (s : Place) : Place :=
  ⟨s.before ++ front.reverse, s.after ++ back, s.index + front.length,
    s.captured.map fun span => ⟨span.fromStart ++ back, span.fromEnd ++ back⟩⟩

@[simp] theorem within_before : (s.within front back).before = s.before ++ front.reverse := rfl

@[simp] theorem within_after : (s.within front back).after = s.after ++ back := rfl

theorem within_past (taken rest : List Char) :
    (s.past taken rest).within front back = (s.within front back).past taken (rest ++ back) := by
  simp [within, past, Nat.add_right_comm]

theorem within_closeCapture :
    s.closeCapture.within front back = (s.within front back).closeCapture := by
  unfold within closeCapture
  cases s.captured <;> rfl

theorem touchesWord_append {inner outer : List Char} (h : touchesWord outer = false) :
    touchesWord (inner ++ outer) = touchesWord inner := by
  cases inner with
  | nil => exact h
  | cons c rest => rfl

theorem atWordEdge_within (h : Apart front back) :
    (s.within front back).atWordEdge = s.atWordEdge := by
  unfold atWordEdge
  rw [within_before, within_after, touchesWord_append h.front_edge, touchesWord_append h.no_word]

theorem atLineStart_within (h : Apart front back) :
    (s.within front back).atLineStart = s.atLineStart := by
  unfold atLineStart
  rw [within_before]
  cases s.before with
  | cons c rest => rfl
  | nil =>
    obtain rfl | ⟨more, rfl⟩ := h.line_ended
    · rfl
    · rw [List.nil_append, List.reverse_append]
      rfl

theorem exists_within_of_isIn {text : List Char} (hs : s.IsIn (text ++ back) 0 0)
    (hle : back.length ≤ s.after.length) (free : s.captured = none) :
    ∃ u : Place, u.IsIn text 0 0 ∧ u.captured = none ∧ s = u.within [] back := by
  have behind : back <:+ s.after := by
    have whole : s.after <:+ text ++ back := ⟨s.before.reverse, hs.1⟩
    exact List.suffix_of_suffix_length_le (List.suffix_append text back) whole hle
  obtain ⟨inner, hi⟩ := behind
  have whole : s.before.reverse ++ inner = text := by
    apply (List.append_left_inj back).1
    rw [List.append_assoc, hi, hs.1]
  refine ⟨⟨s.before, inner, s.index, none⟩, ⟨whole, hs.2⟩, rfl, ?_⟩
  cases s with
  | mk before after index captured =>
    subst hi free
    simp [within]

end Place

namespace Pattern

variable {p : Pattern} {front back : List Char} {s t : Place}

theorem alike_of_apart (h : Apart front back) (before : List Char) :
    Alike before (before ++ front.reverse) := by
  have outside : Alike [] front.reverse := by
    refine ⟨h.front_edge.symm, ?_⟩
    obtain rfl | ⟨more, rfl⟩ := h.line_ended
    · exact Iff.rfl
    · simp
  simpa using outside.append before

/-- The text around another makes no difference to what is described in it. -/
theorem describes_within_iff (h : Apart front back) {before taken rest : List Char} :
    p.Describes (before ++ front.reverse) taken (rest ++ back) ↔ p.Describes before taken rest := by
  have behind : touchesWord (rest ++ back) = touchesWord rest := touchesWord_append h.no_word
  constructor
  · exact Describes.around p (alike_of_apart h before).symm behind
  · exact Describes.around p (alike_of_apart h before) behind.symm

theorem occursIn_within (h : Apart front back) {text : List Char} (found : p.occursIn text = true) :
    p.occursIn (front ++ text ++ back) = true := by
  have ⟨before, taken, rest, whole, described⟩ := occursIn_iff_describes.1 found
  rw [occursIn_iff_describes]
  refine ⟨front ++ before, taken, rest ++ back, by simp [whole], ?_⟩
  rw [List.reverse_append]
  exact (describes_within_iff h).2 described

theorem exists_describes_of_mem_lines {text line : List Char} (h : line ∈ Text.lines text)
    (found : p.occursIn line = true) : ∃ front taken rest, text = front ++ (taken ++ rest) ∧
      '\n' ∉ taken ∧ p.Describes front.reverse taken rest := by
  have ⟨earlier, later, whole, ended, broken⟩ := Text.exists_around_of_mem_lines h
  have ⟨before, taken, rest, split, described⟩ := occursIn_iff_describes.1 found
  refine ⟨earlier ++ before, taken, rest ++ later, by simp [whole, split], ?_, ?_⟩
  · intro mem
    exact Text.newline_not_mem_of_mem_lines h (by simp [split, mem])
  · rw [List.reverse_append]
    exact (describes_within_iff (apart_of_line ended broken)).2 described

theorem exists_line_of_describes {front taken rest : List Char} (some_text : taken ≠ [])
    (one_line : '\n' ∉ taken) (last : taken.getLast? ≠ some '\r')
    (h : p.Describes front.reverse taken rest) :
    ∃ line ∈ Text.lines (front ++ (taken ++ rest)), p.occursIn line = true := by
  have ⟨earlier, before, behind, later, cut, cut', ended, broken, mem⟩ :=
    Text.exists_line_around front rest some_text one_line last
  refine ⟨_, mem, occursIn_iff_describes.2 ⟨before, taken, behind, rfl, ?_⟩⟩
  rw [cut, cut', List.reverse_append] at h
  exact (describes_within_iff (apart_of_line ended broken)).1 h

theorem occursIn_of_mem_lines {text line : List Char} (h : line ∈ Text.lines text)
    (found : p.occursIn line = true) : p.occursIn text = true := by
  have ⟨front, taken, rest, whole, _, described⟩ := exists_describes_of_mem_lines h found
  exact occursIn_iff_describes.2 ⟨front, taken, rest, whole, described⟩

def isFlat : Pattern → Bool
  | .seq first second => first.isFlat && second.isFlat
  | .alt first second => first.isFlat && second.isFlat
  | .many _ _ => false
  | _ => true

theorem length_after_le_of_mem_ends (flat : p.isFlat = true) (ht : t ∈ p.ends s) :
    t.after.length ≤ s.after.length := by
  induction p generalizing s t with
  | nothing => exact Nat.le_of_eq (by rw [mem_ends_nothing.1 ht])
  | one accepts =>
    obtain ⟨c, rest, hs, -, rfl⟩ := mem_ends_one.1 ht
    rw [hs, past_after, List.length_cons]
    omega
  | run appetite accepts =>
    obtain ⟨taken, rest, hs, -, rfl⟩ := mem_ends_run.1 ht
    rw [hs, past_after, List.length_append]
    omega
  | seq first second ihf ihs =>
    obtain ⟨flatFirst, flatSecond⟩ := Bool.and_eq_true_iff.1 flat
    obtain ⟨u, hu, ht⟩ := mem_ends_seq.1 ht
    exact Nat.le_trans (ihs flatSecond ht) (ihf flatFirst hu)
  | alt first second ihf ihs =>
    obtain ⟨flatFirst, flatSecond⟩ := Bool.and_eq_true_iff.1 flat
    obtain ht | ht := mem_ends_alt.1 ht
    · exact ihf flatFirst ht
    · exact ihs flatSecond ht
  | many appetite body => cases flat
  | wordEdge => exact Nat.le_of_eq (by rw [(mem_ends_wordEdge.1 ht).2])
  | lineStart => exact Nat.le_of_eq (by rw [(mem_ends_lineStart.1 ht).2])
  | captureStart =>
    rw [List.mem_singleton.1 ht]
    exact Nat.le_refl _
  | captureEnd =>
    rw [List.mem_singleton.1 ht]
    exact Nat.le_refl _

theorem exists_mem_ends_of_within (flat : p.isFlat = true) (h : touchesWord back = false)
    (ht : t ∈ p.ends (s.within [] back)) (hle : back.length ≤ t.after.length) :
    ∃ u ∈ p.ends s, t = u.within [] back := by
  have apart : Apart [] back := ⟨.inl rfl, h⟩
  induction p generalizing s t with
  | nothing => exact ⟨s, mem_ends_nothing.2 rfl, mem_ends_nothing.1 ht⟩
  | one accepts =>
    obtain ⟨c, rest, hs, hc, rfl⟩ := mem_ends_one.1 ht
    rw [within_after] at hs
    rw [past_after] at hle
    cases ha : s.after with
    | nil =>
      rw [ha, List.nil_append] at hs
      rw [hs, List.length_cons] at hle
      omega
    | cons d inner =>
      rw [ha, List.cons_append] at hs
      obtain ⟨rfl, rfl⟩ := List.cons.inj hs
      exact ⟨s.past [d] inner, mem_ends_one.2 ⟨d, inner, ha, hc, rfl⟩,
        (within_past [d] inner).symm⟩
  | run appetite accepts =>
    obtain ⟨taken, rest, hs, hall, rfl⟩ := mem_ends_run.1 ht
    rw [within_after] at hs
    rw [past_after] at hle
    -- a run that went into `back` would leave less than `back` behind it
    obtain ⟨inner, rfl⟩ : ∃ inner, rest = inner ++ back := by
      obtain ⟨cut, -, he⟩ | ⟨cut, -, he⟩ := List.append_eq_append_iff.1 hs
      · have length := congrArg List.length he
        rw [List.length_append] at length
        obtain rfl : cut = [] := List.eq_nil_of_length_eq_zero (by omega)
        exact ⟨[], he.symm⟩
      · exact ⟨cut, he⟩
    have ha : s.after = taken ++ inner := by
      apply (List.append_left_inj back).1
      rw [hs, List.append_assoc]
    exact ⟨s.past taken inner, mem_ends_run.2 ⟨taken, inner, ha, hall, rfl⟩,
      (within_past taken inner).symm⟩
  | seq first second ihf ihs =>
    obtain ⟨flatFirst, flatSecond⟩ := Bool.and_eq_true_iff.1 flat
    obtain ⟨v, hv, ht⟩ := mem_ends_seq.1 ht
    obtain ⟨u, hu, rfl⟩ :=
      ihf flatFirst hv (Nat.le_trans hle (length_after_le_of_mem_ends flatSecond ht))
    obtain ⟨w, hw, rfl⟩ := ihs flatSecond ht hle
    exact ⟨w, mem_ends_seq.2 ⟨u, hu, hw⟩, rfl⟩
  | alt first second ihf ihs =>
    obtain ⟨flatFirst, flatSecond⟩ := Bool.and_eq_true_iff.1 flat
    obtain ht | ht := mem_ends_alt.1 ht
    · obtain ⟨u, hu, rfl⟩ := ihf flatFirst ht hle
      exact ⟨u, mem_ends_alt.2 (.inl hu), rfl⟩
    · obtain ⟨u, hu, rfl⟩ := ihs flatSecond ht hle
      exact ⟨u, mem_ends_alt.2 (.inr hu), rfl⟩
  | many appetite body => cases flat
  | wordEdge =>
    obtain ⟨edge, rfl⟩ := mem_ends_wordEdge.1 ht
    exact ⟨s, mem_ends_wordEdge.2 ⟨(atWordEdge_within apart).symm.trans edge, rfl⟩, rfl⟩
  | lineStart =>
    obtain ⟨first, rfl⟩ := mem_ends_lineStart.1 ht
    exact ⟨s, mem_ends_lineStart.2 ⟨(atLineStart_within apart).symm.trans first, rfl⟩, rfl⟩
  | captureStart =>
    exact ⟨s.openCapture, List.mem_singleton_self _, List.mem_singleton.1 ht⟩
  | captureEnd =>
    refine ⟨s.closeCapture, List.mem_singleton_self _, ?_⟩
    rw [within_closeCapture]
    exact List.mem_singleton.1 ht

theorem occursIn_of_append (flat : p.isFlat = true) (h : touchesWord back = false)
    {text : List Char} (stops : ∀ u : Place, u.IsIn (text ++ back) 0 0 → ∀ t ∈ p.ends u.bare,
      back.length ≤ t.after.length) (found : p.occursIn (text ++ back) = true) :
    p.occursIn text = true := by
  obtain ⟨u, hu, t, ht⟩ := occursIn_iff.1 found
  have hle := stops u hu t ht
  have room : back.length ≤ u.bare.after.length :=
    Nat.le_trans hle (length_after_le_of_mem_ends flat ht)
  obtain ⟨v, hv, free, same⟩ := exists_within_of_isIn (isIn_bare hu) room rfl
  rw [same] at ht
  obtain ⟨w, hw, -⟩ := exists_mem_ends_of_within flat h ht hle
  rw [occursIn_iff]
  refine ⟨v, hv, w, ?_⟩
  have bare : v.bare = v := by
    unfold bare
    rw [← free]
  rw [bare]
  exact hw

end Pattern
end SolidityVetting
