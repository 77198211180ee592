import SolidityVetting.Proofs.Constraint.Reading

set_option autoImplicit false

namespace SolidityVetting
open Text

def Digits.ofNat (n : Nat) : Digits where
  chars := Nat.toDigits 10 n
  ne_nil := Nat.toDigits_ne_nil
  decimal := fun c hc => by
    have digit := Nat.isDigit_of_mem_toDigits (by decide) (by decide) hc
    rw [Char.isDigit, Bool.and_eq_true, decide_eq_true_eq, decide_eq_true_eq] at digit
    exact digit

theorem Digits.value_ofNat (n : Nat) : (ofNat n).value = n := by
  have same : (fun m (c : Char) => m * 10 + (c.toNat - '0'.toNat)) =
      fun m c => 10 * m + (c.toNat - '0'.toNat) := by
    funext m c
    rw [Nat.mul_comm]
  rw [value, same]
  exact Nat.ofDigitChars_ten_toDigits

namespace WrittenVersion

def ofVersion (v : Version) : WrittenVersion := ⟨.ofNat v.major, .ofNat v.minor, .ofNat v.patch⟩

theorem version_ofVersion (v : Version) : (ofVersion v).version = v := by
  simp only [version, ofVersion, Digits.value_ofNat]

theorem text_ofVersion (v : Version) : (ofVersion v).text = v.text.toList := by
  have number (n : Nat) : (toString n).toList = Nat.toDigits 10 n := by
    rw [Nat.toString_eq_repr, Nat.toList_repr]
  simp only [Version.text, String.toList_append, number]
  simp [text, ofVersion, Digits.ofNat]

theorem fits_ofVersion {v : Version}
    (fits : v.major < Nat.pow 2 32 ∧ v.minor < Nat.pow 2 32 ∧ v.patch < Nat.pow 2 32) :
    (ofVersion v).Fits := by
  simp only [Fits, Digits.Fits, ofVersion, Digits.value_ofNat]
  exact fits

end WrittenVersion

def lowerSigns : List (List Char) := [[], ['^'], ['~'], ['='], ['>'], ['>', '='], ['v']]

structure UpperPart where
  rest : List Char
  solid : ∀ c ∈ rest, isBlank c = false
  barless : '|' ∉ rest
  gap : List Char
  gap_ne_nil : gap ≠ []
  gap_blank : ∀ c ∈ gap, isBlank c = true

namespace UpperPart

def ofChars (rest gap : List Char) (solid : rest.all (! isBlank ·) = true) (barless : '|' ∉ rest)
    (gap_ne_nil : gap ≠ []) (gap_blank : gap.all isBlank = true) : UpperPart where
  rest := rest
  solid := by
    intro c hc
    rw [← Bool.not_eq_true']
    exact List.all_eq_true.1 solid c hc
  barless := barless
  gap := gap
  gap_ne_nil := gap_ne_nil
  gap_blank := List.all_eq_true.1 gap_blank

def word (u : UpperPart) : List Char := '<' :: u.rest

def text (u : UpperPart) : List Char := u.word ++ u.gap

theorem bar_not_mem_text (u : UpperPart) : '|' ∉ u.text := by
  simp only [text, word, List.mem_append, List.mem_cons, not_or]
  exact ⟨⟨by decide, u.barless⟩, fun h => absurd (u.gap_blank '|' h) (by decide)⟩

theorem words_text_append (u : UpperPart) (s : List Char) :
    words (u.text ++ s) = u.word :: words s := by
  have some_char : u.word ≠ [] := List.cons_ne_nil '<' u.rest
  have solid : ∀ c ∈ u.word, isBlank c = false := by
    intro c hc
    obtain rfl | hc := List.mem_cons.1 hc
    · decide
    · exact u.solid c hc
  rw [text, List.append_assoc, Version.words_append_word some_char solid
    (Version.head?_blank_append u.gap_ne_nil u.gap_blank s),
    Version.words_append_of_blank u.gap_blank]

theorem words_flatMap_append (uppers : List UpperPart) (s : List Char) :
    words (uppers.flatMap text ++ s) = uppers.map word ++ words s := by
  induction uppers with
  | nil => rfl
  | cons u rest ih =>
    rw [List.flatMap_cons, List.append_assoc, words_text_append, ih, List.map_cons,
      List.cons_append]

theorem find?_words (uppers : List UpperPart) (parts : List (List Char)) :
    (uppers.map word ++ parts).find? (! Version.isUpperBound ·) =
      parts.find? (! Version.isUpperBound ·) := by
  induction uppers with
  | nil => rfl
  | cons u rest ih => exact ih

end UpperPart

/-- What may stand directly behind a version. -/
inductive Parted : List Char → Prop
  | nothing : Parted []
  | blank {b : Char} {rest : List Char} (h : isBlank b = true) : Parted (b :: rest)
  | bars (rest : List Char) : Parted ('|' :: '|' :: rest)

theorem Parted.head?_firstAlternative {tail : List Char} (h : Parted tail) :
    ∀ b ∈ (Version.firstAlternative tail).head?, isBlank b = true := by
  cases h with
  | nothing => exact fun b hb => by cases hb
  | @blank b rest hb =>
    have bar : b ≠ '|' := by
      rintro rfl
      exact absurd hb (by decide)
    rw [Version.firstAlternative_cons bar]
    rintro c hc
    cases hc
    exact hb
  | bars rest => exact fun b hb => by cases hb

namespace Version

variable {sign : List Char} (v : Version)

theorem of_mem_lowerSigns (h : sign ∈ lowerSigns) :
    ∀ c ∈ sign, isOperator c = true ∧ isBlank c = false ∧ c ≠ '|' ∧ c ≠ '<' := by
  intro c hc
  have table : (lowerSigns.flatten.all fun c =>
      isOperator c && (! isBlank c && (c != '|' && c != '<'))) = true := by decide
  have here := List.all_eq_true.1 table c (List.mem_flatten_of_mem h hc)
  simpa using here

def part (sign : List Char) : List Char := sign ++ v.text.toList

theorem part_eq (sign : List Char) : v.part sign = sign ++ (WrittenVersion.ofVersion v).text := by
  rw [part, WrittenVersion.text_ofVersion]

theorem part_ne_nil (sign : List Char) : v.part sign ≠ [] := by
  rw [part_eq]
  exact List.append_ne_nil_of_right_ne_nil sign (WrittenVersion.text_ne_nil _)

theorem isBlank_of_mem_part (h : sign ∈ lowerSigns) : ∀ c ∈ v.part sign, isBlank c = false := by
  intro c hc
  rw [part_eq, List.mem_append] at hc
  obtain hc | hc := hc
  · exact (of_mem_lowerSigns h c hc).2.1
  · exact WrittenVersion.isBlank_of_mem _ hc

theorem bar_not_mem_part (h : sign ∈ lowerSigns) : '|' ∉ v.part sign := by
  rw [part_eq, List.mem_append, not_or]
  exact ⟨fun bar => (of_mem_lowerSigns h _ bar).2.2.1 rfl, WrittenVersion.bar_not_mem_text _⟩

theorem isUpperBound_part (h : sign ∈ lowerSigns) : isUpperBound (v.part sign) = false := by
  rw [part_eq]
  cases sign with
  | nil => exact WrittenVersion.isUpperBound_text _
  | cons c rest =>
    have lower := (of_mem_lowerSigns h c List.mem_cons_self).2.2.2
    exact beq_eq_false_iff_ne.2 fun e => lower (Option.some.inj e)

theorem ofNumbers?_part (h : sign ∈ lowerSigns)
    (fits : v.major < Nat.pow 2 32 ∧ v.minor < Nat.pow 2 32 ∧ v.patch < Nat.pow 2 32) :
    ofNumbers? ((v.part sign).dropWhile isOperator) = some v := by
  rw [part_eq, List.dropWhile_append_of_pos fun c hc => (of_mem_lowerSigns h c hc).1,
    WrittenVersion.dropWhile_isOperator_text, WrittenVersion.ofNumbers?_text,
    if_pos (WrittenVersion.fits_ofVersion fits), WrittenVersion.version_ofVersion]

/-- Reading undoes printing inside a constraint: upper bounds in front of the version are passed
over, its sign is taken off, and nothing behind it is looked at. -/
theorem ofConstraint?_printed (uppers : List UpperPart) {lead tail : List Char}
    (lead_blank : ∀ c ∈ lead, isBlank c = true) (sign_mem : sign ∈ lowerSigns)
    (parted : Parted tail)
    (fits : v.major < Nat.pow 2 32 ∧ v.minor < Nat.pow 2 32 ∧ v.patch < Nat.pow 2 32) :
    ofConstraint? (lead ++ (uppers.flatMap (·.text) ++ (sign ++ v.text.toList ++ tail))) =
      some v := by
  have barless : '|' ∉ uppers.flatMap (·.text) ++ v.part sign := by
    rw [List.mem_append, not_or, List.mem_flatMap]
    exact ⟨fun ⟨u, _, bar⟩ => u.bar_not_mem_text bar, v.bar_not_mem_part sign_mem⟩
  have parts : Text.words (firstAlternative (uppers.flatMap (·.text) ++ (v.part sign ++ tail))) =
      uppers.map (·.word) ++ v.part sign :: Text.words (firstAlternative tail) := by
    rw [← List.append_assoc, firstAlternative_append barless, List.append_assoc,
      UpperPart.words_flatMap_append, words_append_word (v.part_ne_nil sign)
        (v.isBlank_of_mem_part sign_mem) parted.head?_firstAlternative]
  have found : (uppers.map (·.word) ++ v.part sign :: Text.words (firstAlternative tail)).find?
      (! isUpperBound ·) = some (v.part sign) := by
    rw [UpperPart.find?_words, List.find?_cons, v.isUpperBound_part sign_mem]
    rfl
  rw [ofConstraint?_append_of_blank lead_blank, ofConstraint?, ← part, parts, found]
  exact v.ofNumbers?_part sign_mem fits

def twoUppers : List UpperPart :=
  [.ofChars ['0', '.', '9', '.', '0'] [' '] rfl (by decide) (by decide) rfl,
    .ofChars ['=', '1'] ['\t', ' '] rfl (by decide) (by decide) rfl]

theorem ofConstraint?_printed_largest :
    (∀ c ∈ ['\n'], isBlank c = true) ∧ ['>', '='] ∈ lowerSigns ∧
      Parted "||<0.5.0".toList ∧ 4294967295 < Nat.pow 2 32 ∧
      ofConstraint? "\n<0.9.0 <=1\t >=0.8.4294967295||<0.5.0".toList =
        some ⟨0, 8, 4294967295⟩ := by
  have blank : ∀ c ∈ ['\n'], isBlank c = true := fun c hc => List.eq_of_mem_singleton hc ▸ rfl
  have sign_mem : ['>', '='] ∈ lowerSigns := by decide
  have parted : Parted "||<0.5.0".toList := .bars "<0.5.0".toList
  have read := ofConstraint?_printed ⟨0, 8, 4294967295⟩ twoUppers blank sign_mem parted (by decide)
  rw [← WrittenVersion.text_ofVersion] at read
  exact ⟨blank, sign_mem, parted, by decide, read⟩

end Version
end SolidityVetting
