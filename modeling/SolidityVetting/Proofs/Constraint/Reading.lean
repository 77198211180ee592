import SolidityVetting.Proofs.Constraint.Written
import SolidityVetting.Proofs.Text.Pieces
/-! # The version that is read off a written constraint

It is the version of the first comparator in the first alternative that is not an upper bound with
its operator against its version. So it bounds that alternative from below unless an upper bound
has white space behind its operator, and says nothing about the alternatives that follow.
-/

set_option autoImplicit false

namespace SolidityVetting
open Text

theorem Numeral.digits?_of_decimal {cs : List Char} (h : ∀ c ∈ cs, '0' ≤ c ∧ c ≤ '9') (n : Nat) :
    Numeral.digits? n cs = some (cs.foldl (fun n c => n * 10 + (c.toNat - '0'.toNat)) n) := by
  induction cs generalizing n with
  | nil => rfl
  | cons c rest ih =>
    have read : Numeral.digit? c = some (c.toNat - '0'.toNat) := if_pos (h c List.mem_cons_self)
    rw [Numeral.digits?, read, List.foldl_cons]
    exact ih (fun d hd => h d (List.mem_cons_of_mem c hd)) _

namespace Digits

instance (d : Digits) : Decidable d.Fits := inferInstanceAs (Decidable (_ < _))

theorem word32?_chars (d : Digits) :
    Numeral.word32? d.chars = if d.Fits then some d.value else none := by
  obtain ⟨cs, ne_nil, decimal⟩ := d
  obtain ⟨c, rest, rfl⟩ := List.exists_cons_of_ne_nil ne_nil
  have unsigned : c ≠ '+' := by
    rintro rfl
    exact absurd (decimal '+' List.mem_cons_self) (by decide)
  unfold Numeral.word32? Numeral.unsigned?
  dsimp only
  rw [if_neg unsigned, Numeral.digits?_of_decimal decimal]
  by_cases small : Fits ⟨c :: rest, ne_nil, decimal⟩
  · rw [if_pos small]
    exact Option.filter_eq_some_iff.2 ⟨rfl, decide_eq_true small⟩
  · rw [if_neg small]
    exact Option.filter_eq_none_iff.2 fun n hn => by
      cases hn
      exact fun low => small (of_decide_eq_true low)

theorem toNat_of_mem {d : Digits} {c : Char} (h : c ∈ d.chars) : 48 ≤ c.toNat ∧ c.toNat ≤ 57 :=
  d.decimal c h

theorem ne_of_mem {d : Digits} {c x : Char} (h : c ∈ d.chars) (hx : x.toNat < 48 ∨ 57 < x.toNat) :
    c ≠ x := by
  rintro rfl
  have bounds := toNat_of_mem h
  omega

theorem isBlank_of_mem {d : Digits} {c : Char} (h : c ∈ d.chars) : isBlank c = false := by
  have bounds := toNat_of_mem h
  simp only [isBlank, Bool.or_eq_false_iff, Bool.and_eq_false_iff, beq_eq_false_iff_ne,
    decide_eq_false_iff_not]
  omega

end Digits

namespace WrittenVersion

variable (v : WrittenVersion)

instance : Decidable v.Fits := inferInstanceAs (Decidable (_ ∧ _ ∧ _))

theorem pieces_text : pieces (· == '.') v.text = [v.major.chars, v.minor.chars, v.patch.chars] := by
  have dotless (d : Digits) : ∀ c ∈ d.chars, (c == '.') = false := fun c hc =>
    beq_eq_false_iff_ne.2 (Digits.ne_of_mem hc (.inl (by decide)))
  have cut (a b : List Char) :
      pieces (· == '.') (a ++ '.' :: b) = pieces (· == '.') a ++ pieces (· == '.') b :=
    pieces_append_cons rfl a b
  rw [text, cut, cut, pieces_of_free (dotless v.major), pieces_of_free (dotless v.minor),
    pieces_of_free (dotless v.patch)]
  rfl

theorem ofNumbers?_text :
    Version.ofNumbers? v.text = if v.Fits then some v.version else none := by
  unfold Version.ofNumbers?
  rw [pieces_text]
  dsimp only
  rw [Digits.word32?_chars, Digits.word32?_chars, Digits.word32?_chars]
  by_cases major : v.major.Fits <;> by_cases minor : v.minor.Fits <;>
    by_cases patch : v.patch.Fits <;>
    simp only [Fits, major, minor, patch, and_self, and_true, and_false, if_true, if_false] <;> rfl

theorem mem_text {c : Char} (h : c ∈ v.text) : c = '.' ∨ ∃ d : Digits, c ∈ d.chars := by
  simp only [text, List.mem_append, List.mem_cons] at h
  obtain h | rfl | h | rfl | h := h
  · exact .inr ⟨v.major, h⟩
  · exact .inl rfl
  · exact .inr ⟨v.minor, h⟩
  · exact .inl rfl
  · exact .inr ⟨v.patch, h⟩

theorem isBlank_of_mem {c : Char} (h : c ∈ v.text) : isBlank c = false := by
  obtain rfl | ⟨d, hd⟩ := v.mem_text h
  · decide
  · exact Digits.isBlank_of_mem hd

theorem bar_not_mem_text : '|' ∉ v.text := by
  intro h
  obtain h | ⟨d, hd⟩ := v.mem_text h
  · exact absurd h (by decide)
  · exact Digits.ne_of_mem hd (.inr (by decide)) rfl

theorem exists_digit_cons : ∃ c rest, v.text = c :: rest ∧ ∃ d : Digits, c ∈ d.chars := by
  obtain ⟨c, rest, h⟩ := List.exists_cons_of_ne_nil v.major.ne_nil
  exact ⟨c, rest ++ '.' :: (v.minor.chars ++ '.' :: v.patch.chars), by rw [text, h]; rfl,
    v.major, h ▸ List.mem_cons_self⟩

theorem text_ne_nil : v.text ≠ [] := by
  obtain ⟨c, rest, h, -⟩ := v.exists_digit_cons
  rw [h]
  exact List.cons_ne_nil c rest

theorem isUpperBound_text : Version.isUpperBound v.text = false := by
  obtain ⟨c, rest, h, d, hd⟩ := v.exists_digit_cons
  rw [Version.isUpperBound, h, List.head?_cons]
  exact beq_eq_false_iff_ne.2 fun e =>
    Digits.ne_of_mem hd (.inr (by decide)) (Option.some.inj e)

theorem dropWhile_isOperator_text : v.text.dropWhile Version.isOperator = v.text := by
  obtain ⟨c, rest, h, d, hd⟩ := v.exists_digit_cons
  have plain : Version.isOperator c = false := by
    simp only [Version.isOperator, Bool.or_eq_false_iff, beq_eq_false_iff_ne]
    refine ⟨⟨⟨⟨?_, ?_⟩, ?_⟩, ?_⟩, ?_⟩ <;> exact Digits.ne_of_mem hd (.inr (by decide))
  rw [h, List.dropWhile_cons_of_neg (by rw [plain]; exact Bool.false_ne_true)]

end WrittenVersion

theorem Version.words_append_of_blank {lead : List Char} (h : ∀ b ∈ lead, isBlank b = true)
    (s : List Char) : words (lead ++ s) = words s := by
  induction lead with
  | nil => rfl
  | cons b lead ih =>
    rw [List.cons_append, words_cons_of_blank (h b List.mem_cons_self)]
    exact ih fun c hc => h c (List.mem_cons_of_mem b hc)

theorem Version.head?_blank_append {lead : List Char} (ne_nil : lead ≠ [])
    (h : ∀ b ∈ lead, isBlank b = true) (s : List Char) :
    ∀ b ∈ (lead ++ s).head?, isBlank b = true := by
  intro b hb
  rw [List.head?_append, List.head?_eq_some_head ne_nil] at hb
  cases hb
  exact h _ (List.head_mem ne_nil)

theorem Version.words_append_word {word rest : List Char} (ne_nil : word ≠ [])
    (solid : ∀ c ∈ word, isBlank c = false) (ends : ∀ b ∈ rest.head?, isBlank b = true) :
    words (word ++ rest) = word :: words rest := by
  have kept (more : List (List Char)) :
      (word :: more).filter (! ·.isEmpty) = word :: more.filter (! ·.isEmpty) :=
    List.filter_cons_of_pos (by rw [List.isEmpty_eq_false_iff.2 ne_nil]; rfl)
  cases rest with
  | nil => rw [List.append_nil, words, pieces_of_free solid, kept]; rfl
  | cons b rest =>
    have hb : isBlank b = true := ends b rfl
    rw [words_cons_of_blank hb, words, pieces_append_cons hb, pieces_of_free solid,
      List.singleton_append, kept]
    rfl

namespace Operator

variable (operator : Operator)

theorem isBlank_of_mem_symbol {c : Char} (h : c ∈ operator.symbol) : isBlank c = false := by
  have solid : operator.symbol.all (! isBlank ·) = true := by cases operator <;> rfl
  rw [← Bool.not_eq_true']
  exact List.all_eq_true.1 solid c h

theorem bar_not_mem_symbol : '|' ∉ operator.symbol := by
  cases operator <;> decide

theorem isUpper_of_symbol_eq_nil (h : operator.symbol = []) : operator.isUpper = false := by
  cases operator <;> first | rfl | cases h

theorem isUpperBound_symbol : Version.isUpperBound operator.symbol = operator.isUpper := by
  cases operator <;> rfl

theorem isUpperBound_symbol_append (v : WrittenVersion) :
    Version.isUpperBound (operator.symbol ++ v.text) = operator.isUpper := by
  cases operator with
  | bare => exact v.isUpperBound_text
  | _ => rfl

theorem dropWhile_symbol_append (lower : operator.isUpper = false) (s : List Char) :
    (operator.symbol ++ s).dropWhile Version.isOperator = s.dropWhile Version.isOperator := by
  cases operator <;> first | rfl | cases lower

theorem dropWhile_symbol (lower : operator.isUpper = false) :
    operator.symbol.dropWhile Version.isOperator = [] := by
  have h := operator.dropWhile_symbol_append lower []
  rwa [List.append_nil] at h

end Operator

namespace Comparator

variable (c : Comparator)

def words : List (List Char) :=
  if c.operator.symbol = [] ∨ c.gap = [] then [c.operator.symbol ++ c.bound.text]
  else [c.operator.symbol, c.bound.text]

def isSkipped : Bool := c.operator.isUpper && c.gap.isEmpty

/-- What is read where this comparator decides: nothing behind a lower bound's operator that stands
apart from its version, which is then taken for a version itself. -/
def read? : Option Version :=
  if (c.operator.isUpper = true ∨ c.operator.symbol = [] ∨ c.gap = []) ∧ c.bound.Fits then
    some c.bound.version
  else none

theorem version_of_read? {v : Version} (h : c.read? = some v) : c.bound.version = v := by
  unfold read? at h
  split at h
  · exact Option.some.inj h
  · cases h

theorem bar_not_mem_text : '|' ∉ c.text := by
  have solid {gap : List Char} (blank : ∀ b ∈ gap, isBlank b = true) : '|' ∉ gap := fun h =>
    absurd (blank '|' h) (by decide)
  simp only [text, body, List.mem_append, not_or]
  exact ⟨solid c.lead_blank, c.operator.bar_not_mem_symbol, solid c.gap_blank,
    c.bound.bar_not_mem_text⟩

theorem words_text_append {rest : List Char} (ends : ∀ b ∈ rest.head?, isBlank b = true) :
    Text.words (c.text ++ rest) = c.words ++ Text.words rest := by
  have bound : Text.words (c.bound.text ++ rest) = c.bound.text :: Text.words rest :=
    Version.words_append_word c.bound.text_ne_nil (fun _ => c.bound.isBlank_of_mem) ends
  rw [text, body, List.append_assoc, Version.words_append_of_blank c.lead_blank, words]
  by_cases bare : c.operator.symbol = []
  · rw [if_pos (.inl bare), bare, List.nil_append, List.append_assoc,
      Version.words_append_of_blank c.gap_blank, bound]
    rfl
  · by_cases against : c.gap = []
    · have solid : ∀ x ∈ c.operator.symbol ++ c.bound.text, isBlank x = false := by
        intro x hx
        obtain hx | hx := List.mem_append.1 hx
        · exact c.operator.isBlank_of_mem_symbol hx
        · exact c.bound.isBlank_of_mem hx
      rw [if_pos (.inr against), against, List.nil_append,
        Version.words_append_word (List.append_ne_nil_of_left_ne_nil bare _) solid ends]
      rfl
    · rw [if_neg (not_or.2 ⟨bare, against⟩), List.append_assoc, List.append_assoc,
        Version.words_append_word bare (fun _ => c.operator.isBlank_of_mem_symbol)
          (Version.head?_blank_append against c.gap_blank _),
        Version.words_append_of_blank c.gap_blank, bound]
      rfl

theorem find?_words_of_isSkipped (h : c.isSkipped = true) :
    c.words.find? (! Version.isUpperBound ·) = none := by
  obtain ⟨upper, against⟩ := Bool.and_eq_true_iff.1 h
  rw [words, if_pos (.inr (List.isEmpty_iff.1 against)), List.find?_singleton,
    c.operator.isUpperBound_symbol_append, upper]
  rfl

theorem exists_word_of_not_isSkipped (h : c.isSkipped = false) :
    ∃ word, c.words.find? (! Version.isUpperBound ·) = some word ∧
      Version.ofNumbers? (word.dropWhile Version.isOperator) = c.read? := by
  by_cases joined : c.operator.symbol = [] ∨ c.gap = []
  · have lower : c.operator.isUpper = false := by
      obtain bare | against := joined
      · exact c.operator.isUpper_of_symbol_eq_nil bare
      · rwa [isSkipped, against, List.isEmpty_nil, Bool.and_true] at h
    refine ⟨c.operator.symbol ++ c.bound.text, ?_, ?_⟩
    · rw [words, if_pos joined, List.find?_singleton, c.operator.isUpperBound_symbol_append, lower]
      rfl
    · rw [c.operator.dropWhile_symbol_append lower, c.bound.dropWhile_isOperator_text,
        c.bound.ofNumbers?_text, read?]
      simp only [joined, or_true, true_and]
  · rw [words, if_neg joined]
    cases upper : c.operator.isUpper with
    | true =>
      refine ⟨c.bound.text, ?_, ?_⟩
      · rw [List.find?_cons, c.operator.isUpperBound_symbol, upper, Bool.not_true,
          List.find?_singleton, c.bound.isUpperBound_text]
        rfl
      · rw [c.bound.dropWhile_isOperator_text, c.bound.ofNumbers?_text, read?]
        simp only [upper, true_or, true_and]
    | false =>
      refine ⟨c.operator.symbol, ?_, ?_⟩
      · rw [List.find?_cons, c.operator.isUpperBound_symbol, upper]
        rfl
      · rw [c.operator.dropWhile_symbol upper, read?, if_neg]
        · rfl
        · simp only [upper, joined, Bool.false_eq_true, or_self, false_and, not_false_eq_true]

end Comparator

namespace Alternative

variable (a : Alternative)

/-- The comparator whose version is read. -/
def decisive? : Option Comparator := a.comparators.find? (! ·.isSkipped)

theorem not_isSkipped_of_decisive? {part : Comparator} (h : a.decisive? = some part) :
    part.isSkipped = false := by
  unfold decisive? at h
  rw [← Bool.not_eq_true']
  exact (List.find?_eq_some_iff_append.1 h).1

theorem words_text : Text.words a.text = a.comparators.flatMap (·.words) := by
  obtain ⟨comparators, apart, trail, trail_blank⟩ := a
  change Text.words (comparators.flatMap (·.text) ++ trail) = comparators.flatMap (·.words)
  induction comparators with
  | nil =>
    have h := Version.words_append_of_blank trail_blank []
    rwa [List.append_nil] at h
  | cons c rest ih =>
    have ends : ∀ b ∈ (rest.flatMap (·.text) ++ trail).head?, isBlank b = true := by
      cases rest with
      | nil => exact fun b hb => trail_blank b (List.mem_of_mem_head? hb)
      | cons d more =>
        rw [List.flatMap_cons, Comparator.text, List.append_assoc, List.append_assoc]
        exact Version.head?_blank_append (apart d List.mem_cons_self) d.lead_blank _
    rw [List.flatMap_cons, List.append_assoc, c.words_text_append ends, List.flatMap_cons,
      ih fun d hd => apart d (List.mem_of_mem_tail hd)]

theorem read_words : ((a.comparators.flatMap (·.words)).find? (! Version.isUpperBound ·)).bind
    (fun part => Version.ofNumbers? (part.dropWhile Version.isOperator)) =
      a.decisive?.bind (·.read?) := by
  unfold decisive?
  induction a.comparators with
  | nil => rfl
  | cons c rest ih =>
    rw [List.flatMap_cons, List.find?_append, List.find?_cons]
    cases skipped : c.isSkipped with
    | true => rw [c.find?_words_of_isSkipped skipped, Option.none_or]; exact ih
    | false =>
      obtain ⟨word, found, read⟩ := c.exists_word_of_not_isSkipped skipped
      rw [found, Option.some_or]
      exact read

theorem bar_not_mem_text : '|' ∉ a.text := by
  simp only [text, List.mem_append, List.mem_flatMap, not_or, not_exists, not_and]
  exact ⟨fun c _ => c.bar_not_mem_text, fun h => absurd (a.trail_blank '|' h) (by decide)⟩

end Alternative

theorem Version.firstAlternative_append {s : List Char} (h : '|' ∉ s) (t : List Char) :
    firstAlternative (s ++ t) = s ++ firstAlternative t := by
  induction s with
  | nil => rfl
  | cons c s ih =>
    rw [List.mem_cons, not_or] at h
    rw [List.cons_append, firstAlternative_cons (Ne.symm h.1), ih h.2, List.cons_append]

namespace Constraint

variable (c : Constraint)

theorem firstAlternative_text : Version.firstAlternative c.text = c.first.text := by
  have others : Version.firstAlternative (c.others.flatMap fun a => '|' :: '|' :: a.text) = [] := by
    cases c.others <;> rfl
  rw [text, Version.firstAlternative_append c.first.bar_not_mem_text, others, List.append_nil]

theorem ofConstraint?_text :
    Version.ofConstraint? c.text = c.first.decisive?.bind (·.read?) := by
  rw [Version.ofConstraint?, firstAlternative_text, Alternative.words_text, Alternative.read_words]

/-- The version that is read bounds all that the constraint allows exactly if the alternatives that
are not read allow nothing below it and, where it was read off an upper bound, the first one allows
nothing else. So it does where there is one alternative, with no white space behind the operators
of its upper bounds. -/
theorem reading_bounds_iff {v : Version} (h : Version.ofConstraint? c.text = some v) :
    ∃ part, c.first.decisive? = some part ∧ part.bound.version = v ∧
      ((∀ w, c.Allows w → v ≤ w) ↔
        (part.operator.isUpper = true → ∀ w, c.first.Allows w → w = v) ∧
          ∀ a ∈ c.others, ∀ w, a.Allows w → v ≤ w) ∧
      (c.others = [] → (∀ d ∈ c.first.comparators, d.operator.isUpper = true → d.gap = []) →
        ∀ w, c.Allows w → v ≤ w) := by
  rw [ofConstraint?_text] at h
  obtain ⟨part, found, read⟩ := Option.bind_eq_some_iff.1 h
  have mem : part ∈ c.first.comparators := List.mem_of_find?_eq_some found
  have version : part.bound.version = v := part.version_of_read? read
  have exact_bound : (∀ w, c.Allows w → v ≤ w) ↔
      (part.operator.isUpper = true → ∀ w, c.first.Allows w → w = v) ∧
        ∀ a ∈ c.others, ∀ w, a.Allows w → v ≤ w := by
    constructor
    · intro bounds
      refine ⟨fun upper w allowed => ?_, fun a ha w allowed =>
        bounds w ⟨a, List.mem_cons_of_mem _ ha, allowed⟩⟩
      have below : w ≤ v := version ▸ Operator.ge_of_allows (allowed part mem) upper
      exact Version.le_antisymm below (bounds w ⟨c.first, List.mem_cons_self, allowed⟩)
    · rintro ⟨only, others⟩ w ⟨a, ha, allowed⟩
      obtain rfl | ha := List.mem_cons.1 ha
      · cases upper : part.operator.isUpper with
        | true => exact only upper w allowed ▸ Version.le_refl _
        | false => exact version ▸ Operator.le_of_allows (allowed part mem) upper
      · exact others a ha w allowed
  refine ⟨part, found, version, exact_bound, fun single tidy => exact_bound.2 ⟨?_, ?_⟩⟩
  · -- The comparator that decides is not passed over, so its operator would stand apart.
    intro upper
    have kept : part.isSkipped = false := c.first.not_isSkipped_of_decisive? found
    rw [Comparator.isSkipped, upper, tidy part mem upper] at kept
    cases kept
  · rw [single]
    exact fun a ha => absurd ha List.not_mem_nil

def comparator (lead : Nat) (operator : Operator) (gap : Nat) (minor patch : Digits) :
    Comparator where
  lead := List.replicate lead ' '
  lead_blank := fun _ hc => List.eq_of_mem_replicate hc ▸ rfl
  operator := operator
  gap := List.replicate gap ' '
  gap_blank := fun _ hc => List.eq_of_mem_replicate hc ▸ rfl
  bound := ⟨.ofChars ['0'] rfl, minor, patch⟩

def lowerFirst : Constraint where
  first :=
    { comparators :=
        [comparator 0 .atLeast 0 (.ofChars ['8'] rfl) (.ofChars ['2', '1'] rfl),
          comparator 1 .below 0 (.ofChars ['9'] rfl) (.ofChars ['0'] rfl)]
      apart := by decide
      trail := []
      trail_blank := fun _ hb => absurd hb List.not_mem_nil }
  others := []

def detachedFirst : Constraint where
  first :=
    { comparators :=
        [comparator 0 .below 1 (.ofChars ['9'] rfl) (.ofChars ['0'] rfl),
          comparator 1 .atLeast 0 (.ofChars ['8'] rfl) (.ofChars ['0'] rfl)]
      apart := by decide
      trail := []
      trail_blank := fun _ hb => absurd hb List.not_mem_nil }
  others := []

theorem reading_bounds_iff_detached :
    (lowerFirst.text = ">=0.8.21 <0.9.0".toList ∧
      Version.ofConstraint? lowerFirst.text = some ⟨0, 8, 21⟩ ∧
      ∀ w, lowerFirst.Allows w → ⟨0, 8, 21⟩ ≤ w) ∧
    (detachedFirst.text = "< 0.9.0 >=0.8.0".toList ∧
      Version.ofConstraint? detachedFirst.text = some ⟨0, 9, 0⟩ ∧
      detachedFirst.Allows ⟨0, 8, 5⟩ ∧ ¬ ∀ w, detachedFirst.Allows w → ⟨0, 9, 0⟩ ≤ w) := by
  have lower : Version.ofConstraint? lowerFirst.text = some ⟨0, 8, 21⟩ := by decide
  have detached : Version.ofConstraint? detachedFirst.text = some ⟨0, 9, 0⟩ := by decide
  have allowed : detachedFirst.first.Allows ⟨0, 8, 5⟩ := by
    intro c hc
    obtain rfl | hc := List.mem_cons.1 hc
    · exact (by decide : (⟨0, 8, 5⟩ : Version) < ⟨0, 9, 0⟩)
    · cases List.mem_singleton.1 hc
      exact (by decide : (⟨0, 8, 0⟩ : Version) ≤ ⟨0, 8, 5⟩)
  refine ⟨⟨rfl, lower, ?_⟩, rfl, detached, ⟨_, List.mem_cons_self, allowed⟩, ?_⟩
  · obtain ⟨part, -, -, -, bounds⟩ := reading_bounds_iff lowerFirst lower
    refine bounds rfl fun d hd _ => ?_
    obtain rfl | hd := List.mem_cons.1 hd
    · rfl
    · exact List.mem_singleton.1 hd ▸ rfl
  · obtain ⟨part, found, -, bounds, -⟩ := reading_bounds_iff detachedFirst detached
    intro all
    cases (Option.some.inj found : _ = part)
    cases (bounds.1 all).1 rfl _ allowed

end Constraint
end SolidityVetting
