import Mathlib.Data.List.TakeWhile
import SolidityVetting.Text.Blank

set_option autoImplicit false

namespace SolidityVetting.Text

structure TrimsTo (text middle : List Char) : Prop where
  split : ∃ front back, text = front ++ (middle ++ back) ∧ (∀ c ∈ front, isBlank c = true) ∧
    ∀ c ∈ back, isBlank c = true
  first : ∀ c ∈ middle.head?, isBlank c = false
  last : ∀ c ∈ middle.getLast?, isBlank c = false

variable {text middle front back : List Char}

theorem trimStart_append (blank : ∀ c ∈ front, isBlank c = true) :
    trimStart (front ++ text) = trimStart text :=
  List.dropWhile_append_of_pos blank

theorem trimStart_of_first (first : ∀ c ∈ text.head?, isBlank c = false) :
    trimStart text = text := by
  cases text with
  | nil => rfl
  | cons c rest =>
    apply List.dropWhile_cons_of_neg
    rw [first c rfl]
    exact Bool.false_ne_true

theorem trimEnd_eq (text : List Char) : trimEnd text = (trimStart text.reverse).reverse := rfl

theorem trimEnd_append (blank : ∀ c ∈ back, isBlank c = true) :
    trimEnd (text ++ back) = trimEnd text := by
  have turned : ∀ c ∈ back.reverse, isBlank c = true := fun c hc =>
    blank c (List.mem_reverse.1 hc)
  rw [trimEnd_eq, List.reverse_append, trimStart_append turned, trimEnd_eq]

theorem trimEnd_of_last (last : ∀ c ∈ text.getLast?, isBlank c = false) : trimEnd text = text := by
  rw [trimEnd_eq, trimStart_of_first, List.reverse_reverse]
  rwa [List.head?_reverse]

theorem first_trimStart (text : List Char) : ∀ c ∈ (trimStart text).head?, isBlank c = false := by
  intro c hc
  have stop := List.head?_dropWhile_not isBlank text
  rw [← trimStart, Option.mem_def.1 hc] at stop
  simpa using stop

theorem trimStart_cut (text : List Char) :
    ∃ front, text = front ++ trimStart text ∧ ∀ c ∈ front, isBlank c = true :=
  ⟨text.takeWhile isBlank, List.takeWhile_append_dropWhile.symm,
    fun _ hc => List.mem_takeWhile_imp hc⟩

theorem trimEnd_cut (text : List Char) :
    ∃ back, text = trimEnd text ++ back ∧ ∀ c ∈ back, isBlank c = true := by
  have ⟨front, cut, blank⟩ := trimStart_cut text.reverse
  refine ⟨front.reverse, ?_, fun c hc => blank c (List.mem_reverse.1 hc)⟩
  rw [trimEnd_eq, ← List.reverse_append, ← cut, List.reverse_reverse]

theorem last_trimEnd (text : List Char) : ∀ c ∈ (trimEnd text).getLast?, isBlank c = false := by
  rw [trimEnd_eq, List.getLast?_reverse]
  exact first_trimStart text.reverse

theorem trimEnd_append_of_last (last : ∀ c ∈ front.getLast?, isBlank c = false) :
    trimEnd (front ++ text) = front ++ trimEnd text := by
  have ⟨back, cut, blank⟩ := trimEnd_cut text
  have solid : ∀ c ∈ (front ++ trimEnd text).getLast?, isBlank c = false := by
    intro c hc
    rw [List.getLast?_append, Option.mem_def, Option.or_eq_some_iff] at hc
    rcases hc with hc | ⟨_, hc⟩
    · exact last_trimEnd text c hc
    · exact last c hc
  calc trimEnd (front ++ text) = trimEnd (front ++ trimEnd text ++ back) := by
        rw [List.append_assoc, ← cut]
    _ = front ++ trimEnd text := by rw [trimEnd_append blank, trimEnd_of_last solid]

theorem trimEnd_eq_nil_iff : trimEnd text = [] ↔ ∀ c ∈ text, isBlank c = true := by
  constructor
  · intro none
    have ⟨back, cut, blank⟩ := trimEnd_cut text
    rw [none, List.nil_append] at cut
    rwa [cut]
  · intro blank
    rw [← List.nil_append text, trimEnd_append blank]
    rfl

theorem trimsTo_trim (text : List Char) : TrimsTo text (trim text) := by
  have ⟨front, cut, blank⟩ := trimStart_cut text
  have ⟨back, cut', blank'⟩ := trimEnd_cut (trimStart text)
  refine ⟨⟨front, back, ?_, blank, blank'⟩, ?_, last_trimEnd _⟩
  · rw [trim, ← cut', ← cut]
  · intro c hc
    have here : (trimEnd (trimStart text)).head? = some c := hc
    apply first_trimStart text c
    rw [cut', List.head?_append, here]
    rfl

theorem trimsTo_iff : TrimsTo text middle ↔ middle = trim text := by
  constructor
  · intro ⟨⟨front, back, cut, blank, blank'⟩, first, last⟩
    rw [cut, trim, trimStart_append blank]
    cases middle with
    | nil =>
      rw [List.nil_append, ← List.append_nil back, trimStart_append blank']
      rfl
    | cons c rest =>
      have start : trimStart (c :: rest ++ back) = c :: rest ++ back := trimStart_of_first first
      rw [start, trimEnd_append blank', trimEnd_of_last last]
  · intro same
    rw [same]
    exact trimsTo_trim text

section LowerCase
variable {c : Char}

theorem forall_ascii {P : Char → Prop} (table : ∀ n < 0x80, P (Char.ofNat n))
    (small : c.toNat < 0x80) : P c := by
  have here := table c.toNat small
  rwa [Char.ofNat_toNat] at here

theorem toLower_eq_or_lt (c : Char) : c.toLower = c ∨ c.toNat < 0x80 := by
  unfold Char.toLower
  split
  · next upper =>
    have bound : c.toNat ≤ 'Z'.toNat := upper.2
    exact .inr (Nat.lt_of_le_of_lt bound (by decide))
  · exact .inl rfl

theorem isBlank_toLower (c : Char) : isBlank c.toLower = isBlank c := by
  rcases toLower_eq_or_lt c with same | small
  · rw [same]
  · exact forall_ascii (P := fun c => isBlank c.toLower = isBlank c) (by decide +kernel) small

theorem toLower_toLower (c : Char) : c.toLower.toLower = c.toLower := by
  rcases toLower_eq_or_lt c with same | small
  · exact congrArg Char.toLower same
  · exact forall_ascii (P := fun c => c.toLower.toLower = c.toLower) (by decide +kernel) small

theorem trimEnd_toLower (text : List Char) :
    trimEnd (text.map Char.toLower) = (trimEnd text).map Char.toLower := by
  have blank : isBlank ∘ Char.toLower = isBlank := funext isBlank_toLower
  rw [trimEnd_eq, trimStart, ← List.map_reverse, List.dropWhile_map, blank, ← List.map_reverse]
  rfl

end LowerCase

end SolidityVetting.Text
