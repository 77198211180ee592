import Mathlib.Data.List.Infix
import SolidityVetting.Proofs.Text.Pieces

set_option autoImplicit false

namespace SolidityVetting.Text

def depth (s : List Char) : Int := s.count '{' - s.count '}'

/-- The braces are balanced and nested at most one level deep. -/
structure Shallow (s : List Char) : Prop where
  balanced : depth s = 0
  nested : ∀ front, front <+: s → 0 ≤ depth front ∧ depth front ≤ 1

variable {s t : List Char}

theorem shallow_iff : Shallow s ↔
    depth s = 0 ∧ ∀ front ∈ s.inits, 0 ≤ depth front ∧ depth front ≤ 1 := by
  simp only [List.mem_inits]
  exact ⟨fun h => ⟨h.balanced, h.nested⟩, fun ⟨balanced, nested⟩ => ⟨balanced, nested⟩⟩

instance (s : List Char) : Decidable (Shallow s) := decidable_of_iff' _ shallow_iff

theorem depth_append (s t : List Char) : depth (s ++ t) = depth s + depth t := by
  unfold depth
  rw [List.count_append, List.count_append]
  omega

theorem depth_open (s : List Char) : depth ('{' :: s) = 1 + depth s := depth_append ['{'] s

theorem depth_of_free (h : ∀ c ∈ s, c ≠ '{' ∧ c ≠ '}') : depth s = 0 := by
  have opening : s.count '{' = 0 := List.count_eq_zero.2 fun mem => (h _ mem).1 rfl
  have closing : s.count '}' = 0 := List.count_eq_zero.2 fun mem => (h _ mem).2 rfl
  simp [depth, opening, closing]

theorem prefix_append_cases {front : List Char} (h : front <+: s ++ t) :
    front <+: s ∨ ∃ more, front = s ++ more ∧ more <+: t := by
  have ⟨rest, whole⟩ := h
  rcases List.append_eq_append_iff.1 whole with ⟨more, behind, _⟩ | ⟨more, behind, cut⟩
  · exact .inl ⟨more, behind.symm⟩
  · exact .inr ⟨more, behind, rest, cut.symm⟩

theorem Shallow.append (hs : Shallow s) (ht : Shallow t) : Shallow (s ++ t) := by
  constructor
  · rw [depth_append, hs.balanced, ht.balanced]
    rfl
  · intro front h
    rcases prefix_append_cases h with h | ⟨more, cut, h⟩
    · exact hs.nested front h
    · rw [cut, depth_append, hs.balanced, Int.zero_add]
      exact ht.nested more h

theorem Shallow.of_append (h : Shallow (s ++ t)) (hs : depth s = 0) : Shallow t := by
  constructor
  · have whole := h.balanced
    rwa [depth_append, hs, Int.zero_add] at whole
  · intro front hf
    have within := h.nested (s ++ front) ((List.prefix_append_right_inj s).2 hf)
    rwa [depth_append, hs, Int.zero_add] at within

theorem Shallow.of_prefix (h : Shallow t) (hs : s <+: t) (balanced : depth s = 0) : Shallow s :=
  ⟨balanced, fun front hf => h.nested front (hf.trans hs)⟩

theorem shallow_of_free (h : ∀ c ∈ s, c ≠ '{' ∧ c ≠ '}') : Shallow s := by
  refine ⟨depth_of_free h, fun front hf => ?_⟩
  rw [depth_of_free fun c hc => h c (hf.subset hc)]
  decide

theorem shallow_block (h : ∀ c ∈ s, c ≠ '{' ∧ c ≠ '}') : Shallow ('{' :: (s ++ ['}'])) := by
  constructor
  · rw [depth_open, depth_append, depth_of_free h]
    rfl
  · intro front hf
    rcases List.prefix_cons_iff.1 hf with empty | ⟨inner, cut, hi⟩
    · rw [empty]
      decide
    · rw [cut, depth_open]
      rcases prefix_append_cases hi with hi | ⟨more, cut', hm⟩
      · rw [depth_of_free fun c hc => h c (hi.subset hc)]
        decide
      · rw [cut', depth_append, depth_of_free h]
        rcases List.prefix_cons_iff.1 hm with empty | ⟨rest, cut'', hr⟩
        · rw [empty]
          decide
        · rw [cut'', List.prefix_nil.1 hr]
          decide

theorem Shallow.exists_block (h : Shallow ('{' :: s)) : ∃ block rest, s = block ++ '}' :: rest ∧
    (∀ c ∈ block, c ≠ '{' ∧ c ≠ '}') ∧ Shallow rest := by
  rcases free_or_first_cut (fun c => c == '{' || c == '}') s with
    free | ⟨block, d, rest, cut, brace, free⟩
  · have none : depth s = 0 := depth_of_free fun c hc => by simpa using free c hc
    have whole := h.balanced
    rw [depth_open, none] at whole
    exact absurd whole (by decide)
  · have plain : ∀ c ∈ block, c ≠ '{' ∧ c ≠ '}' := fun c hc => by simpa using free c hc
    have within := h.nested ('{' :: (block ++ [d])) ⟨rest, by simp [cut]⟩
    rw [depth_open, depth_append, depth_of_free plain] at within
    have closes : d = '}' := by
      rcases Bool.or_eq_true_iff.1 brace with opens | closes
      · rw [eq_of_beq opens] at within
        exact absurd within (by decide)
      · exact eq_of_beq closes
    subst closes
    refine ⟨block, rest, cut, plain, ?_⟩
    have whole : Shallow (('{' :: (block ++ ['}'])) ++ rest) := by simpa [cut] using h
    exact whole.of_append (shallow_block plain).balanced

theorem Shallow.cases (h : Shallow s) : s = [] ∨
    (∃ c rest, s = c :: rest ∧ c ≠ '{' ∧ c ≠ '}' ∧ Shallow rest) ∨
    ∃ block rest, s = '{' :: (block ++ '}' :: rest) ∧ (∀ c ∈ block, c ≠ '{' ∧ c ≠ '}') ∧
      Shallow rest := by
  cases s with
  | nil => exact .inl rfl
  | cons c rest =>
    by_cases closes : c = '}'
    · have first := h.nested [c] ⟨rest, rfl⟩
      rw [closes] at first
      exact absurd first (by decide)
    by_cases opens : c = '{'
    · subst opens
      have ⟨block, behind, cut, plain, shallow⟩ := h.exists_block
      exact .inr (.inr ⟨block, behind, by rw [cut], plain, shallow⟩)
    · have single : depth [c] = 0 := depth_of_free (by simp [opens, closes])
      exact .inr (.inl ⟨c, rest, rfl, opens, closes, h.of_append (s := [c]) single⟩)

end SolidityVetting.Text
