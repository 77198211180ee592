import SolidityVetting.Proofs.Pattern.Frontier
import SolidityVetting.Proofs.Pattern.Ends
import SolidityVetting.Proofs.Version
import SolidityVetting.Rule

set_option autoImplicit false

namespace SolidityVetting
open Text Place Pattern Rule

def pragmaWords (gap : List Char) : List Char := "pragma".toList ++ (gap ++ "solidity".toList)

theorem pragmaWords_eq (gap : List Char) :
    pragmaWords gap = "pragma".toList ++ (gap ++ "solidity".toList) := rfl

theorem pragmaWords_append (gap rest : List Char) :
    pragmaWords gap ++ rest = "pragma".toList ++ (gap ++ ("solidity".toList ++ rest)) := by
  rw [pragmaWords_eq, List.append_assoc, List.append_assoc]

theorem atWordEdge_iff {s : Place} {gap rest : List Char} (h : s.after = pragmaWords gap ++ rest) :
    s.atWordEdge = true ↔ touchesWord s.before = false := by
  have word : touchesWord (pragmaWords gap ++ rest) = true := rfl
  rw [atWordEdge, h, word]
  cases touchesWord s.before <;> decide

def Announces (text rest : List Char) : Prop :=
  ∃ gap, gap ≠ [] ∧ (∀ b ∈ gap, isBlank b = true) ∧ text = pragmaWords gap ++ rest

/-- From `s` on stand a version pragma with this constraint and, behind its semicolon, `rest`. The
constraint begins with a blank and has a character behind it. -/
structure IsPragma (s : Place) (constraint rest : List Char) : Prop where
  edge : s.atWordEdge = true
  announced : Announces s.after (constraint ++ ';' :: rest)
  blank_first : ∃ b more, constraint = b :: more ∧ isBlank b = true ∧ more ≠ []
  open_till : ';' ∉ constraint

theorem isPragma_of_ends {s t : Place} (h : t ∈ versionPragma.ends s) :
    ∃ lead body, IsPragma s (lead ++ body) t.after ∧ (∀ b ∈ lead, isBlank b = true) ∧
      t.captured = some ⟨body ++ ';' :: t.after, ';' :: t.after⟩ := by
  obtain ⟨s₆, h, hclose⟩ := mem_ends_seq.1 h
  obtain ⟨s₅, h, hbody⟩ := mem_ends_seq.1 h
  obtain ⟨s₄, h, hlead⟩ := mem_ends_seq.1 h
  obtain ⟨s₃, h, hsolidity⟩ := mem_ends_seq.1 h
  obtain ⟨s₂, h, hgap⟩ := mem_ends_seq.1 h
  obtain ⟨s₁, h, hpragma⟩ := mem_ends_seq.1 h
  obtain ⟨edge, rfl⟩ := mem_ends_wordEdge.1 h
  obtain ⟨rest₁, e₁, rfl⟩ := mem_ends_exactly.1 hpragma
  obtain ⟨gap, rest₂, e₂, gapSome, gapBlank, rfl⟩ := mem_ends_oneOrMore.1 hgap
  obtain ⟨rest₃, e₃, rfl⟩ := mem_ends_exactly.1 hsolidity
  obtain ⟨lead, rest₄, e₄, leadSome, leadBlank, rfl⟩ := mem_ends_oneOrMore.1 hlead
  obtain ⟨u, hu, rfl⟩ := mem_ends_capture.1 hbody
  obtain ⟨body, rest₅, e₅, bodySome, bodyOpen, rfl⟩ := mem_ends_oneOrMore.1 hu
  obtain ⟨rest, e₆, rfl⟩ := mem_ends_exactly.1 hclose
  have e₆ : rest₅ = ';' :: rest := e₆
  have e₅ : rest₄ = body ++ rest₅ := e₅
  have e₄ : rest₃ = lead ++ rest₄ := e₄
  have e₃ : rest₂ = "solidity".toList ++ rest₃ := e₃
  have e₂ : rest₁ = gap ++ rest₂ := e₂
  refine ⟨lead, body, ⟨edge, ⟨gap, gapSome, gapBlank, ?_⟩, ?_, ?_⟩, leadBlank, ?_⟩
  · rw [e₁, e₂, e₃, e₄, e₅, e₆, pragmaWords_append, past_after, List.append_assoc]
  · obtain ⟨b, more, rfl⟩ := List.exists_cons_of_ne_nil leadSome
    refine ⟨b, more ++ body, rfl, leadBlank b List.mem_cons_self, ?_⟩
    exact List.append_ne_nil_of_right_ne_nil more bodySome
  · intro hm
    obtain hm | hm := List.mem_append.1 hm
    · have blank := leadBlank _ hm
      revert blank
      decide
    · have other := bodyOpen _ hm
      revert other
      decide
  · change some (Span.mk rest₄ rest₅) = _
    rw [e₅, e₆]
    rfl

theorem ends_ne_nil_of_isPragma {s : Place} {constraint rest : List Char}
    (h : IsPragma s constraint rest) : versionPragma.ends s ≠ [] := by
  obtain ⟨edge, ⟨gap, gapSome, gapBlank, e₁⟩, ⟨b, body, rfl, hb, bodySome⟩, still⟩ := h
  have bodyOpen : ∀ c ∈ body, (c != ';') = true := by
    intro c hc
    rw [bne_iff_ne]
    rintro rfl
    exact still (List.mem_cons_of_mem b hc)
  have leadBlank : ∀ c ∈ [b], isBlank c = true := by
    intro c hc
    rw [List.mem_singleton.1 hc]
    exact hb
  let rest₄ := body ++ ';' :: rest
  let rest₃ := b :: rest₄
  let rest₂ := "solidity".toList ++ rest₃
  let rest₁ := gap ++ rest₂
  let s₁ := s.past "pragma".toList rest₁
  let s₂ := s₁.past gap rest₂
  let s₃ := s₂.past "solidity".toList rest₃
  let s₄ := s₃.past [b] rest₄
  let s₅ := s₄.openCapture.past body (';' :: rest)
  have hpragma : s₁ ∈ (exactly "pragma").ends s := by
    refine mem_ends_exactly.2 ⟨rest₁, ?_, rfl⟩
    rw [e₁, pragmaWords_append, List.cons_append]
  have hgap : s₂ ∈ someBlanks.ends s₁ :=
    mem_ends_oneOrMore.2 ⟨gap, rest₂, rfl, gapSome, gapBlank, rfl⟩
  have hsolidity : s₃ ∈ (exactly "solidity").ends s₂ := mem_ends_exactly.2 ⟨rest₃, rfl, rfl⟩
  have hlead : s₄ ∈ someBlanks.ends s₃ :=
    mem_ends_oneOrMore.2 ⟨[b], rest₄, rfl, List.cons_ne_nil b [], leadBlank, rfl⟩
  have hbody : s₅.closeCapture ∈ (capture (oneOrMore (· != ';'))).ends s₄ :=
    mem_ends_capture.2
      ⟨s₅, mem_ends_oneOrMore.2 ⟨body, ';' :: rest, rfl, bodySome, bodyOpen, rfl⟩, rfl⟩
  have hclose : s₅.closeCapture.past ";".toList rest ∈ (exactly ";").ends s₅.closeCapture :=
    mem_ends_exactly.2 ⟨rest, rfl, rfl⟩
  have chain := mem_ends_seq.2 ⟨s, mem_ends_wordEdge.2 ⟨edge, rfl⟩, hpragma⟩
  have chain := mem_ends_seq.2 ⟨s₁, chain, hgap⟩
  have chain := mem_ends_seq.2 ⟨s₂, chain, hsolidity⟩
  have chain := mem_ends_seq.2 ⟨s₃, chain, hlead⟩
  have chain := mem_ends_seq.2 ⟨s₄, chain, hbody⟩
  exact List.ne_nil_of_mem (mem_ends_seq.2 ⟨s₅.closeCapture, chain, hclose⟩)

theorem not_mem_words {x : Char} {first gap second : List Char} (hx : isBlank x = false)
    (hf : x ∉ first) (h : ∀ b ∈ gap, isBlank b = true) (hs : x ∉ second) :
    x ∉ first ++ (gap ++ second) := by
  intro hm
  obtain hm | hm := List.mem_append.1 hm
  · exact hf hm
  obtain hm | hm := List.mem_append.1 hm
  · have blank := h x hm
    rw [hx] at blank
    cases blank
  · exact hs hm

theorem Announces.unique {text a b : List Char} (ha : Announces text a) (hb : Announces text b) :
    a = b := by
  obtain ⟨gap, _, gapBlank, ea⟩ := ha
  obtain ⟨gap', _, gapBlank', eb⟩ := hb
  have same : gap ++ ("solidity".toList ++ a) = gap' ++ ("solidity".toList ++ b) := by
    rw [ea, pragmaWords_append, pragmaWords_append] at eb
    exact List.append_cancel_left eb
  have behind := congrArg (List.dropWhile isBlank) same
  rw [List.dropWhile_append_of_pos gapBlank, List.dropWhile_append_of_pos gapBlank'] at behind
  have words : "solidity".toList ++ a = "solidity".toList ++ b := behind
  exact List.append_cancel_left words

theorem Announces.across {x w rest : List Char} (h : Announces (x ++ '\n' :: w) rest)
    (hw : w.head? = some 'p') : ∃ gap lead, gap ≠ [] ∧ (∀ b ∈ gap, isBlank b = true) ∧
      x = pragmaWords gap ++ lead ∧ rest = lead ++ '\n' :: w := by
  obtain ⟨gap, gapSome, gapBlank, e⟩ := h
  obtain ⟨cut, words, tail⟩ | ⟨lead, rfl, tail⟩ := List.append_eq_append_iff.1 e
  · match cut with
    | [] =>
      rw [List.append_nil] at words
      exact ⟨gap, [], gapSome, gapBlank, by rw [words, List.append_nil], tail.symm⟩
    | [n] =>
      -- the words end with a letter
      have spelled : pragmaWords gap =
          ("pragma".toList ++ (gap ++ "solidit".toList)) ++ ['y'] := by
        rw [pragmaWords_eq]
        simp
      obtain ⟨rfl, -⟩ := List.cons.inj tail
      rw [words] at spelled
      have last := (List.append_inj' spelled rfl).2
      exact absurd last (by decide)
    | n :: q :: cut =>
      -- the words hold no second `p`
      obtain ⟨rfl, rfl⟩ := List.cons.inj tail
      obtain rfl : q = 'p' := by simpa using hw
      have second : 'p' ∉ "ragma".toList ++ (gap ++ "solidity".toList) :=
        not_mem_words (by decide) (by decide) gapBlank (by decide)
      cases x with
      | nil => cases (List.cons.inj words).1
      | cons a x =>
        have rest : "ragma".toList ++ (gap ++ "solidity".toList) = x ++ '\n' :: 'p' :: cut :=
          (List.cons.inj words).2
        rw [rest] at second
        exact absurd (by simp) second
  · exact ⟨gap, lead, gapSome, gapBlank, rfl, tail⟩

theorem IsPragma.ends_at {s : Place} {constraint rest : List Char}
    (h : IsPragma s constraint rest) : ∃ body, s.after = body ++ ';' :: rest ∧ ';' ∉ body := by
  obtain ⟨gap, _, gapBlank, e⟩ := h.announced
  refine ⟨pragmaWords gap ++ constraint, by rw [e, List.append_assoc], ?_⟩
  intro hm
  obtain hm | hm := List.mem_append.1 hm
  · exact not_mem_words (by decide) (by decide) gapBlank (by decide) hm
  · exact h.open_till hm

theorem IsPragma.length_lt {s : Place} {constraint rest : List Char}
    (h : IsPragma s constraint rest) : rest.length < s.after.length := by
  obtain ⟨body, e, -⟩ := h.ends_at
  rw [e, List.length_append, List.length_cons]
  omega

theorem isPragma_bare_iff {s : Place} {constraint rest : List Char} :
    IsPragma s.bare constraint rest ↔ IsPragma s constraint rest :=
  ⟨fun h => ⟨h.edge, h.announced, h.blank_first, h.open_till⟩,
    fun h => ⟨h.edge, h.announced, h.blank_first, h.open_till⟩⟩

theorem isPragma_of_hit {hit : Hit} (h : hit.finish ∈ versionPragma.ends hit.start.bare) :
    ∃ constraint, IsPragma hit.start constraint hit.finish.after ∧
      (Version.Accepts hit.text ↔ Version.Accepts constraint) := by
  obtain ⟨lead, body, pragma, leadBlank, captured⟩ := isPragma_of_ends h
  refine ⟨lead ++ body, isPragma_bare_iff.1 pragma, ?_⟩
  have text : hit.text = body := by
    rw [Hit.text, captured]
    simp [Span.chars]
  rw [text, Version.accepts_append_of_blank leadBlank]

end SolidityVetting
