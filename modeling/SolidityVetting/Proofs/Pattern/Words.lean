import SolidityVetting.Proofs.Pattern.Stretches
import SolidityVetting.Proofs.Text.Pieces
import SolidityVetting.Rule

set_option autoImplicit false

namespace SolidityVetting
open Place Pattern Text Rule

def EndsFree (front : List Char) : Prop := ∀ c ∈ front.getLast?, isWord c = false

def StartsFree (back : List Char) : Prop := ∀ c ∈ back.head?, isWord c = false

/-- The phrase stands in the text with no word character on either side of it. -/
def StandsFree (phrase text : List Char) : Prop :=
  ∃ front back, text = front ++ (phrase ++ back) ∧ EndsFree front ∧ StartsFree back

theorem startsFree_iff {back : List Char} : StartsFree back ↔ touchesWord back = false := by
  cases back <;> simp [StartsFree, touchesWord]

theorem endsFree_iff {front : List Char} : EndsFree front ↔ touchesWord front.reverse = false := by
  rw [← startsFree_iff, StartsFree, List.head?_reverse]
  exact Iff.rfl

instance (front : List Char) : Decidable (EndsFree front) := decidable_of_iff' _ endsFree_iff

instance (back : List Char) : Decidable (StartsFree back) := decidable_of_iff' _ startsFree_iff

theorem touchesWord_append_of_touchesWord {word : List Char} (h : touchesWord word = true)
    (rest : List Char) : touchesWord (word ++ rest) = true := by
  cases word with
  | nil => cases h
  | cons c more => exact h

theorem EndsFree.of_append {more front : List Char} (h : EndsFree (more ++ front)) :
    EndsFree front := by
  intro c hc
  refine h c ?_
  rw [List.getLast?_append, Option.mem_def.1 hc]
  rfl

theorem StartsFree.of_append {back more : List Char} (h : StartsFree (back ++ more)) :
    StartsFree back := by
  intro c hc
  refine h c ?_
  rw [List.head?_append, Option.mem_def.1 hc]
  rfl

theorem standsFree_or_behind {phrase a b front back : List Char} {c : Char}
    (some_phrase : phrase ≠ []) (uncut : c ∉ phrase)
    (h : a ++ c :: b = front ++ (phrase ++ back)) (hf : EndsFree front) (hb : StartsFree back) :
    StandsFree phrase a ∨
      ∃ more, front = a ++ c :: more ∧ b = more ++ (phrase ++ back) ∧ EndsFree more := by
  rcases cases_of_cut some_phrase uncut h with ⟨more, cut, behind⟩ | ⟨more, cut, behind⟩
  · subst behind
    exact .inl ⟨front, more, cut, hf, hb.of_append⟩
  · have layout : front = a ++ [c] ++ more := by simp [cut]
    exact .inr ⟨more, cut, behind, (layout ▸ hf).of_append⟩

namespace Pattern

variable {p q : Pattern} {before taken rest : List Char}

theorem describes_wordEdge : wordEdge.Describes before taken rest ↔
    taken = [] ∧ (touchesWord before != touchesWord rest) = true := Iff.rfl

theorem describes_wordEdge_of_touchesWord (word : touchesWord rest = true) :
    wordEdge.Describes before taken rest ↔ taken = [] ∧ touchesWord before = false := by
  rw [describes_wordEdge, word]
  cases touchesWord before <;> simp

theorem describes_wordEdge_behind (word : touchesWord before = true) :
    wordEdge.Describes before taken rest ↔ taken = [] ∧ touchesWord rest = false := by
  rw [describes_wordEdge, word]
  cases touchesWord rest <;> simp

/-- The pattern describes the texts of the list and no others, whatever stands around them. -/
def Spells (p : Pattern) (texts : List (List Char)) : Prop :=
  ∀ before taken rest, p.Describes before taken rest ↔ taken ∈ texts

theorem spells_exactly (text : String) : Spells (exactly text) [text.toList] := by
  intro before taken rest
  rw [describes_exactly, List.mem_singleton]

theorem spells_nothing : Spells nothing [[]] := by
  intro before taken rest
  exact List.mem_singleton.symm

theorem spells_seq {xs ys : List (List Char)} (hp : Spells p xs) (hq : Spells q ys) :
    Spells (p ++ q) (xs.flatMap fun x => ys.map (x ++ ·)) := by
  intro before taken rest
  rw [describes_seq, List.mem_flatMap]
  constructor
  · intro ⟨x, y, split, hx, hy⟩
    exact ⟨x, (hp _ _ _).1 hx, List.mem_map.2 ⟨y, (hq _ _ _).1 hy, split.symm⟩⟩
  · intro ⟨x, hx, h⟩
    have ⟨y, hy, split⟩ := List.mem_map.1 h
    exact ⟨x, y, split.symm, (hp _ _ _).2 hx, (hq _ _ _).2 hy⟩

theorem spells_alt {xs ys : List (List Char)} (hp : Spells p xs) (hq : Spells q ys) :
    Spells (p <|> q) (xs ++ ys) := by
  intro before taken rest
  rw [describes_alt, hp, hq, List.mem_append]

theorem spells_bracket : Spells (one fun c => c == '(' || c == '{') [['('], ['{']] := by
  intro before taken rest
  rw [describes_one]
  constructor
  · intro ⟨c, ht, hc⟩
    rw [ht]
    simpa using hc
  · intro h
    simp only [List.mem_cons, List.not_mem_nil, or_false] at h
    rcases h with h | h
    · exact ⟨'(', h, rfl⟩
    · exact ⟨'{', h, rfl⟩

theorem describes_standing {phrases : List (List Char)} (hp : Spells p phrases)
    (starts : ∀ phrase ∈ phrases, touchesWord phrase = true)
    (stops : ∀ phrase ∈ phrases, touchesWord phrase.reverse = true) :
    (wordEdge ++ p ++ wordEdge).Describes before taken rest ↔
      taken ∈ phrases ∧ touchesWord before = false ∧ touchesWord rest = false := by
  constructor
  · intro ⟨_, z, split, ⟨x, phrase, split', hedge, hphrase⟩, hedge'⟩
    have mem := (hp _ _ _).1 hphrase
    have first := touchesWord_append_of_touchesWord (starts phrase mem) (z ++ rest)
    have ⟨empty, free⟩ := (describes_wordEdge_of_touchesWord first).1 hedge
    subst empty split' split
    have last := touchesWord_append_of_touchesWord (stops _ mem) before
    have ⟨empty', free'⟩ := (describes_wordEdge_behind last).1 hedge'
    subst empty'
    exact ⟨by simpa using mem, free, free'⟩
  · intro ⟨mem, free, free'⟩
    refine ⟨taken, [], (List.append_nil taken).symm, ⟨[], taken, rfl, ?_, (hp _ _ _).2 mem⟩, ?_⟩
    · have first := touchesWord_append_of_touchesWord (starts taken mem) rest
      exact (describes_wordEdge_of_touchesWord first).2 ⟨rfl, free⟩
    · have last := touchesWord_append_of_touchesWord (stops taken mem) before
      exact (describes_wordEdge_behind last).2 ⟨rfl, free'⟩

theorem describes_keyword {word : String} (starts : touchesWord word.toList = true)
    (stops : touchesWord word.toList.reverse = true) :
    (wordEdge ++ exactly word ++ wordEdge).Describes before taken rest ↔
      taken = word.toList ∧ touchesWord before = false ∧ touchesWord rest = false := by
  rw [describes_standing (spells_exactly word) (List.forall_mem_singleton.2 starts)
    (List.forall_mem_singleton.2 stops), List.mem_singleton]

theorem describes_call {names signs : List (List Char)} (hp : Spells p names)
    (hq : Spells q signs) (word : ∀ name ∈ names, touchesWord name = true) :
    (wordEdge ++ p ++ blanks ++ q).Describes before taken rest ↔
      touchesWord before = false ∧ ∃ name ∈ names, ∃ gap, ∃ sign ∈ signs,
        taken = name ++ (gap ++ sign) ∧ ∀ c ∈ gap, isBlank c = true := by
  constructor
  · intro ⟨_, sign, split, ⟨_, gap, split', ⟨edge, name, split'', hedge, hname⟩, hgap⟩, hsign⟩
    have mem := (hp _ _ _).1 hname
    have starts := touchesWord_append_of_touchesWord (word name mem) (gap ++ (sign ++ rest))
    have ⟨empty, free⟩ := (describes_wordEdge_of_touchesWord starts).1 hedge
    subst empty split'' split' split
    exact ⟨free, _, mem, gap, sign, (hq _ _ _).1 hsign, List.append_assoc .., hgap⟩
  · intro ⟨free, name, mem, gap, sign, mem', split, hgap⟩
    have starts := touchesWord_append_of_touchesWord (word name mem) (gap ++ (sign ++ rest))
    have hedge : wordEdge.Describes before [] (name ++ (gap ++ (sign ++ rest))) :=
      (describes_wordEdge_of_touchesWord starts).2 ⟨rfl, free⟩
    refine ⟨name ++ gap, sign, by rw [split, List.append_assoc], ?_, (hq _ _ _).2 mem'⟩
    exact ⟨name, gap, rfl, ⟨[], name, rfl, hedge, (hp _ _ _).2 mem⟩, hgap⟩

end Pattern
end SolidityVetting
