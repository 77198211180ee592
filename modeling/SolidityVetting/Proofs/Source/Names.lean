import Mathlib.Data.List.TakeWhile
import SolidityVetting.Proofs.Pattern.Words
import SolidityVetting.Proofs.Source.Codes

set_option autoImplicit false

namespace SolidityVetting
open Place Pattern Text Rule

/-- One of the names stands in the text, with no word character in front of it, and behind it
nothing but blanks and then one of the signs. -/
def Calls (names : List String) (signs : List Char) (text : List Char) : Prop :=
  ∃ front gap back, ∃ name ∈ names, ∃ sign ∈ signs,
    text = front ++ (name.toList ++ (gap ++ sign :: back)) ∧ EndsFree front ∧
      ∀ c ∈ gap, isBlank c = true

def IsWordOf (word text : List Char) : Prop := (∀ c ∈ word, isWord c = true) ∧ StandsFree word text

section
variable {p q : Pattern} {text : List Char}

theorem occursIn_call_iff {names : List String} {signs : List Char}
    (hp : Spells p (names.map String.toList)) (hq : Spells q (signs.map ([·])))
    (word : ∀ name ∈ names, touchesWord name.toList = true) :
    (wordEdge ++ p ++ blanks ++ q).occursIn text = true ↔ Calls names signs text := by
  have words : ∀ name ∈ names.map String.toList, touchesWord name = true :=
    List.forall_mem_map.2 word
  simp only [occursIn_iff_describes, describes_call hp hq words, ← endsFree_iff]
  constructor
  · intro ⟨front, _, rest, whole, free, _, spelled, gap, _, signed, split, blank⟩
    have ⟨name, hn, same⟩ := List.mem_map.1 spelled
    have ⟨sign, hs, same'⟩ := List.mem_map.1 signed
    subst same same' split
    exact ⟨front, gap, rest, name, hn, sign, hs, by simpa using whole, free, blank⟩
  · intro ⟨front, gap, rest, name, hn, sign, hs, whole, free, blank⟩
    exact ⟨front, name.toList ++ (gap ++ [sign]), rest, by simpa using whole, free, name.toList,
      List.mem_map_of_mem hn, gap, [sign], List.mem_map_of_mem (f := ([·])) hs, rfl, blank⟩

theorem occursIn_wordFrom_iff {start : String} (word : touchesWord start.toList = true)
    (spelled : start.toList.all isWord = true) : (wordFrom start).occursIn text = true ↔
      ∃ whole, IsWordOf whole text ∧ start.toList <+: whole := by
  rw [occursIn_iff_describes]
  constructor
  · intro ⟨front, taken, rest, whole, h⟩
    have ⟨_, more, split, ⟨x, y, split', hedge, hstart⟩, hmore⟩ := h
    have same := describes_exactly.1 hstart
    subst same
    have starts := touchesWord_append_of_touchesWord word (more ++ rest)
    have ⟨empty, free⟩ := (describes_wordEdge_of_touchesWord starts).1 hedge
    subst empty split' split
    -- the word goes on as long as word characters follow
    let behind := more ++ rest
    refine ⟨start.toList ++ behind.takeWhile isWord, ⟨?_, ?_⟩, List.prefix_append _ _⟩
    · intro c hc
      rcases List.mem_append.1 hc with hc | hc
      · exact List.all_eq_true.1 spelled c hc
      · exact List.mem_takeWhile_imp hc
    · refine ⟨front, behind.dropWhile isWord, ?_, endsFree_iff.2 free, ?_⟩
      · rw [List.append_assoc, List.takeWhile_append_dropWhile]
        simpa [behind] using whole
      · intro c hc
        have stop := List.head?_dropWhile_not isWord behind
        rw [Option.mem_def.1 hc] at stop
        simpa using stop
  · intro ⟨_, ⟨hword, front, back, whole, free, _⟩, more, spelled'⟩
    subst spelled'
    refine ⟨front, start.toList ++ more, back, whole, start.toList, more, rfl, ?_, ?_⟩
    · have starts := touchesWord_append_of_touchesWord word (more ++ back)
      exact ⟨[], start.toList, rfl,
        (describes_wordEdge_of_touchesWord starts).2 ⟨rfl, endsFree_iff.1 free⟩,
        describes_exactly.2 rfl⟩
    · exact fun c hc => hword c (List.mem_append_right _ hc)

theorem occursIn_standing_iff {phrases : List String} (hp : Spells p (phrases.map String.toList))
    (starts : ∀ phrase ∈ phrases, touchesWord phrase.toList = true)
    (stops : ∀ phrase ∈ phrases, touchesWord phrase.toList.reverse = true) :
    (wordEdge ++ p ++ wordEdge).occursIn text = true ↔
      ∃ phrase ∈ phrases, StandsFree phrase.toList text := by
  have first : ∀ phrase ∈ phrases.map String.toList, touchesWord phrase = true :=
    List.forall_mem_map.2 starts
  have last : ∀ phrase ∈ phrases.map String.toList, touchesWord phrase.reverse = true :=
    List.forall_mem_map.2 stops
  simp only [occursIn_iff_describes, describes_standing hp first last]
  constructor
  · intro ⟨front, _, rest, whole, spelled, free, free'⟩
    have ⟨phrase, mem, same⟩ := List.mem_map.1 spelled
    subst same
    exact ⟨phrase, mem, front, rest, whole, endsFree_iff.2 free, startsFree_iff.2 free'⟩
  · intro ⟨phrase, mem, front, rest, whole, free, free'⟩
    exact ⟨front, phrase.toList, rest, whole, List.mem_map_of_mem mem, endsFree_iff.1 free,
      startsFree_iff.1 free'⟩

end

namespace SourceScan

structure FindsNames (text : List Char) (r : Report) : Prop where
  destruction : r.hasCode "SELFDESTRUCT" = true ↔ Calls ["selfdestruct", "suicide"] ['('] text
  delegate : r.hasCode "DELEGATECALL" = true ↔ Calls ["delegatecall"] ['(', '{'] text
  callcode : r.hasCode "CALLCODE" = true ↔ Calls ["callcode"] ['(', '{'] text
  erc1967 : r.hasCode "ERC1967_PROXY" = true ↔
    ∃ word, IsWordOf word text ∧ "ERC1967".toList <+: word
  uups : r.hasCode "UUPS_PROXY" = true ↔ ∃ word, IsWordOf word text ∧ "UUPS".toList <+: word
  transparent : r.hasCode "TRANSPARENT_PROXY" = true ↔
    ∃ name ∈ ["ITransparentUpgradeableProxy", "TransparentUpgradeableProxy", "ProxyAdmin"],
      IsWordOf name.toList text
  origin : r.hasCode "TX_ORIGIN" = true ↔ StandsFree "tx.origin".toList text

/-- Each forbidden name is reported exactly if it stands somewhere in the text. -/
theorem scan_finds_names (threshold : Nat) (source : String) :
    FindsNames source.toList (scan threshold source) := by
  have found (i : Nat) (hi : i < table.length) (one : table[i].spanning = none) :=
    hasCode_scan_iff_occursIn threshold source (List.getElem_mem hi) one
  have call (name : String) (word : touchesWord name.toList = true) :
      (foreignCall name).occursIn source.toList = true ↔
        Calls [name] ['(', '{'] source.toList :=
    occursIn_call_iff (spells_exactly name) spells_bracket (List.forall_mem_singleton.2 word)
  constructor
  case destruction =>
    exact (found 0 (by decide) rfl).trans (occursIn_call_iff
      (spells_alt (spells_exactly "selfdestruct") (spells_exactly "suicide"))
      (spells_exactly "(") (by decide))
  case delegate => exact (found 1 (by decide) rfl).trans (call "delegatecall" (by decide))
  case callcode => exact (found 2 (by decide) rfl).trans (call "callcode" (by decide))
  case erc1967 =>
    exact (found 3 (by decide) rfl).trans (occursIn_wordFrom_iff (by decide) (by decide))
  case uups =>
    exact (found 4 (by decide) rfl).trans (occursIn_wordFrom_iff (by decide) (by decide))
  case transparent =>
    have spells := spells_alt (spells_seq (spells_alt (spells_exactly "I") spells_nothing)
      (spells_exactly "TransparentUpgradeableProxy")) (spells_exactly "ProxyAdmin")
    let names := ["ITransparentUpgradeableProxy", "TransparentUpgradeableProxy", "ProxyAdmin"]
    have standing : transparentProxy.occursIn source.toList = true ↔
        ∃ name ∈ names, StandsFree name.toList source.toList :=
      occursIn_standing_iff spells (by decide) (by decide)
    have words : ∀ name ∈ names, name.toList.all isWord = true := by decide
    refine ((found 5 (by decide) rfl).trans standing).trans ?_
    constructor
    · intro ⟨name, mem, h⟩
      exact ⟨name, mem, List.all_eq_true.1 (words name mem), h⟩
    · intro ⟨name, mem, _, h⟩
      exact ⟨name, mem, h⟩
  case origin =>
    have standing : originRead.occursIn source.toList = true ↔
        ∃ phrase ∈ ["tx.origin"], StandsFree phrase.toList source.toList :=
      occursIn_standing_iff (spells_exactly "tx.origin") (by decide) (by decide)
    refine ((found 7 (by decide) rfl).trans standing).trans ?_
    simp

end SourceScan
end SolidityVetting
