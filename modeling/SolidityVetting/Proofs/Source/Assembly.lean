import SolidityVetting.Proofs.Pattern.Words
import SolidityVetting.Proofs.Source.Codes
import SolidityVetting.Proofs.Text.Braces
/-! # Calls of `create2` in assembly blocks

Such a call is reported exactly if the braces between the opening one of the block and the call are
in pairs, none within another, or if the call stands on the line of the keyword, with no closing
brace in between. So a call within a nested block is seen only where it is written on that line and
no block in front of it has been closed.
-/

set_option autoImplicit false

namespace SolidityVetting
open Place Pattern Text Rule

def Opens (opening : List Char) : Prop :=
  ∃ words, opening = "assembly".toList ++ (words ++ ['{']) ∧ StartsFree (words ++ ['{']) ∧
    '{' ∉ words

structure InnerCall where
  /-- What stands between the brace and the call. -/
  front : List Char
  /-- What stands between the name and its parenthesis. -/
  gap : List Char
  free : EndsFree front
  blank : ∀ c ∈ gap, isBlank c = true

def InnerCall.text (call : InnerCall) : List Char :=
  call.front ++ ("create2".toList ++ (call.gap ++ ['(']))

/-- Outside all blocks within the block, or before any of them is closed and on the line on which the
block begins. -/
def InnerCall.InSight (call : InnerCall) : Prop :=
  depth call.front = 0 ∨ '}' ∉ call.front ∧ '\n' ∉ call.front ++ call.gap

def withAssembly (before body after : String) : String :=
  before ++ "\nassembly \x7b" ++ body ++ "\x7d" ++ after

variable {before taken rest front opening : List Char}

theorem describes_assemblyStart :
    assemblyStart.Describes before taken rest ↔ touchesWord before = false ∧ Opens taken := by
  constructor
  · intro ⟨_, _, split, ⟨_, words, split', hkeyword, hwords⟩, hbrace⟩
    have ⟨keyword, free, edge⟩ := (describes_keyword (by decide) (by decide)).1 hkeyword
    have brace := describes_exactly.1 hbrace
    subst keyword brace split' split
    refine ⟨free, words, List.append_assoc .., ?_, describes_run_ne.1 hwords⟩
    rw [startsFree_iff, ← touchesWord_append_cons]
    exact edge
  · intro ⟨free, words, split, edge, plain⟩
    subst split
    rw [startsFree_iff, ← touchesWord_append_cons] at edge
    exact ⟨_, _, (List.append_assoc ..).symm,
      ⟨_, words, rfl, (describes_keyword (by decide) (by decide)).2 ⟨rfl, free, edge⟩,
        describes_run_ne.2 plain⟩, describes_exactly.2 rfl⟩

theorem describes_create2Call : create2Call.Describes before taken rest ↔
    touchesWord before = false ∧ ∃ gap, taken = "create2".toList ++ (gap ++ ['(']) ∧
      ∀ c ∈ gap, isBlank c = true := by
  have call : create2Call.Describes before taken rest ↔ touchesWord before = false ∧
      ∃ name ∈ ["create2".toList], ∃ gap, ∃ sign ∈ [['(']],
        taken = name ++ (gap ++ sign) ∧ ∀ c ∈ gap, isBlank c = true :=
    describes_call (spells_exactly "create2") (spells_exactly "(") (by decide)
  simp only [List.mem_singleton, exists_eq_left] at call
  exact call

theorem describes_flatBlock : flatBlock.Describes before taken rest ↔
    ∃ block, taken = '{' :: (block ++ ['}']) ∧ ∀ c ∈ block, c ≠ '{' ∧ c ≠ '}' := by
  constructor
  · intro ⟨_, _, split, ⟨_, block, split', hopen, hblock⟩, hclose⟩
    have opens := describes_exactly.1 hopen
    have closes := describes_exactly.1 hclose
    subst opens closes split' split
    exact ⟨block, rfl, fun c hc => by simpa [notBrace] using hblock c hc⟩
  · intro ⟨block, split, plain⟩
    subst split
    refine ⟨'{' :: block, ['}'], rfl, ⟨['{'], block, rfl, describes_exactly.2 rfl, ?_⟩,
      describes_exactly.2 rfl⟩
    exact fun c hc => by simpa [notBrace] using plain c hc

theorem rounds_of_shallow {before taken rest : List Char} (h : Shallow taken) :
    Rounds (one notBrace <|> flatBlock).Describes before taken rest := by
  rcases h.cases with empty | ⟨c, more, cut, opens, closes, shallow⟩ |
    ⟨block, more, cut, plain, shallow⟩
  · subst empty
    exact .stop
  · subst cut
    have here : (one notBrace <|> flatBlock).Describes before [c] (more ++ rest) :=
      .inl ⟨c, rfl, by simp [notBrace, opens, closes]⟩
    exact .next here (rounds_of_shallow shallow)
  · have here : (one notBrace <|> flatBlock).Describes before ('{' :: (block ++ ['}']))
        (more ++ rest) := .inr (describes_flatBlock.2 ⟨block, rfl, plain⟩)
    have layout : taken = '{' :: (block ++ ['}']) ++ more := by simp [cut]
    have shorter : more.length < taken.length := by simp [cut]; omega
    rw [layout]
    exact .next here (rounds_of_shallow shallow)
termination_by taken.length

theorem describes_shallow {appetite : Appetite} :
    (many appetite (one notBrace <|> flatBlock)).Describes before taken rest ↔ Shallow taken := by
  refine ⟨fun h => ?_, rounds_of_shallow⟩
  change Rounds _ _ _ _ at h
  induction h with
  | stop => exact shallow_of_free (by simp)
  | next here _ ih =>
    refine Shallow.append ?_ ih
    rcases here with ⟨c, hc, plain⟩ | block
    · rw [hc]
      exact shallow_of_free (by simpa [notBrace] using plain)
    · have ⟨inside, split, plain⟩ := describes_flatBlock.1 block
      rw [split]
      exact shallow_block plain

theorem touchesWord_behind (h : Opens opening) :
    touchesWord ((opening ++ front).reverse ++ before) = false ↔ EndsFree front := by
  have ⟨words, split, _⟩ := h
  rw [endsFree_iff, split]
  rcases List.eq_nil_or_concat front with empty | ⟨more, c, last⟩
  · simp [empty, touchesWord, isWord]
  · simp [last, touchesWord]

theorem describes_create2 {middle : Pattern} {good : List Char → Prop}
    (between : ∀ before taken rest, middle.Describes before taken rest ↔ good taken) :
    (assemblyStart ++ middle ++ create2Call).Describes before taken rest ↔
      touchesWord before = false ∧ ∃ opening, ∃ call : InnerCall,
        taken = opening ++ call.text ∧ Opens opening ∧ good call.front := by
  constructor
  · intro ⟨_, _, split, ⟨opening, front, split', hopening, hfront⟩, hcall⟩
    have ⟨free, opens⟩ := describes_assemblyStart.1 hopening
    have ⟨edge, gap, same, blank⟩ := describes_create2Call.1 hcall
    subst same split' split
    exact ⟨free, opening, ⟨front, gap, (touchesWord_behind opens).1 edge, blank⟩,
      List.append_assoc .., opens, (between _ _ _).1 hfront⟩
  · intro ⟨free, opening, ⟨front, gap, edge, blank⟩, split, opens, hfront⟩
    subst split
    exact ⟨opening ++ front, _, (List.append_assoc ..).symm,
      ⟨opening, front, rfl, describes_assemblyStart.2 ⟨free, opens⟩, (between _ _ _).2 hfront⟩,
      describes_create2Call.2 ⟨(touchesWord_behind opens).2 edge, gap, rfl, blank⟩⟩

theorem describes_create2Near : create2Near.Describes before taken rest ↔
    touchesWord before = false ∧ ∃ opening, ∃ call : InnerCall,
      taken = opening ++ call.text ∧ Opens opening ∧ '}' ∉ call.front :=
  describes_create2 fun _ _ _ => describes_run_ne

theorem describes_create2Inside : create2Inside.Describes before taken rest ↔
    touchesWord before = false ∧ ∃ opening, ∃ call : InnerCall,
      taken = opening ++ call.text ∧ Opens opening ∧ Shallow call.front :=
  describes_create2 fun _ _ _ => describes_shallow

namespace SourceScan

theorem getLast?_stretch {call : InnerCall} : (opening ++ call.text).getLast? = some '(' := by
  have layout : opening ++ call.text =
      opening ++ call.front ++ "create2".toList ++ call.gap ++ ['('] := by simp [InnerCall.text]
  rw [layout, List.getLast?_concat]

/-- A call is reported exactly if it stands behind the opening of an assembly block, outside all
blocks within it, or before any of them is closed and on the line of the opening. -/
theorem hasCode_create2_iff (threshold : Nat) (source : String) :
    (scan threshold source).hasCode "CREATE2_ASSEMBLY" = true ↔
      ∃ front opening rest, ∃ call : InnerCall,
        source.toList = front ++ (opening ++ call.text ++ rest) ∧ EndsFree front ∧ Opens opening ∧
          (Shallow call.front ∨ '}' ∉ call.front ∧ '\n' ∉ opening ++ call.text) := by
  have mem : table[8] ∈ table := List.getElem_mem _
  refine (hasCode_scan_iff_describes threshold source mem ?_).trans ?_
  · intro before taken rest h
    have ⟨_, opening, call, split, _⟩ := describes_create2Near.1 h
    rw [split, getLast?_stretch]
    exact ⟨by simp [InnerCall.text], by decide⟩
  constructor
  · intro ⟨front, _, rest, whole, described⟩
    rcases described with ⟨one_line, h⟩ | h
    · have ⟨free, opening, call, split, opens, near⟩ := describes_create2Near.1 h
      subst split
      exact ⟨front, opening, rest, call, whole, endsFree_iff.2 free, opens, .inr ⟨near, one_line⟩⟩
    · have ⟨free, opening, call, split, opens, shallow⟩ := describes_create2Inside.1 h
      subst split
      exact ⟨front, opening, rest, call, whole, endsFree_iff.2 free, opens, .inl shallow⟩
  · intro ⟨front, opening, rest, call, whole, free, opens, sight⟩
    rw [endsFree_iff] at free
    refine ⟨front, opening ++ call.text, rest, whole, ?_⟩
    rcases sight with shallow | ⟨near, one_line⟩
    · exact .inr (describes_create2Inside.2 ⟨free, opening, call, rfl, opens, shallow⟩)
    · exact .inl ⟨one_line, describes_create2Near.2 ⟨free, opening, call, rfl, opens, near⟩⟩

theorem block_of_opening {earlier body later words block : List Char}
    (alone : ∀ part ∈ [earlier, body, later], ¬ StandsFree "assembly".toList part)
    (whole : earlier ++ '\n' :: ("assembly ".toList ++ '{' :: (body ++ '}' :: later)) =
      front ++ ("assembly".toList ++ (words ++ '{' :: block)))
    (free : EndsFree front) (edge : StartsFree (words ++ ['{'])) (plain : '{' ∉ words) :
    block = body ++ '}' :: later := by
  have edge : StartsFree (words ++ '{' :: block) := by
    rwa [startsFree_iff, touchesWord_append_cons, ← startsFree_iff]
  have ⟨front, _, whole, free⟩ := (standsFree_or_behind (by decide) (by decide) whole free
    edge).resolve_left (alone earlier (by simp))
  rcases cases_of_cut (by decide) (by decide) whole with ⟨more, cut, behind⟩ | ⟨more, cut, whole⟩
  · have uncut : '{' ∉ more := fun mem => absurd (cut ▸ List.mem_append_right front
      (List.mem_append_right "assembly".toList mem) : '{' ∈ "assembly ".toList) (by decide)
    exact (eq_of_first_cut plain uncut behind).2
  · have layout : front = "assembly ".toList ++ ['{'] ++ more := by simp [cut]
    have free : EndsFree more := (layout ▸ free).of_append
    have ⟨front, _, whole, free⟩ := (standsFree_or_behind (by decide) (by decide) whole free
      edge).resolve_left (alone body (by simp))
    exact absurd ⟨front, _, whole, free, edge⟩ (alone later (by simp))

theorem prefix_of_sight {body later rest : List Char} {call : InnerCall}
    (whole : body ++ '}' :: later = call.text ++ rest) (balanced : depth body = 0)
    (sight : Shallow call.front ∨ '}' ∉ call.front) : call.text <+: body := by
  have uncut : '}' ∉ "create2".toList ++ (call.gap ++ ['(']) := by
    have gap : '}' ∉ call.gap := fun mem => absurd (call.blank _ mem) (by decide)
    simp [gap]
  rw [InnerCall.text, List.append_assoc] at whole
  rcases cases_of_cut (by simp) uncut whole with ⟨more, cut, _⟩ | ⟨more, cut, _⟩
  · exact ⟨more, by rw [cut, InnerCall.text, List.append_assoc]⟩
  · rcases sight with shallow | open_yet
    · -- the brace behind the body closes more than was opened
      have within := (shallow.nested (body ++ ['}']) ⟨more, by simp [cut]⟩).1
      rw [depth_append, balanced] at within
      exact absurd within (by decide)
    · exact absurd (by simp [cut]) open_yet

/-- A call in the block is reported if it is in sight, and no other call is, where the keyword stands
nowhere else. -/
theorem scan_sees_create2 (threshold : Nat) (before body after : String)
    (shallow : Shallow body.toList) :
    let r := scan threshold (withAssembly before body after)
    ((∃ call : InnerCall, call.text <+: body.toList ∧ call.InSight) →
      r.hasCode "CREATE2_ASSEMBLY" = true) ∧
    ((∀ part ∈ [before, body, after], ¬ StandsFree "assembly".toList part.toList) →
      r.hasCode "CREATE2_ASSEMBLY" = true →
        ∃ call : InnerCall, call.text <+: body.toList ∧ call.InSight) := by
  intro r
  let opening := "assembly ".toList ++ ['{']
  have opens : Opens opening := ⟨[' '], rfl, by decide, by decide⟩
  have layout : (withAssembly before body after).toList = before.toList ++ '\n' ::
      ("assembly ".toList ++ '{' :: (body.toList ++ '}' :: after.toList)) := by
    simp [withAssembly]
  rw [hasCode_create2_iff, layout]
  constructor
  · intro ⟨call, ⟨rest, inside⟩, sight⟩
    refine ⟨before.toList ++ ['\n'], opening, rest ++ '}' :: after.toList, call, ?_, ?_, opens, ?_⟩
    · simp [opening, ← inside]
    · rw [endsFree_iff, List.reverse_append]
      rfl
    · rcases sight with balanced | ⟨near, one_line⟩
      · have front : call.front <+: body.toList := (List.prefix_append _ _).trans ⟨rest, inside⟩
        exact .inl (shallow.of_prefix front balanced)
      · refine .inr ⟨near, ?_⟩
        simpa [opening, InnerCall.text] using one_line
  · intro alone ⟨front, _, rest, call, whole, free, ⟨words, split, edge, plain⟩, sight⟩
    have whole : before.toList ++ '\n' :: ("assembly ".toList ++ '{' ::
        (body.toList ++ '}' :: after.toList)) =
          front ++ ("assembly".toList ++ (words ++ '{' :: (call.text ++ rest))) := by
      simpa [split] using whole
    have block := block_of_opening (by simpa using alone) whole free edge plain
    refine ⟨call, prefix_of_sight block.symm shallow.balanced (sight.imp_right And.left), ?_⟩
    rcases sight with balanced | ⟨near, one_line⟩
    · exact .inl balanced.balanced
    · refine .inr ⟨near, fun mem => one_line ?_⟩
      rcases List.mem_append.1 mem with mem | mem <;> simp [InnerCall.text, mem]

theorem scan_sees_create2_nested :
    let line := " if ok \x7b a := create2(0, 0, 0, 0) \x7d "
    let spread := "\n if ok \x7b\n  a := create2(0, 0, 0, 0)\n \x7d\n"
    let report (body : String) := scan 0 (withAssembly "" body "")
    (Shallow line.toList ∧ (report line).hasCode "CREATE2_ASSEMBLY" = true) ∧
      Shallow spread.toList ∧ (∃ call : InnerCall, call.text <+: spread.toList) ∧
        (report spread).hasCode "CREATE2_ASSEMBLY" = false := by
  intro line spread report
  have shallow : Shallow line.toList := by decide +kernel
  have shallow' : Shallow spread.toList := by decide +kernel
  let call : InnerCall := ⟨" if ok \x7b a := ".toList, [], by decide, List.forall_mem_nil _⟩
  let call' : InnerCall := ⟨"\n if ok \x7b\n  a := ".toList, [], by decide, List.forall_mem_nil _⟩
  refine ⟨⟨shallow, (scan_sees_create2 0 "" line "" shallow).1 ⟨call, ?_, ?_⟩⟩, shallow',
    ⟨call', ?_⟩, ?_⟩
  · decide
  · exact .inr (by decide)
  · decide
  · apply Bool.eq_false_iff.2
    intro reported
    have nowhere : ∀ part ∈ ["", spread, ""], ¬ "assembly".toList <:+: part.toList := by decide
    have alone : ∀ part ∈ ["", spread, ""], ¬ StandsFree "assembly".toList part.toList :=
      fun part mem ⟨front, back, whole, _⟩ => nowhere part mem ⟨front, back, by simp [whole]⟩
    have ⟨seen, ⟨rest, inside⟩, sight⟩ :=
      (scan_sees_create2 0 "" spread "" shallow').2 alone reported
    have only : ∀ n < spread.toList.length, "create2".toList <+: spread.toList.drop n →
        depth (spread.toList.take n) ≠ 0 ∧ '\n' ∈ spread.toList.take n := by decide +kernel
    rw [InnerCall.text, List.append_assoc] at inside
    have within : seen.front.length < spread.toList.length := by simp [← inside]
    have front : spread.toList.take seen.front.length = seen.front := by
      rw [← inside, List.take_left]
    have found : "create2".toList <+: spread.toList.drop seen.front.length := by
      rw [← inside, List.drop_left, List.append_assoc]
      exact List.prefix_append _ _
    have ⟨nested, broken⟩ := front ▸ only _ within found
    rcases sight with balanced | ⟨_, one_line⟩
    · exact nested balanced
    · exact one_line (List.mem_append_left _ broken)

end SourceScan
end SolidityVetting
