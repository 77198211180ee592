import SolidityVetting.Proofs.Pattern.Search
import SolidityVetting.Proofs.Source.Pragma
import SolidityVetting.Proofs.Source.Versions
import SolidityVetting.Proofs.Text.Pieces
/-! # Pragmas that an earlier one runs into

A constraint reaches to the next semicolon, over line ends as well. A pragma on a line of its own is
therefore read by itself only if the text in front of it does not end inside another one; otherwise
it is read as the rest of that one's constraint, which alone decides.
-/

set_option autoImplicit false

namespace SolidityVetting.SourceScan
open Text Place Pattern Rule Version

/-- The text ends inside a version pragma that begins behind `front`, and `lead` is what it has of
its constraint. -/
structure LeavesOpen (text front lead : List Char) : Prop where
  edge : touchesWord front.reverse = false
  words : ∃ gap, gap ≠ [] ∧ (∀ b ∈ gap, isBlank b = true) ∧ text = front ++ (pragmaWords gap ++ lead)
  blank_first : ∃ b more, lead = b :: more ∧ isBlank b = true
  unfinished : ';' ∉ lead

/-- The first of the pragmas inside which the text ends. -/
structure FirstOpen (text front lead : List Char) : Prop extends LeavesOpen text front lead where
  first : ∀ other rest, LeavesOpen text other rest → front.length ≤ other.length

def directive (c after : List Char) : List Char := "pragma solidity ".toList ++ (c ++ ';' :: after)

theorem append_directive (lead c after : List Char) : lead ++ directive c after =
    (lead ++ ("pragma solidity ".toList ++ c)) ++ ';' :: after := by
  rw [List.append_assoc, List.append_assoc]
  rfl

theorem length_directive (c after : List Char) :
    (directive c after).length = 16 + (c.length + (after.length + 1)) := by
  change ("pragma solidity ".toList ++ (c ++ ';' :: after)).length = _
  rw [List.length_append, List.length_append, List.length_cons]
  rfl

theorem isBlank_space : ∀ b ∈ [' '], isBlank b = true := by
  intro b hb
  rw [List.mem_singleton.1 hb]
  decide

theorem directive_announces (c after : List Char) :
    Announces (directive c after) ((' ' :: c) ++ ';' :: after) :=
  ⟨[' '], List.cons_ne_nil _ _, isBlank_space, rfl⟩

theorem LeavesOpen.unique {text front front' lead lead' : List Char}
    (h : LeavesOpen text front lead) (h' : LeavesOpen text front' lead')
    (hl : front.length = front'.length) : front = front' ∧ lead = lead' := by
  obtain ⟨gap, gapSome, gapBlank, e⟩ := h.words
  obtain ⟨gap', gapSome', gapBlank', e'⟩ := h'.words
  rw [e] at e'
  obtain ⟨rfl, behind⟩ := List.append_inj e' hl
  refine ⟨rfl, Announces.unique ⟨gap, gapSome, gapBlank, rfl⟩ ?_⟩
  exact ⟨gap', gapSome', gapBlank', behind⟩

section
variable {before c after : List Char}

def around (before c after : List Char) : List Char := before ++ '\n' :: directive c after

theorem around_eq (before c after : List Char) :
    around before c after = (before ++ ['\n']) ++ directive c after := by
  rw [around, List.append_assoc]
  rfl

theorem cut_of_isIn {s : Place} (hs : s.IsIn (around before c after) 0 0)
    (hl : (directive c after).length ≤ s.after.length) :
    s.before = '\n' :: before.reverse ∧ s.after = directive c after ∨
      ∃ x, s.after = x ++ '\n' :: directive c after ∧ before = s.before.reverse ++ x := by
  obtain ⟨x, e, rest⟩ | ⟨x, e, rest⟩ := List.append_eq_append_iff.1 hs.1
  · exact .inr ⟨x, rest, e⟩
  · match x with
    | [] => exact .inr ⟨[], rest.symm, by rw [e, List.append_nil, List.append_nil]⟩
    | [n] =>
      obtain ⟨rfl, tail⟩ := List.cons.inj rest
      refine .inl ⟨?_, tail.symm⟩
      rw [← List.reverse_reverse s.before, e]
      simp
    | n :: m :: x =>
      have length := congrArg List.length rest
      simp only [List.length_cons, List.length_append] at length
      omega

def inserted (before c after : List Char) : Place :=
  ⟨'\n' :: before.reverse, directive c after, before.length + 1, none⟩

theorem isIn_inserted (before c after : List Char) :
    (inserted before c after).IsIn (around before c after) 0 0 := by
  refine ⟨?_, ?_⟩
  · simp [inserted, around]
  · simp [inserted]

theorem isPragma_inserted (before after : List Char) (hc : c ≠ []) (hs : ';' ∉ c) :
    IsPragma (inserted before c after) (' ' :: c) after := by
  refine ⟨?_, directive_announces c after, ⟨' ', c, rfl, by decide, hc⟩, ?_⟩
  · have newline : touchesWord ('\n' :: before.reverse) = false := by rfl
    have word : touchesWord (directive c after) = true := by rfl
    unfold atWordEdge inserted
    rw [newline, word]
    rfl
  · simpa using hs

theorem leavesOpen_of_isPragma {s : Place} {gap lead tail more rest : List Char}
    (ha : s.after = (pragmaWords gap ++ lead) ++ '\n' :: tail)
    (hx : before = s.before.reverse ++ (pragmaWords gap ++ lead)) (gapSome : gap ≠ [])
    (gapBlank : ∀ b ∈ gap, isBlank b = true) (hm : ';' ∉ lead)
    (h : IsPragma s ((lead ++ ['\n']) ++ more) rest) :
    LeavesOpen (before ++ ['\n']) s.before.reverse (lead ++ ['\n']) := by
  refine ⟨?_, ⟨gap, gapSome, gapBlank, ?_⟩, ?_, ?_⟩
  · rw [List.reverse_reverse]
    exact (atWordEdge_iff (ha.trans (List.append_assoc _ _ _))).1 h.edge
  · rw [hx]
    simp only [List.append_assoc]
  · obtain ⟨b, more, e, hb, -⟩ := h.blank_first
    cases lead with
    | nil => exact ⟨'\n', [], rfl, by decide⟩
    | cons a lead =>
      obtain ⟨rfl, -⟩ := List.cons.inj e
      exact ⟨a, lead ++ ['\n'], rfl, hb⟩
  · simp [hm]

theorem isPragma_cases (hs : ';' ∉ c) {s : Place} {constraint rest : List Char}
    (hi : s.IsIn (around before c after) 0 0) (hl : (directive c after).length ≤ s.after.length)
    (h : IsPragma s constraint rest) :
    (directive c after).length < rest.length ∨ rest = after ∧
      (s.after = directive c after ∧ constraint = ' ' :: c ∨
        ∃ lead, LeavesOpen (before ++ ['\n']) s.before.reverse lead ∧
          constraint = lead ++ ("pragma solidity ".toList ++ c)) := by
  -- the pragma starts at the inserted one or in front of the line end
  obtain ⟨-, ha⟩ | ⟨x, ha, hx⟩ := cut_of_isIn hi hl
  · have found := h.announced
    rw [ha] at found
    have same := found.unique (directive_announces c after)
    have closed : ';' ∉ ' ' :: c := by simpa using hs
    obtain ⟨hk, hr⟩ := eq_of_first_cut h.open_till closed same
    exact .inr ⟨hr, .inl ⟨ha, hk⟩⟩
  · have found := h.announced
    rw [ha] at found
    obtain ⟨gap, lead, gapSome, gapBlank, rfl, same⟩ := found.across rfl
    by_cases hm : ';' ∈ lead
    · left
      obtain ⟨lead, more, rfl, absent⟩ := List.eq_append_cons_of_mem hm
      rw [List.append_assoc, List.cons_append] at same
      obtain ⟨-, rfl⟩ := eq_of_first_cut h.open_till absent same
      simp only [List.length_append, List.length_cons]
      omega
    · right
      have split : constraint ++ ';' :: rest =
          ((lead ++ ['\n']) ++ ("pragma solidity ".toList ++ c)) ++ ';' :: after := by
        rw [same, ← append_directive, List.append_assoc]
        rfl
      have closed : ';' ∉ (lead ++ ['\n']) ++ ("pragma solidity ".toList ++ c) := by
        simp [hm, hs]
      obtain ⟨rfl, rfl⟩ := eq_of_first_cut h.open_till closed split
      have opened := leavesOpen_of_isPragma ha hx gapSome gapBlank hm h
      exact ⟨rfl, .inr ⟨lead ++ ['\n'], opened, rfl⟩⟩

theorem LeavesOpen.isPragma (after : List Char) (hs : ';' ∉ c) {front lead : List Char}
    (h : LeavesOpen (before ++ ['\n']) front lead) :
    ∃ u : Place, u.IsIn (around before c after) 0 0 ∧ u.before = front.reverse ∧
      IsPragma u (lead ++ ("pragma solidity ".toList ++ c)) after ∧
      (directive c after).length < u.after.length := by
  obtain ⟨gap, gapSome, gapBlank, e⟩ := h.words
  refine ⟨⟨front.reverse, pragmaWords gap ++ (lead ++ directive c after), front.length, none⟩,
    ⟨?_, ?_⟩, rfl, ⟨?_, ⟨gap, gapSome, gapBlank, ?_⟩, ?_, ?_⟩, ?_⟩
  · rw [around_eq, e]
    simp
  · simp
  · exact (atWordEdge_iff rfl).2 (by simpa using h.edge)
  · rw [← append_directive]
  · obtain ⟨b, more, rfl, hb⟩ := h.blank_first
    exact ⟨b, more ++ ("pragma solidity ".toList ++ c), rfl, hb, by simp⟩
  · simp [h.unfinished, hs]
  · obtain ⟨b, more, rfl, -⟩ := h.blank_first
    simp only [List.length_append, List.length_cons]
    omega

/-- The hit in which the inserted pragma ends, when the search goes on from `s`. -/
structure Covers (before c after : List Char) (s : Place) (hit : Hit) : Prop where
  start_isIn : hit.start.IsIn (around before c after) 0 0
  start_before : (directive c after).length ≤ hit.start.after.length
  ends_there : hit.finish ∈ versionPragma.ends hit.start.bare
  finish_after : hit.finish.after = after
  first : ∀ (u : Place) (constraint : List Char), u.IsIn (around before c after) 0 0 →
    hit.start.after.length < u.after.length → u.after.length ≤ s.after.length →
    ¬ IsPragma u constraint after

theorem cut_of_suffix {body rest between tail : List Char}
    (h : body ++ ';' :: rest = between ++ tail) (absent : ';' ∉ body)
    (hl : rest.length < tail.length) :
    ∃ still, tail = still ++ ';' :: rest ∧ ';' ∉ still := by
  obtain ⟨x, -, hx⟩ | ⟨x, rfl, hx⟩ := List.append_eq_append_iff.1 h
  · cases x with
    | nil => exact ⟨[], hx.symm, List.not_mem_nil⟩
    | cons a x =>
      have length := congrArg List.length hx
      simp only [List.length_cons, List.length_append] at length
      omega
  · exact ⟨x, hx, fun m => absent (List.mem_append_right between m)⟩

theorem IsPragma.ends_inside {text : List Char} {s u : Place} {k l rest other : List Char}
    (hs : s.IsIn text 0 0) (hu : u.IsIn text 0 0) (h : IsPragma s k rest) (g : IsPragma u l other)
    (hle : u.after.length ≤ s.after.length) (hlt : rest.length < u.after.length) :
    other = rest := by
  obtain ⟨body, ha, absent⟩ := h.ends_at
  obtain ⟨body', hb, absent'⟩ := g.ends_at
  obtain ⟨between, hc⟩ := after_of_isIn hs hu hle
  rw [ha] at hc
  obtain ⟨still, hx, open_still⟩ := cut_of_suffix hc absent hlt
  rw [hb] at hx
  exact (eq_of_first_cut absent' open_still hx).2

theorem not_isPragma_of_leftmost {s : Place} {hit : Hit}
    (far : Leftmost versionPragma (around before c after) 0 0 s hit) {u : Place}
    (hu : u.IsIn (around before c after) 0 0) (hlt : hit.start.after.length < u.after.length)
    (hle : u.after.length ≤ s.after.length) (constraint : List Char) :
    ¬ IsPragma u constraint after := by
  intro h
  exact ends_ne_nil_of_isPragma (isPragma_bare_iff.2 h) (far.none_before u hu hlt hle)

theorem Covers.behind {s : Place} {earlier hit : Hit} {constraint rest : List Char}
    (far : Leftmost versionPragma (around before c after) 0 0 s earlier)
    (pragma : IsPragma earlier.start constraint rest) (he : earlier.finish.after = rest)
    (hr : after.length < rest.length) (h : Covers before c after earlier.finish hit) :
    Covers before c after s hit := by
  refine ⟨h.start_isIn, h.start_before, h.ends_there, h.finish_after, ?_⟩
  intro u other hu hlt hle g
  by_cases h₁ : u.after.length ≤ earlier.finish.after.length
  · exact h.first u other hu hlt h₁ g
  rw [he] at h₁
  by_cases h₂ : u.after.length ≤ earlier.start.after.length
  · have same := IsPragma.ends_inside far.start_isIn hu pragma g h₂ (Nat.lt_of_not_le h₁)
    rw [same] at hr
    exact Nat.lt_irrefl _ hr
  · exact not_isPragma_of_leftmost far hu (Nat.lt_of_not_le h₂) hle other g

theorem exists_covering (hc : c ≠ []) (hs : ';' ∉ c) (s : Place)
    (hi : s.IsIn (around before c after) 0 0) (hl : (directive c after).length ≤ s.after.length) :
    ∃ earlier hit, versionPragma.hitsFrom s = earlier ++ hit :: versionPragma.hitsFrom hit.finish ∧
      (∀ e ∈ earlier, after.length < e.finish.after.length) ∧ Covers before c after s hit := by
  have matches_there : versionPragma.ends (inserted before c after).bare ≠ [] :=
    ends_ne_nil_of_isPragma (isPragma_bare_iff.2 (isPragma_inserted before after hc hs))
  obtain ⟨hit, found, far, start_before⟩ :=
    searchFrom?_of_ends hi (isIn_inserted before c after) hl matches_there
  obtain ⟨constraint, pragma, -⟩ := isPragma_of_hit far.ends_there
  have shorter := pragma.length_lt
  have behind := far.start_behind
  have list := hitsFrom_eq_cons found (by omega)
  obtain inFront | ⟨finish, -⟩ := isPragma_cases hs far.start_isIn start_before pragma
  · -- the hit ends in front of the inserted pragma, and the search goes on behind it
    obtain ⟨earlier, cover, more, front, covers⟩ :=
      exists_covering hc hs hit.finish far.finish_isIn (Nat.le_of_lt inFront)
    have longer := length_directive c after
    have further : after.length < hit.finish.after.length := by omega
    refine ⟨hit :: earlier, cover, by rw [list, more, List.cons_append], ?_,
      covers.behind far pragma rfl further⟩
    intro e he
    obtain rfl | he := List.mem_cons.1 he
    · exact further
    · exact front e he
  · refine ⟨[], hit, list, by simp, far.start_isIn, start_before, far.ends_there, finish, ?_⟩
    intro u other hu hlt hle
    exact not_isPragma_of_leftmost far hu hlt hle other
termination_by s.after.length

/-- Among all the hits there is one that covers the inserted pragma, and no other one ends where
that one does. -/
theorem exists_only_covering (before after : List Char) (hc : c ≠ []) (hs : ';' ∉ c) :
    ∃ hit ∈ versionPragma.hits (around before c after),
      Covers before c after (start (around before c after)) hit ∧
      ∀ other ∈ versionPragma.hits (around before c after),
        other.finish.after = after → other = hit := by
  obtain ⟨earlier, hit, list, front, covers⟩ :=
    exists_covering hc hs (start (around before c after)) (isIn_start _) (by
      simp only [start, around, List.length_append, List.length_cons]
      omega)
  have hits : versionPragma.hits (around before c after) =
      earlier ++ hit :: versionPragma.hitsFrom hit.finish := list
  rw [hits]
  refine ⟨hit, List.mem_append_right _ List.mem_cons_self, covers, ?_⟩
  intro other hm ho
  obtain hm | hm := List.mem_append.1 hm
  · have ends := front other hm
    rw [ho] at ends
    exact absurd ends (Nat.lt_irrefl _)
  obtain rfl | hm := List.mem_cons.1 hm
  · rfl
  · have finishIn := isIn_ends versionPragma (isIn_bare covers.start_isIn) covers.ends_there
    obtain ⟨-, behind, ends⟩ := of_mem_hitsFrom finishIn hm
    obtain ⟨constraint, pragma, -⟩ := isPragma_of_hit ends
    have shorter := pragma.length_lt
    rw [ho] at shorter
    rw [covers.finish_after] at behind
    omega

theorem Covers.start_le (hs : ';' ∉ c) {s : Place} {hit : Hit}
    (all : s.after.length = (around before c after).length) (h : Covers before c after s hit)
    {front lead : List Char} (g : LeavesOpen (before ++ ['\n']) front lead) :
    hit.start.before.length ≤ front.length := by
  obtain ⟨u, hu, hb, k, -⟩ := g.isPragma after hs
  have lu := length_of_isIn hu
  have lh := length_of_isIn h.start_isIn
  rw [hb, List.length_reverse] at lu
  apply Nat.le_of_not_lt
  intro hlt
  exact h.first u _ hu (by omega) (by omega) k

theorem LeavesOpen.front_lt (after : List Char) (hs : ';' ∉ c) {s : Place}
    (hi : s.IsIn (around before c after) 0 0) (ha : s.after = directive c after)
    {front lead : List Char} (g : LeavesOpen (before ++ ['\n']) front lead) :
    front.length < s.before.length := by
  obtain ⟨u, hu, hb, -, hlt⟩ := g.isPragma after hs
  have lu := length_of_isIn hu
  have ls := length_of_isIn hi
  rw [hb, List.length_reverse] at lu
  rw [ha] at ls
  omega

theorem Covers.accepts_iff (hs : ';' ∉ c) (hv : ¬ Accepts c) {s : Place} {hit : Hit}
    (all : s.after.length = (around before c after).length)
    (h : Covers before c after s hit) :
    Accepts hit.text ↔ ∃ front lead, FirstOpen (before ++ ['\n']) front lead ∧
      Accepts (lead ++ ("pragma solidity ".toList ++ c)) := by
  obtain ⟨constraint, pragma, reads⟩ := isPragma_of_hit h.ends_there
  rw [h.finish_after] at pragma
  rw [reads]
  obtain inFront | ⟨-, ⟨atIt, rfl⟩ | ⟨lead, opened, rfl⟩⟩ :=
    isPragma_cases hs h.start_isIn h.start_before pragma
  · have longer := length_directive c after
    omega
  · constructor
    · intro g
      exact absurd ((accepts_append_of_blank isBlank_space c).1 g) hv
    · rintro ⟨front, lead, g, -⟩
      have le := h.start_le hs all g.toLeavesOpen
      have lt := g.toLeavesOpen.front_lt after hs h.start_isIn atIt
      omega
  · constructor
    · intro g
      refine ⟨hit.start.before.reverse, lead, ⟨opened, ?_⟩, g⟩
      intro other rest k
      rw [List.length_reverse]
      exact h.start_le hs all k
    · rintro ⟨front, lead', g, k⟩
      have le := g.first _ _ opened
      have ge := h.start_le hs all g.toLeavesOpen
      rw [List.length_reverse] at le
      obtain ⟨-, rfl⟩ := opened.unique g.toLeavesOpen (by rw [List.length_reverse]; omega)
      exact k

end

theorem toList_around (before c after : String) :
    (before ++ "\npragma solidity " ++ c ++ ";" ++ after).toList =
      around before.toList c.toList after.toList := by
  have newline : "\npragma solidity ".toList = '\n' :: "pragma solidity ".toList := by decide
  have semicolon : ";".toList = [';'] := by decide
  simp only [String.toList_append, newline, semicolon, List.append_assoc]
  rfl

/-- Exactly when the scan passes although a pragma on a line of its own has an old or unreadable
version: nothing else in the text is wrong, and the text in front ends inside another pragma whose
constraint, read on to the end of this one, is accepted. -/
theorem passed_scan_around_iff (threshold : Nat) (before c after : String) (hc : c ≠ "")
    (hs : ';' ∉ c.toList)
    (hv : ∀ v, ofConstraint? c.toList = some v → v.isSupported = false) :
    let text := before ++ "\npragma solidity " ++ c ++ ";" ++ after
    (scan threshold text).passed = true ↔
      (ofRules text.toList).passed = true ∧
      (∀ hit ∈ versionPragma.hits text.toList,
        hit.finish.after ≠ after.toList → Accepts hit.text) ∧
      ∃ front lead, FirstOpen (before.toList ++ ['\n']) front lead ∧
        Accepts (lead ++ ("pragma solidity ".toList ++ c.toList)) := by
  intro text
  have ht : text.toList = around before.toList c.toList after.toList := toList_around before c after
  have hc' : c.toList ≠ [] := by simpa using hc
  have hv' : ¬ Accepts c.toList := by
    rintro ⟨v, hr, hb⟩
    rw [hv v hr] at hb
    cases hb
  obtain ⟨hit, mem, covers, unique⟩ :=
    exists_only_covering before.toList after.toList hc' hs
  rw [passed_scan_iff, ht, ← covers.accepts_iff hs hv' rfl]
  constructor
  · rintro ⟨rules, -, all⟩
    exact ⟨rules, fun other hm _ => all other hm, all hit mem⟩
  · rintro ⟨rules, others, accepted⟩
    refine ⟨rules, List.ne_nil_of_mem mem, ?_⟩
    intro other hm
    by_cases ho : other.finish.after = after.toList
    · rw [unique other hm ho]
      exact accepted
    · exact others other hm ho

theorem passed_scan_commented :
    let text := "// pragma solidity ^0.8.24" ++ "\npragma solidity " ++ "0.7.0" ++ ";" ++
      "\ncontract A \x7b\x7d"
    ofConstraint? "0.7.0".toList = some ⟨0, 7, 0⟩ ∧ (⟨0, 7, 0⟩ : Version).isSupported = false ∧
      (scan defaultLargeSize text).passed = true := by
  intro text
  have reading : ofConstraint? "0.7.0".toList = some ⟨0, 7, 0⟩ := by decide
  refine ⟨reading, by decide, ?_⟩
  refine (passed_scan_around_iff defaultLargeSize "// pragma solidity ^0.8.24" "0.7.0"
    "\ncontract A \x7b\x7d" (by decide) (by decide) ?_).2 ⟨?_, ?_, ?_⟩
  · intro v hv
    rw [reading] at hv
    cases hv
    decide
  · exact passed_ofRules_of_isClean (by decide +kernel)
  · -- every pragma of the text ends where the second one does
    intro hit hm ho
    have ends : ∀ v ∈ (start text.toList).onwards text.toList,
        ∀ t ∈ versionPragma.ends v.bare, t.after = "\ncontract A \x7b\x7d".toList := by
      decide +kernel
    obtain ⟨inText, hle, ends_there⟩ := of_mem_hitsFrom (isIn_start text.toList) hm
    exact absurd (forall_ends_of_onwards (isIn_start text.toList) ends inText hle _ ends_there) ho
  · refine ⟨"// ".toList, " ^0.8.24\n".toList, ⟨⟨by decide, ?_, ?_, by decide⟩, ?_⟩, ?_⟩
    · exact ⟨[' '], List.cons_ne_nil _ _, isBlank_space, by decide⟩
    · exact ⟨' ', "^0.8.24\n".toList, by decide, by decide⟩
    · intro other rest g
      obtain ⟨gap, -, -, e⟩ := g.words
      have letter : ("// pragma solidity ^0.8.24".toList ++ ['\n'])[other.length]? = some 'p' := by
        rw [e, List.getElem?_append_right (Nat.le_refl _), Nat.sub_self]
        rfl
      have none_near : ∀ n < 3, ("// pragma solidity ^0.8.24".toList ++ ['\n'])[n]? ≠ some 'p' := by
        decide
      apply Nat.le_of_not_lt
      intro hlt
      exact none_near other.length hlt letter
    · exact ⟨⟨0, 8, 24⟩, by decide, by decide⟩

end SolidityVetting.SourceScan
