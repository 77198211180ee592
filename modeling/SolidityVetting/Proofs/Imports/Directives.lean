import SolidityVetting.Import
import SolidityVetting.Proofs.Pattern.Ends
import SolidityVetting.Proofs.Pattern.Search
import SolidityVetting.Proofs.Text.Pieces
/-! # Which import directives are seen

Import directives that follow one another with nothing but blanks between them. One of them is seen
exactly if only spaces and tabs stand in front of it on its line; another one on the same line is
passed over, with no influence on those behind it.
-/

set_option autoImplicit false

namespace SolidityVetting.Import
open Text Place Pattern

def isIndent (c : Char) : Bool := c == ' ' || c == '\t'

/-- From `s` on stands an import of the path, and behind its semicolon `rest`. -/
structure Reads (s : Place) (path rest : List Char) : Prop where
  line_start : s.atLineStart = true
  path_ne_nil : path ≠ []
  path_unquoted : ∀ c ∈ path, isQuote c = false
  written : ∃ indent words mark mark' more, (∀ c ∈ indent, isIndent c = true) ∧
    touchesWord (words ++ [mark]) = false ∧ (∀ c ∈ words, c ≠ ';' ∧ isQuote c = false) ∧
    isQuote mark = true ∧ isQuote mark' = true ∧ ';' ∉ more ∧
    s.after = indent ++ ("import".toList ++
      (words ++ mark :: (path ++ mark' :: (more ++ ';' :: rest))))

theorem reads_bare {s : Place} {path rest : List Char} (h : Reads s path rest) :
    Reads s.bare path rest :=
  ⟨h.line_start, h.path_ne_nil, h.path_unquoted, h.written⟩

theorem reads_of_ends {s t : Place} (h : t ∈ directive.ends s) :
    ∃ path back, Reads s path t.after ∧ t.captured = some ⟨path ++ back, back⟩ := by
  obtain ⟨s₉, h, hclose⟩ := mem_ends_seq.1 h
  obtain ⟨s₈, h, hmore⟩ := mem_ends_seq.1 h
  obtain ⟨s₇, h, hmark'⟩ := mem_ends_seq.1 h
  obtain ⟨s₆, h, hpath⟩ := mem_ends_seq.1 h
  obtain ⟨s₅, h, hmark⟩ := mem_ends_seq.1 h
  obtain ⟨s₄, h, hwords⟩ := mem_ends_seq.1 h
  obtain ⟨s₃, h, hedge⟩ := mem_ends_seq.1 h
  obtain ⟨s₂, h, himport⟩ := mem_ends_seq.1 h
  obtain ⟨s₁, h, hindent⟩ := mem_ends_seq.1 h
  obtain ⟨line_start, rfl⟩ := mem_ends_lineStart.1 h
  obtain ⟨indent, rest₁, e₁, indented, rfl⟩ := mem_ends_run.1 hindent
  obtain ⟨rest₂, e₂, rfl⟩ := mem_ends_exactly.1 himport
  obtain ⟨edge, rfl⟩ := mem_ends_wordEdge.1 hedge
  obtain ⟨words, rest₃, e₃, plain, rfl⟩ := mem_ends_run.1 hwords
  obtain ⟨mark, rest₄, e₄, quote, rfl⟩ := mem_ends_one.1 hmark
  obtain ⟨u, hu, rfl⟩ := mem_ends_capture.1 hpath
  obtain ⟨path, rest₅, e₅, path_ne_nil, unquoted, rfl⟩ := mem_ends_oneOrMore.1 hu
  obtain ⟨mark', rest₆, e₆, quote', rfl⟩ := mem_ends_one.1 hmark'
  obtain ⟨more, rest₇, e₇, unfinished, rfl⟩ := mem_ends_run.1 hmore
  obtain ⟨rest, e₈, rfl⟩ := mem_ends_exactly.1 hclose
  have e₈ : rest₇ = ';' :: rest := e₈
  have e₇ : rest₆ = more ++ rest₇ := e₇
  have e₆ : rest₅ = mark' :: rest₆ := e₆
  have e₅ : rest₄ = path ++ rest₅ := e₅
  have e₄ : rest₃ = mark :: rest₄ := e₄
  have e₃ : rest₂ = words ++ rest₃ := e₃
  have e₂ : rest₁ = "import".toList ++ rest₂ := e₂
  refine ⟨path, rest₅, ⟨line_start, path_ne_nil, fun c hc => by simpa using unquoted c hc,
    indent, words, mark, mark', more, indented, ?_, fun c hc => by simpa using plain c hc, quote,
    quote', ?_, ?_⟩, ?_⟩
  · have word (before : List Char) : touchesWord ("import".toList.reverse ++ before) = true := rfl
    rw [atWordEdge, past_before, word, past_after, e₃, e₄, touchesWord_append_cons] at edge
    simpa using edge
  · exact fun hm => absurd (unfinished ';' hm) (by decide)
  · rw [e₁, e₂, e₃, e₄, e₅, e₆, e₇, e₈]
    rfl
  · change some (Span.mk rest₄ rest₅) = _
    rw [e₅]

theorem exists_reads_of_mem_paths {source path : String} (h : path ∈ paths source) :
    ∃ s rest, s.IsIn source.toList 0 0 ∧ Reads s path.toList rest := by
  have ⟨hit, hh, text⟩ := List.mem_map.1 h
  have ⟨hs, _, ends⟩ := of_mem_hitsFrom (isIn_start source.toList) hh
  have ⟨read, back, reads, captured⟩ := reads_of_ends ends
  have same : hit.text = read := by simp [Hit.text, captured, Span.chars]
  rw [← text, String.toList_ofList, same]
  exact ⟨hit.start.bare, hit.finish.after, hs, reads⟩

theorem ends_ne_nil_of_reads {s : Place} {path rest : List Char} (h : Reads s path rest) :
    directive.ends s ≠ [] := by
  obtain ⟨line_start, path_ne_nil, unquoted, indent, words, mark, mark', more, indented, edge, plain,
    quote, quote', unfinished, written⟩ := h
  let rest₇ := ';' :: rest
  let rest₆ := more ++ rest₇
  let rest₅ := mark' :: rest₆
  let rest₄ := path ++ rest₅
  let rest₃ := mark :: rest₄
  let rest₂ := words ++ rest₃
  let rest₁ := "import".toList ++ rest₂
  let s₁ := s.past indent rest₁
  let s₂ := s₁.past "import".toList rest₂
  let s₃ := s₂.past words rest₃
  let s₄ := s₃.past [mark] rest₄
  let s₅ := s₄.openCapture.past path rest₅
  let s₆ := s₅.closeCapture.past [mark'] rest₆
  let s₇ := s₆.past more rest₇
  have hindent : s₁ ∈ (zeroOrMore isIndent).ends s :=
    mem_ends_run.2 ⟨indent, rest₁, written, indented, rfl⟩
  have himport : s₂ ∈ (exactly "import").ends s₁ := mem_ends_exactly.2 ⟨rest₂, rfl, rfl⟩
  have hedge : s₂ ∈ wordEdge.ends s₂ := by
    have word : touchesWord s₂.before = true := rfl
    refine mem_ends_wordEdge.2 ⟨?_, rfl⟩
    rw [atWordEdge, word, past_after, touchesWord_append_cons, edge]
    rfl
  have hwords : s₃ ∈ (zeroOrMore fun c => c != ';' && ! isQuote c).ends s₂ :=
    mem_ends_run.2 ⟨words, rest₃, rfl, fun c hc => by simpa using plain c hc, rfl⟩
  have hmark : s₄ ∈ (one isQuote).ends s₃ := mem_ends_one.2 ⟨mark, rest₄, rfl, quote, rfl⟩
  have hpath : s₅.closeCapture ∈ (capture (oneOrMore (! isQuote ·))).ends s₄ :=
    mem_ends_capture.2 ⟨s₅, mem_ends_oneOrMore.2 ⟨path, rest₅, rfl, path_ne_nil,
      fun c hc => by simpa using unquoted c hc, rfl⟩, rfl⟩
  have hmark' : s₆ ∈ (one isQuote).ends s₅.closeCapture :=
    mem_ends_one.2 ⟨mark', rest₆, rfl, quote', rfl⟩
  have hmore : s₇ ∈ (zeroOrMore (· != ';')).ends s₆ := by
    refine mem_ends_run.2 ⟨more, rest₇, rfl, fun c hc => ?_, rfl⟩
    rw [bne_iff_ne]
    rintro rfl
    exact unfinished hc
  have hclose : s₇.past ";".toList rest ∈ (exactly ";").ends s₇ := mem_ends_exactly.2 ⟨rest, rfl, rfl⟩
  have chain := mem_ends_seq.2 ⟨s, mem_ends_lineStart.2 ⟨line_start, rfl⟩, hindent⟩
  have chain := mem_ends_seq.2 ⟨s₁, chain, himport⟩
  have chain := mem_ends_seq.2 ⟨s₂, chain, hedge⟩
  have chain := mem_ends_seq.2 ⟨s₂, chain, hwords⟩
  have chain := mem_ends_seq.2 ⟨s₃, chain, hmark⟩
  have chain := mem_ends_seq.2 ⟨s₄, chain, hpath⟩
  have chain := mem_ends_seq.2 ⟨s₅.closeCapture, chain, hmark'⟩
  have chain := mem_ends_seq.2 ⟨s₆, chain, hmore⟩
  exact List.ne_nil_of_mem (mem_ends_seq.2 ⟨s₇, chain, hclose⟩)

theorem Reads.unique {s : Place} {path path' rest rest' : List Char} (h : Reads s path rest)
    (h' : Reads s path' rest') : path = path' ∧ rest = rest' := by
  obtain ⟨indent, words, mark₁, mark₂, more, indented, -, plain, quote₁, quote₂, unfinished, e⟩ :=
    h.written
  obtain ⟨indent', words', mark₁', mark₂', more', indented', -, plain', quote₁', quote₂',
    unfinished', e'⟩ := h'.written
  have free {s : List Char} (h : ∀ c ∈ s, isIndent c = true) : ∀ c ∈ s, (! isIndent c) = false :=
    fun c hc => by rw [h c hc, Bool.not_true]
  rw [e] at e'
  obtain ⟨-, -, e'⟩ := first_cut_unique (free indented) (free indented') (by decide) (by decide) e'
  have e' : "mport".toList ++ (words ++ mark₁ :: _) = "mport".toList ++ (words' ++ mark₁' :: _) := e'
  have e' := List.append_cancel_left e'
  obtain ⟨-, -, e'⟩ := first_cut_unique (fun c hc => (plain c hc).2) (fun c hc => (plain' c hc).2)
    quote₁ quote₁' e'
  obtain ⟨rfl, -, e'⟩ := first_cut_unique h.path_unquoted h'.path_unquoted quote₂ quote₂' e'
  exact ⟨rfl, (eq_of_first_cut unfinished unfinished' e').2⟩

def isNameStart (c : Char) : Bool := c.isAlpha || c == '_' || c == '$'

def isNamePart (c : Char) : Bool := isNameStart c || c.isDigit

structure Identifier where
  first : Char
  more : List Char
  starts : isNameStart first = true
  goes_on : ∀ c ∈ more, isNamePart c = true

def Identifier.chars (n : Identifier) : List Char := n.first :: n.more

/-- What a directive imports from the unit, and under which names. -/
inductive Form where
  | whole
  | wholeAs (name : Identifier)
  | allAs (name : Identifier)
  | symbols (first : Identifier) (more : List Identifier)

namespace Form

def lead : Form → List Char
  | .whole => [' ']
  | .wholeAs _ => [' ']
  | .allAs name => [' ', '*', ' ', 'a', 's', ' '] ++ (name.chars ++ [' ', 'f', 'r', 'o', 'm', ' '])
  | .symbols first more =>
    [' ', '{'] ++ (first.chars ++
      (more.flatMap ([',', ' '] ++ ·.chars) ++ ['}', ' ', 'f', 'r', 'o', 'm', ' ']))

def tail : Form → List Char
  | .wholeAs name => [' ', 'a', 's', ' '] ++ name.chars
  | _ => []

end Form

structure Directive where
  form : Form
  mark : Char
  path : List Char
  mark_quotes : isQuote mark = true
  path_ne_nil : path ≠ []
  path_unquoted : ∀ c ∈ path, isQuote c = false
  path_on_line : '\n' ∉ path

def Directive.text (d : Directive) : List Char :=
  "import".toList ++ (d.form.lead ++ d.mark :: (d.path ++ d.mark :: (d.form.tail ++ [';'])))

theorem Directive.text_eq (d : Directive) : d.text =
    "import".toList ++ (d.form.lead ++ d.mark :: (d.path ++ d.mark :: (d.form.tail ++ [';']))) := rfl

structure Blanks where
  chars : List Char
  blank : ∀ c ∈ chars, isBlank c = true

structure Part where
  gap : Blanks
  directive : Directive

def Part.text (p : Part) : List Char := p.gap.chars ++ p.directive.text

def written (parts : List Part) (tail : Blanks) : List Char := parts.flatMap (·.text) ++ tail.chars

def opensLine (text : List Char) : Bool := (text.reverse.takeWhile (· != '\n')).all isIndent

/-- The paths of those directives that open a line, with `front` before all of them. -/
def seen (front : List Char) : List Part → List (List Char)
  | [] => []
  | part :: rest =>
    let behind := seen (front ++ part.text) rest
    if opensLine (front ++ part.gap.chars) then part.directive.path :: behind else behind

def isPlain (c : Char) : Bool := c != ';' && c != '\n' && ! isQuote c

theorem isPlain_of_isNamePart {c : Char} (h : isNamePart c = true) : isPlain c = true := by
  unfold isPlain isQuote
  simp only [Bool.and_eq_true, bne_iff_ne, Bool.not_eq_true', Bool.or_eq_false_iff,
    beq_eq_false_iff_ne]
  refine ⟨⟨?_, ?_⟩, ?_, ?_⟩ <;> rintro rfl <;> exact absurd h (by decide)

theorem Identifier.plain (n : Identifier) : n.chars.all isPlain = true := by
  rw [List.all_eq_true]
  intro c hc
  obtain rfl | hc := List.mem_cons.1 hc
  · exact isPlain_of_isNamePart (by rw [isNamePart, n.starts, Bool.true_or])
  · exact isPlain_of_isNamePart (n.goes_on c hc)

theorem Form.lead_plain (f : Form) : f.lead.all isPlain = true := by
  cases f with
  | whole => rfl
  | wholeAs name => rfl
  | allAs name =>
    simp only [lead, List.all_append, name.plain, Bool.true_and]
    rfl
  | symbols first more =>
    have names : (more.flatMap ([',', ' '] ++ ·.chars)).all isPlain = true := by
      rw [List.all_flatMap, List.all_eq_true]
      intro name _
      simp only [List.all_append, name.plain, Bool.and_true]
      rfl
    simp only [lead, List.all_append, first.plain, names, Bool.true_and]
    rfl

theorem Form.tail_plain (f : Form) : f.tail.all isPlain = true := by
  cases f with
  | wholeAs name =>
    simp only [tail, List.all_append, name.plain, Bool.and_true]
    rfl
  | _ => rfl

theorem Form.lead_edge (f : Form) (mark : Char) : touchesWord (f.lead ++ [mark]) = false := by
  cases f <;> rfl

theorem of_isPlain {s : List Char} (h : s.all isPlain = true) {c : Char} (hc : c ∈ s) :
    c ≠ ';' ∧ c ≠ '\n' ∧ isQuote c = false := by
  have plain := List.all_eq_true.1 h c hc
  simpa [isPlain, and_assoc] using plain

theorem Directive.length_text_pos (d : Directive) : 0 < d.text.length := by
  rw [Directive.text_eq]
  exact Nat.zero_lt_succ _

theorem newline_not_mem_text (d : Directive) : '\n' ∉ d.text := by
  have mark : '\n' ≠ d.mark := by
    intro same
    have quotes := d.mark_quotes
    rw [← same] at quotes
    exact absurd quotes (by decide)
  have lead : '\n' ∉ d.form.lead := fun hm => (of_isPlain d.form.lead_plain hm).2.1 rfl
  have tail : '\n' ∉ d.form.tail := fun hm => (of_isPlain d.form.tail_plain hm).2.1 rfl
  have keyword : '\n' ∉ "import".toList := by decide
  simp only [Directive.text_eq, List.mem_append, List.mem_cons, List.not_mem_nil, or_false]
  rintro (h | h | h | h | h | h | h)
  · exact keyword h
  · exact lead h
  · exact mark h
  · exact d.path_on_line h
  · exact mark h
  · exact tail h
  · exact absurd h (by decide)

theorem reads_text (d : Directive) {s : Place} {indent rest : List Char}
    (line_start : s.atLineStart = true) (indented : ∀ c ∈ indent, isIndent c = true)
    (h : s.after = indent ++ (d.text ++ rest)) : Reads s d.path rest := by
  refine ⟨line_start, d.path_ne_nil, d.path_unquoted, indent, d.form.lead, d.mark, d.mark,
    d.form.tail, indented, d.form.lead_edge d.mark, ?_, d.mark_quotes, d.mark_quotes, ?_, ?_⟩
  · intro c hc
    have plain := of_isPlain d.form.lead_plain hc
    exact ⟨plain.1, plain.2.2⟩
  · exact fun hm => (of_isPlain d.form.tail_plain hm).1 rfl
  · rw [h, Directive.text_eq]
    simp only [List.append_assoc, List.cons_append, List.nil_append]

theorem isIndent_ne_newline {c : Char} (h : isIndent c = true) : (c != '\n') = true := by
  rw [bne_iff_ne]
  rintro rfl
  exact absurd h (by decide)

theorem opensLine_of_line_start {u : Place} {indent : List Char} (h : u.atLineStart = true)
    (indented : ∀ c ∈ indent, isIndent c = true) :
    opensLine (u.before.reverse ++ indent) = true := by
  have reached : u.before.takeWhile (· != '\n') = [] := by
    unfold atLineStart at h
    cases before : u.before with
    | nil => rfl
    | cons c more =>
      rw [before] at h
      rw [List.takeWhile_cons, eq_of_beq h]
      rfl
  have same_line : ∀ c ∈ indent.reverse, (c != '\n') = true :=
    fun c hc => isIndent_ne_newline (indented c (List.mem_reverse.1 hc))
  rw [opensLine, List.reverse_append, List.reverse_reverse, List.takeWhile_append_of_pos same_line,
    reached, List.append_nil, List.all_reverse, List.all_eq_true]
  exact indented

theorem exists_line_start {v : Place} {gap : List Char}
    (cut : v.before = [] ∨ ∃ more, v.before = ';' :: more)
    (h : opensLine (v.before.reverse ++ gap) = true) :
    ∃ front indent, gap = front ++ indent ∧ (∀ c ∈ indent, isIndent c = true) ∧
      ∀ rest, (v.past front rest).atLineStart = true := by
  rw [opensLine, List.reverse_append, List.reverse_reverse] at h
  obtain free | ⟨a, c, b, cut_gap, hc, free⟩ := free_or_first_cut (· == '\n') gap.reverse
  · have same_line : ∀ c ∈ gap.reverse, (c != '\n') = true := fun c hc => by
      rw [bne, free c hc, Bool.not_false]
    rw [List.takeWhile_append_of_pos same_line, List.all_append, Bool.and_eq_true,
      List.all_reverse, List.all_eq_true] at h
    refine ⟨[], gap, rfl, h.1, fun rest => ?_⟩
    obtain start | ⟨more, semicolon⟩ := cut
    · rw [atLineStart, past_before, start]
      rfl
    · rw [semicolon] at h
      exact absurd h.2 (by simp [isIndent])
  · obtain rfl := eq_of_beq hc
    have same_line : ∀ c ∈ a, (c != '\n') = true := fun c hc => by
      rw [bne, free c hc, Bool.not_false]
    rw [cut_gap, List.append_assoc, List.takeWhile_append_of_pos same_line, List.cons_append,
      List.takeWhile_cons, if_neg (by decide), List.append_nil, List.all_eq_true] at h
    refine ⟨b.reverse ++ ['\n'], a.reverse, ?_, fun c hc => h c (List.mem_reverse.1 hc),
      fun rest => ?_⟩
    · rw [← List.reverse_reverse gap, cut_gap]
      simp
    · rw [atLineStart, past_before, List.reverse_append]
      rfl

theorem isIndent_of_reads {u : Place} {path rest gap more : List Char} (h : Reads u path rest)
    (blank : ∀ c ∈ gap, isBlank c = true) (ha : u.after = gap ++ ("import".toList ++ more)) :
    ∀ c ∈ gap, isIndent c = true := by
  obtain ⟨indent, words, mark, mark', back, indented, -, -, -, -, -, written⟩ := h.written
  rw [ha] at written
  obtain free | ⟨a, c, b, rfl, hc, free⟩ := free_or_first_cut (! isIndent ·) gap
  · exact fun c hc => by simpa using free c hc
  · have indented : ∀ c ∈ indent, (! isIndent c) = false := fun c hc => by simp [indented c hc]
    rw [List.append_assoc, List.cons_append] at written
    have cut : a = indent ∧ c = 'i' ∧ _ :=
      first_cut_unique free indented hc (by decide) written
    have blank := blank c (List.mem_append_right a List.mem_cons_self)
    rw [cut.2.1] at blank
    exact absurd blank (by decide)

variable {text : List Char} {s u v : Place}

theorem reads_of_ends_ne_nil {part : Part} {rest : List Char} (hv : v.IsIn text 0 0)
    (hu : u.IsIn text 0 0) (ha : v.after = part.text ++ rest)
    (front : rest.length < u.after.length) (inside : u.after.length ≤ v.after.length)
    (h : directive.ends u.bare ≠ []) :
    opensLine (v.before.reverse ++ part.gap.chars) = true ∧ Reads u part.directive.path rest := by
  obtain ⟨t, ht⟩ := List.exists_mem_of_ne_nil _ h
  obtain ⟨path, -, reads, -⟩ := reads_of_ends ht
  have line_start : u.atLineStart = true := reads.line_start
  obtain ⟨between, hb⟩ := after_of_isIn hv hu inside
  have before : u.before.reverse = v.before.reverse ++ between := by
    have whole := hv.1.trans hu.1.symm
    rw [hb, ← List.append_assoc] at whole
    exact (List.append_cancel_right whole).symm
  -- what of the gap stands behind `u`
  obtain ⟨indent, gap, after⟩ : ∃ indent, part.gap.chars = between ++ indent ∧
      u.after = indent ++ (part.directive.text ++ rest) := by
    rw [ha, Part.text, List.append_assoc] at hb
    obtain ⟨read, hr, behind⟩ | ⟨indent, gap, behind⟩ := List.append_eq_append_iff.1 hb
    · rw [hr] at before
      obtain rfl | ⟨read, c, rfl⟩ := List.eq_nil_or_concat read
      · exact ⟨[], by rw [hr, List.append_nil, List.append_nil], behind.symm⟩
      -- `u` would stand inside the directive, where no line starts
      · have newline : c = '\n' := by
          have last := congrArg List.reverse before
          rw [List.reverse_reverse] at last
          simpa [atLineStart, last] using line_start
        obtain ⟨more, -, short⟩ | ⟨more, part_read, -⟩ := List.append_eq_append_iff.1 behind
        · rw [short, List.length_append] at front
          omega
        · refine absurd ?_ (newline_not_mem_text part.directive)
          simp [part_read, newline]
    · exact ⟨indent, gap, behind⟩
  have indented : ∀ c ∈ indent, isIndent c = true := by
    have blank : ∀ c ∈ indent, isBlank c = true := fun c hc =>
      part.gap.blank c (by rw [gap]; exact List.mem_append_right between hc)
    have keyword := after
    rw [Directive.text_eq, List.append_assoc] at keyword
    exact isIndent_of_reads reads blank keyword
  have opens := opensLine_of_line_start line_start indented
  rw [before, List.append_assoc, ← gap] at opens
  exact ⟨opens, reads_text part.directive line_start indented after⟩

theorem isIn_past {taken rest : List Char} (hs : s.IsIn text 0 0) (ha : s.after = taken ++ rest) :
    (s.past taken rest).IsIn text 0 0 := by
  have whole := hs.1
  have index := hs.2
  rw [ha] at whole
  constructor
  · rw [past_before, past_after, List.reverse_append, List.reverse_reverse, List.append_assoc, whole]
  · change (taken.reverse ++ s.before).length + 0 = s.index + taken.length + 0
    rw [List.length_append, List.length_reverse]
    omega

/-- Between `s` and the later place `v`, nothing is matched. -/
structure Silent (text : List Char) (s v : Place) : Prop where
  start : s.IsIn text 0 0
  stop : v.IsIn text 0 0
  later : v.after.length ≤ s.after.length
  no_match (u : Place) (hu : u.IsIn text 0 0) (front : v.after.length < u.after.length)
    (behind : u.after.length ≤ s.after.length) : directive.ends u.bare = []

theorem ends_eq_nil_of_blank {gap : List Char} (blank : ∀ c ∈ gap, isBlank c = true)
    (ha : u.after = gap) : directive.ends u.bare = [] := by
  refine List.eq_nil_iff_forall_not_mem.2 fun t ht => ?_
  obtain ⟨path, -, reads, -⟩ := reads_of_ends ht
  obtain ⟨indent, words, mark, mark', more, -, -, -, -, -, -, written⟩ := reads.written
  have letter : 'i' ∈ gap := by
    rw [← ha]
    change 'i' ∈ u.bare.after
    rw [written]
    simp
  exact absurd (blank 'i' letter) (by decide)

theorem Silent.hitsFrom_eq_nil {tail : Blanks} (h : Silent text s v) (ha : v.after = tail.chars) :
    directive.hitsFrom s = [] := by
  rw [hitsFrom_eq_nil_iff]
  cases found : directive.searchFrom? s with
  | none => rfl
  | some hit =>
    have first := leftmost_of_searchFrom? h.start found
    have silent : directive.ends hit.start.bare = [] := by
      by_cases front : v.after.length < hit.start.after.length
      · exact h.no_match hit.start first.start_isIn front first.start_behind
      · obtain ⟨between, hb⟩ := after_of_isIn h.stop first.start_isIn (Nat.not_lt.1 front)
        refine ends_eq_nil_of_blank (fun c hc => tail.blank c ?_) rfl
        rw [← ha, hb]
        exact List.mem_append_right between hc
    have ends := first.ends_there
    rw [silent] at ends
    cases ends

theorem exists_hit {part : Part} {rest : List Char} (h : Silent text s v)
    (cut : v.before = [] ∨ ∃ more, v.before = ';' :: more) (ha : v.after = part.text ++ rest)
    (opens : opensLine (v.before.reverse ++ part.gap.chars) = true) :
    ∃ hit, directive.searchFrom? s = some hit ∧ hit.text = part.directive.path ∧
      hit.finish.IsIn text 0 0 ∧ hit.finish.after = rest := by
  obtain ⟨front, indent, gap, indented, line_start⟩ := exists_line_start cut opens
  let behind := indent ++ (part.directive.text ++ rest)
  have line : v.after = front ++ behind := by
    rw [ha, Part.text, gap, List.append_assoc, List.append_assoc]
  let u := v.past front behind
  have matched : directive.ends u.bare ≠ [] := by
    have at_start : u.bare.atLineStart = true := line_start behind
    exact ends_ne_nil_of_reads (reads_text part.directive at_start indented rfl)
  have lengths := congrArg List.length line
  have text_pos := part.directive.length_text_pos
  have later := h.later
  simp only [behind, List.length_append] at lengths
  have below : u.after.length ≤ s.after.length := by
    simp only [u, behind, past_after, List.length_append]
    omega
  obtain ⟨hit, found, first, reached⟩ :=
    searchFrom?_of_ends h.start (isIn_past h.stop line) below matched
  -- the match at `u` is there, but a search could stop earlier; in front of `v` it finds none
  have inside : hit.start.after.length ≤ v.after.length := by
    refine Nat.not_lt.1 fun before => ?_
    have ends := first.ends_there
    rw [h.no_match hit.start first.start_isIn before first.start_behind] at ends
    cases ends
  have ahead : rest.length < hit.start.after.length := by
    simp only [past_after, behind, List.length_append] at reached
    omega
  have reads := (reads_of_ends_ne_nil h.stop first.start_isIn ha ahead inside
    (List.ne_nil_of_mem first.ends_there)).2
  obtain ⟨path, back, reads', captured⟩ := reads_of_ends first.ends_there
  obtain ⟨rfl, finish⟩ := reads'.unique (reads_bare reads)
  refine ⟨hit, found, ?_, first.finish_isIn, finish⟩
  rw [Hit.text, captured]
  simp [Span.chars]

/-- The parts still to be read begin at `v`. A part that is passed over moves `v` on, while the search
still starts from `s`. -/
theorem texts_hitsFrom (parts : List Part) (tail : Blanks) (h : Silent text s v)
    (cut : v.before = [] ∨ ∃ more, v.before = ';' :: more) (ha : v.after = written parts tail) :
    (directive.hitsFrom s).map Hit.text = seen v.before.reverse parts := by
  induction parts generalizing s v with
  | nil =>
    rw [h.hitsFrom_eq_nil ha]
    rfl
  | cons part parts ih =>
    let rest := written parts tail
    have ha : v.after = part.text ++ rest := by
      rw [ha, written, List.flatMap_cons, List.append_assoc]
      rfl
    let v' := v.past part.text rest
    have hv' : v'.IsIn text 0 0 := isIn_past h.stop ha
    have cut' : ∃ more, v'.before = ';' :: more := by
      rw [past_before, Part.text, Directive.text_eq]
      simp
    have front' : v'.before.reverse = v.before.reverse ++ part.text := by
      rw [past_before, List.reverse_append, List.reverse_reverse]
    have later := h.later
    have shorter : rest.length < v.after.length := by
      have text_pos := part.directive.length_text_pos
      rw [ha, Part.text, List.length_append, List.length_append]
      omega
    by_cases opens : opensLine (v.before.reverse ++ part.gap.chars) = true
    · obtain ⟨hit, found, path, hf, finish⟩ := exists_hit h cut ha opens
      have silent : Silent text hit.finish v' := by
        have same : v'.after.length = hit.finish.after.length := by rw [finish, past_after]
        exact ⟨hf, hv', Nat.le_of_eq same, fun u hu front behind => by omega⟩
      have taken : hit.finish.after.length < s.after.length := by
        rw [finish]
        omega
      rw [hitsFrom_eq_cons found taken, List.map_cons, path, ih silent (.inr cut') rfl, front', seen,
        if_pos opens]
    · have silent : Silent text s v' := by
        refine ⟨h.start, hv', by rw [past_after]; omega, fun u hu front behind => ?_⟩
        by_cases before : v.after.length < u.after.length
        · exact h.no_match u hu before behind
        · refine Decidable.byContradiction fun found => ?_
          exact opens (reads_of_ends_ne_nil h.stop hu ha front (Nat.not_lt.1 before) found).1
      rw [ih silent (.inr cut') rfl, front', seen, if_neg opens]

theorem length_seen_le (front : List Char) (parts : List Part) :
    (seen front parts).length ≤ parts.length := by
  induction parts generalizing front with
  | nil => exact Nat.le_refl 0
  | cons part rest ih =>
    have fewer := ih (front ++ part.text)
    rw [seen]
    split
    · exact Nat.succ_le_succ fewer
    · exact Nat.le_succ_of_le fewer

theorem seen_eq_paths_iff (front : List Char) (parts : List Part) :
    seen front parts = parts.map (·.directive.path) ↔ ∀ before part behind,
      parts = before ++ part :: behind →
      opensLine (front ++ (before.flatMap (·.text) ++ part.gap.chars)) = true := by
  induction parts generalizing front with
  | nil => simp [seen]
  | cons first rest ih =>
    by_cases opens : opensLine (front ++ first.gap.chars) = true
    · rw [seen, if_pos opens, List.map_cons, List.cons.injEq, eq_self, true_and, ih]
      constructor
      · intro all before part behind same
        cases before with
        | nil =>
          obtain ⟨rfl, -⟩ := List.cons.inj same
          exact opens
        | cons other before =>
          obtain ⟨rfl, rfl⟩ := List.cons.inj same
          have later := all before part behind rfl
          rwa [List.append_assoc, ← List.append_assoc first.text] at later
      · intro all before part behind same
        have later := all (first :: before) part behind (congrArg (first :: ·) same)
        rwa [List.flatMap_cons, List.append_assoc, ← List.append_assoc front] at later
    · constructor
      · intro same
        have fewer := length_seen_le (front ++ first.text) rest
        have length := congrArg List.length same
        rw [seen, if_neg opens, List.length_map, List.length_cons] at length
        omega
      · exact fun all => absurd (all [] first rest rfl) opens

/-- Of directives in a row, exactly those are seen that open a line, in the order in which they
stand; so all of them are seen only if each opens a line. -/
theorem paths_written (parts : List Part) (tail : Blanks) :
    paths (String.ofList (written parts tail)) = (seen [] parts).map String.ofList ∧
    (paths (String.ofList (written parts tail)) =
        parts.map (fun part => String.ofList part.directive.path) ↔
      ∀ before part behind, parts = before ++ part :: behind →
        opensLine (before.flatMap (·.text) ++ part.gap.chars) = true) := by
  have from_start : Silent (written parts tail) (start _) (start (written parts tail)) :=
    ⟨isIn_start _, isIn_start _, Nat.le_refl _, fun u hu front behind => by omega⟩
  have texts : (directive.hits (written parts tail)).map Hit.text = seen [] parts :=
    texts_hitsFrom parts tail from_start (.inl rfl) rfl
  have found : paths (String.ofList (written parts tail)) = (seen [] parts).map String.ofList := by
    rw [paths, String.toList_ofList, ← texts, List.map_map]
    rfl
  refine ⟨found, ?_⟩
  have injective (a b : List Char) (h : String.ofList a = String.ofList b) : a = b := by
    simpa using congrArg String.toList h
  have written_paths : parts.map (fun part => String.ofList part.directive.path) =
      (parts.map (·.directive.path)).map String.ofList := by
    rw [List.map_map]
    rfl
  rw [found, written_paths, List.map_inj_right injective]
  exact seen_eq_paths_iff [] parts

theorem paths_written_beside :
    paths "import \"./A.sol\"; import \"./B.sol\";" = ["./A.sol"] := by
  let directive (path : List Char) (some_path : path ≠ []) (free : ∀ c ∈ path, isQuote c = false)
      (on_line : '\n' ∉ path) : Directive := ⟨.whole, '"', path, by decide, some_path, free, on_line⟩
  let first := directive ['.', '/', 'A', '.', 's', 'o', 'l'] (by simp) (by simp [isQuote]) (by simp)
  let second := directive ['.', '/', 'B', '.', 's', 'o', 'l'] (by simp) (by simp [isQuote]) (by simp)
  let beside : Blanks := ⟨[' '], List.forall_mem_singleton.2 (by decide)⟩
  let none : Blanks := ⟨[], List.forall_mem_nil _⟩
  exact (paths_written [⟨none, first⟩, ⟨beside, second⟩] none).1

end SolidityVetting.Import
