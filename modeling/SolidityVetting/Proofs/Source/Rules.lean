import SolidityVetting.Proofs.Pattern.Search
import SolidityVetting.Proofs.Report
import SolidityVetting.SourceScan

set_option autoImplicit false

namespace SolidityVetting.SourceScan

def ofRules (text : List Char) : Report :=
  overText (overLines { subject := .source } 1 (Text.lines text)) text

/-- A rule tried at one place, and the finding if it matches there. -/
structure Attempt where
  rule : Rule
  found : Option Finding

def Attempt.onLine (line : List Char) (number : Nat) (rule : Rule) : Attempt :=
  ⟨rule, (rule.linePattern.search? line).map fun hit => (rule.finding hit).atLine number⟩

def Attempt.onText (text : List Char) (rule : Rule) : Attempt :=
  ⟨rule, (rule.wholePattern.search? text).map fun hit => (rule.finding hit).atLine hit.line⟩

def record (r : Report) (a : Attempt) : Report :=
  if r.hasCode a.rule.code then r
  else match a.found with
    | some f => r.push f
    | none => r

def attemptsFrom (number : Nat) : List (List Char) → List Attempt
  | [] => []
  | line :: rest => Rule.table.map (.onLine line number) ++ attemptsFrom (number + 1) rest

def attempts (text : List Char) : List Attempt :=
  attemptsFrom 1 (Text.lines text) ++ Rule.table.map (.onText text)

-- stated apart, since unfolding by equations evaluates the table
theorem overLines_cons (r : Report) (number : Nat) (line : List Char) (rest : List (List Char)) :
    overLines r number (line :: rest) =
      overLines (Rule.table.foldl (tryOnLine line number) r) (number + 1) rest := by
  delta overLines
  rfl

theorem attemptsFrom_cons (number : Nat) (line : List Char) (rest : List (List Char)) :
    attemptsFrom number (line :: rest) =
      Rule.table.map (.onLine line number) ++ attemptsFrom (number + 1) rest := by
  delta attemptsFrom
  rfl

theorem attempts_eq (text : List Char) : attempts text =
    attemptsFrom 1 (Text.lines text) ++ Rule.table.map (.onText text) := rfl

theorem tryOnLine_eq (line : List Char) (number : Nat) (r : Report) (rule : Rule) :
    tryOnLine line number r rule = record r (.onLine line number rule) := by
  unfold tryOnLine record Attempt.onLine
  cases rule.linePattern.search? line <;> rfl

theorem tryOnText_eq (text : List Char) (r : Report) (rule : Rule) :
    tryOnText text r rule = record r (.onText text rule) := by
  unfold tryOnText record Attempt.onText
  cases rule.wholePattern.search? text <;> rfl

theorem foldl_tryOnLine (line : List Char) (number : Nat) (rules : List Rule) (r : Report) :
    rules.foldl (tryOnLine line number) r =
      (rules.map (.onLine line number)).foldl record r := by
  induction rules generalizing r with
  | nil => rfl
  | cons rule rest ih => rw [List.foldl_cons, List.map_cons, List.foldl_cons, tryOnLine_eq, ih]

theorem foldl_tryOnText (text : List Char) (rules : List Rule) (r : Report) :
    rules.foldl (tryOnText text) r = (rules.map (.onText text)).foldl record r := by
  induction rules generalizing r with
  | nil => rfl
  | cons rule rest ih => rw [List.foldl_cons, List.map_cons, List.foldl_cons, tryOnText_eq, ih]

theorem overLines_eq (r : Report) (number : Nat) (lines : List (List Char)) :
    overLines r number lines = (attemptsFrom number lines).foldl record r := by
  induction lines generalizing r number with
  | nil => rfl
  | cons line rest ih =>
    rw [overLines_cons, attemptsFrom_cons, ih, foldl_tryOnLine, List.foldl_append]

theorem ofRules_eq (text : List Char) :
    ofRules text = (attempts text).foldl record { subject := .source } := by
  rw [attempts_eq, List.foldl_append, ← overLines_eq, ← foldl_tryOnText]
  rfl

theorem mem_attemptsFrom {number : Nat} {lines : List (List Char)} {a : Attempt}
    (h : a ∈ attemptsFrom number lines) :
    ∃ line ∈ lines, ∃ n, ∃ rule ∈ Rule.table, a = .onLine line n rule := by
  induction lines generalizing number with
  | nil => cases h
  | cons line rest ih =>
    obtain h | h := List.mem_append.1 h
    · obtain ⟨rule, hr, rfl⟩ := List.mem_map.1 h
      exact ⟨line, List.mem_cons_self, number, rule, hr, rfl⟩
    · obtain ⟨other, ho, found⟩ := ih h
      exact ⟨other, List.mem_cons_of_mem line ho, found⟩

theorem mem_attemptsFrom_of_mem (number : Nat) {lines : List (List Char)} {line : List Char}
    (hl : line ∈ lines) {rule : Rule} (hr : rule ∈ Rule.table) :
    ∃ n, .onLine line n rule ∈ attemptsFrom number lines := by
  induction lines generalizing number with
  | nil => cases hl
  | cons other rest ih =>
    obtain rfl | hl := List.mem_cons.1 hl
    · exact ⟨number, List.mem_append_left _ (List.mem_map_of_mem hr)⟩
    · obtain ⟨n, hn⟩ := ih (number + 1) hl
      exact ⟨n, List.mem_append_right _ hn⟩

structure Attempt.Sound (a : Attempt) : Prop where
  rule_mem : a.rule ∈ Rule.table
  code : ∀ f ∈ a.found, f.code = a.rule.code
  severity : ∀ f ∈ a.found, f.severity = a.rule.severity

theorem sound_onLine (line : List Char) (number : Nat) {rule : Rule} (h : rule ∈ Rule.table) :
    (Attempt.onLine line number rule).Sound := by
  refine ⟨h, ?_, ?_⟩
  · intro f hf
    obtain ⟨hit, -, rfl⟩ := Option.map_eq_some_iff.1 hf
    rfl
  · intro f hf
    obtain ⟨hit, -, rfl⟩ := Option.map_eq_some_iff.1 hf
    rfl

theorem sound_onText (text : List Char) {rule : Rule} (h : rule ∈ Rule.table) :
    (Attempt.onText text rule).Sound := by
  refine ⟨h, ?_, ?_⟩
  · intro f hf
    obtain ⟨hit, -, rfl⟩ := Option.map_eq_some_iff.1 hf
    rfl
  · intro f hf
    obtain ⟨hit, -, rfl⟩ := Option.map_eq_some_iff.1 hf
    rfl

theorem sound_of_mem_attempts {text : List Char} {a : Attempt} (h : a ∈ attempts text) :
    a.Sound := by
  obtain h | h := List.mem_append.1 h
  · obtain ⟨line, -, n, rule, hr, rfl⟩ := mem_attemptsFrom h
    exact sound_onLine line n hr
  · obtain ⟨rule, hr, rfl⟩ := List.mem_map.1 h
    exact sound_onText text hr

theorem severity_of_code {rule other : Rule} (h : rule ∈ Rule.table) (g : other ∈ Rule.table)
    (hc : rule.code = other.code) : rule.severity = other.severity := by
  have all : ∀ c ∈ Rule.table.map (fun r => (r.code, r.severity)),
      ∀ d ∈ Rule.table.map (fun r => (r.code, r.severity)), c.1 = d.1 → c.2 = d.2 := by decide
  exact all _ (List.mem_map_of_mem h) _ (List.mem_map_of_mem g) hc

def FromTable (r : Report) : Prop :=
  ∀ f ∈ r.findings, (∃ rule ∈ Rule.table, rule.code = f.code ∧ rule.severity = f.severity) ∧
    (f.severity = .critical → f ∈ r.critical)

theorem fromTable_record {r : Report} {a : Attempt} (h : FromTable r) (ha : a.Sound) :
    FromTable (record r a) := by
  unfold record
  split
  · exact h
  split
  · next f hf =>
    intro g hg
    obtain hg | rfl := (Report.mem_findings_push r f g).1 hg
    · refine ⟨(h g hg).1, fun hc => ?_⟩
      rw [Report.critical_push]
      exact List.mem_append_left _ ((h g hg).2 hc)
    · refine ⟨⟨a.rule, ha.rule_mem, (ha.code g hf).symm, (ha.severity g hf).symm⟩, ?_⟩
      intro hc
      rw [Report.critical_push]
      exact List.mem_append_right _ (by simp [Report.ofSeverity, hc])
  · exact h

theorem passed_record_iff {r : Report} {a : Attempt} (h : FromTable r) (ha : a.Sound) :
    (record r a).passed = true ↔
      r.passed = true ∧ (a.rule.severity = .critical → a.found = none) := by
  rw [Report.passed_iff, Report.passed_iff]
  unfold record
  split
  · next known =>
    -- a reported code of a critical rule is that of a critical finding
    refine ⟨fun clean => ⟨clean, fun hc => ?_⟩, And.left⟩
    obtain ⟨f, hf, code⟩ := (Report.hasCode_iff r _).1 known
    obtain ⟨⟨rule, hr, hcode, hseverity⟩, listed⟩ := h f hf
    have same := severity_of_code hr ha.rule_mem (hcode.trans code)
    have bad := listed (by rw [← hseverity, same, hc])
    rw [clean] at bad
    cases bad
  split
  · next f hf =>
    have severity := ha.severity f hf
    rw [Report.critical_push, List.append_eq_nil_iff]
    apply and_congr_right
    intro _
    rw [hf, ← severity]
    simp [Report.ofSeverity]
  · next hf => simp [hf]

theorem passed_foldl_record_iff {as : List Attempt} {r : Report} (h : FromTable r)
    (ha : ∀ a ∈ as, a.Sound) : (as.foldl record r).passed = true ↔
      r.passed = true ∧ ∀ a ∈ as, a.rule.severity = .critical → a.found = none := by
  induction as generalizing r with
  | nil => simp
  | cons a rest ih =>
    have sound := ha a List.mem_cons_self
    rw [List.foldl_cons, ih (fromTable_record h sound) fun b hb => ha b (List.mem_cons_of_mem a hb),
      passed_record_iff h sound, List.forall_mem_cons, and_assoc]

/-- The rules find nothing critical exactly if no critical one matches a line or the whole text. -/
theorem passed_ofRules_iff (text : List Char) : (ofRules text).passed = true ↔
    ∀ rule ∈ Rule.table, rule.severity = .critical →
      (∀ line ∈ Text.lines text, rule.linePattern.search? line = none) ∧
        rule.wholePattern.search? text = none := by
  have empty : FromTable { subject := .source } := fun f hf => absurd hf List.not_mem_nil
  rw [ofRules_eq, passed_foldl_record_iff empty fun a ha => sound_of_mem_attempts ha]
  constructor
  · rintro ⟨-, none⟩ rule hr hc
    refine ⟨fun line hl => ?_, ?_⟩
    · obtain ⟨n, hn⟩ := mem_attemptsFrom_of_mem 1 hl hr
      exact Option.map_eq_none_iff.1 (none _ (List.mem_append_left _ hn) hc)
    · have whole := List.mem_append_right (attemptsFrom 1 (Text.lines text))
        (List.mem_map_of_mem (f := Attempt.onText text) hr)
      exact Option.map_eq_none_iff.1 (none _ whole hc)
  · intro none
    refine ⟨rfl, ?_⟩
    intro a ha hc
    obtain ha | ha := List.mem_append.1 ha
    · obtain ⟨line, hl, n, rule, hr, rfl⟩ := mem_attemptsFrom ha
      exact Option.map_eq_none_iff.2 ((none rule hr hc).1 line hl)
    · obtain ⟨rule, hr, rfl⟩ := List.mem_map.1 ha
      exact Option.map_eq_none_iff.2 (none rule hr hc).2

def isClean (text : List Char) : Bool :=
  Rule.table.all fun rule => rule.severity != .critical ||
    (Text.lines text).all rule.linePattern.isAbsentFrom && rule.wholePattern.isAbsentFrom text

theorem passed_ofRules_of_isClean {text : List Char} (h : isClean text = true) :
    (ofRules text).passed = true := by
  rw [passed_ofRules_iff]
  intro rule hr hc
  have each := List.all_eq_true.1 h rule hr
  rw [hc] at each
  obtain ⟨lines, whole⟩ := Bool.and_eq_true_iff.1 each
  refine ⟨fun line hl => ?_, Pattern.search?_eq_none_of_isAbsentFrom whole⟩
  exact Pattern.search?_eq_none_of_isAbsentFrom (List.all_eq_true.1 lines line hl)

end SolidityVetting.SourceScan
