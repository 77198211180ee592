import SolidityVetting.Proofs.Source.Codes

set_option autoImplicit false

namespace SolidityVetting.SourceScan
open Pattern Rule

def kept (reported : List String) : List Attempt → List Finding
  | [] => []
  | a :: rest =>
    if a.rule.code ∈ reported then kept reported rest
    else match a.found with
      | none => kept reported rest
      | some f => f :: kept (a.rule.code :: reported) rest

section
variable {as : List Attempt} {reported : List String}

theorem foldl_record_eq (sound : ∀ a ∈ as, a.Sound) {r : Report}
    (h : ∀ code, r.hasCode code = true ↔ code ∈ reported) :
    as.foldl record r = r.pushAll (kept reported as) := by
  fun_induction kept reported as generalizing r with
  | case1 => rfl
  | case2 reported a rest known ih =>
    rw [List.foldl_cons, record, if_pos ((h _).2 known)]
    exact ih (List.forall_mem_cons.1 sound).2 h
  | case3 reported a rest new absent ih =>
    rw [List.foldl_cons, record, if_neg fun e => new ((h _).1 e), absent]
    exact ih (List.forall_mem_cons.1 sound).2 h
  | case4 reported a rest new f found ih =>
    have ⟨here, later⟩ := List.forall_mem_cons.1 sound
    rw [List.foldl_cons, record, if_neg fun e => new ((h _).1 e), found]
    apply ih later
    intro code
    rw [hasCode_push, h, here.code f found, List.mem_cons, or_comm, eq_comm]

/-- A kept finding is what the first attempt that finds anything finds under its code. -/
theorem mem_kept_iff (sound : ∀ a ∈ as, a.Sound) (f : Finding) : f ∈ kept reported as ↔
    f.code ∉ reported ∧ (as.filter (·.rule.code == f.code)).findSome? (·.found) = some f := by
  fun_induction kept reported as with
  | case1 => simp
  | case2 reported a rest known ih =>
    rw [ih (List.forall_mem_cons.1 sound).2, List.filter_cons]
    refine and_congr_right fun new => ?_
    have other : ¬ (a.rule.code == f.code) = true := fun same => new (eq_of_beq same ▸ known)
    rw [if_neg other]
  | case3 reported a rest new absent ih =>
    rw [ih (List.forall_mem_cons.1 sound).2, List.filter_cons]
    split <;> simp [absent]
  | case4 reported a rest new g found ih =>
    have ⟨here, later⟩ := List.forall_mem_cons.1 sound
    rw [List.mem_cons, ih later, List.filter_cons]
    by_cases same : a.rule.code = f.code
    · simp [same, found, same ▸ new, eq_comm]
    · have other : f ≠ g := fun e => same (e ▸ (here.code g found).symm)
      simp [same, Ne.symm same, other]

theorem nodup_kept (sound : ∀ a ∈ as, a.Sound) : ((kept reported as).map (·.code)).Nodup := by
  fun_induction kept reported as with
  | case1 => exact List.nodup_nil
  | case2 reported a rest known ih => exact ih (List.forall_mem_cons.1 sound).2
  | case3 reported a rest new absent ih => exact ih (List.forall_mem_cons.1 sound).2
  | case4 reported a rest new f found ih =>
    have ⟨here, later⟩ := List.forall_mem_cons.1 sound
    rw [List.map_cons, List.nodup_cons]
    refine ⟨fun mem => ?_, ih later⟩
    have ⟨g, hg, same⟩ := List.mem_map.1 mem
    have fresh := ((mem_kept_iff later g).1 hg).1
    rw [same, here.code f found] at fresh
    exact fresh List.mem_cons_self

theorem kept_append (sound : ∀ a ∈ as, a.Sound) (bs : List Attempt) : kept reported (as ++ bs) =
    kept reported as ++ kept (((kept reported as).map (·.code)).reverse ++ reported) bs := by
  fun_induction kept reported as with
  | case1 => rfl
  | case2 reported a rest known ih =>
    rw [List.cons_append, kept, if_pos known]
    exact ih (List.forall_mem_cons.1 sound).2
  | case3 reported a rest new absent ih =>
    rw [List.cons_append, kept, if_neg new, absent]
    exact ih (List.forall_mem_cons.1 sound).2
  | case4 reported a rest new f found ih =>
    have ⟨here, later⟩ := List.forall_mem_cons.1 sound
    rw [List.cons_append, kept, if_neg new, found]
    simp [ih later, here.code f found]

theorem kept_sublist : (kept reported as).Sublist (as.filterMap (·.found)) := by
  fun_induction kept reported as with
  | case1 => exact List.Sublist.refl []
  | case2 reported a rest known ih =>
    rw [List.filterMap_cons]
    cases a.found with
    | none => exact ih
    | some f => exact ih.cons f
  | case3 reported a rest new absent ih =>
    rw [List.filterMap_cons, absent]
    exact ih
  | case4 reported a rest new f found ih =>
    rw [List.filterMap_cons, found]
    exact ih.cons_cons f

theorem kept_eq_filterMap (distinct : (as.map (·.rule.code)).Nodup) :
    kept reported as = (as.filter fun a => decide (a.rule.code ∉ reported)).filterMap (·.found) := by
  fun_induction kept reported as with
  | case1 => rfl
  | case2 reported a rest known ih => simp [known, ih (List.nodup_cons.1 distinct).2]
  | case3 reported a rest new absent ih =>
    simp [new, absent, ih (List.nodup_cons.1 distinct).2]
  | case4 reported a rest new f found ih =>
    obtain ⟨alone, distinct⟩ := List.nodup_cons.1 distinct
    have others : (rest.filter fun b => decide (b.rule.code ∉ a.rule.code :: reported)) =
        rest.filter fun b => decide (b.rule.code ∉ reported) := by
      refine List.filter_congr fun b hb => ?_
      have other : b.rule.code ≠ a.rule.code := fun same =>
        alone (List.mem_map.2 ⟨b, hb, same⟩)
      simp [other]
    rw [ih distinct, others, List.filter_cons_of_pos (by simpa using new),
      List.filterMap_cons_some found]

end

/-- What the rule finds on the first line that its pattern for lines matches. -/
def OnLine (rule : Rule) (text : List Char) (f : Finding) : Prop :=
  ∃ front line back hit, Text.lines text = front ++ line :: back ∧
    (∀ other ∈ front, rule.linePattern.occursIn other = false) ∧
    rule.linePattern.search? line = some hit ∧ f = (rule.finding hit).atLine (front.length + 1)

/-- What the rule finds in the text as a whole, if its pattern for lines matches no line; its line is
that on which the leftmost match starts. -/
def OnText (rule : Rule) (text : List Char) (f : Finding) : Prop :=
  (∀ line ∈ Text.lines text, rule.linePattern.occursIn line = false) ∧
    ∃ hit, rule.wholePattern.search? text = some hit ∧
      Leftmost rule.wholePattern text 0 0 (.start text) hit ∧
      f = (rule.finding hit).atLine (hit.start.before.count '\n' + 1)

section
variable {rule : Rule} {text : List Char}

theorem filter_eq_singleton {α : Type} {code : α → String} {xs : List α} {a : α}
    (distinct : (xs.map code).Nodup) (h : a ∈ xs) : xs.filter (code · == code a) = [a] := by
  induction xs with
  | nil => cases h
  | cons first rest ih =>
    rw [List.map_cons, List.nodup_cons] at distinct
    rw [List.filter_cons]
    rcases List.mem_cons.1 h with rfl | h
    · rw [if_pos (beq_self_eq_true _), List.filter_eq_nil_iff.2]
      intro other ho same
      exact distinct.1 (eq_of_beq same ▸ List.mem_map_of_mem ho)
    · have other : ¬ (code first == code a) = true := fun same =>
        distinct.1 (eq_of_beq same ▸ List.mem_map_of_mem h)
      rw [if_neg other]
      exact ih distinct.2 h

theorem filter_attempts (h : rule ∈ table) (attempt : Rule → Attempt)
    (own : ∀ r, (attempt r).rule = r) :
    (table.map attempt).filter (·.rule.code == rule.code) = [attempt rule] := by
  have codes : ((·.rule.code == rule.code) : Attempt → Bool) ∘ attempt =
      (·.code == rule.code) := by
    funext r
    simp [own]
  have distinct : (table.map (·.code)).Nodup := by decide
  rw [List.filter_map, codes, filter_eq_singleton distinct h]
  rfl

theorem occursIn_eq_false_iff {p : Pattern} {line : List Char} :
    p.occursIn line = false ↔ p.search? line = none := by
  simp [occursIn]

theorem attemptsFrom_eq (number : Nat) (lines : List (List Char)) : attemptsFrom number lines =
    (lines.zipIdx number).flatMap fun numbered => table.map (.onLine numbered.1 numbered.2) := by
  induction lines generalizing number with
  | nil => rfl
  | cons line rest ih => rw [attemptsFrom_cons, List.zipIdx_cons, List.flatMap_cons, ih]

theorem filter_attemptsFrom (h : rule ∈ table) (number : Nat) (lines : List (List Char)) :
    (attemptsFrom number lines).filter (·.rule.code == rule.code) =
      (lines.zipIdx number).map fun numbered => .onLine numbered.1 numbered.2 rule := by
  induction lines generalizing number with
  | nil => rfl
  | cons line rest ih =>
    rw [attemptsFrom_cons, List.filter_append, filter_attempts h _ fun _ => rfl, ih]
    rfl

theorem findSome?_attemptsFrom (h : rule ∈ table) (f : Finding) :
    ((attemptsFrom 1 (Text.lines text)).filter (·.rule.code == rule.code)).findSome? (·.found) =
      some f ↔ OnLine rule text f := by
  rw [filter_attemptsFrom h, List.findSome?_map, List.findSome?_eq_some_iff]
  constructor
  · intro ⟨before, ⟨line, number⟩, behind, split, found, clear⟩
    have ⟨front, rest, whole, numbered, later⟩ := List.zipIdx_eq_append_iff.1 split
    have ⟨_, back, cut, here, _⟩ := List.zipIdx_eq_cons_iff.1 later.symm
    have ⟨hit, hs, hf⟩ := Option.map_eq_some_iff.1 found
    cases here
    refine ⟨front, line, back, hit, by rw [whole, cut], ?_, hs, by rw [← hf, Nat.add_comm]⟩
    intro other ho
    rw [← List.zipIdx_map_fst 1 front, ← numbered] at ho
    have ⟨pair, hp, same⟩ := List.mem_map.1 ho
    exact occursIn_eq_false_iff.2 (same ▸ Option.map_eq_none_iff.1 (clear pair hp))
  · intro ⟨front, line, back, hit, whole, clear, hs, hf⟩
    refine ⟨front.zipIdx 1, (line, front.length + 1), back.zipIdx (front.length + 2), ?_, ?_, ?_⟩
    · rw [whole, List.zipIdx_append, List.zipIdx_cons, Nat.add_comm 1]
    · simp [Attempt.onLine, hs, hf]
    · intro pair hp
      have none := occursIn_eq_false_iff.1 (clear pair.1 (List.fst_mem_of_mem_zipIdx hp))
      simp [Attempt.onLine, none]

theorem findSome?_onText (h : rule ∈ table) (f : Finding) :
    ((table.map (Attempt.onText text)).filter (·.rule.code == rule.code)).findSome? (·.found) = some f ↔
      ∃ hit, rule.wholePattern.search? text = some hit ∧
        Leftmost rule.wholePattern text 0 0 (.start text) hit ∧
        f = (rule.finding hit).atLine (hit.start.before.count '\n' + 1) := by
  rw [filter_attempts h _ fun _ => rfl, List.findSome?_singleton]
  constructor
  · intro found
    have ⟨hit, hs, hf⟩ := Option.map_eq_some_iff.1 found
    exact ⟨hit, hs, leftmost_of_searchFrom? (Place.isIn_start text) hs, hf.symm⟩
  · intro ⟨hit, hs, _, hf⟩
    exact Option.map_eq_some_iff.2 ⟨hit, hs, hf.symm⟩

end

def ofLines (text : List Char) : List Finding := kept [] (attemptsFrom 1 (Text.lines text))

def ofWhole (text : List Char) : List Finding :=
  kept ((ofLines text).map (·.code)).reverse (table.map (Attempt.onText text))

section
variable {rule : Rule} {text : List Char} {f : Finding}

theorem sound_attemptsFrom (text : List Char) :
    ∀ a ∈ attemptsFrom 1 (Text.lines text), a.Sound :=
  fun _ ha => sound_of_mem_attempts (List.mem_append_left _ ha)

theorem sound_map_onText (text : List Char) : ∀ a ∈ table.map (Attempt.onText text), a.Sound :=
  fun _ ha => sound_of_mem_attempts (List.mem_append_right _ ha)

theorem kept_attempts (text : List Char) :
    kept [] (attempts text) = ofLines text ++ ofWhole text := by
  rw [attempts_eq, kept_append (sound_attemptsFrom text), List.append_nil]
  rfl

theorem ofRules_eq_ofFindings (text : List Char) :
    ofRules text = .ofFindings .source (ofLines text ++ ofWhole text) := by
  have empty (code : String) : Report.hasCode { subject := .source } code = true ↔ code ∈ [] := by
    simp [Report.hasCode, Report.findings]
  have sound : ∀ a ∈ attempts text, a.Sound := fun a ha => sound_of_mem_attempts ha
  rw [ofRules_eq, foldl_record_eq sound empty, kept_attempts]
  rfl

theorem OnLine.code (h : OnLine rule text f) : f.code = rule.code := by
  have ⟨_, _, _, _, _, _, _, hf⟩ := h
  rw [hf]
  rfl

theorem OnLine.severity (h : OnLine rule text f) : f.severity = rule.severity := by
  have ⟨_, _, _, _, _, _, _, hf⟩ := h
  rw [hf]
  rfl

theorem OnText.code (h : OnText rule text f) : f.code = rule.code := by
  have ⟨_, _, _, _, hf⟩ := h
  rw [hf]
  rfl

theorem OnText.severity (h : OnText rule text f) : f.severity = rule.severity := by
  have ⟨_, _, _, _, hf⟩ := h
  rw [hf]
  rfl

theorem mem_ofLines_iff (h : rule ∈ table) (code : f.code = rule.code) :
    f ∈ ofLines text ↔ OnLine rule text f := by
  rw [ofLines, mem_kept_iff (sound_attemptsFrom text), code, findSome?_attemptsFrom h]
  simp

theorem code_mem_ofLines_iff (h : rule ∈ table) : rule.code ∈ (ofLines text).map (·.code) ↔
    ∃ line ∈ Text.lines text, rule.linePattern.occursIn line = true := by
  constructor
  · intro mem
    obtain ⟨f, hf, code⟩ := List.mem_map.1 mem
    obtain ⟨front, line, back, hit, whole, -, hs, -⟩ := (mem_ofLines_iff h code).1 hf
    refine ⟨line, ?_, ?_⟩
    · rw [whole]
      exact List.mem_append_right front List.mem_cons_self
    · rw [occursIn, hs]
      rfl
  · rintro ⟨line, hl, found⟩
    obtain ⟨n, attempt⟩ := mem_attemptsFrom_of_mem 1 hl h
    cases first : ((attemptsFrom 1 (Text.lines text)).filter
        (·.rule.code == rule.code)).findSome? (·.found) with
    | none =>
      have absent : (Attempt.onLine line n rule).found = none :=
        List.findSome?_eq_none_iff.1 first _ (List.mem_filter.2 ⟨attempt, beq_self_eq_true _⟩)
      rw [occursIn, Option.map_eq_none_iff.1 absent] at found
      cases found
    | some f =>
      have onLine := (findSome?_attemptsFrom h f).1 first
      exact List.mem_map.2 ⟨f, (mem_ofLines_iff h onLine.code).2 onLine, onLine.code⟩

theorem mem_ofWhole_iff (h : rule ∈ table) (code : f.code = rule.code) :
    f ∈ ofWhole text ↔ OnText rule text f := by
  rw [ofWhole, mem_kept_iff (sound_map_onText text), code, findSome?_onText h, List.mem_reverse,
    code_mem_ofLines_iff h]
  simp [OnText]

theorem exists_rule_of_mem_kept {reported : List String} {as : List Attempt}
    (sound : ∀ a ∈ as, a.Sound) (h : f ∈ kept reported as) :
    ∃ rule ∈ table, f.code = rule.code := by
  have ⟨a, ha, found⟩ := List.mem_filterMap.1 (kept_sublist.subset h)
  exact ⟨a.rule, (sound a ha).rule_mem, (sound a ha).code f found⟩

theorem mem_ofLines_iff_exists : f ∈ ofLines text ↔ ∃ rule ∈ table, OnLine rule text f := by
  constructor
  · intro mem
    have ⟨rule, hr, code⟩ := exists_rule_of_mem_kept (sound_attemptsFrom text) mem
    exact ⟨rule, hr, (mem_ofLines_iff hr code).1 mem⟩
  · intro ⟨rule, hr, onLine⟩
    exact (mem_ofLines_iff hr onLine.code).2 onLine

theorem mem_ofWhole_iff_exists : f ∈ ofWhole text ↔ ∃ rule ∈ table, OnText rule text f := by
  constructor
  · intro mem
    have ⟨rule, hr, code⟩ := exists_rule_of_mem_kept (sound_map_onText text) mem
    exact ⟨rule, hr, (mem_ofWhole_iff hr code).1 mem⟩
  · intro ⟨rule, hr, onText⟩
    exact (mem_ofWhole_iff hr onText.code).2 onText

theorem mem_ofSeverity_iff {fs : List Finding} {finds : Rule → Finding → Prop}
    (mem_iff : f ∈ fs ↔ ∃ rule ∈ table, finds rule f)
    (same : ∀ rule, finds rule f → f.severity = rule.severity) (severity : Severity) :
    f ∈ Report.ofSeverity severity fs ↔
      ∃ rule ∈ table, rule.severity = severity ∧ finds rule f := by
  rw [Report.mem_ofSeverity, mem_iff]
  constructor
  · intro ⟨⟨rule, hr, found⟩, own⟩
    exact ⟨rule, hr, (same rule found).symm.trans own, found⟩
  · intro ⟨rule, hr, own, found⟩
    exact ⟨⟨rule, hr, found⟩, (same rule found).trans own⟩

end

end SolidityVetting.SourceScan
