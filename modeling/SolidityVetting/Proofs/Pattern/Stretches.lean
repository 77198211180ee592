import SolidityVetting.Proofs.Pattern.Ends
import SolidityVetting.Proofs.Pattern.Search
/-! # Stretches of text

What a pattern describes, said without places: a stretch stands between the text before it, nearest
character first, and the text behind it. A place is among the ends of a pattern exactly if a
described stretch leads there, so a pattern occurs in a text exactly if the text has such a stretch.
-/

set_option autoImplicit false

namespace SolidityVetting
open Place

namespace Pattern

inductive Rounds (body : List Char → List Char → List Char → Prop) :
    (before taken rest : List Char) → Prop where
  | stop {before rest : List Char} : Rounds body before [] rest
  | next {before first more rest : List Char} (here : body before first (more ++ rest))
      (further : Rounds body (first.reverse ++ before) more rest) :
      Rounds body before (first ++ more) rest

/-- The pattern describes `taken`, where `before` stands in front of it and `rest` behind it. -/
def Describes : Pattern → (before taken rest : List Char) → Prop
  | .nothing, _, taken, _ => taken = []
  | .one accepts, _, taken, _ => ∃ c, taken = [c] ∧ accepts c = true
  | .run _ accepts, _, taken, _ => ∀ c ∈ taken, accepts c = true
  | .seq first second, before, taken, rest => ∃ x y, taken = x ++ y ∧
      first.Describes before x (y ++ rest) ∧ second.Describes (x.reverse ++ before) y rest
  | .alt first second, before, taken, rest =>
      first.Describes before taken rest ∨ second.Describes before taken rest
  | .many _ body, before, taken, rest => Rounds body.Describes before taken rest
  | .wordEdge, before, taken, rest => taken = [] ∧ (touchesWord before != touchesWord rest) = true
  | .lineStart, before, taken, _ => taken = [] ∧ (before = [] ∨ ∃ more, before = '\n' :: more)
  | .captureStart, _, taken, _ => taken = []
  | .captureEnd, _, taken, _ => taken = []

variable {p q : Pattern} {before taken rest : List Char} {s t : Place}

theorem atLineStart_iff : s.atLineStart = true ↔ s.before = [] ∨ ∃ more, s.before = '\n' :: more := by
  unfold atLineStart
  cases s.before with
  | nil => simp
  | cons c more => simp

structure Leads (s : Place) (taken : List Char) (t : Place) : Prop where
  after : s.after = taken ++ t.after
  before : t.before = taken.reverse ++ s.before

theorem Leads.refl (s : Place) : Leads s [] s := ⟨rfl, rfl⟩

theorem Leads.trans {u : Place} {first more : List Char} (h : Leads s first u)
    (g : Leads u more t) : Leads s (first ++ more) t := by
  constructor
  · rw [h.after, g.after, List.append_assoc]
  · rw [g.before, h.before, List.reverse_append, List.append_assoc]

theorem leads_past (h : s.after = taken ++ rest) : Leads s taken (s.past taken rest) := ⟨h, rfl⟩

theorem rounds_of_mem_repeated {appetite : Appetite} {ends : Place → List Place}
    {body : List Char → List Char → List Char → Prop} {rounds : Nat}
    (sound : ∀ s t, t ∈ ends s → ∃ taken, Leads s taken t ∧ body s.before taken t.after)
    (h : t ∈ repeated appetite ends rounds s) :
    ∃ taken, Leads s taken t ∧ Rounds body s.before taken t.after := by
  induction rounds generalizing s with
  | zero =>
    have same : t = s := List.mem_singleton.1 h
    exact ⟨[], same ▸ .refl s, .stop⟩
  | succ rounds ih =>
    rcases mem_repeated_succ.1 h with rfl | ⟨u, hu, ht⟩
    · exact ⟨[], .refl t, .stop⟩
    · have ⟨first, leads, here⟩ := sound s u hu
      have ⟨more, further, rounds⟩ := ih ht
      rw [leads.before] at rounds
      rw [further.after] at here
      exact ⟨first ++ more, leads.trans further, .next here rounds⟩

/-- Empty rounds lead nowhere, so there are no more of them than characters taken. -/
theorem mem_repeated_of_rounds {appetite : Appetite} {ends : Place → List Place}
    {body : List Char → List Char → List Char → Prop}
    (complete : ∀ s taken rest, s.after = taken ++ rest → body s.before taken rest →
      ∃ t ∈ ends s, Leads s taken t)
    (h : Rounds body before taken rest) {rounds : Nat} (enough : taken.length ≤ rounds)
    (hb : s.before = before) (ha : s.after = taken ++ rest) :
    ∃ t ∈ repeated appetite ends rounds s, Leads s taken t := by
  induction h generalizing s rounds with
  | stop =>
    refine ⟨s, ?_, .refl s⟩
    cases rounds with
    | zero => exact List.mem_singleton_self s
    | succ rounds => exact mem_repeated_succ.2 (.inl rfl)
  | @next before first more rest here further ih =>
    rw [List.append_assoc] at ha
    cases first with
    | nil => exact ih enough hb ha
    | cons c first =>
      cases rounds with
      | zero => simp at enough
      | succ rounds =>
        have ⟨u, hu, leads⟩ := complete s (c :: first) (more ++ rest) ha (hb ▸ here)
        have after : u.after = more ++ rest := List.append_cancel_left (leads.after.symm.trans ha)
        have fewer : more.length ≤ rounds := by
          simp at enough
          omega
        have ⟨t, ht, behind⟩ := ih fewer (hb ▸ leads.before) after
        exact ⟨t, mem_repeated_succ.2 (.inr ⟨u, hu, ht⟩), leads.trans behind⟩

theorem describes_of_mem_ends (p : Pattern) {s t : Place} (h : t ∈ p.ends s) :
    ∃ taken, Leads s taken t ∧ p.Describes s.before taken t.after := by
  induction p generalizing s t with
  | nothing => exact ⟨[], mem_ends_nothing.1 h ▸ .refl s, rfl⟩
  | one accepts =>
    have ⟨c, rest, hs, hc, ht⟩ := mem_ends_one.1 h
    exact ⟨[c], ht ▸ leads_past hs, c, rfl, hc⟩
  | run appetite accepts =>
    have ⟨taken, rest, hs, hall, ht⟩ := mem_ends_run.1 h
    exact ⟨taken, ht ▸ leads_past hs, hall⟩
  | seq first second ihf ihs =>
    have ⟨u, hu, ht⟩ := mem_ends_seq.1 h
    have ⟨x, front, hx⟩ := ihf hu
    have ⟨y, back, hy⟩ := ihs ht
    rw [back.after] at hx
    rw [front.before] at hy
    exact ⟨x ++ y, front.trans back, x, y, rfl, hx, hy⟩
  | alt first second ihf ihs =>
    rcases mem_ends_alt.1 h with h | h
    · have ⟨taken, leads, ht⟩ := ihf h
      exact ⟨taken, leads, .inl ht⟩
    · have ⟨taken, leads, ht⟩ := ihs h
      exact ⟨taken, leads, .inr ht⟩
  | many appetite body ih => exact rounds_of_mem_repeated (fun _ _ => ih) h
  | wordEdge =>
    have ⟨edge, ht⟩ := mem_ends_wordEdge.1 h
    exact ⟨[], ht ▸ .refl s, rfl, ht ▸ edge⟩
  | lineStart =>
    have ⟨first, ht⟩ := mem_ends_lineStart.1 h
    exact ⟨[], ht ▸ .refl s, rfl, atLineStart_iff.1 first⟩
  | captureStart =>
    rw [List.mem_singleton.1 h]
    exact ⟨[], ⟨rfl, rfl⟩, rfl⟩
  | captureEnd =>
    rw [List.mem_singleton.1 h]
    exact ⟨[], ⟨rfl, rfl⟩, rfl⟩

theorem exists_mem_ends (p : Pattern) {s : Place} {taken rest : List Char}
    (ha : s.after = taken ++ rest) (h : p.Describes s.before taken rest) :
    ∃ t ∈ p.ends s, Leads s taken t := by
  induction p generalizing s taken rest with
  | nothing =>
    rw [show taken = [] from h]
    exact ⟨s, mem_ends_nothing.2 rfl, .refl s⟩
  | one accepts =>
    have ⟨c, ht, hc⟩ := h
    subst ht
    exact ⟨_, mem_ends_one.2 ⟨c, rest, ha, hc, rfl⟩, leads_past ha⟩
  | run appetite accepts => exact ⟨_, mem_ends_run.2 ⟨taken, rest, ha, h, rfl⟩, leads_past ha⟩
  | seq first second ihf ihs =>
    have ⟨x, y, split, hx, hy⟩ := h
    rw [split, List.append_assoc] at ha
    have ⟨u, hu, front⟩ := ihf ha hx
    have behind : u.after = y ++ rest := List.append_cancel_left (front.after.symm.trans ha)
    have ⟨t, ht, back⟩ := ihs behind (front.before ▸ hy)
    exact ⟨t, mem_ends_seq.2 ⟨u, hu, ht⟩, split ▸ front.trans back⟩
  | alt first second ihf ihs =>
    rcases h with h | h
    · have ⟨t, ht, leads⟩ := ihf ha h
      exact ⟨t, mem_ends_alt.2 (.inl ht), leads⟩
    · have ⟨t, ht, leads⟩ := ihs ha h
      exact ⟨t, mem_ends_alt.2 (.inr ht), leads⟩
  | many appetite body ih =>
    have enough : taken.length ≤ s.after.length := by simp [ha]
    exact mem_repeated_of_rounds (fun _ _ _ => ih) h enough rfl ha
  | wordEdge =>
    have ⟨empty, edge⟩ := h
    subst empty
    have after : s.after = rest := ha
    subst after
    exact ⟨s, mem_ends_wordEdge.2 ⟨edge, rfl⟩, .refl s⟩
  | lineStart =>
    have ⟨empty, first⟩ := h
    subst empty
    exact ⟨s, mem_ends_lineStart.2 ⟨atLineStart_iff.2 first, rfl⟩, .refl s⟩
  | captureStart =>
    rw [show taken = [] from h]
    exact ⟨s.openCapture, List.mem_singleton_self _, rfl, rfl⟩
  | captureEnd =>
    rw [show taken = [] from h]
    exact ⟨s.closeCapture, List.mem_singleton_self _, rfl, rfl⟩

theorem occursIn_iff {text : List Char} :
    p.occursIn text = true ↔ ∃ u : Place, u.IsIn text 0 0 ∧ ∃ t, t ∈ p.ends u.bare := by
  rw [occursIn, Option.isSome_iff_ne_none, Ne, search?_eq_none_iff, Classical.not_forall]
  apply exists_congr
  intro u
  rw [Classical.not_imp]
  exact and_congr_right fun _ => ⟨List.exists_mem_of_ne_nil _, fun ⟨t, ht⟩ => List.ne_nil_of_mem ht⟩

theorem exists_hit_of_describes {text front : List Char} (whole : text = front ++ (taken ++ rest))
    (d : p.Describes front.reverse taken rest) :
    ∃ hit, p.search? text = some hit ∧ hit.line ≤ Text.lineAfter front := by
  let u : Place := ⟨front.reverse, taken ++ rest, front.length, none⟩
  have inText : u.IsIn text 0 0 := ⟨by simp [u, whole], by simp [u]⟩
  obtain ⟨t, ht, -⟩ := exists_mem_ends p (s := u) rfl d
  have behind : u.after.length ≤ (start text).after.length := by simp [u, start, whole]
  obtain ⟨hit, found, first, before⟩ :=
    searchFrom?_of_ends (isIn_start text) inText behind (List.ne_nil_of_mem ht)
  refine ⟨hit, found, ?_⟩
  obtain ⟨between, cut⟩ := after_of_isIn first.start_isIn inText before
  have starts : front = hit.start.before.reverse ++ between := by
    have place := first.start_isIn.1
    rw [cut, ← List.append_assoc, whole] at place
    exact (List.append_cancel_right place).symm
  rw [starts, Hit.line, Text.lineAfter, Text.lineAfter, List.count_append, List.count_reverse]
  omega

theorem describes_of_search? {text : List Char} {hit : Hit} (h : p.search? text = some hit) :
    ∃ front taken rest, text = front ++ (taken ++ rest) ∧ p.Describes front.reverse taken rest ∧
      hit.line = Text.lineAfter front := by
  have first := leftmost_of_searchFrom? (isIn_start text) h
  obtain ⟨taken, leads, d⟩ := describes_of_mem_ends p first.ends_there
  refine ⟨hit.start.before.reverse, taken, hit.finish.after, ?_, ?_, ?_⟩
  · rw [← leads.after]
    exact first.start_isIn.1.symm
  · rw [List.reverse_reverse]
    exact d
  · rw [Hit.line, Text.lineAfter, Text.lineAfter, List.count_reverse]

theorem occursIn_iff_describes {text : List Char} : p.occursIn text = true ↔
    ∃ front taken rest, text = front ++ (taken ++ rest) ∧ p.Describes front.reverse taken rest := by
  rw [occursIn, Option.isSome_iff_exists]
  constructor
  · rintro ⟨hit, found⟩
    obtain ⟨front, taken, rest, whole, d, -⟩ := describes_of_search? found
    exact ⟨front, taken, rest, whole, d⟩
  · rintro ⟨front, taken, rest, whole, d⟩
    obtain ⟨hit, found, -⟩ := exists_hit_of_describes whole d
    exact ⟨hit, found⟩

theorem describes_seq : (p ++ q).Describes before taken rest ↔ ∃ x y, taken = x ++ y ∧
    p.Describes before x (y ++ rest) ∧ q.Describes (x.reverse ++ before) y rest := Iff.rfl

theorem describes_alt : (p <|> q).Describes before taken rest ↔
    p.Describes before taken rest ∨ q.Describes before taken rest := Iff.rfl

theorem describes_one {accepts : Char → Bool} : (one accepts).Describes before taken rest ↔
    ∃ c, taken = [c] ∧ accepts c = true := Iff.rfl

theorem describes_run_ne {appetite : Appetite} {c : Char} :
    (run appetite (· != c)).Describes before taken rest ↔ c ∉ taken := by
  change (∀ d ∈ taken, (d != c) = true) ↔ _
  simp only [bne_iff_ne]
  exact ⟨fun h mem => h c mem rfl, fun h d hd same => h (same ▸ hd)⟩

theorem describes_oneOrMore {accepts : Char → Bool} :
    (oneOrMore accepts).Describes before taken rest ↔
      taken ≠ [] ∧ ∀ c ∈ taken, accepts c = true := by
  constructor
  · intro ⟨_, more, split, ⟨c, first, hc⟩, hmore⟩
    subst first split
    exact ⟨List.cons_ne_nil c more, List.forall_mem_cons.2 ⟨hc, hmore⟩⟩
  · intro ⟨some_text, all⟩
    cases taken with
    | nil => exact absurd rfl some_text
    | cons c more =>
      have ⟨hc, hmore⟩ := List.forall_mem_cons.1 all
      exact ⟨[c], more, rfl, ⟨c, rfl, hc⟩, hmore⟩

theorem describes_exactly {text : String} :
    (exactly text).Describes before taken rest ↔ taken = text.toList := by
  unfold exactly
  generalize text.toList = chars
  induction chars generalizing before taken with
  | nil => exact Iff.rfl
  | cons c chars ih =>
    constructor
    · intro ⟨x, y, split, ⟨d, hx, hd⟩, hy⟩
      rw [split, hx, ih.1 hy, eq_of_beq hd]
      rfl
    · intro h
      exact ⟨[c], chars, h, ⟨c, rfl, beq_self_eq_true c⟩, ih.2 rfl⟩

theorem describes_anyCase {text : String} : (anyCase text).Describes before taken rest ↔
    taken.map Char.toLower = text.toList.map Char.toLower := by
  unfold anyCase
  generalize text.toList = chars
  induction chars generalizing before taken with
  | nil => exact List.map_eq_nil_iff.symm
  | cons c chars ih =>
    constructor
    · intro ⟨x, y, split, ⟨d, hx, hd⟩, hy⟩
      rw [split, hx, List.map_append, ih.1 hy, List.map_cons, eq_of_beq hd]
      rfl
    · intro h
      cases taken with
      | nil => simp at h
      | cons d taken =>
        have ⟨lower, same⟩ := List.cons.inj h
        exact ⟨[d], taken, rfl, ⟨d, rfl, beq_iff_eq.2 lower⟩, ih.2 same⟩

structure Alike (s t : List Char) : Prop where
  word : touchesWord s = touchesWord t
  line : (s = [] ∨ ∃ more, s = '\n' :: more) ↔ (t = [] ∨ ∃ more, t = '\n' :: more)

variable {before' rest' : List Char}

theorem touchesWord_append_congr (taken : List Char) (h : touchesWord rest = touchesWord rest') :
    touchesWord (taken ++ rest) = touchesWord (taken ++ rest') := by
  cases taken with
  | nil => exact h
  | cons c taken => rfl

theorem Alike.append (taken : List Char) (h : Alike before before') :
    Alike (taken ++ before) (taken ++ before') := by
  refine ⟨touchesWord_append_congr taken h.word, ?_⟩
  cases taken with
  | nil => exact h.line
  | cons c taken => simp

theorem Alike.symm (h : Alike before before') : Alike before' before := ⟨h.word.symm, h.line.symm⟩

theorem Rounds.around {body : List Char → List Char → List Char → Prop}
    (keeps : ∀ before before' taken rest rest', Alike before before' →
      touchesWord rest = touchesWord rest' → body before taken rest → body before' taken rest')
    (h : Rounds body before taken rest) (hb : Alike before before')
    (hr : touchesWord rest = touchesWord rest') : Rounds body before' taken rest' := by
  induction h generalizing before' with
  | stop => exact .stop
  | @next before first more rest here further ih =>
    exact .next (keeps _ _ _ _ _ hb (touchesWord_append_congr more hr) here)
      (ih (hb.append first.reverse) hr)

/-- Only the nearest characters on both sides matter to what a pattern describes. -/
theorem Describes.around (p : Pattern) {before before' taken rest rest' : List Char}
    (hb : Alike before before') (hr : touchesWord rest = touchesWord rest')
    (h : p.Describes before taken rest) : p.Describes before' taken rest' := by
  induction p generalizing before before' taken rest rest' with
  | nothing => exact h
  | one accepts => exact h
  | run appetite accepts => exact h
  | seq first second ihf ihs =>
    have ⟨x, y, split, hx, hy⟩ := h
    exact ⟨x, y, split, ihf hb (touchesWord_append_congr y hr) hx, ihs (hb.append x.reverse) hr hy⟩
  | alt first second ihf ihs => exact h.imp (ihf hb hr) (ihs hb hr)
  | many appetite body ih => exact Rounds.around (fun _ _ _ _ _ hb hr => ih hb hr) h hb hr
  | wordEdge => exact ⟨h.1, hb.word ▸ hr ▸ h.2⟩
  | lineStart => exact ⟨h.1, hb.line.1 h.2⟩
  | captureStart => exact h
  | captureEnd => exact h

end Pattern
end SolidityVetting
