import SolidityVetting.Proofs.Pattern.Stretches
import SolidityVetting.Proofs.Text.Returns
/-! # Matches in a text with carriage returns

A pattern overlooks carriage returns if it takes one wherever it can take a line feed and names
neither by itself. Such a pattern describes a stretch with carriage returns in front of its line feeds
exactly if it describes the stretch without them, and a search finds it on the same line.
-/

set_option autoImplicit false

namespace SolidityVetting
open Place Text

namespace Pattern

/-- Takes a carriage return wherever it can take a line feed. Only a repetition takes one at all, so
that there is always room for the other. -/
def overlooks : Pattern → Bool
  | .one accepts => !accepts '\r' && !accepts '\n'
  | .run _ accepts => !accepts '\n' || accepts '\r'
  | .seq first second => first.overlooks && second.overlooks
  | .alt first second => first.overlooks && second.overlooks
  | .many _ (.alt (.one accepts) body) => (!accepts '\n' || accepts '\r') && body.overlooks
  | .many _ _ => false
  | .nothing | .wordEdge | .lineStart | .captureStart | .captureEnd => true

variable {p : Pattern} {before front taken rest : List Char}

theorem touchesWord_withReturns (s : List Char) : touchesWord (withReturns s) = touchesWord s := by
  cases s with
  | nil => rfl
  | cons c rest =>
    by_cases feed : c = '\n'
    · rw [feed]
      rfl
    · rw [withReturns_cons feed]
      rfl

theorem alike_withReturns (front : List Char) : Alike front.reverse (withReturns front).reverse := by
  obtain rfl | ⟨more, c, rfl⟩ := List.eq_nil_or_concat front
  · exact ⟨rfl, Iff.rfl⟩
  · rw [List.concat_eq_append, withReturns_append]
    by_cases feed : c = '\n'
    · rw [feed, withReturns_feed]
      exact ⟨by simp [withReturns, touchesWord], by simp [withReturns]⟩
    · rw [withReturns_cons feed]
      exact ⟨by simp [withReturns, touchesWord], by simp [withReturns]⟩

theorem Rounds.single {body : List Char → List Char → List Char → Prop}
    (h : body before taken rest) : Rounds body before taken rest := by
  have round : Rounds body before (taken ++ []) rest := .next h .stop
  rwa [List.append_nil] at round

theorem Rounds.append {body : List Char → List Char → List Char → Prop} {first more : List Char}
    (h : Rounds body before first (more ++ rest)) (g : Rounds body (first.reverse ++ before) more rest) :
    Rounds body before (first ++ more) rest := by
  generalize behind : more ++ rest = after at h
  induction h with
  | stop => exact g
  | @next before x y after here further ih =>
    subst behind
    rw [List.append_assoc]
    refine .next (by rwa [List.append_assoc]) (ih ?_ rfl)
    simpa using g

/-- One round may become two. -/
theorem Rounds.withReturns {body : List Char → List Char → List Char → Prop}
    (each : ∀ front first rest, body front.reverse first rest →
      Rounds body (withReturns front).reverse (withReturns first) (withReturns rest))
    (h : Rounds body before taken rest) (hb : before = front.reverse) :
    Rounds body (withReturns front).reverse (withReturns taken) (withReturns rest) := by
  induction h generalizing front with
  | stop => exact .stop
  | @next before first more rest here further ih =>
    subst hb
    have first_rounds := each front first (more ++ rest) here
    have more_rounds := @ih (front ++ first) (by simp)
    rw [withReturns_append] at first_rounds more_rounds ⊢
    exact first_rounds.append (by simpa using more_rounds)

theorem describes_withReturns (h : p.overlooks = true) (d : p.Describes front.reverse taken rest) :
    p.Describes (withReturns front).reverse (withReturns taken) (withReturns rest) := by
  fun_induction overlooks p generalizing front taken rest with
  | case1 accepts =>
    obtain ⟨c, rfl, hc⟩ := d
    have plain : c ≠ '\n' := by
      rintro rfl
      simp [hc] at h
    exact ⟨c, withReturns_cons plain [], hc⟩
  | case2 appetite accepts =>
    intro c mem
    obtain mem | ⟨rfl, feed⟩ := mem_withReturns mem
    · exact d c mem
    · simpa [d '\n' feed] using h
  | case3 first second ihf ihs =>
    obtain ⟨hf, hs⟩ := Bool.and_eq_true_iff.1 h
    obtain ⟨x, y, rfl, hx, hy⟩ := d
    rw [← List.reverse_append] at hy
    have front_part := ihf hf hx
    have back_part := ihs hs hy
    rw [withReturns_append] at front_part back_part ⊢
    exact ⟨_, _, rfl, front_part, by simpa using back_part⟩
  | case4 first second ihf ihs =>
    obtain ⟨hf, hs⟩ := Bool.and_eq_true_iff.1 h
    exact d.imp (ihf hf) (ihs hs)
  | case5 appetite accepts body ih =>
    obtain ⟨takes, hb⟩ := Bool.and_eq_true_iff.1 h
    refine Rounds.withReturns (fun front first rest round => ?_) d rfl
    -- a line feed that was one round is now two
    obtain ⟨c, rfl, hc⟩ | inner := round
    · by_cases feed : c = '\n'
      · subst feed
        have ret : accepts '\r' = true := by simpa [hc] using takes
        have two : withReturns ['\n'] = ['\r'] ++ ['\n'] := rfl
        rw [two]
        exact .append (.single (.inl ⟨'\r', rfl, ret⟩)) (.single (.inl ⟨'\n', rfl, hc⟩))
      · rw [withReturns_cons feed]
        exact .single (.inl ⟨c, rfl, hc⟩)
    · exact .single (.inr (ih hb inner))
  | case6 => cases h
  | case8 =>
    obtain ⟨rfl, edge⟩ := d
    refine ⟨rfl, ?_⟩
    rwa [← (alike_withReturns front).word, touchesWord_withReturns]
  | case9 =>
    obtain ⟨rfl, first⟩ := d
    exact ⟨rfl, (alike_withReturns front).line.1 first⟩
  | case7 | case10 | case11 =>
    rw [show taken = [] from d]
    rfl

theorem touchesWord_withoutReturns {s : List Char} (paired : Paired s) :
    touchesWord (withoutReturns s) = touchesWord s := by
  cases s with
  | nil => rfl
  | cons c rest =>
    by_cases ret : c = '\r'
    · subst ret
      obtain ⟨more, rfl⟩ := paired [] rest rfl
      rfl
    · rw [withoutReturns_cons ret]
      rfl

theorem wordEdge_withoutReturns (paired : Paired (before.reverse ++ rest))
    (edge : (touchesWord before != touchesWord rest) = true) :
    (touchesWord (withoutReturns before) != touchesWord (withoutReturns rest)) = true := by
  rw [touchesWord_withoutReturns paired.of_append]
  cases before with
  | nil => exact edge
  | cons c more =>
    by_cases ret : c = '\r'
    · subst ret
      obtain ⟨behind, rfl⟩ := paired more.reverse rest (by simp)
      cases edge
    · rw [withoutReturns_cons ret]
      exact edge

theorem Rounds.withoutReturns {body : List Char → List Char → List Char → Prop}
    (each : ∀ before first rest, Paired (before.reverse ++ (first ++ rest)) →
      body before first rest → withoutReturns first = [] ∨
        body (withoutReturns before) (withoutReturns first) (withoutReturns rest))
    (h : Rounds body before taken rest) (paired : Paired (before.reverse ++ (taken ++ rest))) :
    Rounds body (withoutReturns before) (withoutReturns taken) (withoutReturns rest) := by
  induction h with
  | stop => exact .stop
  | @next before first more rest here further ih =>
    rw [List.append_assoc] at paired
    have later := ih (by simpa using paired)
    have round := each before first (more ++ rest) paired here
    rw [withoutReturns_append] at later round ⊢
    rw [withoutReturns_reverse] at later
    obtain dropped | kept := round
    · rw [dropped] at later ⊢
      exact later
    · exact .next kept later

theorem describes_withoutReturns (h : p.overlooks = true)
    (paired : Paired (before.reverse ++ (taken ++ rest))) (d : p.Describes before taken rest) :
    p.Describes (withoutReturns before) (withoutReturns taken) (withoutReturns rest) := by
  fun_induction overlooks p generalizing before taken rest with
  | case1 accepts =>
    obtain ⟨c, rfl, hc⟩ := d
    have plain : c ≠ '\r' := by
      rintro rfl
      simp [hc] at h
    exact ⟨c, withoutReturns_cons plain [], hc⟩
  | case2 appetite accepts => exact fun c mem => d c (List.mem_filter.1 mem).1
  | case3 first second ihf ihs =>
    obtain ⟨hf, hs⟩ := Bool.and_eq_true_iff.1 h
    obtain ⟨x, y, rfl, hx, hy⟩ := d
    rw [List.append_assoc] at paired
    have front_part := ihf hf paired hx
    have back_part := ihs hs (by simpa using paired) hy
    rw [withoutReturns_append] at front_part back_part ⊢
    rw [withoutReturns_reverse] at back_part
    exact ⟨_, _, rfl, front_part, back_part⟩
  | case4 first second ihf ihs =>
    obtain ⟨hf, hs⟩ := Bool.and_eq_true_iff.1 h
    exact d.imp (ihf hf paired) (ihs hs paired)
  | case5 appetite accepts body ih =>
    obtain ⟨-, hb⟩ := Bool.and_eq_true_iff.1 h
    refine Rounds.withoutReturns (fun before first rest paired round => ?_) d paired
    -- the round of a carriage return is left out
    obtain ⟨c, rfl, hc⟩ | inner := round
    · by_cases ret : c = '\r'
      · subst ret
        exact .inl rfl
      · exact .inr (.inl ⟨c, withoutReturns_cons ret [], hc⟩)
    · exact .inr (.inr (ih hb paired inner))
  | case6 => cases h
  | case8 =>
    obtain ⟨rfl, edge⟩ := d
    exact ⟨rfl, wordEdge_withoutReturns paired edge⟩
  | case9 =>
    obtain ⟨rfl, first⟩ := d
    refine ⟨rfl, ?_⟩
    obtain rfl | ⟨more, rfl⟩ := first
    · exact .inl rfl
    · exact .inr ⟨_, withoutReturns_cons (by decide) more⟩
  | case7 | case10 | case11 =>
    rw [show taken = [] from d]
    rfl

variable {text : List Char}

theorem map_line_search?_eq {text' : List Char}
    (there : ∀ hit, p.search? text = some hit →
      ∃ hit', p.search? text' = some hit' ∧ hit'.line ≤ hit.line)
    (back : ∀ hit, p.search? text' = some hit →
      ∃ hit', p.search? text = some hit' ∧ hit'.line ≤ hit.line) :
    (p.search? text').map Hit.line = (p.search? text).map Hit.line := by
  cases h : p.search? text with
  | none =>
    cases h' : p.search? text' with
    | none => rfl
    | some hit' =>
      obtain ⟨hit, found, -⟩ := back hit' h'
      rw [h] at found
      cases found
  | some hit =>
    obtain ⟨hit', found', down⟩ := there hit h
    obtain ⟨other, found, up⟩ := back hit' found'
    cases h.symm.trans found
    rw [found', Option.map_some, Option.map_some, Nat.le_antisymm down up]

theorem map_line_search?_withReturns (h : p.overlooks = true) (plain : '\r' ∉ text) :
    (p.search? (withReturns text)).map Hit.line = (p.search? text).map Hit.line := by
  apply map_line_search?_eq
  · intro hit found
    obtain ⟨front, taken, rest, rfl, d, line⟩ := describes_of_search? found
    rw [line, ← lineAfter_withReturns front]
    apply exists_hit_of_describes _ (describes_withReturns h d)
    rw [withReturns_append, withReturns_append]
  · intro hit found
    obtain ⟨front, taken, rest, whole, d, line⟩ := describes_of_search? found
    have paired := paired_withReturns plain
    rw [whole] at paired
    have removed := describes_withoutReturns h (by simpa using paired) d
    rw [withoutReturns_reverse] at removed
    rw [line, ← lineAfter_withoutReturns front]
    refine exists_hit_of_describes ?_ removed
    rw [← withoutReturns_withReturns plain, whole, withoutReturns_append, withoutReturns_append]

theorem occursIn_withReturns (h : p.overlooks = true) (plain : '\r' ∉ text) :
    p.occursIn (withReturns text) = p.occursIn text := by
  have same := congrArg Option.isSome (map_line_search?_withReturns h plain)
  rwa [Option.isSome_map, Option.isSome_map] at same

end Pattern
end SolidityVetting
