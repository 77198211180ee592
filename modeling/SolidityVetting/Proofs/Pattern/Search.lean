import SolidityVetting.Proofs.Pattern.Frontier

set_option autoImplicit false

namespace SolidityVetting

namespace Place

variable {text : List Char} {d e : Nat} {s t : Place}

theorem length_of_isIn (hs : s.IsIn text d e) : s.before.length + s.after.length = text.length := by
  rw [← hs.1, List.length_append, List.length_reverse]

theorem bare_eq_of_after (hs : s.IsIn text d e) (ht : t.IsIn text d e)
    (h : s.after.length = t.after.length) : s.bare = t.bare := by
  have ls := length_of_isIn hs
  have lt := length_of_isIn ht
  have ks := hs.2
  have kt := ht.2
  exact bare_eq_of_isIn hs ht (by omega)

theorem isIn_start (text : List Char) : (start text).IsIn text 0 0 := ⟨rfl, rfl⟩

theorem isIn_bare (hs : s.IsIn text d e) : s.bare.IsIn text d e := hs

theorem after_of_isIn (hs : s.IsIn text d e) (ht : t.IsIn text d e)
    (h : t.after.length ≤ s.after.length) : ∃ between, s.after = between ++ t.after := by
  have inText : t.after <:+ text := ⟨t.before.reverse, ht.1⟩
  obtain ⟨cut, hc⟩ := List.suffix_of_suffix_length_le inText ⟨s.before.reverse, hs.1⟩ h
  exact ⟨cut, hc.symm⟩

def onwards (s : Place) : (after : List Char) → List Place
  | [] => [s]
  | c :: rest => s :: onwards (s.pass c rest) rest

theorem isIn_onwards {after : List Char} (hs : s.IsIn text d e) (ha : s.after = after)
    (ht : t ∈ s.onwards after) : t.IsIn text d e := by
  induction after generalizing s with
  | nil =>
    rw [List.mem_singleton.1 ht]
    exact hs
  | cons c rest ih =>
    rcases List.mem_cons.1 ht with rfl | ht
    · exact hs
    · exact ih (isIn_pass hs ha) rfl ht

theorem mem_onwards {after : List Char} (hs : s.IsIn text d e) (ha : s.after = after)
    (ht : t.IsIn text d e) (hle : t.after.length ≤ s.after.length) :
    ∃ v ∈ s.onwards after, t.bare = v.bare := by
  induction after generalizing s with
  | nil =>
    have he : t.after.length = s.after.length := by
      rw [ha] at hle ⊢
      exact Nat.le_zero.1 hle
    exact ⟨s, List.mem_singleton_self s, bare_eq_of_after ht hs he⟩
  | cons c rest ih =>
    by_cases he : t.after.length = s.after.length
    · exact ⟨s, List.mem_cons_self, bare_eq_of_after ht hs he⟩
    · have behind : t.after.length ≤ rest.length := by
        rw [ha, List.length_cons] at hle he
        omega
      obtain ⟨v, hv, same⟩ := ih (isIn_pass hs ha) rfl behind
      exact ⟨v, List.mem_cons_of_mem s hv, same⟩

end Place

namespace Pattern
open Place

variable {p : Pattern} {text : List Char} {d e : Nat} {s : Place} {hit : Hit}

theorem matchAt?_eq_none_iff : p.matchAt? s = none ↔ p.ends s.bare = [] := by
  rw [matchAt?_eq, Option.map_eq_none_iff, List.head?_eq_none_iff]

theorem of_matchAt? (h : p.matchAt? s = some hit) :
    hit.start = s ∧ hit.finish ∈ p.ends s.bare := by
  rw [matchAt?_eq, Option.map_eq_some_iff] at h
  obtain ⟨t, ht, rfl⟩ := h
  exact ⟨rfl, List.mem_of_mem_head? ht⟩

/-- The hit is the leftmost one from `s` on in the text. -/
structure Leftmost (p : Pattern) (text : List Char) (d e : Nat) (s : Place) (hit : Hit) :
    Prop where
  start_isIn : hit.start.IsIn text d e
  start_behind : hit.start.after.length ≤ s.after.length
  ends_there : hit.finish ∈ p.ends hit.start.bare
  none_before : ∀ u : Place, u.IsIn text d e → hit.start.after.length < u.after.length →
    u.after.length ≤ s.after.length → p.ends u.bare = []

theorem Leftmost.finish_isIn (h : Leftmost p text d e s hit) : hit.finish.IsIn text d e :=
  isIn_ends p (isIn_bare h.start_isIn) h.ends_there

theorem leftmost_of_searchOver? {after : List Char} (hs : s.IsIn text d e)
    (ha : s.after = after) (h : p.searchOver? s after = some hit) :
    Leftmost p text d e s hit := by
  induction after generalizing s with
  | nil =>
    obtain ⟨rfl, hf⟩ := of_matchAt? h
    exact ⟨hs, Nat.le_refl _, hf, fun u _ hu hle => absurd hu (Nat.not_lt.2 hle)⟩
  | cons c rest ih =>
    unfold searchOver? at h
    split at h
    · next found hm =>
      cases h
      obtain ⟨rfl, hf⟩ := of_matchAt? hm
      exact ⟨hs, Nat.le_refl _, hf, fun u _ hu hle => absurd hu (Nat.not_lt.2 hle)⟩
    · next hm =>
      have far := ih (isIn_pass hs ha) rfl h
      have length : s.after.length = rest.length + 1 := by rw [ha, List.length_cons]
      have behind : hit.start.after.length ≤ rest.length := far.start_behind
      refine ⟨far.start_isIn, by omega, far.ends_there, ?_⟩
      intro u hu hlt hle
      by_cases he : u.after.length = s.after.length
      · rw [bare_eq_of_after hu hs he]
        exact matchAt?_eq_none_iff.1 hm
      · apply far.none_before u hu hlt
        change u.after.length ≤ rest.length
        omega

theorem ends_of_searchOver?_eq_none {after : List Char} (hs : s.IsIn text d e)
    (ha : s.after = after) (h : p.searchOver? s after = none) {u : Place}
    (hu : u.IsIn text d e) (hle : u.after.length ≤ s.after.length) : p.ends u.bare = [] := by
  induction after generalizing s with
  | nil =>
    have he : u.after.length = s.after.length := by
      rw [ha] at hle ⊢
      exact Nat.le_zero.1 hle
    rw [bare_eq_of_after hu hs he]
    exact matchAt?_eq_none_iff.1 h
  | cons c rest ih =>
    unfold searchOver? at h
    split at h
    · cases h
    · next hm =>
      by_cases he : u.after.length = s.after.length
      · rw [bare_eq_of_after hu hs he]
        exact matchAt?_eq_none_iff.1 hm
      · apply ih (isIn_pass hs ha) rfl h
        change u.after.length ≤ rest.length
        rw [ha, List.length_cons] at hle he
        omega

theorem leftmost_of_searchFrom? (hs : s.IsIn text d e) (h : p.searchFrom? s = some hit) :
    Leftmost p text d e s hit := leftmost_of_searchOver? hs rfl h

theorem searchFrom?_of_ends (hs : s.IsIn text d e) {u : Place} (hu : u.IsIn text d e)
    (hle : u.after.length ≤ s.after.length) (hm : p.ends u.bare ≠ []) :
    ∃ hit, p.searchFrom? s = some hit ∧ Leftmost p text d e s hit ∧
      u.after.length ≤ hit.start.after.length := by
  cases h : p.searchFrom? s with
  | none => exact absurd (ends_of_searchOver?_eq_none hs rfl h hu hle) hm
  | some hit =>
    have first := leftmost_of_searchFrom? hs h
    refine ⟨hit, rfl, first, ?_⟩
    apply Nat.le_of_not_lt
    intro hlt
    exact hm (first.none_before u hu hlt hle)

theorem search?_eq_none_iff :
    p.search? text = none ↔ ∀ u : Place, u.IsIn text 0 0 → p.ends u.bare = [] := by
  constructor
  · intro h u hu
    apply ends_of_searchOver?_eq_none (isIn_start text) rfl h hu
    have := length_of_isIn hu
    change u.after.length ≤ text.length
    omega
  · intro h
    cases hf : p.search? text with
    | none => rfl
    | some hit =>
      have first := leftmost_of_searchFrom? (isIn_start text) hf
      have ends := first.ends_there
      rw [h _ first.start_isIn] at ends
      cases ends

theorem forall_ends_of_onwards {P : Place → Prop} (hs : s.IsIn text d e)
    (h : ∀ v ∈ s.onwards s.after, ∀ t ∈ p.ends v.bare, P t) {u : Place} (hu : u.IsIn text d e)
    (hle : u.after.length ≤ s.after.length) : ∀ t ∈ p.ends u.bare, P t := by
  obtain ⟨v, hv, same⟩ := mem_onwards hs rfl hu hle
  rw [same]
  exact h v hv

def isAbsentFrom (p : Pattern) (text : List Char) : Bool :=
  ((start text).onwards text).all fun v => (p.ends v.bare).isEmpty

theorem search?_eq_none_of_isAbsentFrom (h : p.isAbsentFrom text = true) :
    p.search? text = none := by
  rw [search?_eq_none_iff]
  intro u hu
  have length := length_of_isIn hu
  have hle : u.after.length ≤ (start text).after.length := by
    change u.after.length ≤ text.length
    omega
  obtain ⟨v, hv, same⟩ := mem_onwards (isIn_start text) rfl hu hle
  rw [same]
  exact List.isEmpty_iff.1 (List.all_eq_true.1 h v hv)

theorem of_mem_hitsFrom {s : Place} (hs : s.IsIn text d e) (h : hit ∈ p.hitsFrom s) :
    hit.start.IsIn text d e ∧ hit.start.after.length ≤ s.after.length ∧
      hit.finish ∈ p.ends hit.start.bare := by
  rw [hitsFrom] at h
  split at h
  · cases h
  · next found hf =>
    have first := leftmost_of_searchFrom? hs hf
    have self := And.intro first.start_isIn (And.intro first.start_behind first.ends_there)
    split at h
    · next hlt =>
      obtain rfl | h := List.mem_cons.1 h
      · exact self
      · have far := of_mem_hitsFrom first.finish_isIn h
        exact ⟨far.1, by omega, far.2.2⟩
    · rw [List.mem_singleton.1 h]
      exact self
termination_by s.after.length

theorem head?_of_matchAt? (h : p.matchAt? s = some hit) :
    (p.ends hit.start.bare).head? = some hit.finish := by
  rw [matchAt?_eq, Option.map_eq_some_iff] at h
  obtain ⟨t, ht, rfl⟩ := h
  exact ht

theorem head?_of_searchOver? {after : List Char} (h : p.searchOver? s after = some hit) :
    (p.ends hit.start.bare).head? = some hit.finish := by
  induction after generalizing s with
  | nil => exact head?_of_matchAt? h
  | cons c rest ih =>
    unfold searchOver? at h
    split at h
    · next found hm =>
      cases h
      exact head?_of_matchAt? hm
    · exact ih h

/-- The matches from a place on: each is the leftmost one from where the last ended, with the
preferred end, and from where the last of them ends there is none. -/
inductive Successive (p : Pattern) (text : List Char) : Place → List Hit → Prop where
  | stop {s : Place} (absent : ∀ u : Place, u.IsIn text 0 0 →
      u.after.length ≤ s.after.length → p.ends u.bare = []) : Successive p text s []
  | next {s : Place} {hit : Hit} {more : List Hit} (leftmost : Leftmost p text 0 0 s hit)
      (preferred : (p.ends hit.start.bare).head? = some hit.finish)
      (behind : Successive p text hit.finish more) : Successive p text s (hit :: more)

theorem successive_hitsFrom
    (takes : ∀ u, ∀ t ∈ p.ends u, t.after.length < u.after.length) {s : Place}
    (hs : s.IsIn text 0 0) : Successive p text s (p.hitsFrom s) := by
  rw [hitsFrom]
  split
  · next hf => exact .stop fun u hu hle => ends_of_searchOver?_eq_none hs rfl hf hu hle
  · next hit hf =>
    have first := leftmost_of_searchFrom? hs hf
    have shorter : hit.finish.after.length < s.after.length :=
      Nat.lt_of_lt_of_le (takes _ _ first.ends_there) first.start_behind
    rw [if_pos shorter]
    exact .next first (head?_of_searchOver? hf) (successive_hitsFrom takes first.finish_isIn)
termination_by s.after.length

theorem hitsFrom_eq_nil_iff : p.hitsFrom s = [] ↔ p.searchFrom? s = none := by
  rw [hitsFrom]
  split
  · next h => simp [h]
  · next h => split <;> simp [h]

theorem hitsFrom_eq_cons (h : p.searchFrom? s = some hit)
    (hl : hit.finish.after.length < s.after.length) :
    p.hitsFrom s = hit :: p.hitsFrom hit.finish := by
  rw [hitsFrom, h]
  simp only [if_pos hl]

theorem hits_eq_singleton {t : Place} (whole : (p.ends (start text)).head? = some t)
    (at_end : t.after = []) (stop : p.ends t.bare = []) : p.hits text = [⟨start text, t⟩] := by
  have here : p.matchAt? (start text) = some ⟨start text, t⟩ := by
    rw [matchAt?_eq]
    exact congrArg _ whole
  have found : p.searchFrom? (start text) = some ⟨start text, t⟩ := by
    change p.searchOver? (start text) text = some ⟨start text, t⟩
    cases text with
    | nil => exact here
    | cons c rest =>
      unfold searchOver?
      rw [here]
  have later : p.hitsFrom t = [] := by
    rw [hitsFrom_eq_nil_iff, searchFrom?, at_end]
    exact matchAt?_eq_none_iff.2 stop
  unfold hits
  rw [hitsFrom, found]
  dsimp only
  rw [later, ite_self]

theorem exists_hits_eq_singleton {captured : List Char}
    (h : (p.ends (start text)).head?.map (fun t =>
      (Hit.text ⟨start text, t⟩, t.after, (p.ends t.bare).isEmpty)) = some (captured, [], true)) :
    ∃ hit, p.hits text = [hit] ∧ hit.text = captured := by
  obtain ⟨t, whole, parts⟩ := Option.map_eq_some_iff.1 h
  rw [Prod.mk.injEq, Prod.mk.injEq, List.isEmpty_iff] at parts
  exact ⟨⟨start text, t⟩, hits_eq_singleton whole parts.2.1 parts.2.2, parts.1⟩

end Pattern
end SolidityVetting
