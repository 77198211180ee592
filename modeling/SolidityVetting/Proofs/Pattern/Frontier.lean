import Mathlib.Data.List.Basic
import SolidityVetting.Proofs.Pattern.Places
import Std.Data.HashSet.Lemmas
/-! # Matching from several places agrees with matching from each

`reach` and `ends` list the same places up to repetitions: once every later place with the index of
an earlier one is dropped, the two lists are equal. In particular they have the same first place, so
the match found by way of `reach` is the preferred one of `ends`.
-/

set_option autoImplicit false

namespace SolidityVetting
namespace Frontier
open Place

variable {text : List Char} {d e : Nat} {accepts : Char → Bool} {s : Place} {l l' m m' n : List Place}
  {seen : Nat → Bool}

def distinct (seen : Nat → Bool) : List Place → List Place
  | [] => []
  | s :: rest =>
    if seen s.index then distinct seen rest
    else s :: distinct (fun i => i == s.index || seen i) rest

def seenAfter (seen : Nat → Bool) (places : List Place) : Nat → Bool :=
  fun i => (places.map index).contains i || seen i

theorem seenAfter_iff {i : Nat} :
    seenAfter seen l i = true ↔ i ∈ l.map index ∨ seen i = true := by
  rw [seenAfter, Bool.or_eq_true, List.contains_iff_mem]

theorem seenAfter_cons_of_seen (h : seen s.index = true) (l : List Place) :
    seenAfter seen (s :: l) = seenAfter seen l := by
  funext i
  rw [Bool.eq_iff_iff, seenAfter_iff, seenAfter_iff, List.map_cons, List.mem_cons]
  constructor
  · rintro ((rfl | later) | before)
    · exact .inr h
    · exact .inl later
    · exact .inr before
  · exact .imp_left .inr

theorem seenAfter_cons (seen : Nat → Bool) (s : Place) (l : List Place) :
    seenAfter seen (s :: l) = seenAfter (fun i => i == s.index || seen i) l := by
  funext i
  rw [Bool.eq_iff_iff, seenAfter_iff, seenAfter_iff, List.map_cons, List.mem_cons,
    Bool.or_eq_true, beq_iff_eq, or_assoc, or_left_comm]

theorem distinct_append (seen : Nat → Bool) (l m : List Place) :
    distinct seen (l ++ m) = distinct seen l ++ distinct (seenAfter seen l) m := by
  induction l generalizing seen with
  | nil => rfl
  | cons s rest ih =>
    rw [List.cons_append, distinct, distinct]
    by_cases h : seen s.index = true
    · rw [if_pos h, if_pos h, ih, seenAfter_cons_of_seen h]
    · rw [if_neg h, if_neg h, ih, seenAfter_cons, List.cons_append]

theorem distinct_eq_nil (h : ∀ s ∈ l, seen s.index = true) : distinct seen l = [] := by
  induction l generalizing seen with
  | nil => rfl
  | cons s rest ih =>
    rw [distinct, if_pos (h s List.mem_cons_self)]
    exact ih fun t ht => h t (List.mem_cons_of_mem s ht)

theorem distinct_nodup (h : (l.map index).Nodup) :
    distinct seen l = l.filter fun s => ! seen s.index := by
  induction l generalizing seen with
  | nil => rfl
  | cons s rest ih =>
    rw [List.map_cons, List.nodup_cons] at h
    have later : (rest.filter fun t => ! (t.index == s.index || seen t.index)) =
        rest.filter fun t => ! seen t.index := by
      apply List.filter_congr
      intro t ht
      have other : t.index ≠ s.index := fun same => h.1 (same ▸ List.mem_map_of_mem ht)
      rw [beq_eq_false_iff_ne.2 other, Bool.false_or]
    rw [distinct]
    by_cases hs : seen s.index = true
    · rw [if_pos hs, ih h.2, List.filter_cons_of_neg (by simp [hs])]
    · rw [if_neg hs, ih h.2, later, List.filter_cons_of_pos (by simp [hs])]

theorem distinct_distinct {skip : Nat → Bool} (l : List Place)
    (h : ∀ i, skip i = true → seen i = true) : distinct seen (distinct skip l) = distinct seen l := by
  induction l generalizing skip seen with
  | nil => rfl
  | cons s rest ih =>
    rw [distinct.eq_2 skip, distinct.eq_2 seen]
    by_cases hk : skip s.index = true
    · rw [if_pos hk, if_pos (h _ hk), ih h]
    rw [if_neg hk, distinct]
    by_cases hs : seen s.index = true
    · rw [if_pos hs, if_pos hs]
      apply ih
      intro i hi
      rw [Bool.or_eq_true, beq_iff_eq] at hi
      obtain rfl | skipped := hi
      · exact hs
      · exact h i skipped
    · rw [if_neg hs, if_neg hs, ih]
      intro i hi
      rw [Bool.or_eq_true] at hi ⊢
      exact hi.imp_right (h i)

/-- The lists are equal up to repetitions. -/
def Similar (l m : List Place) : Prop := ∀ seen, distinct seen l = distinct seen m

theorem Similar.refl (l : List Place) : Similar l l := fun _ => rfl

theorem Similar.of_eq (h : l = m) : Similar l m := h ▸ .refl l

theorem Similar.trans (h : Similar l m) (k : Similar m n) : Similar l n :=
  fun seen => (h seen).trans (k seen)

theorem similar_distinct (l : List Place) : Similar (distinct (fun _ => false) l) l :=
  fun _ => distinct_distinct l nofun

theorem mem_of_mem_distinct (h : s ∈ distinct seen l) : s ∈ l := by
  induction l generalizing seen with
  | nil => exact h
  | cons t rest ih =>
    rw [distinct] at h
    split at h
    · exact List.mem_cons_of_mem t (ih h)
    · obtain rfl | later := List.mem_cons.1 h
      · exact List.mem_cons_self
      · exact List.mem_cons_of_mem t (ih later)

theorem mem_index_distinct_iff (seen : Nat → Bool) (l : List Place) (i : Nat) :
    i ∈ (distinct seen l).map index ∨ seen i = true ↔ i ∈ l.map index ∨ seen i = true := by
  induction l generalizing seen with
  | nil => rfl
  | cons s rest ih =>
    rw [distinct, List.map_cons, List.mem_cons]
    by_cases hs : seen s.index = true
    · rw [if_pos hs, ih]
      constructor
      · exact .imp_left .inr
      · rintro ((rfl | later) | before)
        · exact .inr hs
        · exact .inl later
        · exact .inr before
    · have later := ih fun i => i == s.index || seen i
      rw [Bool.or_eq_true, beq_iff_eq] at later
      rw [if_neg hs, List.map_cons, List.mem_cons, or_assoc, or_assoc, or_left_comm, later,
        or_left_comm]

theorem Similar.seenAfter_eq (h : Similar l m) (seen : Nat → Bool) :
    seenAfter seen l = seenAfter seen m := by
  have index_mem (n : List Place) (i : Nat) :
      i ∈ (distinct (fun _ => false) n).map index ↔ i ∈ n.map index := by
    simpa using mem_index_distinct_iff (fun _ => false) n i
  funext i
  rw [Bool.eq_iff_iff, seenAfter_iff, seenAfter_iff, ← index_mem l, h, index_mem m]

theorem Similar.append (h : Similar l l') (k : Similar m m') : Similar (l ++ m) (l' ++ m') := by
  intro seen
  rw [distinct_append, distinct_append, h, h.seenAfter_eq, k]

theorem Similar.head? (h : Similar l m) : l.head? = m.head? := by
  have first (n : List Place) : (distinct (fun _ => false) n).head? = n.head? := by
    cases n <;> rfl
  rw [← first l, h, first m]

theorem similar_flatMap {f g : Place → List Place} (h : ∀ s ∈ l, Similar (f s) (g s)) :
    Similar (l.flatMap f) (l.flatMap g) := by
  induction l with
  | nil => exact .refl _
  | cons s rest ih =>
    rw [List.flatMap_cons, List.flatMap_cons]
    exact (h s List.mem_cons_self).append (ih fun t ht => h t (List.mem_cons_of_mem s ht))

def Coherent (f : Place → List Place) (l : List Place) : Prop :=
  ∀ s ∈ l, ∀ t ∈ l, s.index = t.index → (f s).map index = (f t).map index

theorem distinct_flatMap {f : Place → List Place} (l : List Place) (skip seen : Nat → Bool)
    (coherent : Coherent f l)
    (h : ∀ s ∈ l, skip s.index = true → ∀ t ∈ f s, seen t.index = true) :
    distinct seen (l.flatMap f) = distinct seen ((distinct skip l).flatMap f) := by
  induction l generalizing skip seen with
  | nil => rfl
  | cons s rest ih =>
    have coherent' : Coherent f rest := fun x hx y hy =>
      coherent x (List.mem_cons_of_mem s hx) y (List.mem_cons_of_mem s hy)
    have later {t : Place} (ht : t ∈ rest) := h t (List.mem_cons_of_mem s ht)
    rw [distinct.eq_2 skip, List.flatMap_cons, distinct_append]
    by_cases hk : skip s.index = true
    · have known := h s List.mem_cons_self hk
      have same : seenAfter seen (f s) = seen := by
        funext i
        rw [Bool.eq_iff_iff, seenAfter_iff, or_iff_right_iff_imp]
        intro hi
        obtain ⟨t, ht, rfl⟩ := List.mem_map.1 hi
        exact known t ht
      rw [if_pos hk, distinct_eq_nil known, same, List.nil_append]
      exact ih skip seen coherent' fun t ht => later ht
    · rw [if_neg hk, List.flatMap_cons, distinct_append]
      congr 1
      apply ih _ _ coherent'
      intro t ht hkt u hu
      rw [Bool.or_eq_true, beq_iff_eq] at hkt
      rw [seenAfter_iff]
      -- a place with the index of `s` leads where `s` leads
      obtain same | skipped := hkt
      · rw [← coherent t (List.mem_cons_of_mem s ht) s List.mem_cons_self same]
        exact .inl (List.mem_map_of_mem hu)
      · exact .inr (later ht skipped u hu)

theorem Similar.flatMap {f : Place → List Place} (h : Similar l m) (hl : Coherent f l)
    (hm : Coherent f m) : Similar (l.flatMap f) (m.flatMap f) := by
  intro seen
  rw [distinct_flatMap l (fun _ => false) seen hl fun _ _ => nofun,
    distinct_flatMap m (fun _ => false) seen hm fun _ _ => nofun, h]

/-- `seen` holds, with a place of the text, every stride from it. -/
def Closed (text : List Char) (d e : Nat) (accepts : Char → Bool) (seen : Nat → Bool) : Prop :=
  ∀ s : Place, s.IsIn text d e → seen s.index = true →
    ∀ t ∈ s.strides accepts, seen t.index = true

theorem closed_empty : Closed text d e accepts ({} : Std.HashSet Nat).contains := by
  intro s _ h
  simp at h

theorem freshStrides_eq {seen : Std.HashSet Nat} (closed : Closed text d e accepts seen.contains)
    (after : List Char) (s : Place) (nearer : List Place) (hs : s.IsIn text d e)
    (ha : s.after = after) : s.freshStrides accepts seen nearer after =
      ((s.stridesOver accepts after).filter fun t => ! seen.contains t.index).reverse ++
        nearer := by
  induction after generalizing s nearer with
  | nil =>
    rw [freshStrides, stridesOver]
    by_cases h : seen.contains s.index = true <;> simp [h]
  | cons c rest ih =>
    rw [freshStrides]
    by_cases h : seen.contains s.index = true
    · have known : ∀ t ∈ s.stridesOver accepts (c :: rest), seen.contains t.index = true := by
        rw [← ha]
        exact closed s hs h
      have none : (s.stridesOver accepts (c :: rest)).filter (! seen.contains ·.index) = [] := by
        rw [List.filter_eq_nil_iff]
        intro t ht
        simp [known t ht]
      rw [if_pos h, none]
      rfl
    · rw [if_neg h, stridesOver]
      by_cases hc : accepts c = true
      · simp [h, hc, ih _ _ (isIn_pass hs ha) rfl]
      · simp [h, hc]

theorem contains_insertAll (seen : Std.HashSet Nat) (l : List Place) :
    (l.foldl (fun seen t => seen.insert t.index) seen).contains = seenAfter seen.contains l := by
  induction l generalizing seen with
  | nil => rfl
  | cons s rest ih =>
    have inserted : (seen.insert s.index).contains = fun i => i == s.index || seen.contains i := by
      funext i
      rw [Std.HashSet.contains_insert, Bool.beq_comm]
    rw [List.foldl_cons, ih, inserted, seenAfter_cons]

variable {appetite : Appetite} {t : Place}

theorem mem_run_ends : t ∈ (Pattern.run appetite accepts).ends s ↔ t ∈ s.strides accepts := by
  cases appetite with
  | least => rfl
  | most => exact List.mem_reverse

theorem index_nodup_run_ends (appetite : Appetite) (accepts : Char → Bool) (s : Place) :
    (((Pattern.run appetite accepts).ends s).map index).Nodup := by
  have strides := index_nodup_stridesOver accepts s.after s
  cases appetite with
  | least => exact strides
  | most =>
    rw [Pattern.ends, List.map_reverse]
    exact List.pairwise_reverse.2 (strides.imp Ne.symm)

theorem Closed.seenAfter (closed : Closed text d e accepts seen) (hs : s.IsIn text d e)
    (appetite : Appetite) :
    Closed text d e accepts (seenAfter seen ((Pattern.run appetite accepts).ends s)) := by
  intro u hu h t ht
  rw [seenAfter_iff] at h ⊢
  obtain here | before := h
  · obtain ⟨v, hv, same⟩ := List.mem_map.1 here
    rw [mem_run_ends] at hv
    have strides := index_strides_of_index_eq accepts (isIn_strides hs hv) hu same
    obtain ⟨w, hw, index⟩ := List.mem_map.1 (strides ▸ List.mem_map_of_mem ht)
    exact .inl (List.mem_map.2 ⟨w, mem_run_ends.2 (strides_subset rfl hv w hw), index⟩)
  · exact .inr (closed u hu before t ht)

theorem inOrder_freshStrides {seen : Std.HashSet Nat}
    (closed : Closed text d e accepts seen.contains) (hs : s.IsIn text d e) :
    Pattern.inOrder appetite (s.freshStrides accepts seen [] s.after) =
      ((Pattern.run appetite accepts).ends s).filter fun t => ! seen.contains t.index := by
  rw [freshStrides_eq closed s.after s [] hs rfl, List.append_nil]
  cases appetite with
  | least => exact List.reverse_reverse _
  | most =>
    rw [Pattern.ends, List.filter_reverse]
    rfl

theorem seenAfter_freshStrides {seen : Std.HashSet Nat}
    (closed : Closed text d e accepts seen.contains) (hs : s.IsIn text d e) :
    seenAfter seen.contains (s.freshStrides accepts seen [] s.after) =
      seenAfter seen.contains ((Pattern.run appetite accepts).ends s) := by
  funext i
  rw [freshStrides_eq closed s.after s [] hs rfl, List.append_nil, Bool.eq_iff_iff, seenAfter_iff,
    seenAfter_iff, List.mem_map, List.mem_map]
  constructor
  · rintro (⟨t, ht, same⟩ | before)
    · rw [List.mem_reverse, List.mem_filter] at ht
      exact .inl ⟨t, mem_run_ends.2 ht.1, same⟩
    · exact .inr before
  · rintro (⟨t, ht, rfl⟩ | before)
    · by_cases known : seen.contains t.index = true
      · exact .inr known
      · refine .inl ⟨t, List.mem_reverse.2 (List.mem_filter.2 ⟨mem_run_ends.1 ht, ?_⟩), rfl⟩
        simpa using known
    · exact .inr before

theorem runs_eq {seen : Std.HashSet Nat} (closed : Closed text d e accepts seen.contains)
    (hl : ∀ s ∈ l, s.IsIn text d e) : Pattern.runs appetite accepts seen l =
      distinct seen.contains (l.flatMap (Pattern.run appetite accepts).ends) := by
  induction l generalizing seen with
  | nil => rfl
  | cons s rest ih =>
    have hs := hl s List.mem_cons_self
    have strides : seenAfter seen.contains (s.freshStrides accepts seen [] s.after) =
        seenAfter seen.contains ((Pattern.run appetite accepts).ends s) :=
      seenAfter_freshStrides closed hs
    have after :=
      (contains_insertAll seen (s.freshStrides accepts seen [] s.after)).trans strides
    have later : Pattern.runs appetite accepts
        ((s.freshStrides accepts seen [] s.after).foldl (fun seen t => seen.insert t.index) seen)
        rest = distinct (seenAfter seen.contains ((Pattern.run appetite accepts).ends s))
          (rest.flatMap (Pattern.run appetite accepts).ends) := by
      rw [← after]
      apply ih
      · rw [after]
        exact closed.seenAfter hs appetite
      · exact fun t ht => hl t (List.mem_cons_of_mem s ht)
    rw [List.flatMap_cons, distinct_append, distinct_nodup (index_nodup_run_ends _ _ _),
      ← inOrder_freshStrides closed hs, Pattern.runs]
    split
    · next last =>
      rw [List.isEmpty_iff.1 last]
      exact (List.append_nil _).symm
    · rw [later]

theorem similar_runs (appetite : Appetite) (accepts : Char → Bool)
    (hl : ∀ s ∈ l, s.IsIn text d e) : Similar (Pattern.runs appetite accepts {} l)
      (l.flatMap (Pattern.run appetite accepts).ends) := by
  have none : ({} : Std.HashSet Nat).contains = fun _ => false := by
    funext i
    simp
  rw [runs_eq closed_empty hl, none]
  exact similar_distinct _

end Frontier

namespace Pattern
open Place Frontier

variable {text : List Char} {d e : Nat} {appetite : Appetite} {accepts : Char → Bool}
  {body : Place → List Place} {s t : Place} {l : List Place}

theorem repeatedOnto_eq (appetite : Appetite) (body : Place → List Place) (rounds : Nat)
    (s : Place) (later : List Place) :
    repeatedOnto appetite body rounds s later = repeated appetite body rounds s ++ later := by
  induction rounds generalizing s later with
  | zero => rfl
  | succ rounds ih =>
    have fold (l later : List Place) : l.foldr (repeatedOnto appetite body rounds) later =
        l.flatMap (repeated appetite body rounds) ++ later := by
      induction l with
      | nil => rfl
      | cons t l ihl => rw [List.foldr_cons, ihl, ih, List.flatMap_cons, List.append_assoc]
    cases appetite <;> simp [repeatedOnto, repeated, fold]

theorem isIn_repeated
    (hb : ∀ s : Place, s.IsIn text d e → ∀ t ∈ body s, t.IsIn text d e) (rounds : Nat)
    (hs : s.IsIn text d e) (h : t ∈ repeated appetite body rounds s) : t.IsIn text d e := by
  induction rounds generalizing s with
  | zero =>
    rw [List.mem_singleton.1 h]
    exact hs
  | succ rounds ih =>
    have further (ht : t ∈ (body s).flatMap (repeated appetite body rounds)) :
        t.IsIn text d e := by
      obtain ⟨u, hu, ht⟩ := List.mem_flatMap.1 ht
      exact ih (hb s hs u hu) ht
    cases appetite with
    | most =>
      obtain ht | ht := List.mem_append.1 h
      · exact further ht
      · rw [List.mem_singleton.1 ht]
        exact hs
    | least =>
      obtain rfl | ht := List.mem_cons.1 h
      · exact hs
      · exact further ht

theorem isIn_ends (p : Pattern) (hs : s.IsIn text d e) (h : t ∈ p.ends s) : t.IsIn text d e := by
  induction p generalizing s t with
  | nothing =>
    rw [List.mem_singleton.1 h]
    exact hs
  | one accepts => exact isIn_step? hs (Option.mem_toList.1 h)
  | run appetite accepts => exact isIn_strides hs (mem_run_ends.1 h)
  | seq first second ih₁ ih₂ =>
    obtain ⟨u, hu, ht⟩ := List.mem_flatMap.1 h
    exact ih₂ (ih₁ hs hu) ht
  | alt first second ih₁ ih₂ =>
    obtain h | h := List.mem_append.1 h
    · exact ih₁ hs h
    · exact ih₂ hs h
  | many appetite body ih => exact isIn_repeated (fun _ hs _ ht => ih hs ht) _ hs h
  | wordEdge =>
    rw [ends, List.mem_ite_nil_right, List.mem_singleton] at h
    rw [h.2]
    exact hs
  | lineStart =>
    rw [ends, List.mem_ite_nil_right, List.mem_singleton] at h
    rw [h.2]
    exact hs
  | captureStart =>
    rw [List.mem_singleton.1 h]
    exact hs
  | captureEnd =>
    rw [List.mem_singleton.1 h]
    exact hs

theorem map_bare_flatMap {f : Place → List Place}
    (hf : ∀ s : Place, (f s.bare).map bare = (f s).map bare) (l : List Place) :
    (l.flatMap f).map bare = (l.map bare).flatMap fun t => (f t).map bare := by
  rw [List.map_flatMap, List.flatMap_map]
  congr 1
  funext t
  exact (hf t).symm

theorem bare_repeated (hb : ∀ s : Place, (body s.bare).map bare = (body s).map bare)
    (rounds : Nat) (s : Place) : (repeated appetite body rounds s.bare).map bare =
      (repeated appetite body rounds s).map bare := by
  induction rounds generalizing s with
  | zero => rfl
  | succ rounds ih =>
    have further : ((body s.bare).flatMap (repeated appetite body rounds)).map bare =
        ((body s).flatMap (repeated appetite body rounds)).map bare := by
      rw [map_bare_flatMap ih, map_bare_flatMap ih, hb]
    have twice : bare s.bare = bare s := rfl
    cases appetite <;> simp [repeated, further, twice]

/-- What was captured before has no influence on where a pattern ends. -/
theorem bare_ends (p : Pattern) (s : Place) : (p.ends s.bare).map bare = (p.ends s).map bare := by
  induction p generalizing s with
  | nothing | captureStart | captureEnd => rfl
  | one accepts =>
    rw [ends, ends, ← Option.toList_map, ← Option.toList_map, bare_step?]
  | run appetite accepts => cases appetite <;> simp [ends, bare_strides]
  | seq first second ih₁ ih₂ =>
    rw [ends, ends, map_bare_flatMap ih₂, map_bare_flatMap ih₂, ih₁]
  | alt first second ih₁ ih₂ => simp [ends, ih₁, ih₂]
  | many appetite body ih => exact bare_repeated ih _ s
  | wordEdge =>
    rw [ends, ends, show s.bare.atWordEdge = s.atWordEdge from rfl]
    split <;> rfl
  | lineStart =>
    rw [ends, ends, show s.bare.atLineStart = s.atLineStart from rfl]
    split <;> rfl

theorem coherent_of_bare {f : Place → List Place}
    (hf : ∀ s : Place, (f s.bare).map bare = (f s).map bare) (hl : ∀ s ∈ l, s.IsIn text d e) :
    Coherent f l := by
  intro s hs t ht same
  have blind : index = index ∘ bare := rfl
  rw [blind, ← List.map_map, ← List.map_map, ← hf s, ← hf t,
    bare_eq_of_isIn (hl s hs) (hl t ht) same]

theorem similar_repeated (p : Pattern)
    (hb : ∀ s : Place, s.IsIn text d e → Similar (body s) (p.ends s))
    (mb : ∀ s : Place, s.IsIn text d e → ∀ t ∈ body s, t.IsIn text d e)
    (rounds : Nat) (hs : s.IsIn text d e) :
    Similar (repeated appetite body rounds s) (repeated appetite p.ends rounds s) := by
  induction rounds generalizing s with
  | zero => exact .refl _
  | succ rounds ih =>
    have inside : ∀ t ∈ p.ends s, t.IsIn text d e := fun t ht => isIn_ends p hs ht
    have blind : ∀ t : Place, (repeated appetite p.ends rounds t.bare).map bare =
        (repeated appetite p.ends rounds t).map bare := bare_repeated (bare_ends p) rounds
    have each : Similar ((body s).flatMap (repeated appetite body rounds))
        ((body s).flatMap (repeated appetite p.ends rounds)) :=
      similar_flatMap fun t ht => ih (mb s hs t ht)
    have further : Similar ((body s).flatMap (repeated appetite body rounds))
        ((p.ends s).flatMap (repeated appetite p.ends rounds)) :=
      each.trans ((hb s hs).flatMap (coherent_of_bare blind (mb s hs))
        (coherent_of_bare blind inside))
    cases appetite with
    | most => exact further.append (.refl _)
    | least => exact Similar.append (l := [s]) (.refl _) further

theorem isIn_runs (hl : ∀ s ∈ l, s.IsIn text d e) (h : t ∈ runs appetite accepts {} l) :
    t.IsIn text d e := by
  rw [runs_eq closed_empty hl] at h
  obtain ⟨s, hs, ht⟩ := List.mem_flatMap.1 (mem_of_mem_distinct h)
  exact isIn_ends _ (hl s hs) ht

theorem reach_many (appetite : Appetite) (body : Pattern) (l : List Place) :
    (many appetite body).reach l =
      l.flatMap fun s => repeated appetite (fun t => body.reach [t]) s.after.length s := by
  rw [reach]
  induction l with
  | nil => rfl
  | cons s rest ih => rw [List.foldr_cons, ih, repeatedOnto_eq, List.flatMap_cons]

theorem isIn_reach (p : Pattern) (hl : ∀ s ∈ l, s.IsIn text d e) (h : t ∈ p.reach l) :
    t.IsIn text d e := by
  induction p generalizing l t with
  | nothing => exact hl t h
  | one accepts =>
    obtain ⟨s, hs, ht⟩ := List.mem_filterMap.1 h
    exact isIn_step? (hl s hs) ht
  | run appetite accepts => exact isIn_runs hl h
  | seq first second ih₁ ih₂ =>
    rw [reach] at h
    split at h
    · cases h
    · exact ih₂ (fun s hs => ih₁ hl hs) h
  | alt first second ih₁ ih₂ =>
    obtain ⟨s, hs, ht⟩ := List.mem_flatMap.1 h
    have alone : ∀ u ∈ [s], u.IsIn text d e := List.forall_mem_singleton.2 (hl s hs)
    obtain ht | ht := List.mem_append.1 ht
    · exact ih₁ alone ht
    · exact ih₂ alone ht
  | many appetite body ih =>
    rw [reach_many] at h
    obtain ⟨s, hs, ht⟩ := List.mem_flatMap.1 h
    exact isIn_repeated (fun u hu v hv => ih (List.forall_mem_singleton.2 hu) hv) _ (hl s hs) ht
  | wordEdge => exact hl t (List.mem_filter.1 h).1
  | lineStart => exact hl t (List.mem_filter.1 h).1
  | captureStart =>
    obtain ⟨s, hs, rfl⟩ := List.mem_map.1 h
    exact hl s hs
  | captureEnd =>
    obtain ⟨s, hs, rfl⟩ := List.mem_map.1 h
    exact hl s hs

theorem flatMap_guard (holds : Place → Bool) (l : List Place) :
    (l.flatMap fun s => if holds s then [s] else []) = l.filter holds := by
  induction l with
  | nil => rfl
  | cons s rest ih => by_cases h : holds s <;> simp [h, ih]

theorem similar_reach (p : Pattern) (hl : ∀ s ∈ l, s.IsIn text d e) :
    Similar (p.reach l) (l.flatMap p.ends) := by
  induction p generalizing l with
  | nothing => exact .of_eq (List.flatMap_singleton' l).symm
  | one accepts => exact .of_eq (List.filterMap_eq_flatMap_toList (Place.step? accepts) l)
  | run appetite accepts => exact similar_runs appetite accepts hl
  | seq first second ih₁ ih₂ =>
    have reached : ∀ t ∈ first.reach l, t.IsIn text d e := fun t ht => isIn_reach first hl ht
    have onwards : (seq first second).reach l = second.reach (first.reach l) := by
      rw [reach]
      split
      · next none =>
        have nothing_left : Similar (second.reach []) [] := ih₂ (List.forall_mem_nil _)
        rw [none]
        exact (List.head?_eq_none_iff.1 nothing_left.head?).symm
      · rfl
    have flat : l.flatMap (seq first second).ends = (l.flatMap first.ends).flatMap second.ends :=
      List.flatMap_assoc.symm
    have inside : ∀ s ∈ l.flatMap first.ends, s.IsIn text d e := by
      intro s hs
      obtain ⟨t, ht, hs⟩ := List.mem_flatMap.1 hs
      exact isIn_ends first (hl t ht) hs
    rw [onwards, flat]
    exact (ih₂ reached).trans ((ih₁ hl).flatMap (coherent_of_bare (bare_ends second) reached)
      (coherent_of_bare (bare_ends second) inside))
  | alt first second ih₁ ih₂ =>
    refine similar_flatMap fun s hs => ?_
    have alone : ∀ t ∈ [s], t.IsIn text d e := List.forall_mem_singleton.2 (hl s hs)
    have left := ih₁ alone
    have right := ih₂ alone
    rw [List.flatMap_singleton] at left right
    exact left.append right
  | many appetite body ih =>
    rw [reach_many]
    refine similar_flatMap fun s hs => similar_repeated body ?_ ?_ _ (hl s hs)
    · intro t ht
      have once := ih (List.forall_mem_singleton.2 ht)
      rwa [List.flatMap_singleton] at once
    · intro t ht u hu
      exact isIn_reach body (List.forall_mem_singleton.2 ht) hu
  | wordEdge => exact .of_eq (flatMap_guard atWordEdge l).symm
  | lineStart => exact .of_eq (flatMap_guard atLineStart l).symm
  | captureStart => exact .of_eq List.map_eq_flatMap
  | captureEnd => exact .of_eq List.map_eq_flatMap

theorem head?_reach (p : Pattern) (s : Place) : (p.reach [s]).head? = (p.ends s).head? := by
  have once := similar_reach p (List.forall_mem_singleton.2 (isIn_self s))
  rw [List.flatMap_singleton] at once
  exact once.head?

/-- The match at a place is the preferred end of the pattern from there. -/
theorem matchAt?_eq (p : Pattern) (s : Place) :
    p.matchAt? s = (p.ends s.bare).head?.map fun t => ⟨s, t⟩ := by
  rw [matchAt?, head?_reach]
  rfl

end Pattern
end SolidityVetting
