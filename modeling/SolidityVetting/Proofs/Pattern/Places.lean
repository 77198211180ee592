import SolidityVetting.Pattern.Search

set_option autoImplicit false

namespace SolidityVetting.Place

variable {text after : List Char} {d e : Nat} {accepts : Char → Bool} {s t : Place}

def bare (s : Place) : Place := { s with captured := none }

/-- A place of this text, counted so that the index `e` stands behind `d` characters. -/
def IsIn (text : List Char) (d e : Nat) (s : Place) : Prop :=
  s.before.reverse ++ s.after = text ∧ s.before.length + e = s.index + d

theorem isIn_self (s : Place) :
    s.IsIn (s.before.reverse ++ s.after) s.before.length s.index := ⟨rfl, Nat.add_comm _ _⟩

theorem bare_eq_of_isIn (hs : s.IsIn text d e) (ht : t.IsIn text d e) (h : s.index = t.index) :
    s.bare = t.bare := by
  obtain ⟨hs, ks⟩ := hs
  obtain ⟨ht, kt⟩ := ht
  have lengths : s.before.reverse.length = t.before.reverse.length := by
    rw [List.length_reverse, List.length_reverse]
    omega
  obtain ⟨behind, ahead⟩ := List.append_inj (hs.trans ht.symm) lengths
  rw [bare, bare, List.reverse_inj.1 behind, ahead, h]

theorem isIn_pass {c : Char} {rest : List Char} (hs : s.IsIn text d e) (h : s.after = c :: rest) :
    (s.pass c rest).IsIn text d e := by
  obtain ⟨whole, count⟩ := hs
  constructor
  · rw [← whole, h]
    simp [pass]
  · change s.before.length + 1 + e = s.index + 1 + d
    omega

theorem isIn_step? (hs : s.IsIn text d e) (h : s.step? accepts = some t) : t.IsIn text d e := by
  unfold step? at h
  split at h
  · cases h
  · next c rest cut =>
    split at h
    · cases h
      exact isIn_pass hs cut
    · cases h

theorem isIn_stridesOver (hs : s.IsIn text d e) (ha : s.after = after)
    (h : t ∈ s.stridesOver accepts after) : t.IsIn text d e := by
  induction after generalizing s with
  | nil =>
    rw [List.mem_singleton.1 h]
    exact hs
  | cons c rest ih =>
    obtain rfl | further := List.mem_cons.1 h
    · exact hs
    · split at further
      · exact ih (isIn_pass hs ha) rfl further
      · cases further

theorem isIn_strides (hs : s.IsIn text d e) (h : t ∈ s.strides accepts) : t.IsIn text d e :=
  isIn_stridesOver hs rfl h

theorem bare_step? (accepts : Char → Bool) (s : Place) :
    (s.bare.step? accepts).map bare = (s.step? accepts).map bare := by
  obtain ⟨before, after, index, captured⟩ := s
  cases after with
  | nil => rfl
  | cons c rest =>
    simp only [bare, step?, pass]
    split <;> rfl

theorem bare_stridesOver (accepts : Char → Bool) (after : List Char) (s : Place) :
    (s.bare.stridesOver accepts after).map bare = (s.stridesOver accepts after).map bare := by
  induction after generalizing s with
  | nil => rfl
  | cons c rest ih =>
    simp only [stridesOver, List.map_cons]
    congr 1
    split
    · exact ih (s.pass c rest)
    · rfl

theorem bare_strides (accepts : Char → Bool) (s : Place) :
    (s.bare.strides accepts).map bare = (s.strides accepts).map bare :=
  bare_stridesOver accepts s.after s

theorem index_le_of_mem_stridesOver (h : t ∈ s.stridesOver accepts after) :
    s.index ≤ t.index := by
  induction after generalizing s with
  | nil => exact Nat.le_of_eq (congrArg index (List.mem_singleton.1 h).symm)
  | cons c rest ih =>
    obtain rfl | further := List.mem_cons.1 h
    · exact Nat.le_refl _
    · split at further
      · have later : s.index + 1 ≤ t.index := ih further
        omega
      · cases further

theorem index_nodup_stridesOver (accepts : Char → Bool) (after : List Char) (s : Place) :
    ((s.stridesOver accepts after).map index).Nodup := by
  induction after generalizing s with
  | nil => exact List.pairwise_singleton _ s.index
  | cons c rest ih =>
    rw [stridesOver, List.map_cons, List.nodup_cons]
    split
    · refine ⟨fun again => ?_, ih _⟩
      obtain ⟨t, ht, same⟩ := List.mem_map.1 again
      have later : s.index + 1 ≤ t.index := index_le_of_mem_stridesOver ht
      omega
    · exact ⟨List.not_mem_nil, List.nodup_nil⟩

theorem strides_subset (ha : s.after = after) (ht : t ∈ s.stridesOver accepts after) :
    ∀ u ∈ t.strides accepts, u ∈ s.stridesOver accepts after := by
  induction after generalizing s with
  | nil =>
    obtain rfl := List.mem_singleton.1 ht
    intro u hu
    rwa [strides, ha] at hu
  | cons c rest ih =>
    intro u hu
    obtain rfl | further := List.mem_cons.1 ht
    · rwa [strides, ha] at hu
    · rw [stridesOver]
      split at further
      · next accepted =>
        rw [if_pos accepted]
        exact List.mem_cons_of_mem s (ih rfl further u hu)
      · cases further

theorem index_strides_of_index_eq (accepts : Char → Bool) (hs : s.IsIn text d e)
    (ht : t.IsIn text d e) (h : s.index = t.index) :
    (s.strides accepts).map index = (t.strides accepts).map index := by
  have blind : index = index ∘ bare := rfl
  rw [blind, ← List.map_map, ← List.map_map, ← bare_strides accepts s, ← bare_strides accepts t,
    bare_eq_of_isIn hs ht h]

end SolidityVetting.Place
