import SolidityVetting.Version

set_option autoImplicit false

namespace SolidityVetting
open Text

namespace Version

theorem words_cons_of_blank {b : Char} (hb : isBlank b = true) (s : List Char) :
    words (b :: s) = words s := by
  unfold words
  rw [pieces, if_pos hb]
  simp

theorem firstAlternative_cons {c : Char} (hc : c ≠ '|') (s : List Char) :
    firstAlternative (c :: s) = c :: firstAlternative s := by
  rw [firstAlternative]
  intro rest h
  exact absurd h hc

theorem ofConstraint?_append_of_blank {lead : List Char} (h : ∀ b ∈ lead, isBlank b = true)
    (s : List Char) : ofConstraint? (lead ++ s) = ofConstraint? s := by
  induction lead with
  | nil => rfl
  | cons b lead ih =>
    have hb : isBlank b = true := h b List.mem_cons_self
    have bar : b ≠ '|' := by
      rintro rfl
      revert hb
      decide
    have step : ofConstraint? (b :: (lead ++ s)) = ofConstraint? (lead ++ s) := by
      unfold ofConstraint?
      rw [firstAlternative_cons bar, words_cons_of_blank hb]
    rw [List.cons_append, step]
    exact ih fun c hc => h c (List.mem_cons_of_mem b hc)

theorem isSupported_iff (v : Version) : v.isSupported = true ↔ ¬ v < minimum := decide_eq_true_iff

theorem lt_iff (v w : Version) : v < w ↔ v.major < w.major ∨
    v.major = w.major ∧ (v.minor < w.minor ∨ v.minor = w.minor ∧ v.patch < w.patch) := .rfl

theorem isSupported_of_not_lt {v w : Version} (h : ¬ w < v) (hv : v.isSupported = true) :
    w.isSupported = true := by
  rw [isSupported_iff, lt_iff] at *
  omega

theorem not_lt_of_lt {v w : Version} (h : v < w) : ¬ w < v := by
  rw [lt_iff] at *
  omega

theorem le_of_lt {v w : Version} (h : v < w) : v ≤ w := not_lt_of_lt h

theorem lt_of_lt_of_le {u v w : Version} (h : u < v) (h' : v ≤ w) : u < w := by
  change ¬ w < v at h'
  rw [lt_iff] at *
  omega

theorem le_refl (v : Version) : v ≤ v := fun h => not_lt_of_lt h h

theorem le_antisymm {v w : Version} (h : v ≤ w) (h' : w ≤ v) : v = w := by
  change ¬ w < v at h
  change ¬ v < w at h'
  obtain ⟨major, minor, patch⟩ := v
  obtain ⟨major', minor', patch'⟩ := w
  rw [lt_iff] at h h'
  simp only [mk.injEq] at *
  omega

def Accepts (constraint : List Char) : Prop :=
  ∃ v, ofConstraint? constraint = some v ∧ v.isSupported = true

theorem accepts_iff (constraint : List Char) : Accepts constraint ↔
    ofConstraint? constraint ≠ none ∧
      ∀ v, ofConstraint? constraint = some v → v.isSupported = true := by
  unfold Accepts
  cases ofConstraint? constraint <;> simp

theorem accepts_append_of_blank {lead : List Char} (h : ∀ b ∈ lead, isBlank b = true)
    (s : List Char) : Accepts (lead ++ s) ↔ Accepts s := by
  unfold Accepts
  rw [ofConstraint?_append_of_blank h]

end Version
end SolidityVetting
