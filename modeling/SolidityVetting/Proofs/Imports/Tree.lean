import SolidityVetting.Imports.Tree

set_option autoImplicit false

namespace SolidityVetting.Tree

variable {t : Tree} {segments : List (List Char)} {bytes : List UInt8}

def names (segments : List (List Char)) : List String :=
  (segments.filter (! staysHere ·)).map String.ofList

def namesIn (path : String) : List String := names (Import.segments path.toList)

/-- Following the names from directory to directory leads to a file of these bytes. -/
inductive Holds (bytes : List UInt8) : Tree → List String → Prop where
  | here : Holds bytes (.file bytes) []
  | inside {entries : List (String × Tree)} {name : String} {inner : Tree} {rest : List String} :
      entry? name entries = some inner → Holds bytes inner rest →
      Holds bytes (.directory entries) (name :: rest)

inductive Misses : Tree → List String → Prop where
  | here {entries : List (String × Tree)} {name : String} {rest : List String} :
      entry? name entries = none → Misses (.directory entries) (name :: rest)
  | inside {entries : List (String × Tree)} {name : String} {inner : Tree} {rest : List String} :
      entry? name entries = some inner → Misses inner rest →
      Misses (.directory entries) (name :: rest)

theorem names_append (front back : List (List Char)) :
    names (front ++ back) = names front ++ names back := by
  unfold names
  rw [List.filter_append, List.map_append]

theorem names_cons_of_stays {segment : List Char} (h : staysHere segment = true) :
    names (segment :: segments) = names segments := by
  unfold names
  rw [List.filter_cons_of_neg (by simp [h])]

theorem names_cons_of_named {segment : List Char} (h : ¬ staysHere segment = true) :
    names (segment :: segments) = String.ofList segment :: names segments := by
  unfold names
  rw [List.filter_cons_of_pos (by simp [h]), List.map_cons]

theorem walk_cons {segment : List Char} (h : t.walk (segment :: segments) ≠ .unreadable) :
    ∃ entries, t = .directory entries ∧
      ((staysHere segment = true ∧ t.walk (segment :: segments) = t.walk segments) ∨
        (¬ staysHere segment = true ∧ entry? (String.ofList segment) entries = none ∧
          t.walk (segment :: segments) = .missing) ∨
        (¬ staysHere segment = true ∧ ∃ inner,
          entry? (String.ofList segment) entries = some inner ∧
          t.walk (segment :: segments) = inner.walk segments)) := by
  cases t with
  | file => exact absurd rfl h
  | directory entries =>
    refine ⟨entries, rfl, ?_⟩
    rw [walk] at h ⊢
    by_cases stays : staysHere segment = true
    · exact .inl ⟨stays, if_pos stays⟩
    · rw [if_neg stays] at h ⊢
      split at h
      · exact absurd rfl h
      · next short =>
        rw [if_neg short]
        cases found : entry? (String.ofList segment) entries with
        | none => exact .inr (.inl ⟨stays, rfl, rfl⟩)
        | some inner => exact .inr (.inr ⟨stays, inner, rfl, rfl⟩)

theorem holds_of_walk (h : t.walk segments = .file bytes) : Holds bytes t (names segments) := by
  induction segments generalizing t with
  | nil =>
    cases t with
    | file => cases h; exact .here
    | directory => cases h
  | cons segment rest ih =>
    obtain ⟨entries, rfl, ⟨stays, next⟩ | ⟨-, -, next⟩ | ⟨named, inner, found, next⟩⟩ :=
      walk_cons (by rw [h]; exact Opened.noConfusion)
    all_goals rw [next] at h
    · rw [names_cons_of_stays stays]
      exact ih h
    · cases h
    · rw [names_cons_of_named named]
      exact .inside found (ih h)

theorem misses_of_walk (h : t.walk segments = .missing) : Misses t (names segments) := by
  induction segments generalizing t with
  | nil => cases t <;> cases h
  | cons segment rest ih =>
    obtain ⟨entries, rfl, ⟨stays, next⟩ | ⟨named, absent, -⟩ | ⟨named, inner, found, next⟩⟩ :=
      walk_cons (by rw [h]; exact Opened.noConfusion)
    · rw [names_cons_of_stays stays]
      exact ih (next.symm.trans h)
    · rw [names_cons_of_named named]
      exact .here absent
    · rw [names_cons_of_named named]
      exact .inside found (ih (next.symm.trans h))

theorem names_ne_nil_of_walk (more : segments ≠ []) (h : t.walk segments = .file bytes) :
    names segments ≠ [] := by
  induction segments generalizing t with
  | nil => exact absurd rfl more
  | cons segment rest ih =>
    obtain ⟨entries, rfl, ⟨stays, next⟩ | ⟨-, -, next⟩ | ⟨named, -⟩⟩ :=
      walk_cons (by rw [h]; exact Opened.noConfusion)
    · rw [next] at h
      rw [names_cons_of_stays stays]
      -- a path that ends by staying in a directory opens no file
      refine ih ?_ h
      rintro rfl
      cases h
    · rw [next] at h
      cases h
    · rw [names_cons_of_named named]
      exact List.cons_ne_nil _ _

theorem names_ne_nil_of_walk_append {front back : List (List Char)} (more : back ≠ [])
    (h : t.walk (front ++ back) = .file bytes) : names back ≠ [] := by
  induction front generalizing t with
  | nil => exact names_ne_nil_of_walk more h
  | cons segment rest ih =>
    obtain ⟨entries, rfl, ⟨-, next⟩ | ⟨-, -, next⟩ | ⟨-, inner, -, next⟩⟩ :=
      walk_cons (by rw [List.cons_append] at h; rw [h]; exact Opened.noConfusion)
    · exact ih (next.symm.trans h)
    · cases next.symm.trans h
    · exact ih (next.symm.trans h)

theorem walk_of_openPath {longest : Nat} {root : Option Tree} {path : String}
    (h : openPath longest root path = .file bytes) :
    ∃ t, root = some t ∧ t.walk (Import.segments path.toList) = .file bytes := by
  unfold openPath at h
  split at h
  · cases h
  · cases root with
    | none => cases h
    | some t => exact ⟨t, rfl, h⟩

theorem misses_of_openPath {longest : Nat} {path : String}
    (h : openPath longest (some t) path = .missing) :
    Misses t (namesIn path) := by
  unfold openPath at h
  split at h
  · cases h
  · exact misses_of_walk h

end SolidityVetting.Tree
