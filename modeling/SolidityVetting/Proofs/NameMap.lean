import SolidityVetting.NameMap

set_option autoImplicit false

namespace SolidityVetting.NameMap

variable {α : Type}

theorem names_nodup (m : NameMap α) : m.names.Nodup :=
  List.pairwise_map.2 (m.ordered.imp String.ne_of_lt)

theorem entries_nodup (m : NameMap α) : m.entries.Nodup := by
  apply m.ordered.imp
  intro a b lt same
  exact String.ne_of_lt lt (congrArg Prod.fst same)

theorem lookup_eq_some_of_mem {entries : List (String × α)} {name : String} {value : α}
    (h : (entries.map (·.1)).Nodup) (hm : (name, value) ∈ entries) :
    entries.lookup name = some value := by
  induction entries with
  | nil => cases hm
  | cons entry rest ih =>
    rw [List.map_cons, List.nodup_cons] at h
    rw [List.lookup_cons]
    rcases List.mem_cons.1 hm with rfl | hm
    · rw [beq_self_eq_true]
    · have other : name ≠ entry.1 := by
        rintro rfl
        exact h.1 (List.mem_map.2 ⟨(entry.1, value), hm, rfl⟩)
      rw [beq_eq_false_iff_ne.2 other]
      exact ih h.2 hm

theorem mem_of_lookup_eq_some {entries : List (String × α)} {name : String} {value : α}
    (h : entries.lookup name = some value) : (name, value) ∈ entries := by
  rw [List.lookup_eq_some_iff] at h
  rcases h with ⟨front, back, rfl, -⟩
  exact List.mem_append_right front List.mem_cons_self

theorem get?_eq_some_iff (m : NameMap α) (name : String) (value : α) :
    m.get? name = some value ↔ (name, value) ∈ m.entries :=
  ⟨mem_of_lookup_eq_some, lookup_eq_some_of_mem m.names_nodup⟩

/-- The pairs of the map, each once, in the order of the names. -/
structure Lists (m : NameMap α) (pairs : List (String × α)) : Prop where
  mem (name : String) (value : α) : (name, value) ∈ pairs ↔ m.get? name = some value
  ordered : pairs.Pairwise fun a b => a.1 < b.1

theorem lists_iff (m : NameMap α) (pairs : List (String × α)) :
    m.Lists pairs ↔ pairs = m.entries := by
  constructor
  · intro h
    have distinct : pairs.Nodup := by
      apply h.ordered.imp
      intro a b lt same
      exact String.ne_of_lt lt (congrArg Prod.fst same)
    have same : pairs.Perm m.entries := by
      rw [List.perm_ext_iff_of_nodup distinct m.entries_nodup]
      intro entry
      rw [h.mem entry.1 entry.2, get?_eq_some_iff]
    refine List.Perm.eq_of_pairwise ?_ h.ordered m.ordered same
    intro a b _ _ lt gt
    exact absurd gt (String.lt_asymm lt)
  · rintro rfl
    exact ⟨fun name value => (m.get?_eq_some_iff name value).symm, m.ordered⟩

theorem mem_names_iff (m : NameMap α) (name : String) :
    name ∈ m.names ↔ ∃ value, m.get? name = some value := by
  unfold names
  rw [List.mem_map]
  constructor
  · rintro ⟨⟨name, value⟩, hm, rfl⟩
    exact ⟨value, (m.get?_eq_some_iff name value).2 hm⟩
  · rintro ⟨value, h⟩
    exact ⟨(name, value), (m.get?_eq_some_iff name value).1 h, rfl⟩

theorem mem_names_of_get? {m : NameMap α} {name : String} {value : α}
    (h : m.get? name = some value) : name ∈ m.names := (m.mem_names_iff name).2 ⟨value, h⟩

theorem contains_iff (m : NameMap α) (name : String) :
    m.contains name = true ↔ name ∈ m.names := by
  rw [mem_names_iff, contains, Option.isSome_iff_exists]

theorem mem_insertEntry_iff {name : String} {value : α} {entries : List (String × α)}
    (h : entries.Pairwise (fun a b => a.1 < b.1)) (entry : String × α) :
    entry ∈ insertEntry name value entries ↔
      entry = (name, value) ∨ entry ∈ entries ∧ entry.1 ≠ name := by
  induction entries with
  | nil => simp [insertEntry]
  | cons first rest ih =>
    rw [List.pairwise_cons] at h
    have behind : ∀ other ∈ rest, first.1 < other.1 := h.1
    unfold insertEntry
    split
    · next lt =>
      have others : ∀ other ∈ first :: rest, other.1 ≠ name := by
        intro other hm
        rcases List.mem_cons.1 hm with rfl | hm
        · exact (String.ne_of_lt lt).symm
        · exact (String.ne_of_lt (String.lt_trans lt (behind other hm))).symm
      rw [List.mem_cons]
      exact or_congr_right ⟨fun hm => ⟨hm, others entry hm⟩, And.left⟩
    split
    · next same =>
      subst same
      have others : ∀ other ∈ rest, other.1 ≠ first.1 :=
        fun other hm => (String.ne_of_lt (behind other hm)).symm
      rw [List.mem_cons, List.mem_cons]
      apply or_congr_right
      constructor
      · intro hm
        exact ⟨.inr hm, others entry hm⟩
      · rintro ⟨rfl | hm, ne⟩
        · exact absurd rfl ne
        · exact hm
    · next differs =>
      rw [List.mem_cons, ih h.2, List.mem_cons]
      constructor
      · rintro (rfl | rfl | hm)
        · exact .inr ⟨.inl rfl, fun same => differs same.symm⟩
        · exact .inl rfl
        · exact .inr ⟨.inr hm.1, hm.2⟩
      · rintro (rfl | ⟨rfl | hm, ne⟩)
        · exact .inr (.inl rfl)
        · exact .inl rfl
        · exact .inr (.inr ⟨hm, ne⟩)

theorem get?_insert_iff (m : NameMap α) (name other : String) (value found : α) :
    (m.insert name value).get? other = some found ↔
      other = name ∧ found = value ∨ m.get? other = some found ∧ other ≠ name := by
  rw [get?_eq_some_iff, get?_eq_some_iff, insert, mem_insertEntry_iff m.ordered, Prod.mk.injEq]

theorem mem_names_insert_iff (m : NameMap α) (name other : String) (value : α) :
    other ∈ (m.insert name value).names ↔ other = name ∨ other ∈ m.names := by
  simp only [mem_names_iff, get?_insert_iff]
  constructor
  · rintro ⟨found, ⟨same, -⟩ | ⟨here, -⟩⟩
    · exact .inl same
    · exact .inr ⟨found, here⟩
  · by_cases same : other = name
    · exact fun _ => ⟨value, .inl ⟨same, rfl⟩⟩
    · rintro (here | ⟨found, here⟩)
      · exact absurd here same
      · exact ⟨found, .inr ⟨here, same⟩⟩

theorem names_insert_perm {m : NameMap α} {name : String} (new : name ∉ m.names) (value : α) :
    (m.insert name value).names.Perm (name :: m.names) := by
  have distinct : (name :: m.names).Nodup := List.nodup_cons.2 ⟨new, names_nodup m⟩
  rw [List.perm_ext_iff_of_nodup (names_nodup _) distinct]
  intro other
  rw [mem_names_insert_iff, List.mem_cons]

theorem contains_insert (m : NameMap α) (name other : String) (value : α) :
    (m.insert name value).contains other = (other == name || m.contains other) := by
  rw [Bool.eq_iff_iff, Bool.or_eq_true, beq_iff_eq, contains_iff, contains_iff,
    mem_names_insert_iff]

theorem mem_foldl_insert {pairs : List (String × α)} (h : (pairs.map (·.1)).Nodup)
    (m : NameMap α) (entry : String × α) :
    entry ∈ (pairs.foldl (fun m pair => m.insert pair.1 pair.2) m).entries ↔
      entry ∈ pairs ∨ entry ∈ m.entries ∧ entry.1 ∉ pairs.map (·.1) := by
  induction pairs generalizing m with
  | nil => simp
  | cons pair rest ih =>
    rw [List.map_cons, List.nodup_cons] at h
    have inserted : entry ∈ (m.insert pair.1 pair.2).entries ↔
        entry = pair ∨ entry ∈ m.entries ∧ entry.1 ≠ pair.1 := mem_insertEntry_iff m.ordered entry
    rw [List.foldl_cons, ih h.2, inserted, List.mem_cons, List.map_cons, List.mem_cons]
    constructor
    · rintro (hm | ⟨rfl | ⟨hm, ne⟩, absent⟩)
      · exact .inl (.inr hm)
      · exact .inl (.inl rfl)
      · exact .inr ⟨hm, fun other => other.elim ne absent⟩
    · rintro ((rfl | hm) | ⟨hm, absent⟩)
      · exact .inr ⟨.inl rfl, h.1⟩
      · exact .inl hm
      · exact .inr ⟨.inr ⟨hm, fun same => absent (.inl same)⟩, fun later => absent (.inr later)⟩

theorem mem_ofList_iff {pairs : List (String × α)} (h : (pairs.map (·.1)).Nodup)
    (entry : String × α) : entry ∈ (ofList pairs).entries ↔ entry ∈ pairs := by
  rw [ofList, mem_foldl_insert h]
  simp [empty]

theorem get?_ofList_iff {pairs : List (String × α)} (h : (pairs.map (·.1)).Nodup)
    (name : String) (value : α) :
    (ofList pairs).get? name = some value ↔ (name, value) ∈ pairs := by
  rw [get?_eq_some_iff, mem_ofList_iff h]

theorem size_ofList {pairs : List (String × α)} (h : (pairs.map (·.1)).Nodup) :
    (ofList pairs).size = pairs.length := by
  have distinct : pairs.Nodup := by
    apply (List.pairwise_map.1 h).imp
    intro a b ne same
    exact ne (congrArg Prod.fst same)
  apply List.Perm.length_eq
  exact (List.perm_ext_iff_of_nodup (entries_nodup _) distinct).2 (mem_ofList_iff h)

end SolidityVetting.NameMap
