import SolidityVetting.Imports.Closure
import SolidityVetting.Proofs.NameMap

set_option autoImplicit false

namespace SolidityVetting.Closure

variable {resolve : Resolver} {importer path unit text : String} {p q : Progress}

inductive Taken (resolve : Resolver) (importer path : String) (p : Progress) : Progress → Prop where
  | noted : Import.unit? importer path = none → path ∈ p.unresolved →
      Taken resolve importer path p p
  | climbs : Import.unit? importer path = none → path ∉ p.unresolved →
      Taken resolve importer path p { p with unresolved := p.unresolved ++ [path] }
  | known {unit : String} : Import.unit? importer path = some unit →
      unit ∈ p.units.names ∨ unit ∈ p.unresolved → Taken resolve importer path p p
  | served {unit text : String} : Import.unit? importer path = some unit →
      unit ∉ p.units.names → unit ∉ p.unresolved → resolve unit = .ok text →
      Taken resolve importer path p
        { p with units := p.units.insert unit text, pending := p.pending ++ [unit] }
  | refused {unit : String} {refusal : ImportRefusal} : Import.unit? importer path = some unit →
      unit ∉ p.units.names → unit ∉ p.unresolved → resolve unit = .error refusal →
      Taken resolve importer path p { p with unresolved := p.unresolved ++ [unit] }

theorem taken_takeUp (resolve : Resolver) (importer path : String) (p : Progress) :
    Taken resolve importer path p (takeUp resolve importer p path) := by
  unfold takeUp
  split
  · next up =>
    split
    · next before => exact .noted up (List.contains_iff_mem.1 before)
    · next new => exact .climbs up fun before => new (List.contains_iff_mem.2 before)
  · next unit found =>
    simp only [Bool.or_eq_true, NameMap.contains_iff, List.contains_iff_mem]
    split
    · next before => exact .known found before
    · next new =>
      rw [not_or] at new
      split
      · next text answer => exact .served found new.1 new.2 answer
      · next refusal answer => exact .refused found new.1 new.2 answer

theorem takeUp_of_served (found : Import.unit? importer path = some unit)
    (new : p.units.contains unit = false) (unnoted : p.unresolved.contains unit = false)
    (answer : resolve unit = .ok text) : takeUp resolve importer p path =
      { p with units := p.units.insert unit text, pending := p.pending ++ [unit] } := by
  simp only [takeUp, found, new, unnoted, answer, Bool.or_self, Bool.false_eq_true, if_false]

/-- A run only adds: units keep their texts, new units are pending, and what is pending or noted
stays so. -/
structure Grows (p q : Progress) : Prop where
  kept : ∀ unit text, p.units.get? unit = some text → q.units.get? unit = some text
  fresh : ∀ unit text, q.units.get? unit = some text →
    p.units.get? unit = some text ∨ unit ∈ q.pending
  pending : ∀ unit ∈ p.pending, unit ∈ q.pending
  noted : ∀ item ∈ p.unresolved, item ∈ q.unresolved

theorem Grows.refl (p : Progress) : Grows p p :=
  ⟨fun _ _ h => h, fun _ _ h => .inl h, fun _ h => h, fun _ h => h⟩

theorem Grows.trans {r : Progress} (first : Grows p q) (second : Grows q r) : Grows p r where
  kept unit text h := second.kept unit text (first.kept unit text h)
  fresh unit text h := by
    obtain before | new := second.fresh unit text h
    · exact (first.fresh unit text before).imp_right (second.pending unit)
    · exact .inr new
  pending unit h := second.pending unit (first.pending unit h)
  noted item h := second.noted item (first.noted item h)

theorem Grows.note (p : Progress) (item : String) :
    Grows p { p with unresolved := p.unresolved ++ [item] } where
  kept _ _ h := h
  fresh _ _ h := .inl h
  pending _ h := h
  noted _ h := List.mem_append_left [item] h

theorem Grows.add (new : unit ∉ p.units.names) (text : String) :
    Grows p { p with units := p.units.insert unit text, pending := p.pending ++ [unit] } where
  kept other found h := by
    refine (NameMap.get?_insert_iff ..).2 (.inr ⟨h, ?_⟩)
    rintro rfl
    exact new (NameMap.mem_names_of_get? h)
  fresh other found h := by
    obtain ⟨rfl, -⟩ | ⟨before, -⟩ := (NameMap.get?_insert_iff ..).1 h
    · exact .inr (List.mem_append_right p.pending List.mem_cons_self)
    · exact .inl before
  pending _ h := List.mem_append_left [unit] h
  noted _ h := h

theorem Taken.grows (h : Taken resolve importer path p q) : Grows p q := by
  cases h with
  | noted | known => exact Grows.refl p
  | climbs | refused => exact Grows.note p _
  | served _ new _ _ => exact Grows.add new _

theorem foldl_takeUp_grows (resolve : Resolver) (importer : String) (paths : List String)
    (p : Progress) : Grows p (paths.foldl (takeUp resolve importer) p) := by
  induction paths generalizing p with
  | nil => exact Grows.refl p
  | cons path rest ih => exact (taken_takeUp resolve importer path p).grows.trans (ih _)

def Settled (importer path : String) (p : Progress) : Prop :=
  (Import.unit? importer path = none ∧ path ∈ p.unresolved) ∨
    ∃ unit, Import.unit? importer path = some unit ∧
      (unit ∈ p.units.names ∨ unit ∈ p.unresolved)

theorem Grows.mem_names (h : Grows p q) (hm : unit ∈ p.units.names) : unit ∈ q.units.names := by
  obtain ⟨text, found⟩ := (NameMap.mem_names_iff ..).1 hm
  exact NameMap.mem_names_of_get? (h.kept unit text found)

theorem Settled.noted (h : Settled importer path p) (up : Import.unit? importer path = none) :
    path ∈ p.unresolved := by
  obtain ⟨-, noted⟩ | ⟨unit, found, -⟩ := h
  · exact noted
  · rw [up] at found
    cases found

theorem Settled.known (h : Settled importer path p)
    (found : Import.unit? importer path = some unit) :
    unit ∈ p.units.names ∨ unit ∈ p.unresolved := by
  obtain ⟨up, -⟩ | ⟨other, same, known⟩ := h
  · rw [up] at found
    cases found
  · obtain rfl : unit = other := Option.some.inj (found.symm.trans same)
    exact known

theorem Settled.mono (h : Settled importer path p) (grows : Grows p q) :
    Settled importer path q := by
  obtain ⟨up, noted⟩ | ⟨unit, found, known⟩ := h
  · exact .inl ⟨up, grows.noted path noted⟩
  · exact .inr ⟨unit, found, known.imp grows.mem_names (grows.noted unit)⟩

theorem Taken.settled (h : Taken resolve importer path p q) : Settled importer path q := by
  cases h with
  | noted up before => exact .inl ⟨up, before⟩
  | climbs up _ => exact .inl ⟨up, List.mem_append_right p.unresolved List.mem_cons_self⟩
  | known found before => exact .inr ⟨_, found, before⟩
  | @served unit text found _ _ _ =>
    exact .inr ⟨unit, found, .inl ((NameMap.mem_names_insert_iff ..).2 (.inl rfl))⟩
  | @refused unit _ found _ _ _ =>
    exact .inr ⟨unit, found, .inr (List.mem_append_right p.unresolved List.mem_cons_self)⟩

theorem foldl_takeUp_settles (resolve : Resolver) (importer : String) {paths : List String}
    (hm : path ∈ paths) (p : Progress) :
    Settled importer path (paths.foldl (takeUp resolve importer) p) := by
  induction paths generalizing p with
  | nil => cases hm
  | cons first rest ih =>
    obtain rfl | hm := List.mem_cons.1 hm
    · have settled := (taken_takeUp resolve importer path p).settled
      exact settled.mono (foldl_takeUp_grows resolve importer rest _)
    · exact ih hm _

theorem step_eq {rest : List String} (front : p.pending = importer :: rest)
    (here : p.units.get? importer = some text) :
    step resolve p =
      (Import.paths text).foldl (takeUp resolve importer) { p with pending := rest } := by
  unfold step
  rw [front]
  simp only [here, Option.getD_some]

theorem step_of_pending_eq_nil (h : p.pending = []) : step resolve p = p := by
  unfold step
  rw [h]

theorem of_run {P : Progress → Prop} (keeps : ∀ p, P p → P (step resolve p)) {rounds : Nat}
    (ended : run resolve rounds p = some q) (h : P p) : P q ∧ q.pending = [] := by
  induction rounds generalizing p with
  | zero =>
    unfold run at ended
    split at ended
    · next drained =>
      cases ended
      exact ⟨h, List.isEmpty_iff.1 drained⟩
    · cases ended
  | succ rounds ih =>
    unfold run at ended
    split at ended
    · next drained =>
      cases ended
      exact ⟨h, List.isEmpty_iff.1 drained⟩
    · exact ih ended (keeps p h)

section Rounds

/-- How many units are pending or could still be added. -/
def remaining (servable : List String) (p : Progress) : Nat :=
  p.pending.length + (servable.filter fun unit => ! p.units.contains unit).length

variable {servable : List String}

theorem length_unserved_insert (hm : unit ∈ servable) (new : unit ∉ p.units.names)
    (text : String) :
    (servable.filter fun other => ! (p.units.insert unit text).contains other).length <
      (servable.filter fun other => ! p.units.contains other).length := by
  have fewer : (servable.filter fun other => ! (p.units.insert unit text).contains other) =
      (servable.filter fun other => ! p.units.contains other).filter (· != unit) := by
    rw [List.filter_filter]
    apply List.filter_congr
    intro other _
    rw [NameMap.contains_insert, Bool.not_or, bne]
  have missing : p.units.contains unit = false := by
    rw [← Bool.not_eq_true, NameMap.contains_iff]
    exact new
  rw [fewer, List.length_filter_lt_length_iff_exists]
  exact ⟨unit, List.mem_filter.2 ⟨hm, by rw [missing]; rfl⟩, by simp⟩

theorem Taken.remaining_le (covers : ∀ unit text, resolve unit = .ok text → unit ∈ servable)
    (h : Taken resolve importer path p q) : remaining servable q ≤ remaining servable p := by
  cases h with
  | noted | known | climbs | refused => exact Nat.le_refl _
  | @served unit text _ new _ answer =>
    have fewer := length_unserved_insert (covers unit text answer) new text
    simp only [remaining, List.length_append, List.length_singleton]
    omega

theorem foldl_takeUp_remaining_le (covers : ∀ unit text, resolve unit = .ok text → unit ∈ servable)
    (importer : String) (paths : List String) (p : Progress) :
    remaining servable (paths.foldl (takeUp resolve importer) p) ≤ remaining servable p := by
  induction paths generalizing p with
  | nil => exact Nat.le_refl _
  | cons path rest ih =>
    exact Nat.le_trans (ih _) ((taken_takeUp resolve importer path p).remaining_le covers)

theorem remaining_step_lt (covers : ∀ unit text, resolve unit = .ok text → unit ∈ servable)
    (waiting : p.pending ≠ []) : remaining servable (step resolve p) < remaining servable p := by
  obtain ⟨importer, rest, front⟩ := List.exists_cons_of_ne_nil waiting
  have popped : remaining servable { p with pending := rest } < remaining servable p := by
    simp only [remaining, front, List.length_cons]
    omega
  unfold step
  rw [front]
  exact Nat.lt_of_le_of_lt (foldl_takeUp_remaining_le covers importer _ _) popped

theorem run_isSome (covers : ∀ unit text, resolve unit = .ok text → unit ∈ servable)
    {rounds : Nat} (enough : remaining servable p ≤ rounds) :
    (run resolve rounds p).isSome = true := by
  induction rounds generalizing p with
  | zero =>
    have drained : p.pending = [] := by
      apply List.eq_nil_of_length_eq_zero
      unfold remaining at enough
      omega
    simp [run, drained]
  | succ rounds ih =>
    unfold run
    split
    · rfl
    · next waiting =>
      have fewer := remaining_step_lt covers (mt List.isEmpty_iff.2 waiting)
      exact ih (by omega)

theorem remaining_start_le (servable : List String) (sources : Sources) :
    remaining servable (start sources) ≤ sources.size + servable.length := by
  have names : sources.names.length = sources.size := List.length_map ..
  have unserved := List.length_filter_le (fun unit => ! sources.contains unit) servable
  simp only [remaining, start]
  omega

end Rounds

end SolidityVetting.Closure
