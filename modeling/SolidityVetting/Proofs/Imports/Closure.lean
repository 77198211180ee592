import SolidityVetting.Proofs.Imports.Path
import SolidityVetting.Proofs.Imports.Steps

set_option autoImplicit false

namespace SolidityVetting.Closure

variable {resolve : Resolver} {sources : Sources} {importer path unit text item : String}
  {p q : Progress}

inductive Reached (resolve : Resolver) (sources : Sources) : (unit text : String) → Prop where
  | source {unit text : String} : sources.get? unit = some text → Reached resolve sources unit text
  | served {importer source path unit text : String} : Reached resolve sources importer source →
      path ∈ Import.paths source → Import.unit? importer path = some unit →
      sources.get? unit = none → resolve unit = .ok text → Reached resolve sources unit text

/-- An import of a reached unit cannot be had: it climbs above the root, and is then called as it
is written, or its unit is neither a source nor served. -/
inductive Lacks (resolve : Resolver) (sources : Sources) : (item : String) → Prop where
  | climbs {importer source path : String} : Reached resolve sources importer source →
      path ∈ Import.paths source → Import.unit? importer path = none →
      Lacks resolve sources path
  | refused {importer source path unit : String} {refusal : ImportRefusal} :
      Reached resolve sources importer source → path ∈ Import.paths source →
      Import.unit? importer path = some unit → sources.get? unit = none →
      resolve unit = .error refusal → Lacks resolve sources unit

theorem Reached.resolve_eq (h : Reached resolve sources unit text)
    (added : sources.get? unit = none) : resolve unit = .ok text := by
  cases h with
  | source here =>
    rw [here] at added
    cases added
  | served _ _ _ _ answer => exact answer

section Steps

structure Sound (resolve : Resolver) (sources : Sources) (p : Progress) : Prop where
  kept : ∀ unit text, sources.get? unit = some text → p.units.get? unit = some text
  reached : ∀ unit text, p.units.get? unit = some text → Reached resolve sources unit text
  pending : ∀ unit ∈ p.pending, unit ∈ p.units.names
  lacking : ∀ item ∈ p.unresolved, Lacks resolve sources item
  once : p.unresolved.Nodup

def Worked (p : Progress) : Prop :=
  ∀ unit text, p.units.get? unit = some text →
    unit ∈ p.pending ∨ ∀ path ∈ Import.paths text, Settled unit path p

theorem Sound.not_source (h : Sound resolve sources p) (new : unit ∉ p.units.names) :
    sources.get? unit = none := by
  rw [Option.eq_none_iff_forall_ne_some]
  intro text here
  exact new (NameMap.mem_names_of_get? (h.kept unit text here))

theorem Sound.note (h : Sound resolve sources p) (lacks : Lacks resolve sources item)
    (new : item ∉ p.unresolved) :
    Sound resolve sources { p with unresolved := p.unresolved ++ [item] } where
  kept := h.kept
  reached := h.reached
  pending := h.pending
  lacking other hm := by
    obtain before | hm := List.mem_append.1 hm
    · exact h.lacking other before
    · rw [List.mem_singleton.1 hm]
      exact lacks
  once := by
    refine List.nodup_append.2 ⟨h.once, List.pairwise_singleton _ item, ?_⟩
    intro other before another hm
    rw [List.mem_singleton.1 hm]
    rintro rfl
    exact new before

theorem Sound.add (h : Sound resolve sources p) (reached : Reached resolve sources unit text)
    (new : unit ∉ p.units.names) :
    Sound resolve sources
      { p with units := p.units.insert unit text, pending := p.pending ++ [unit] } where
  kept other found here := (Grows.add new text).kept other found (h.kept other found here)
  reached other found here := by
    obtain ⟨rfl, rfl⟩ | ⟨before, -⟩ := (NameMap.get?_insert_iff ..).1 here
    · exact reached
    · exact h.reached other found before
  pending other hm := by
    obtain before | hm := List.mem_append.1 hm
    · exact (Grows.add new text).mem_names (h.pending other before)
    · rw [List.mem_singleton.1 hm]
      exact (NameMap.mem_names_insert_iff ..).2 (.inl rfl)
  lacking := h.lacking
  once := h.once

theorem Sound.taken {source : String} (h : Sound resolve sources p)
    (reached : Reached resolve sources importer source) (hm : path ∈ Import.paths source)
    (taken : Taken resolve importer path p q) : Sound resolve sources q := by
  cases taken with
  | noted | known => exact h
  | climbs up new => exact h.note (.climbs reached hm up) new
  | served found new _ answer =>
    exact h.add (.served reached hm found (h.not_source new) answer) new
  | refused found new unnoted answer =>
    exact h.note (.refused reached hm found (h.not_source new) answer) unnoted

theorem Sound.foldl_takeUp {source : String} (reached : Reached resolve sources importer source)
    {paths : List String} (all : ∀ path ∈ paths, path ∈ Import.paths source)
    (h : Sound resolve sources p) :
    Sound resolve sources (paths.foldl (takeUp resolve importer) p) := by
  induction paths generalizing p with
  | nil => exact h
  | cons path rest ih =>
    obtain ⟨here, later⟩ := List.forall_mem_cons.1 all
    exact ih later (h.taken reached here (taken_takeUp resolve importer path p))

theorem Sound.step (h : Sound resolve sources p) : Sound resolve sources (step resolve p) := by
  cases front : p.pending with
  | nil =>
    rw [step_of_pending_eq_nil front]
    exact h
  | cons importer rest =>
    have held : ∀ unit ∈ importer :: rest, unit ∈ p.units.names := front ▸ h.pending
    obtain ⟨here, later⟩ := List.forall_mem_cons.1 held
    obtain ⟨text, here⟩ := (NameMap.mem_names_iff ..).1 here
    have popped : Sound resolve sources { p with pending := rest } :=
      ⟨h.kept, h.reached, later, h.lacking, h.once⟩
    rw [step_eq front here]
    exact popped.foldl_takeUp (h.reached importer text here) fun _ hm => hm

theorem Worked.step (h : Worked p) (sound : Sound resolve sources p) :
    Worked (step resolve p) := by
  cases front : p.pending with
  | nil =>
    rw [step_of_pending_eq_nil front]
    exact h
  | cons importer rest =>
    have held : importer ∈ p.units.names := sound.pending importer (by rw [front]; simp)
    obtain ⟨source, here⟩ := (NameMap.mem_names_iff ..).1 held
    rw [step_eq front here]
    have grows : Grows { p with pending := rest }
        ((Import.paths source).foldl (takeUp resolve importer) { p with pending := rest }) :=
      foldl_takeUp_grows resolve importer _ _
    intro unit text found
    obtain new | before := (grows.fresh unit text found).symm
    · exact .inl new
    -- the unit read in this step is settled by the step, any other one as it was before
    by_cases read : unit = importer
    · subst read
      obtain rfl : source = text := Option.some.inj (here.symm.trans before)
      exact .inr fun path hm => foldl_takeUp_settles resolve unit hm _
    · obtain waiting | settled := h unit text before
      · rw [front] at waiting
        exact .inl (grows.pending unit ((List.mem_cons.1 waiting).resolve_left read))
      · refine .inr fun path hm => ?_
        have before : Settled unit path { p with pending := rest } := settled path hm
        exact before.mono grows

end Steps

structure Finished (resolve : Resolver) (sources : Sources) (p : Progress) : Prop where
  sound : Sound resolve sources p
  settled : ∀ unit text, p.units.get? unit = some text →
    ∀ path ∈ Import.paths text, Settled unit path p

theorem sound_start (resolve : Resolver) (sources : Sources) :
    Sound resolve sources (start sources) where
  kept _ _ h := h
  reached _ _ h := .source h
  pending _ h := h
  lacking _ h := absurd h List.not_mem_nil
  once := List.nodup_nil

theorem worked_start (sources : Sources) : Worked (start sources) :=
  fun _ _ h => .inl (NameMap.mem_names_of_get? h)

theorem finished_of_run {rounds : Nat} (ended : run resolve rounds (start sources) = some p) :
    Finished resolve sources p := by
  have keeps : ∀ p, Sound resolve sources p ∧ Worked p →
      Sound resolve sources (step resolve p) ∧ Worked (step resolve p) :=
    fun p h => ⟨h.1.step, h.2.step h.1⟩
  obtain ⟨⟨sound, worked⟩, drained⟩ :=
    of_run keeps ended ⟨sound_start resolve sources, worked_start sources⟩
  refine ⟨sound, fun unit text h => ?_⟩
  obtain waiting | settled := worked unit text h
  · rw [drained] at waiting
    cases waiting
  · exact settled

/-- No unit that is served has been noted, as an import that is written like its name could be. -/
def Clear (resolve : Resolver) (sources : Sources) (p : Progress) : Prop :=
  ∀ unit text, Reached resolve sources unit text → sources.get? unit = none → unit ∉ p.unresolved

theorem Finished.get?_of_reached (h : Finished resolve sources p) (clear : Clear resolve sources p)
    (reached : Reached resolve sources unit text) : p.units.get? unit = some text := by
  induction reached with
  | source here => exact h.sound.kept _ _ here
  | @served importer source path unit text before hm found added answer ih =>
    -- by induction the importer is here, and a run settles all imports of what is here
    have known := (h.settled importer source ih path hm).known found
    have unnoted := clear unit text (.served before hm found added answer) added
    obtain ⟨other, here⟩ := (NameMap.mem_names_iff ..).1 (known.resolve_right unnoted)
    have again := (h.sound.reached unit other here).resolve_eq added
    rw [answer] at again
    cases again
    exact here

theorem Finished.mem_unresolved (h : Finished resolve sources p) (clear : Clear resolve sources p)
    (lacks : Lacks resolve sources item) : item ∈ p.unresolved := by
  cases lacks with
  | climbs reached hm up => exact (h.settled _ _ (h.get?_of_reached clear reached) _ hm).noted up
  | refused reached hm found added refusal =>
    apply ((h.settled _ _ (h.get?_of_reached clear reached) _ hm).known found).resolve_left
    intro held
    obtain ⟨text, here⟩ := (NameMap.mem_names_iff ..).1 held
    rw [(h.sound.reached item text here).resolve_eq added] at refusal
    cases refusal

theorem clear_of_unresolved_eq_nil (h : p.unresolved = []) : Clear resolve sources p := by
  intro unit text _ _
  rw [h]
  exact List.not_mem_nil

theorem plain_of_reached (plain : ∀ name ∈ sources.names, Import.Plain name)
    (reached : Reached resolve sources unit text) : Import.Plain unit := by
  induction reached with
  | source here => exact plain _ (NameMap.mem_names_of_get? here)
  | served _ _ found _ _ ih => exact Import.plain_of_unit? found ih

theorem Finished.clear_of_plain (h : Finished resolve sources p)
    (plain : ∀ name ∈ sources.names, Import.Plain name) : Clear resolve sources p := by
  intro unit text reached added noted
  cases h.sound.lacking unit noted with
  | climbs _ _ up => exact Import.not_plain_of_unit?_eq_none up (plain_of_reached plain reached)
  | refused _ _ _ _ refusal =>
    rw [reached.resolve_eq added] at refusal
    cases refusal

/-- The sources with all that they import, directly or through others, and nothing else. -/
structure IsClosure (resolve : Resolver) (sources completed : Sources) : Prop where
  kept : ∀ unit text, sources.get? unit = some text → completed.get? unit = some text
  closed : ∀ importer source, completed.get? importer = some source →
    ∀ path ∈ Import.paths source,
      ∃ unit, Import.unit? importer path = some unit ∧ unit ∈ completed.names
  served : ∀ unit text, completed.get? unit = some text → sources.get? unit = none →
    resolve unit = .ok text
  reached : ∀ unit text, completed.get? unit = some text ↔ Reached resolve sources unit text

theorem Finished.isClosure (h : Finished resolve sources p) (nothing : p.unresolved = []) :
    IsClosure resolve sources p.units where
  kept := h.sound.kept
  closed importer source here path hm := by
    obtain ⟨-, noted⟩ | ⟨unit, found, known | noted⟩ := h.settled importer source here path hm
    · rw [nothing] at noted
      cases noted
    · exact ⟨unit, found, known⟩
    · rw [nothing] at noted
      cases noted
  served unit text here := (h.sound.reached unit text here).resolve_eq
  reached unit text :=
    ⟨h.sound.reached unit text, h.get?_of_reached (clear_of_unresolved_eq_nil nothing)⟩

theorem outcome_of_unresolved_eq_nil (h : p.unresolved = []) : outcome p = .ok p.units := by
  unfold outcome
  rw [h]
  rfl

theorem outcome_of_unresolved_ne_nil (h : p.unresolved ≠ []) :
    outcome p = .error (.unresolvedImports p.unresolved) := by
  unfold outcome
  rw [List.isEmpty_eq_false_iff.2 h]
  rfl

theorem units_of_outcome {completed : Sources} (h : outcome p = .ok completed) :
    p.unresolved = [] ∧ completed = p.units := by
  by_cases nothing : p.unresolved = []
  · rw [outcome_of_unresolved_eq_nil nothing] at h
    cases h
    exact ⟨nothing, rfl⟩
  · rw [outcome_of_unresolved_ne_nil nothing] at h
    cases h

theorem unresolved_of_outcome {items : List String}
    (h : outcome p = .error (.unresolvedImports items)) :
    p.unresolved ≠ [] ∧ items = p.unresolved := by
  by_cases nothing : p.unresolved = []
  · rw [outcome_of_unresolved_eq_nil nothing] at h
    cases h
  · rw [outcome_of_unresolved_ne_nil nothing] at h
    cases h
    exact ⟨nothing, rfl⟩

theorem complete_of_run {servable : Nat}
    (ended : run resolve (sources.size + servable) (start sources) = some p) :
    complete resolve servable sources = outcome p := by
  unfold complete
  rw [ended]

theorem resolve_eq_of_complete {servable : Nat} {completed : Sources}
    (h : complete resolve servable sources = .ok completed)
    (here : completed.get? unit = some text) (added : sources.get? unit = none) :
    resolve unit = .ok text := by
  cases ended : run resolve (sources.size + servable) (start sources) with
  | none =>
    unfold complete at h
    rw [ended] at h
    cases h
  | some p =>
    rw [complete_of_run ended] at h
    obtain ⟨-, rfl⟩ := units_of_outcome h
    exact ((finished_of_run ended).sound.reached unit text here).resolve_eq added

/-- A run that ends gives the closure of the imports if nothing reached lacks an import. Else it
lists what is lacking, each item once: all of it if no name of the sources has a `..` segment. -/
theorem complete_exact (resolve : Resolver) (servable : Nat) (sources : Sources)
    (ended : (run resolve (sources.size + servable) (start sources)).isSome = true) :
    (∀ completed, complete resolve servable sources = .ok completed →
      IsClosure resolve sources completed) ∧
    ((∃ completed, complete resolve servable sources = .ok completed) ↔
      ¬ ∃ item, Lacks resolve sources item) ∧
    ((∃ items, complete resolve servable sources = .error (.unresolvedImports items)) ↔
      ∃ item, Lacks resolve sources item) ∧
    ∀ items, complete resolve servable sources = .error (.unresolvedImports items) →
      items.Nodup ∧ (∀ item ∈ items, Lacks resolve sources item) ∧
        ((∀ name ∈ sources.names, Import.Plain name) →
          ∀ item, Lacks resolve sources item → item ∈ items) := by
  obtain ⟨p, ended⟩ := Option.isSome_iff_exists.1 ended
  have finished := finished_of_run ended
  rw [complete_of_run ended]
  -- no hypothesis on names is needed here: an empty list cannot mistake an import for a unit
  have lacking : (∃ item, Lacks resolve sources item) ↔ p.unresolved ≠ [] := by
    constructor
    · intro ⟨item, lacks⟩ nothing
      have noted := finished.mem_unresolved (clear_of_unresolved_eq_nil nothing) lacks
      rw [nothing] at noted
      cases noted
    · intro some_item
      obtain ⟨item, hm⟩ := List.exists_mem_of_ne_nil _ some_item
      exact ⟨item, finished.sound.lacking item hm⟩
  rw [lacking, Decidable.not_not]
  refine ⟨?_, ?_, ?_, ?_⟩
  · intro completed h
    obtain ⟨nothing, rfl⟩ := units_of_outcome h
    exact finished.isClosure nothing
  · exact ⟨fun ⟨_, h⟩ => (units_of_outcome h).1,
      fun nothing => ⟨_, outcome_of_unresolved_eq_nil nothing⟩⟩
  · exact ⟨fun ⟨_, h⟩ => (unresolved_of_outcome h).1,
      fun some_item => ⟨_, outcome_of_unresolved_ne_nil some_item⟩⟩
  · intro items h
    obtain ⟨-, rfl⟩ := unresolved_of_outcome h
    exact ⟨finished.sound.once, finished.sound.lacking,
      fun plain _ => finished.mem_unresolved (finished.clear_of_plain plain)⟩

theorem complete_exact_climbing :
    let sources : Sources := .ofList [("Token.sol", "import \"./Base.sol\";")]
    let resolve : Resolver := fun unit =>
      if unit = "Base.sol" then .ok "import \"../Up.sol\";" else .error (.missing unit)
    (run resolve (sources.size + 1) (start sources)).isSome = true ∧
      (∀ name ∈ sources.names, Import.Plain name) ∧
      ∃ items, complete resolve 1 sources = .error (.unresolvedImports items) ∧ items.Nodup ∧
        "../Up.sol" ∈ items := by
  intro sources resolve
  have covers : ∀ unit text, resolve unit = .ok text → unit ∈ ["Base.sol"] := by
    intro unit text answer
    rw [List.mem_singleton]
    by_cases same : unit = "Base.sol"
    · exact same
    · simp [resolve, same] at answer
  have ended : (run resolve (sources.size + 1) (start sources)).isSome = true :=
    run_isSome covers (remaining_start_le ["Base.sol"] sources)
  have plain : ∀ name ∈ sources.names, Import.Plain name := by
    intro name hm
    obtain rfl : name = "Token.sol" := List.mem_singleton.1 hm
    unfold Import.Plain
    decide
  have token : Reached resolve sources "Token.sol" "import \"./Base.sol\";" := .source (by decide)
  have down : Import.paths "import \"./Base.sol\";" = ["./Base.sol"] :=
    Import.paths_eq_singleton (by decide +kernel)
  have up : Import.paths "import \"../Up.sol\";" = ["../Up.sol"] :=
    Import.paths_eq_singleton (by decide +kernel)
  have base : Reached resolve sources "Base.sol" "import \"../Up.sol\";" :=
    .served token (down ▸ List.mem_cons_self) (by decide) (by decide) rfl
  have lacks : Lacks resolve sources "../Up.sol" :=
    .climbs base (up ▸ List.mem_cons_self) (by decide)
  obtain ⟨-, -, failed, listed⟩ := complete_exact resolve 1 sources ended
  obtain ⟨items, refused⟩ := failed.2 ⟨_, lacks⟩
  obtain ⟨once, -, all⟩ := listed items refused
  exact ⟨ended, plain, items, refused, once, all plain _ lacks⟩

end SolidityVetting.Closure
