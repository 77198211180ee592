import SolidityVetting.Proofs.Imports.Queries
import SolidityVetting.Proofs.Imports.Trusted
import SolidityVetting.Proofs.Imports.Units
/-! # The rounds of a run on search paths suffice

Every unit that a run asks for starts as the directory of some source does and goes on with names. If
a search path serves it, these names lead to a file there. So a unit that is served is told by the
file and by the directory it starts with, and there are no more of them than rounds are allowed.
-/

set_option autoImplicit false

namespace SolidityVetting

namespace Tree

mutual

def filePaths : Tree → List (List String)
  | .file _ => [[]]
  | .directory entries => filePathsIn entries

def filePathsIn : List (String × Tree) → List (List String)
  | [] => []
  | (name, t) :: rest => (filePaths t).map (name :: ·) ++ filePathsIn rest

end

mutual

theorem length_filePaths : (t : Tree) → (filePaths t).length = fileCount t
  | .file _ => rfl
  | .directory entries => length_filePathsIn entries

theorem length_filePathsIn : (entries : List (String × Tree)) →
    (filePathsIn entries).length = fileCountIn entries
  | [] => rfl
  | (_, t) :: rest => by
    rw [filePathsIn, fileCountIn, List.length_append, List.length_map, length_filePaths t,
      length_filePathsIn rest]

end

theorem mem_filePathsIn {entries : List (String × Tree)} {name : String} {inner : Tree}
    {path : List String} (found : entry? name entries = some inner) (h : path ∈ filePaths inner) :
    name :: path ∈ filePathsIn entries := by
  induction entries with
  | nil => cases found
  | cons entry rest ih =>
    obtain ⟨other, t⟩ := entry
    rw [filePathsIn, List.mem_append]
    unfold entry? at found
    split at found
    · next same =>
      cases found
      rw [same]
      exact .inl (List.mem_map_of_mem h)
    · exact .inr (ih found)

theorem Holds.mem_filePaths {t : Tree} {bytes : List UInt8} {path : List String}
    (h : Holds bytes t path) : path ∈ filePaths t := by
  induction h with
  | here => exact List.mem_singleton_self []
  | inside found _ ih =>
    rw [filePaths]
    exact mem_filePathsIn found ih

theorem names_of_names {segments : List (List Char)}
    (named : ∀ segment ∈ segments, Import.Names segment) :
    names segments = segments.map String.ofList := by
  unfold names
  rw [List.filter_eq_self.2]
  intro segment hm
  obtain ⟨filled, moves, -⟩ := named segment hm
  simp [staysHere, filled, moves]

end Tree

namespace Import

variable {units : List String} {importer path unit : String} {origin row left : List (List Char)}

/-- The row starts as the directory of one of the units does and goes on with names. -/
def Rooted (units : List String) (row : List (List Char)) : Prop :=
  ∃ kept named, row = kept ++ named ∧ (∀ segment ∈ named, Names segment) ∧
    (kept = [] ∨ ∃ unit ∈ units, kept <+: directory unit.toList)

theorem rooted_nil (units : List String) : Rooted units [] :=
  ⟨[], [], rfl, List.forall_mem_nil _, .inl rfl⟩

theorem rooted_directory (h : unit ∈ units) : Rooted units (directory unit.toList) :=
  ⟨_, [], (List.append_nil _).symm, List.forall_mem_nil _,
    .inr ⟨unit, h, List.prefix_refl _⟩⟩

theorem Rooted.snoc {segment : List Char} (h : Rooted units row) (named : Names segment) :
    Rooted units (row ++ [segment]) := by
  obtain ⟨kept, more, rfl, all, start⟩ := h
  refine ⟨kept, more ++ [segment], List.append_assoc .., fun other hm => ?_, start⟩
  obtain hm | hm := List.mem_append.1 hm
  · exact all other hm
  · rw [List.mem_singleton.1 hm]
    exact named

theorem Rooted.of_snoc {segment : List Char} (h : Rooted units (row ++ [segment])) :
    Rooted units row := by
  obtain ⟨kept, named, cut, all, start⟩ := h
  cases named using List.reverseRecOn with
  | nil =>
    rw [List.append_nil] at cut
    obtain none | ⟨unit, hu, start⟩ := start
    · simp [none] at cut
    · rw [← cut] at start
      exact ⟨row, [], (List.append_nil row).symm, List.forall_mem_nil _,
        .inr ⟨unit, hu, (List.prefix_append row [segment]).trans start⟩⟩
  | append_singleton named last =>
    rw [← List.append_assoc] at cut
    have same : row = kept ++ named := (List.append_inj' cut rfl).1
    exact ⟨kept, named, same, fun other hm => all other (List.mem_append_left _ hm), start⟩

theorem Rooted.leaves (rooted : Rooted units origin) (h : Leaves origin row left) :
    Rooted units left := by
  induction h with
  | start => exact rooted
  | stay _ _ ih => exact ih
  | down _ named ih => exact ih.snoc named
  | up _ ih => exact ih.of_snoc

def Formed (units : List String) (unit : String) : Prop :=
  ∃ left, Rooted units left ∧ (∀ segment ∈ left, Proper segment) ∧
    unit = String.ofList (Text.join ['/'] left)

theorem formed_of_unit? (h : unit? importer path = some unit)
    (rooted : Rooted units (directory importer.toList)) : Formed units unit := by
  have start : Rooted units (base importer path) := by
    rw [base_eq]
    split
    · exact rooted
    · exact rooted_nil units
  have denoted := denotes_unit? importer path
  rw [h] at denoted
  cases denoted with
  | unit leaves => exact ⟨_, start.leaves leaves, proper_of_leaves leaves, rfl⟩

theorem Formed.rooted (h : Formed units unit) : Rooted units (directory unit.toList) := by
  obtain ⟨left, rooted, proper, rfl⟩ := h
  rw [String.toList_ofList]
  cases left using List.reverseRecOn with
  | nil => exact rooted_nil units
  | append_singleton left last =>
    have some_left : left ++ [last] ≠ [] := by simp
    have kept : left.filter (! ·.isEmpty) = left := by
      rw [List.filter_eq_self]
      intro segment hm
      simpa using (proper segment (List.mem_append_left _ hm)).1
    rw [directory, segments_join_of_proper proper some_left, List.dropLast_concat, kept]
    exact rooted.of_snoc

end Import

namespace Closure
open Import

variable {resolve : Resolver} {importer unit : String} {p : Progress} {names : List String}

theorem exists_unit?_of_mem_askedOver {paths : List String}
    (h : unit ∈ askedOver resolve importer p paths) :
    ∃ path, Import.unit? importer path = some unit := by
  induction paths generalizing p with
  | nil => cases h
  | cons path rest ih =>
    obtain here | later := List.mem_append.1 h
    · refine ⟨path, ?_⟩
      rw [Option.mem_toList, asked?] at here
      split at here
      · cases here
      · next other found =>
        split at here
        · cases here
        · cases here
          exact found
    · exact ih later

theorem formed_of_asked (rooted : ∀ unit ∈ p.pending, Rooted names (directory unit.toList))
    (rounds : Nat) : ∀ unit ∈ askedIn (trace resolve rounds p), Formed names unit := by
  induction rounds generalizing p with
  | zero => exact List.forall_mem_nil _
  | succ rounds ih =>
    cases front : p.pending with
    | nil =>
      rw [trace_of_pending_eq_nil front]
      exact List.forall_mem_nil _
    | cons importer rest =>
      rw [front] at rooted
      have formed : ∀ unit ∈ askedOver resolve importer { p with pending := rest }
          (Import.paths ((p.units.get? importer).getD "")), Formed names unit := by
        intro unit hu
        obtain ⟨path, found⟩ := exists_unit?_of_mem_askedOver hu
        exact formed_of_unit? found (rooted importer List.mem_cons_self)
      have ⟨_, queued⟩ := asks_foldl resolve importer
        (Import.paths ((p.units.get? importer).getD "")) { p with pending := rest }
      rw [← step_cons front] at queued
      rw [trace_cons front]
      intro unit hu
      obtain here | later := List.mem_append.1 hu
      · exact formed unit here
      · refine ih (fun other ho => ?_) unit later
        rw [queued] at ho
        obtain before | new := List.mem_append.1 ho
        · exact rooted other (List.mem_cons_of_mem _ before)
        · exact (formed other (List.mem_filter.1 new).1).rooted

theorem run_isSome_of_asked {servable : List String} {rounds : Nat}
    (covers : ∀ unit ∈ askedIn (trace resolve rounds p), ∀ text, resolve unit = .ok text →
      unit ∈ servable)
    (enough : remaining servable p ≤ rounds) : (run resolve rounds p).isSome = true := by
  -- a resolver that serves nothing else answers alike whatever is asked
  let other : Resolver := fun unit =>
    if unit ∈ servable ∨ serves resolve unit = false then resolve unit else .error (.missing unit)
  have agree : ∀ unit ∈ askedIn (trace resolve rounds p), other unit = resolve unit := by
    intro unit hu
    apply if_pos
    cases answer : resolve unit with
    | ok text => exact .inl (covers unit hu text answer)
    | error refusal => exact .inr (by rw [serves, answer]; rfl)
  rw [← (run_congr agree).1]
  have only : ∀ unit text, other unit = .ok text → unit ∈ servable := by
    intro unit text answer
    by_cases listed : unit ∈ servable
    · exact listed
    · by_cases refused : serves resolve unit = false
      · have same : resolve unit = .ok text := (if_pos (.inr refused)).symm.trans answer
        rw [serves, same] at refused
        cases refused
      · have missing : other unit = .error (.missing unit) :=
          if_neg (not_or.2 ⟨listed, refused⟩)
        rw [missing] at answer
        cases answer
  exact run_isSome only enough

end Closure

namespace TrustedImports
open Import

variable (t : TrustedImports) (names : List String)

/-- Where units may start: nowhere, or with part of the directory of a unit of these names. -/
def origins (names : List String) : List (List (List Char)) :=
  [] :: names.flatMap fun name => (List.range (segments name.toList).length).map fun k =>
    (directory name.toList).take (k + 1)

def files : List (List String) := t.roots.flatMap fun root => (root.map Tree.filePaths).getD []

def unitAt (origin : List (List Char)) (file : List String) : String :=
  String.ofList (Text.join ['/']
    (origin ++ (file.drop (Tree.names origin).length).map String.toList))

def candidates : List String := (origins names).flatMap fun origin => t.files.map (unitAt origin)

theorem length_candidates : (t.candidates names).length = t.servable names := by
  have files : t.files.length =
      (t.roots.map fun root => (root.map Tree.fileCount).getD 0).sum := by
    rw [TrustedImports.files, List.length_flatMap]
    congr 1
    apply List.map_congr_left
    rintro (_ | root) -
    · rfl
    · exact Tree.length_filePaths root
  have starts : (origins names).length =
      1 + (names.map fun name => (segments name.toList).length).sum := by
    simp [origins, List.length_flatMap, Nat.add_comm]
  simp only [candidates, List.length_flatMap, List.length_map, List.map_const', List.sum_replicate_nat]
  rw [starts, files, Nat.mul_comm]
  rfl

theorem mem_origins {kept : List (List Char)}
    (h : kept = [] ∨ ∃ name ∈ names, kept <+: directory name.toList) : kept ∈ origins names := by
  by_cases none : kept = []
  · rw [none]
    exact List.mem_cons_self
  obtain ⟨name, hn, start⟩ := h.resolve_left none
  have inside : kept.length ≤ (segments name.toList).length :=
    calc kept.length
      _ ≤ (directory name.toList).length := start.length_le
      _ ≤ (segments name.toList).dropLast.length := List.length_filter_le _ _
      _ ≤ (segments name.toList).length := by simp
  have positive : 0 < kept.length := List.length_pos_iff.2 none
  apply List.mem_cons_of_mem
  refine List.mem_flatMap.2 ⟨name, hn, List.mem_map.2 ⟨kept.length - 1, ?_, ?_⟩⟩
  · rw [List.mem_range]
    omega
  · rw [Nat.sub_add_cancel positive]
    exact (List.prefix_iff_eq_take.1 start).symm

variable {t names} {unit text : String}

theorem mem_candidates (formed : Formed names unit) (served : t.resolve unit = .ok text) :
    unit ∈ t.candidates names := by
  obtain ⟨-, -, found⟩ := of_resolve served
  obtain ⟨front, root, back, roots, -, walked⟩ := of_search found
  have file : Tree.namesIn unit ∈ t.files := by
    rw [files, roots]
    exact List.mem_flatMap.2 ⟨some root, List.mem_append_right _ List.mem_cons_self,
      (Tree.holds_of_walk walked).mem_filePaths⟩
  have some_name : Tree.namesIn unit ≠ [] :=
    Tree.names_ne_nil_of_walk (Text.pieces_ne_nil _ unit.toList) walked
  obtain ⟨left, ⟨kept, named, rfl, all, start⟩, proper, rfl⟩ := formed
  have some_left : kept ++ named ≠ [] := by
    intro none
    rw [none] at some_name
    exact some_name rfl
  have names : Tree.namesIn (String.ofList (Text.join ['/'] (kept ++ named))) =
      Tree.names kept ++ named.map String.ofList := by
    rw [Tree.namesIn, String.toList_ofList, segments_join_of_proper proper some_left,
      Tree.names_append, Tree.names_of_names all]
  refine List.mem_flatMap.2 ⟨kept, mem_origins _ start, List.mem_map.2 ⟨_, file, ?_⟩⟩
  rw [unitAt, names, List.drop_left, List.map_map]
  have restored : named.map (String.toList ∘ String.ofList) = named := by
    simp [Function.comp_def, String.toList_ofList]
  rw [restored]

/-- Completing sources from search paths never lacks a round: it comes to the outcome of a whole run,
whose rounds are told in full. -/
theorem complete_ends (t : TrustedImports) (sources : Sources) :
    ∃ rounds p, t.complete sources = Closure.outcome p ∧
      Closure.Expands t.resolve sources rounds p := by
  have enough : Closure.remaining (t.candidates sources.names) (Closure.start sources) ≤
      sources.size + t.servable sources.names := by
    rw [← length_candidates]
    exact Closure.remaining_start_le _ sources
  have rooted : ∀ unit ∈ (Closure.start sources).pending,
      Rooted sources.names (directory unit.toList) := fun unit hu => rooted_directory hu
  have ended : (Closure.run t.resolve (sources.size + t.servable sources.names)
      (Closure.start sources)).isSome = true := by
    refine Closure.run_isSome_of_asked (fun unit asked text served => ?_) enough
    exact mem_candidates (Closure.formed_of_asked rooted _ unit asked) served
  obtain ⟨p, ended⟩ := Option.isSome_iff_exists.1 ended
  exact ⟨_, p, Closure.complete_of_run ended, Closure.expands_of_run ended⟩

theorem complete_ne_unresolvedImports_nil (t : TrustedImports) (sources : Sources) :
    t.complete sources ≠ .error (.unresolvedImports []) := by
  obtain ⟨-, p, completed, -⟩ := t.complete_ends sources
  rw [completed, Closure.outcome]
  split
  · exact nofun
  · next lacking =>
    intro same
    have none : p.unresolved = [] := by simpa using same
    exact lacking (List.isEmpty_iff.2 none)

end TrustedImports
end SolidityVetting
