import SolidityVetting.Compiler.Response
import SolidityVetting.Proofs.NameMap

set_option autoImplicit false

namespace SolidityVetting

namespace EmittedContract

variable {c : EmittedContract} {file name object code : String} {rest : List Char}

def unprefixed (object : List Char) : List Char := (Text.dropStart? ['0', 'x'] object).getD object

theorem unprefixed_append : unprefixed ('0' :: 'x' :: rest) = rest := rfl

theorem unprefixed_cases (object : List Char) : (∃ rest, object = '0' :: 'x' :: rest) ∨
    ¬ ['0', 'x'] <+: object ∧ unprefixed object = object := by
  cases h : Text.dropStart? ['0', 'x'] object with
  | some rest => exact .inl ⟨rest, (Text.dropStart?_eq_some_iff _ _ _).1 h⟩
  | none =>
    refine .inr ⟨?_, by rw [unprefixed, h]; rfl⟩
    intro ⟨rest, cut⟩
    rw [(Text.dropStart?_eq_some_iff _ _ rest).2 cut.symm] at h
    cases h

theorem toList_normalizeHex (object : String) : (normalizeHex object).toList =
    '0' :: 'x' :: (unprefixed object.toList).map Char.toLower :=
  String.toList_ofList

/-- The code is the object in lower case behind `0x`, which the object may start with itself. -/
def StoredAs (object code : String) : Prop :=
  ∃ digits, (object.toList = '0' :: 'x' :: digits ∨
      object.toList = digits ∧ ¬ ['0', 'x'] <+: digits) ∧
    code.toList = '0' :: 'x' :: digits.map Char.toLower

theorem storedAs_iff : StoredAs object code ↔ code = normalizeHex object := by
  rw [← String.toList_inj, toList_normalizeHex]
  obtain ⟨digits, cut⟩ | ⟨bare, whole⟩ := unprefixed_cases object.toList
  · rw [cut, unprefixed_append]
    constructor
    · rintro ⟨other, marked | ⟨same, bare⟩, stored⟩
      · rw [cut] at marked
        cases marked
        exact stored
      · exact absurd ⟨digits, by rw [← same, cut]; rfl⟩ bare
    · intro stored
      exact ⟨digits, .inl cut, stored⟩
  · rw [whole]
    constructor
    · rintro ⟨other, marked | ⟨same, -⟩, stored⟩
      · exact absurd ⟨other, marked.symm⟩ bare
      · rwa [same]
    · intro stored
      exact ⟨object.toList, .inr ⟨rfl, bare⟩, stored⟩

/-- The artifact says of the contract of this name all that the response says of it. -/
structure RenderedAs (c : EmittedContract) (file name : String) (a : Artifact) : Prop where
  name : a.name = name
  file : a.sourceFile = file
  abi : a.abi = c.abi
  creation : StoredAs c.creationObject a.creationCode
  deployed : StoredAs c.deployedObject a.deployedCode
  gas : c.gas = some a.gas ∨ c.gas = none ∧
    a.gas = { creation := none, external := .empty, internal := .empty }

theorem renderedAs_artifact (c : EmittedContract) (file name : String) :
    c.RenderedAs file name (c.artifact file name) := by
  refine ⟨rfl, rfl, rfl, storedAs_iff.2 rfl, storedAs_iff.2 rfl, ?_⟩
  unfold artifact
  cases c.gas with
  | none => exact .inr ⟨rfl, rfl⟩
  | some gas => exact .inl rfl

theorem renderedAs_iff {a : Artifact} : c.RenderedAs file name a ↔ a = c.artifact file name := by
  constructor
  · rintro ⟨rfl, rfl, abi, creation, deployed, gas⟩
    have gas : a.gas = c.gas.getD {} := by
      obtain here | ⟨absent, plain⟩ := gas
      · rw [here]
        rfl
      · rw [absent, plain]
        rfl
    obtain ⟨name, file, _, _, _, _⟩ := a
    rw [storedAs_iff] at creation deployed
    dsimp only at abi creation deployed gas
    rw [abi, creation, deployed, gas]
    rfl
  · rintro rfl
    exact c.renderedAs_artifact file name

end EmittedContract

namespace CompilerResponse

variable (r : CompilerResponse) (asked : List String)

theorem firstRepeated?_eq_none_iff (seen names : List String) :
    firstRepeated? seen names = none ↔ names.Nodup ∧ ∀ name ∈ names, name ∉ seen := by
  induction names generalizing seen with
  | nil => simp [firstRepeated?]
  | cons name rest ih =>
    unfold firstRepeated?
    split
    · next known =>
      have mem : name ∈ seen := List.contains_iff_mem.1 known
      constructor
      · intro h
        cases h
      · intro h
        exact absurd mem (h.2 name List.mem_cons_self)
    · next new =>
      have fresh : name ∉ seen := fun mem => new (List.contains_iff_mem.2 mem)
      rw [ih, List.nodup_cons]
      constructor
      · intro h
        refine ⟨⟨fun mem => h.2 name mem List.mem_cons_self, h.1⟩, ?_⟩
        intro other mem
        rcases List.mem_cons.1 mem with rfl | mem
        · exact fresh
        · exact fun known => h.2 other mem (List.mem_cons_of_mem name known)
      · intro h
        refine ⟨h.1.2, ?_⟩
        intro other mem known
        rcases List.mem_cons.1 known with rfl | known
        · exact h.1.1 mem
        · exact h.2 other (List.mem_cons_of_mem name mem) known

theorem mem_files_iff (file : String) : file ∈ r.files asked ↔ file ∈ r.contracts.names := by
  unfold files
  rw [List.mem_append, List.mem_filter, List.mem_filter, NameMap.contains_iff]
  by_cases h : file ∈ asked <;> simp [h]

theorem files_perm (h : asked.Nodup) : (r.files asked).Perm r.contracts.names := by
  have distinct : (r.files asked).Nodup := by
    unfold files
    rw [List.nodup_append]
    refine ⟨h.filter _, r.contracts.names_nodup.filter _, ?_⟩
    intro file left other right same
    rw [List.mem_filter] at left right
    have absent : other ∉ asked := by simpa using right.2
    exact absent (same ▸ left.1)
  rw [List.perm_ext_iff_of_nodup distinct r.contracts.names_nodup]
  exact r.mem_files_iff asked

theorem mem_entriesOf_iff (file : String) (e : Entry) : e ∈ r.entriesOf file ↔ e.file = file ∧
    ∃ contracts, r.contracts.get? file = some contracts ∧
      contracts.get? e.name = some e.contract := by
  unfold entriesOf
  rw [List.mem_map]
  constructor
  · rintro ⟨⟨name, contract⟩, mem, rfl⟩
    cases h : r.contracts.get? file with
    | none =>
      rw [h] at mem
      cases mem
    | some contracts =>
      rw [h] at mem
      exact ⟨rfl, contracts, rfl, (contracts.get?_eq_some_iff name contract).2 mem⟩
  · rintro ⟨rfl, contracts, h, found⟩
    refine ⟨(e.name, e.contract), ?_, rfl⟩
    rw [h]
    exact (contracts.get?_eq_some_iff e.name e.contract).1 found

theorem mem_entries_iff (e : Entry) : e ∈ r.entries asked ↔
    ∃ contracts, r.contracts.get? e.file = some contracts ∧
      contracts.get? e.name = some e.contract := by
  unfold entries
  rw [List.mem_flatMap]
  constructor
  · rintro ⟨file, -, mem⟩
    rcases (r.mem_entriesOf_iff file e).1 mem with ⟨rfl, found⟩
    exact found
  · rintro ⟨contracts, h, found⟩
    refine ⟨e.file, ?_, (r.mem_entriesOf_iff e.file e).2 ⟨rfl, contracts, h, found⟩⟩
    rw [mem_files_iff, NameMap.mem_names_iff]
    exact ⟨contracts, h⟩

theorem contracts_entriesOf (file : String) : (r.entriesOf file).map (fun e => (e.name, e.contract)) =
    ((r.contracts.get? file).getD .empty).entries := by
  unfold entriesOf
  rw [List.map_map]
  exact List.map_id _

theorem entries_perm (h : asked.Nodup) :
    ((r.entries asked).map fun e => (e.name, e.contract)).Perm
      (r.contracts.values.flatMap (·.entries)) := by
  have byFile : (r.entries asked).map (fun e => (e.name, e.contract)) =
      (r.files asked).flatMap fun file => ((r.contracts.get? file).getD .empty).entries := by
    unfold entries
    rw [List.map_flatMap]
    simp only [contracts_entriesOf]
  have found : ∀ entry ∈ r.contracts.entries,
      ((r.contracts.get? entry.1).getD .empty).entries = entry.2.entries := by
    intro entry mem
    rw [(r.contracts.get?_eq_some_iff entry.1 entry.2).2 mem]
    rfl
  have byName : (r.contracts.names.flatMap fun file =>
      ((r.contracts.get? file).getD .empty).entries) = r.contracts.values.flatMap (·.entries) := by
    unfold NameMap.names NameMap.values
    rw [List.flatMap_map, List.flatMap_map, List.flatMap_def, List.map_congr_left found,
      ← List.flatMap_def]
  rw [byFile, ← byName]
  exact (r.files_perm asked h).flatMap_right _

structure Accepted (c : Compilation) : Prop where
  no_error : ∀ d ∈ r.diagnostics, d.isError = false
  names_nodup : ((r.entries asked).map (·.name)).Nodup
  linked : ∀ e ∈ r.entries asked, e.contract.isUnlinked = false
  some_contract : r.entries asked ≠ []
  artifacts : c.artifacts = (r.entries asked).map (·.artifact)
  warnings : c.warnings = (r.diagnostics.filter (·.isWarning)).map (·.warningText)

theorem accepted_of_toCompilation {c : Compilation} (h : r.toCompilation asked = .ok c) :
    r.Accepted asked c := by
  unfold toCompilation at h
  dsimp only at h
  split at h
  · cases h
  next errors =>
  split at h
  · cases h
  next names =>
  split at h
  · cases h
  next unlinked =>
  split at h
  · cases h
  next contracts =>
  cases h
  refine ⟨?_, ((firstRepeated?_eq_none_iff [] _).1 names).1, ?_, ?_, rfl, rfl⟩
  · simpa using errors
  · simpa using unlinked
  · simpa using contracts

theorem get?_byName_iff {c : Compilation} (h : (c.artifacts.map (·.name)).Nodup) (name : String)
    (a : Artifact) : c.byName.get? name = some a ↔ a ∈ c.artifacts ∧ a.name = name := by
  have distinct : ((c.artifacts.map fun a => (a.name, a)).map (·.1)).Nodup := by
    rw [List.map_map]
    exact h
  rw [Compilation.byName, NameMap.get?_ofList_iff distinct, List.mem_map]
  constructor
  · rintro ⟨a, mem, eq⟩
    cases eq
    exact ⟨mem, rfl⟩
  · rintro ⟨mem, rfl⟩
    exact ⟨a, mem, rfl⟩

theorem size_byName {c : Compilation} (h : (c.artifacts.map (·.name)).Nodup) :
    c.byName.size = c.artifacts.length := by
  have distinct : ((c.artifacts.map fun a => (a.name, a)).map (·.1)).Nodup := by
    rw [List.map_map]
    exact h
  rw [Compilation.byName, NameMap.size_ofList distinct, List.length_map]

variable {r asked} {c : Compilation}

theorem Accepted.artifact_names (h : r.Accepted asked c) : (c.artifacts.map (·.name)).Nodup := by
  rw [h.artifacts, List.map_map]
  exact h.names_nodup

theorem Accepted.get?_byName (h : r.Accepted asked c) (name : String) (a : Artifact) :
    c.byName.get? name = some a ↔ ∃ file contracts contract,
      r.contracts.get? file = some contracts ∧ contracts.get? name = some contract ∧
        contract.RenderedAs file name a := by
  simp only [EmittedContract.renderedAs_iff]
  rw [get?_byName_iff h.artifact_names, h.artifacts, List.mem_map]
  constructor
  · rintro ⟨⟨e, mem, rfl⟩, rfl⟩
    rcases (r.mem_entries_iff asked e).1 mem with ⟨contracts, file, contract⟩
    exact ⟨e.file, contracts, e.contract, file, contract, rfl⟩
  · rintro ⟨file, contracts, contract, hfile, hname, rfl⟩
    refine ⟨⟨⟨file, name, contract⟩, ?_, rfl⟩, rfl⟩
    exact (r.mem_entries_iff asked ⟨file, name, contract⟩).2 ⟨contracts, hfile, hname⟩

theorem Accepted.size_byName (h : r.Accepted asked c) (hd : asked.Nodup) :
    c.byName.size = (r.contracts.values.flatMap (·.entries)).length := by
  have same := (r.entries_perm asked hd).length_eq
  rw [List.length_map] at same
  rw [CompilerResponse.size_byName h.artifact_names, h.artifacts, List.length_map, same]

end CompilerResponse
end SolidityVetting
