import SolidityVetting.Proofs.Compiler.Translation
import SolidityVetting.Proofs.Gate.Stages
import SolidityVetting.Proofs.Hex.Spelling
/-! # The code objects of a response

An artifact stores the objects that the compiler wrote, in lower case and with `0x` in front. What is
stored spells the bytes that the object spells, unless the object starts with a blank or with `0X`:
these are kept, and behind the new `0x` they are no digits. A contract counts as one without code
exactly if its object is the empty text or `0x`, so one whose object is nothing but blanks can be
chosen and is then found to be empty.
-/

set_option autoImplicit false

namespace SolidityVetting
open Text Hex

namespace EmittedContract

structure StartsPlain (object : List Char) : Prop where
  first : ∀ c ∈ object.head?, isBlank c = false
  unmarked : ¬ ['0', 'X'] <+: object

def EndsPlain (object : List Char) : Prop := ∀ c ∈ object.getLast?, isBlank c = false

def Hollow (object : List Char) : Prop :=
  ∃ blanks, blanks ≠ [] ∧ (∀ c ∈ blanks, isBlank c = true) ∧
    (object = blanks ∨ object = '0' :: 'x' :: blanks)

/-- The stored text is read exactly as the object is, if that starts plainly, and else not at all. -/
def KeepsBytes (object stored : String) : Prop :=
  ∀ bytes, decode stored = .ok bytes ↔ StartsPlain object.toList ∧ decode object = .ok bytes

variable {object : String} {text rest digits : List Char} {bytes : List UInt8}

theorem spelledBy_toLower :
    SpelledBy (digits.map Char.toLower) bytes ↔ SpelledBy digits bytes := by
  have lower : Char.toLower ∘ Char.toLower = Char.toLower := funext toLower_toLower
  rw [SpelledBy, SpelledBy, List.map_map, lower]

theorem trimEnd_marked {mark : List Char} (h : mark ∈ marks) :
    trimEnd (mark ++ rest) = mark ++ trimEnd rest :=
  trimEnd_append_of_last fun _ hc => isBlank_of_mem_mark h (List.mem_of_mem_getLast? hc)

theorem trim_marked {mark : List Char} (h : mark ∈ marks) :
    trim (mark ++ rest) = mark ++ trimEnd rest := by
  have start : trimStart (mark ++ rest) = mark ++ rest := by
    rcases mem_marks_iff.1 h with same | same
    · rw [same]
      rfl
    · rw [same]
      rfl
  rw [trim, start, trimEnd_marked h]

theorem body_of_prefixed : dropMark (trim ('0' :: 'x' :: rest)) = trimEnd rest := by
  have h : ['0', 'x'] ∈ marks := by decide
  exact (congrArg dropMark (trim_marked h)).trans (dropMark_append h)

theorem body_of_plain (plain : StartsPlain text) (bare : ¬ ['0', 'x'] <+: text) :
    dropMark (trim text) = trimEnd text := by
  obtain ⟨back, cut, -⟩ := trimEnd_cut text
  rw [trim, trimStart_of_first plain.first]
  apply dropMark_of_unmarked
  intro mark hm ahead
  have whole : mark <+: text := ahead.trans ⟨back, cut.symm⟩
  rcases mem_marks_iff.1 hm with same | same
  · exact bare (same ▸ whole)
  · exact plain.unmarked (same ▸ whole)

theorem startsPlain_cons {c : Char} (solid : isBlank c = false)
    (unmarked : ¬ ['0', 'X'] <+: c :: rest) : StartsPlain (c :: rest) := by
  refine ⟨?_, unmarked⟩
  intro d hd
  rwa [← Option.some.inj hd]

theorem startsPlain_prefixed : StartsPlain ('0' :: 'x' :: rest) := by
  apply startsPlain_cons rfl
  intro ahead
  have same := (List.cons_prefix_cons.1 (List.cons_prefix_cons.1 ahead).2).1
  cases same

theorem startsPlain_of_spelledBy (filled : bytes ≠ []) (h : SpelledBy (trimEnd text) bytes) :
    StartsPlain text := by
  have ⟨back, cut, _⟩ := trimEnd_cut text
  constructor
  · intro c hc
    have ⟨d, more, all⟩ := List.exists_cons_of_ne_nil (h.ne_nil filled)
    rw [cut, all] at hc
    obtain rfl := Option.some.inj hc
    exact (h.mem (all ▸ List.mem_cons_self)).1
  · intro ⟨rest, ahead⟩
    have mark : trimEnd text = ['0', 'X'] ++ trimEnd rest := by
      rw [← ahead, trimEnd_marked (by decide)]
    have letter : 'X' ∈ trimEnd text := by
      rw [mark]
      exact List.mem_cons_of_mem _ List.mem_cons_self
    exact (h.mem letter).2.2 rfl

theorem keepsBytes_normalizeHex (object : String) : KeepsBytes object (normalizeHex object) := by
  intro bytes
  rw [decode_eq_ok_iff, decode_eq_ok_iff, toList_normalizeHex, body_of_prefixed, trimEnd_toLower,
    spelledBy_toLower]
  rcases unprefixed_cases object.toList with ⟨rest, cut⟩ | ⟨bare, same⟩
  · rw [cut, unprefixed_append, body_of_prefixed]
    exact (and_iff_right startsPlain_prefixed).symm
  · rw [same]
    constructor
    · intro ⟨filled, spelled⟩
      -- behind the new mark nothing is dropped, so the digits stand at the start of the object
      have plain := startsPlain_of_spelledBy filled spelled
      rw [body_of_plain plain bare]
      exact ⟨plain, filled, spelled⟩
    · intro ⟨plain, filled, spelled⟩
      rw [body_of_plain plain bare] at spelled
      exact ⟨filled, spelled⟩

theorem decode_eq_empty_iff :
    decode object = .error .empty ↔ dropMark (trim object.toList) = [] := by
  rw [decode_eq_error_iff]
  constructor
  · intro fault
    cases fault with
    | empty none =>
      have same : String.ofList (dropMark (trim object.toList)) = String.ofList [] :=
        Utf8.encode_injective none
      simpa using congrArg String.toList same
  · intro none
    rw [none]
    exact .empty rfl

theorem isDeployable_eq_false_iff {c : EmittedContract} {file name : String} :
    (c.artifact file name).isDeployable = false ↔ unprefixed c.deployedObject.toList = [] := by
  have code : (c.artifact file name).isDeployable =
      ! (unprefixed (normalizeHex c.deployedObject).toList).isEmpty := rfl
  rw [code, toList_normalizeHex, unprefixed_append]
  cases unprefixed c.deployedObject.toList <;> simp

theorem unprefixed_eq_nil_iff : unprefixed object.toList = [] ↔
    StartsPlain object.toList ∧ EndsPlain object.toList ∧ decode object = .error .empty := by
  have mark : ['0', 'x'] ∈ marks := by decide
  rw [decode_eq_empty_iff]
  rcases unprefixed_cases object.toList with ⟨rest, cut⟩ | ⟨bare, same⟩
  · rw [cut, unprefixed_append, body_of_prefixed]
    constructor
    · intro nil
      rw [nil]
      have last : EndsPlain ['0', 'x'] := fun _ hc =>
        isBlank_of_mem_mark mark (List.mem_of_mem_getLast? hc)
      exact ⟨startsPlain_prefixed, last, rfl⟩
    · intro ⟨_, last, nil⟩
      have whole := trimEnd_of_last last
      have cut : trimEnd ('0' :: 'x' :: rest) = '0' :: 'x' :: trimEnd rest := trimEnd_marked mark
      rw [cut, nil] at whole
      simpa using whole.symm
  · rw [same]
    constructor
    · intro nil
      rw [nil]
      exact ⟨⟨nofun, by decide⟩, nofun, rfl⟩
    · intro ⟨plain, last, nil⟩
      rwa [body_of_plain plain bare, trimEnd_of_last last] at nil

theorem decode_normalizeHex_eq_empty_iff : decode (normalizeHex object) = .error .empty ↔
    ∀ c ∈ unprefixed object.toList, isBlank c = true := by
  rw [decode_eq_empty_iff, toList_normalizeHex, body_of_prefixed, trimEnd_toLower,
    List.map_eq_nil_iff, trimEnd_eq_nil_iff]

theorem hollow_iff (text : List Char) : Hollow text ↔
    unprefixed text ≠ [] ∧ ∀ c ∈ unprefixed text, isBlank c = true := by
  constructor
  · rintro ⟨blanks, filled, blank, only | marked⟩
    · rcases unprefixed_cases text with ⟨rest, cut⟩ | ⟨_, same⟩
      · have digit : isBlank '0' = true := by
          apply blank
          rw [← only, cut]
          exact List.mem_cons_self
        cases digit
      · rw [same, only]
        exact ⟨filled, blank⟩
    · rw [marked, unprefixed_append]
      exact ⟨filled, blank⟩
  · intro ⟨filled, blank⟩
    rcases unprefixed_cases text with ⟨rest, cut⟩ | ⟨_, same⟩
    · rw [cut, unprefixed_append] at filled blank
      exact ⟨rest, filled, blank, .inr cut⟩
    · rw [same] at filled blank
      exact ⟨text, filled, blank, .inl rfl⟩

end EmittedContract

namespace CompilerResponse
open EmittedContract

variable {r : CompilerResponse} {asked : List String} {c : Compilation} {a : Artifact}

/-- What becomes of the objects of a contract: both are kept as they are read, the contract counts as
one without code if there are neither digits nor anything that is dropped in reading, and the one
chosen for deployment has no digits only if its object has blanks in their place. -/
theorem objects_read (h : r.toCompilation asked = .ok c) (ha : a ∈ c.artifacts) :
    ∃ e, r.Declares e ∧ a = e.artifact ∧
      KeepsBytes e.contract.creationObject a.creationCode ∧
      KeepsBytes e.contract.deployedObject a.deployedCode ∧
      (a.isDeployable = false ↔ StartsPlain e.contract.deployedObject.toList ∧
        EndsPlain e.contract.deployedObject.toList ∧
          decode e.contract.deployedObject = .error .empty) ∧
      ∀ (s : Settings) (request : Option String), Run.select c.artifacts request = .ok a →
        a.isDeployable = true ∧ (s.codeScan.scanHex a.deployedCode = .error .empty ↔
          Hollow e.contract.deployedObject.toList) := by
  have accepted := r.accepted_of_toCompilation asked h
  rw [accepted.artifacts] at ha
  have ⟨e, he, same⟩ := List.mem_map.1 ha
  subst same
  have idle : e.artifact.isDeployable = false ↔
      unprefixed e.contract.deployedObject.toList = [] := isDeployable_eq_false_iff
  refine ⟨e, (r.mem_entries_iff asked e).1 he, rfl, keepsBytes_normalizeHex _,
    keepsBytes_normalizeHex _, idle.trans unprefixed_eq_nil_iff, ?_⟩
  intro s request selected
  have deployable : e.artifact.isDeployable = true := by
    cases Run.select_eq_ok_iff.1 selected with
    | named _ deployable => exact deployable
    | first found => exact List.find?_some found
  have code : unprefixed e.contract.deployedObject.toList ≠ [] := by
    rw [Ne, ← idle, deployable]
    decide
  refine ⟨deployable, ?_⟩
  rw [CodeScan.scanHex, map_eq_error_iff, hollow_iff, and_iff_right code]
  exact decode_normalizeHex_eq_empty_iff

def markedResponse : CompilerResponse :=
  { contracts := .ofList [("Vault.sol", .ofList
      [("Plain", { creationObject := "60Ff", deployedObject := "00" }),
        ("Vault", { creationObject := "0X60Ff", deployedObject := "0X" })])] }

theorem objects_read_marked : ∃ c plain vault, markedResponse.toCompilation [] = .ok c ∧
    c.artifacts = [plain, vault] ∧
    decode plain.creationCode = .ok [0x60, 0xFF] ∧ plain.isDeployable = true ∧
    decode "0X60Ff" = .ok [0x60, 0xFF] ∧ decode vault.creationCode ≠ .ok [0x60, 0xFF] ∧
    decode "0X" = .error .empty ∧ vault.isDeployable = true := by
  let plain : Entry := ⟨"Vault.sol", "Plain", { creationObject := "60Ff", deployedObject := "00" }⟩
  let vault : Entry := ⟨"Vault.sol", "Vault", { creationObject := "0X60Ff", deployedObject := "0X" }⟩
  let c : Compilation := { artifacts := (markedResponse.entries []).map (·.artifact) }
  have compiled : markedResponse.toCompilation [] = .ok c := rfl
  have entries : markedResponse.entries [] = [plain, vault] := rfl
  have artifacts : c.artifacts = [plain.artifact, vault.artifact] :=
    congrArg (List.map (·.artifact)) entries
  have first : plain.artifact ∈ c.artifacts := artifacts ▸ List.mem_cons_self
  have second : vault.artifact ∈ c.artifacts :=
    artifacts ▸ List.mem_cons_of_mem _ List.mem_cons_self
  have declares_plain : markedResponse.Declares plain := ⟨_, rfl, rfl⟩
  have declares_vault : markedResponse.Declares vault := ⟨_, rfl, rfl⟩
  obtain ⟨e, declares, same, kept, _, idle, _⟩ := objects_read compiled first
  have known : plain = e := eq_of_declares declares_plain declares
    (congrArg Artifact.sourceFile same) (congrArg Artifact.name same)
  rw [← known] at kept idle
  obtain ⟨e, declares, same, kept', _, idle', _⟩ := objects_read compiled second
  have known : vault = e := eq_of_declares declares_vault declares
    (congrArg Artifact.sourceFile same) (congrArg Artifact.name same)
  rw [← known] at kept' idle'
  refine ⟨c, plain.artifact, vault.artifact, compiled, artifacts, ?_, ?_, by decide +kernel, ?_,
    by decide +kernel, ?_⟩
  · have read : decode "60Ff" = .ok [0x60, 0xFF] := by decide +kernel
    have start : StartsPlain "60Ff".toList := startsPlain_cons (c := '6') rfl (by decide)
    exact (kept _).2 ⟨start, read⟩
  · have filled : decode "00" ≠ .error .empty := by decide +kernel
    rw [← Bool.not_eq_false, idle]
    exact fun blank => filled blank.2.2
  · intro read
    exact ((kept' _).1 read).1.unmarked (by decide)
  · rw [← Bool.not_eq_false, idle']
    exact fun blank => blank.1.unmarked (by decide)

end CompilerResponse
end SolidityVetting
