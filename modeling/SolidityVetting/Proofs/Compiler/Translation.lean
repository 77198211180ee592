import Mathlib.Data.List.Forall2
import Mathlib.Data.List.Nodup
import SolidityVetting.Proofs.Compiler.Response

set_option autoImplicit false

namespace SolidityVetting

/-- The line shown for a diagnostic: its kind, its message and as much of the place as is known. -/
inductive Diagnostic.Summarizes (d : Diagnostic) : String → Prop where
  | placeless (location : d.location = none) :
      Summarizes d (d.kind.getD "Error" ++ ": " ++ d.message)
  | inFile {file : String} {start : Int} (location : d.location = some ⟨file, start⟩)
      (unknown : start < 0) :
      Summarizes d (d.kind.getD "Error" ++ ": " ++ d.message ++ (" (" ++ file ++ ")"))
  | placed {file : String} {start : Int} (location : d.location = some ⟨file, start⟩)
      (known : 0 ≤ start) : Summarizes d
        (d.kind.getD "Error" ++ ": " ++ d.message ++ (" (" ++ file ++ ":" ++ toString start ++ ")"))

theorem Diagnostic.summarizes_iff (d : Diagnostic) (line : String) :
    d.Summarizes line ↔ line = d.summary := by
  constructor
  · intro h
    unfold summary
    cases h with
    | placeless location =>
      rw [location]
      exact (String.append_empty).symm
    | inFile location unknown =>
      rw [location]
      dsimp only
      rw [if_neg (Int.not_le.2 unknown)]
    | placed location known =>
      rw [location]
      dsimp only
      rw [if_pos known]
  · rintro rfl
    unfold summary
    cases location : d.location with
    | none =>
      dsimp only
      rw [String.append_empty]
      exact .placeless location
    | some place =>
      obtain ⟨file, start⟩ := place
      dsimp only
      by_cases known : 0 ≤ start
      · rw [if_pos known]
        exact .placed location known
      · rw [if_neg known]
        exact .inFile location (Int.not_le.1 known)

namespace CompilerResponse

theorem Entry.linkNotice_eq (e : Entry) : e.linkNotice =
    "UNLINKED_LIBRARY: contract " ++ e.name ++ " in " ++ e.file ++
      " requires external library linking" :=
  rfl

variable (r : CompilerResponse) (asked : List String)

def Declares (e : Entry) : Prop :=
  ∃ contracts, r.contracts.get? e.file = some contracts ∧ contracts.get? e.name = some e.contract

/-- Files asked for stand in the order asked, and behind them the others by name. -/
def FileBefore (f g : String) : Prop :=
  [f, g].Sublist asked ∨ f ∈ asked ∧ g ∉ asked ∨ f ∉ asked ∧ g ∉ asked ∧ f < g

def Precedes (a b : Entry) : Prop :=
  FileBefore asked a.file b.file ∨ a.file = b.file ∧ a.name < b.name

structure Lists (es : List Entry) : Prop where
  mem (e : Entry) : e ∈ es ↔ r.Declares e
  nodup : es.Nodup
  ordered : es.Pairwise (Precedes asked)

def ReportsError : Prop := ∃ d ∈ r.diagnostics, d.severity = "error"

def SharesName : Prop :=
  ∃ a b, r.Declares a ∧ r.Declares b ∧ a.file ≠ b.file ∧ a.name = b.name

def Entry.NeedsLinking (e : Entry) : Prop :=
  "__$".toList <:+: e.contract.creationObject.toList ∨
    "__$".toList <:+: e.contract.deployedObject.toList

theorem holds_iff (part text : List Char) :
    EmittedContract.holds part text = true ↔ part <:+: text := by
  induction text with
  | nil => rw [EmittedContract.holds, List.isEmpty_iff, List.infix_nil]
  | cons c rest ih =>
    rw [EmittedContract.holds, Bool.or_eq_true, ih, List.infix_cons_iff, Option.isSome_iff_exists]
    apply or_congr_left
    apply exists_congr
    intro behind
    rw [Text.dropStart?_eq_some_iff]
    exact eq_comm

theorem isUnlinked_iff (e : Entry) : e.contract.isUnlinked = true ↔ e.NeedsLinking := by
  rw [EmittedContract.isUnlinked, Bool.or_eq_true, holds_iff, holds_iff]
  rfl

instance (e : Entry) : Decidable e.NeedsLinking := decidable_of_iff _ (isUnlinked_iff e)

/-- What a response means, given the list of its contracts. -/
inductive Translates (es : List Entry) : Except CompileFailure Compilation → Prop where
  | reported {lines : List String} (error : r.ReportsError)
      (summaries : List.Forall₂ Diagnostic.Summarizes
        (r.diagnostics.filter (·.severity = "error")) lines) :
      Translates es (.error (.diagnostics lines))
  /-- The name of `e` is the first that stood in the list before. -/
  | repeated (silent : ¬ r.ReportsError) (shared : r.SharesName) {front back : List Entry}
      {a e : Entry} (cut : es = front ++ e :: back) (fresh : (front.map (·.name)).Nodup)
      (again : a ∈ front) (same : a.name = e.name) :
      Translates es (.error (.duplicateContract e.name))
  | unlinked (silent : ¬ r.ReportsError) (distinct : ¬ r.SharesName)
      (waiting : ∃ e ∈ es, e.NeedsLinking) :
      Translates es (.error (.diagnostics ((es.filter (·.NeedsLinking)).map fun e =>
        "UNLINKED_LIBRARY: contract " ++ e.name ++ " in " ++ e.file ++
          " requires external library linking")))
  | empty (silent : ¬ r.ReportsError) (none : es = []) : Translates es (.error .noContracts)
  | compiled {artifacts : List Artifact} (silent : ¬ r.ReportsError) (distinct : ¬ r.SharesName)
      (linked : ∀ e ∈ es, ¬ e.NeedsLinking) (some : es ≠ [])
      (rendered : List.Forall₂ (fun e a => e.contract.RenderedAs e.file e.name a) es artifacts) :
      Translates es (.ok
        { artifacts,
          warnings := (r.diagnostics.filter (·.severity = "warning")).map fun d =>
            d.formatted.getD d.message })

variable {r asked}

theorem forall₂_iff_eq_map {α β : Type} {R : α → β → Prop} {f : α → β}
    (h : ∀ a b, R a b ↔ b = f a) (as : List α) (bs : List β) :
    List.Forall₂ R as bs ↔ bs = as.map f := by
  have graph : R = fun a b => f a = b := by
    funext a b
    exact propext ((h a b).trans eq_comm)
  rw [graph, ← List.forall₂_map_left_iff (R := Eq), List.forall₂_eq_eq_eq]
  exact eq_comm

theorem rendered_iff (es : List Entry) (artifacts : List Artifact) :
    List.Forall₂ (fun e a => e.contract.RenderedAs e.file e.name a) es artifacts ↔
      artifacts = es.map (·.artifact) := by
  apply forall₂_iff_eq_map
  intro e a
  exact EmittedContract.renderedAs_iff

theorem not_precedes_self (h : asked.Nodup) (e : Entry) : ¬ Precedes asked e e := by
  rintro ((twice | ⟨inside, outside⟩ | ⟨-, -, lt⟩) | ⟨-, lt⟩)
  · exact List.nodup_iff_sublist.1 h e.file twice
  · exact outside inside
  · exact String.lt_irrefl e.file lt
  · exact String.lt_irrefl e.name lt

theorem Precedes.file_mem {a b : Entry} (h : Precedes asked a b) (hb : b.file ∈ asked) :
    a.file ∈ asked := by
  obtain (order | ⟨inside, -⟩ | ⟨-, outside, -⟩) | ⟨same, -⟩ := h
  · exact order.mem List.mem_cons_self
  · exact inside
  · exact absurd hb outside
  · rw [same]
    exact hb

theorem files_ordered : (r.files asked).Pairwise (FileBefore asked) := by
  unfold files
  rw [List.pairwise_append]
  refine ⟨?_, ?_, ?_⟩
  · rw [List.pairwise_iff_forall_sublist]
    intro f g order
    exact .inl (order.trans List.filter_sublist)
  · have byName : r.contracts.names.Pairwise (· < ·) :=
      List.pairwise_map.2 r.contracts.ordered
    apply (List.Pairwise.and_mem.1 (byName.filter _)).imp
    rintro f g ⟨hf, hg, lt⟩
    rw [List.mem_filter] at hf hg
    exact .inr (.inr ⟨by simpa using hf.2, by simpa using hg.2, lt⟩)
  · intro f hf g hg
    rw [List.mem_filter] at hf hg
    exact .inr (.inl ⟨hf.1, by simpa using hg.2⟩)

theorem entries_ordered : (r.entries asked).Pairwise (Precedes asked) := by
  unfold entries
  rw [List.pairwise_flatMap]
  constructor
  · intro file _
    unfold entriesOf
    rw [List.pairwise_map]
    apply NameMap.ordered _ |>.imp
    intro a b lt
    exact .inr ⟨rfl, lt⟩
  · apply files_ordered.imp
    intro f g before a ha b hb
    rw [((r.mem_entriesOf_iff f a).1 ha).1.symm, ((r.mem_entriesOf_iff g b).1 hb).1.symm] at before
    exact .inl before

theorem lists_entries (h : asked.Nodup) : r.Lists asked (r.entries asked) := by
  refine ⟨r.mem_entries_iff asked, ?_, entries_ordered⟩
  apply entries_ordered.imp
  rintro a b before rfl
  exact not_precedes_self h a before

theorem eq_of_declares {a b : Entry} (ha : r.Declares a) (hb : r.Declares b)
    (file : a.file = b.file) (name : a.name = b.name) : a = b := by
  obtain ⟨contracts, hf, hc⟩ := ha
  obtain ⟨others, hf', hc'⟩ := hb
  cases a with
  | mk f n c =>
    cases b with
    | mk f' n' c' =>
      subst file name
      cases hf.symm.trans hf'
      cases hc.symm.trans hc'
      rfl

theorem Lists.sharesName_iff {es : List Entry} (h : r.Lists asked es) :
    r.SharesName ↔ ¬ (es.map (·.name)).Nodup := by
  constructor
  · rintro ⟨a, b, ha, hb, files, names⟩ distinct
    have same := List.inj_on_of_nodup_map distinct ((h.mem a).2 ha) ((h.mem b).2 hb) names
    exact files (congrArg Entry.file same)
  · intro repeats
    apply Classical.byContradiction
    intro alone
    apply repeats
    rw [List.Nodup, List.pairwise_map]
    apply (List.Pairwise.and_mem.1 h.nodup).imp
    rintro a b ⟨ha, hb, ne⟩ names
    rw [h.mem] at ha hb
    by_cases files : a.file = b.file
    · exact ne (eq_of_declares ha hb files names)
    · exact alone ⟨a, b, ha, hb, files, names⟩

theorem firstRepeated?_eq_some_iff (seen names : List String) (name : String) :
    firstRepeated? seen names = some name ↔ ∃ front back, names = front ++ name :: back ∧
      front.Nodup ∧ (∀ other ∈ front, other ∉ seen) ∧ (name ∈ seen ∨ name ∈ front) := by
  induction names generalizing seen with
  | nil => simp [firstRepeated?]
  | cons first rest ih =>
    unfold firstRepeated?
    split
    · next known =>
      have mem : first ∈ seen := List.contains_iff_mem.1 known
      constructor
      · intro h
        cases h
        exact ⟨[], rest, rfl, List.nodup_nil, fun other hm => absurd hm List.not_mem_nil, .inl mem⟩
      · rintro ⟨front, back, cut, -, fresh, -⟩
        cases front with
        | nil =>
          obtain ⟨rfl, -⟩ := List.cons.inj cut
          rfl
        | cons other front =>
          obtain ⟨rfl, -⟩ := List.cons.inj cut
          exact absurd mem (fresh first List.mem_cons_self)
    · next new =>
      have fresh : first ∉ seen := fun mem => new (List.contains_iff_mem.2 mem)
      rw [ih]
      constructor
      · rintro ⟨front, back, rfl, distinct, unseen, again⟩
        refine ⟨first :: front, back, rfl, List.nodup_cons.2 ⟨?_, distinct⟩, ?_, ?_⟩
        · exact fun mem => unseen first mem List.mem_cons_self
        · rw [List.forall_mem_cons]
          exact ⟨fresh, fun other hm known => unseen other hm (List.mem_cons_of_mem first known)⟩
        · rw [List.mem_cons] at again ⊢
          obtain (rfl | known) | later := again
          · exact .inr (.inl rfl)
          · exact .inl known
          · exact .inr (.inr later)
      · rintro ⟨front, back, cut, distinct, unseen, again⟩
        cases front with
        | nil =>
          obtain ⟨rfl, -⟩ := List.cons.inj cut
          exact absurd (again.resolve_right List.not_mem_nil) fresh
        | cons other front =>
          obtain ⟨rfl, rfl⟩ := List.cons.inj cut
          obtain ⟨absent, distinct⟩ := List.nodup_cons.1 distinct
          refine ⟨front, back, rfl, distinct, ?_, ?_⟩
          · intro other hm known
            obtain rfl | known := List.mem_cons.1 known
            · exact absent hm
            · exact unseen other (List.mem_cons_of_mem first hm) known
          · rw [List.mem_cons] at again ⊢
            obtain known | rfl | later := again
            · exact .inl (.inr known)
            · exact .inl (.inl rfl)
            · exact .inr later

theorem errors_isEmpty_iff :
    ((r.diagnostics.filter (·.isError)).map (·.summary)).isEmpty = true ↔ ¬ r.ReportsError := by
  simp [ReportsError, Diagnostic.isError]

theorem toCompilation_of_reported (h : r.ReportsError) : r.toCompilation asked =
    .error (.diagnostics ((r.diagnostics.filter (·.severity = "error")).map (·.summary))) := by
  have some_error := (not_congr errors_isEmpty_iff).2 (not_not_intro h)
  unfold toCompilation
  dsimp only
  rw [if_pos (by simpa using some_error)]
  rfl

theorem toCompilation_of_silent (h : ¬ r.ReportsError) : r.toCompilation asked =
    match firstRepeated? [] ((r.entries asked).map (·.name)) with
    | some name => .error (.duplicateContract name)
    | none =>
      if ∃ e ∈ r.entries asked, e.NeedsLinking then
        .error (.diagnostics (((r.entries asked).filter (·.NeedsLinking)).map (·.linkNotice)))
      else if r.entries asked = [] then .error .noContracts
      else .ok
        { artifacts := (r.entries asked).map (·.artifact),
          warnings := (r.diagnostics.filter (·.severity = "warning")).map (·.warningText) } := by
  have unlinked : (r.entries asked).filter (·.contract.isUnlinked) =
      (r.entries asked).filter (·.NeedsLinking) := by
    apply List.filter_congr
    intro e _
    rw [Bool.eq_iff_iff, isUnlinked_iff, decide_eq_true_iff]
  unfold toCompilation
  dsimp only
  rw [if_neg (by simpa using errors_isEmpty_iff.2 h), unlinked]
  cases firstRepeated? [] ((r.entries asked).map (·.name)) with
  | some name => rfl
  | none =>
    dsimp only
    by_cases waiting : ∃ e ∈ r.entries asked, e.NeedsLinking
    · rw [if_pos waiting, if_pos (by simpa using waiting)]
    · rw [if_neg waiting, if_neg (by simpa using waiting)]
      by_cases none : r.entries asked = []
      · rw [if_pos none, if_pos (List.isEmpty_iff.2 none)]
      · rw [if_neg none, if_neg (fun h => none (List.isEmpty_iff.1 h))]
        rfl

theorem firstRepeated?_entries (h : asked.Nodup) :
    firstRepeated? [] ((r.entries asked).map (·.name)) = none ↔ ¬ r.SharesName := by
  rw [firstRepeated?_eq_none_iff, (lists_entries h).sharesName_iff, Classical.not_not]
  exact and_iff_left fun _ _ => List.not_mem_nil

theorem translates_toCompilation (h : asked.Nodup) :
    r.Translates (r.entries asked) (r.toCompilation asked) := by
  by_cases error : r.ReportsError
  · rw [toCompilation_of_reported error]
    exact .reported error ((forall₂_iff_eq_map Diagnostic.summarizes_iff _ _).2 rfl)
  rw [toCompilation_of_silent error]
  split
  · next name first =>
    have shared : r.SharesName := by
      apply Classical.byContradiction
      intro distinct
      rw [(firstRepeated?_entries h).2 distinct] at first
      cases first
    obtain ⟨front, back, cut, fresh, -, again⟩ := (firstRepeated?_eq_some_iff _ _ _).1 first
    obtain ⟨front, rest, hes, rfl, hr⟩ := List.map_eq_append_iff.1 cut
    obtain ⟨e, back, rfl, rfl, rfl⟩ := List.map_eq_cons_iff.1 hr
    obtain ⟨a, ha, same⟩ := List.mem_map.1 (again.resolve_left List.not_mem_nil)
    exact .repeated error shared hes fresh ha same
  · next first =>
    have distinct := (firstRepeated?_entries h).1 first
    by_cases waiting : ∃ e ∈ r.entries asked, e.NeedsLinking
    · rw [if_pos waiting]
      simp only [Entry.linkNotice_eq]
      exact .unlinked error distinct waiting
    · rw [if_neg waiting]
      by_cases none : r.entries asked = []
      · rw [if_pos none]
        exact .empty error none
      · rw [if_neg none]
        have linked : ∀ e ∈ r.entries asked, ¬ e.NeedsLinking :=
          fun e he needs => waiting ⟨e, he, needs⟩
        exact .compiled error distinct linked none ((rendered_iff _ _).2 rfl)

theorem toCompilation_of_translates (h : asked.Nodup) {result : Except CompileFailure Compilation}
    (t : r.Translates (r.entries asked) result) : r.toCompilation asked = result := by
  cases t with
  | reported error summaries =>
    rw [(forall₂_iff_eq_map Diagnostic.summarizes_iff _ _).1 summaries]
    exact toCompilation_of_reported error
  | @repeated silent shared front back a e cut fresh again same =>
    have first : firstRepeated? [] ((r.entries asked).map (·.name)) = some e.name := by
      rw [firstRepeated?_eq_some_iff]
      refine ⟨front.map (·.name), back.map (·.name), by rw [cut]; simp, fresh,
        fun _ _ => List.not_mem_nil, .inr ?_⟩
      rw [← same]
      exact List.mem_map_of_mem again
    rw [toCompilation_of_silent silent, first]
  | unlinked silent distinct waiting =>
    rw [toCompilation_of_silent silent, (firstRepeated?_entries h).2 distinct]
    exact if_pos waiting
  | empty silent none =>
    rw [toCompilation_of_silent silent, none]
    simp [firstRepeated?]
  | compiled silent distinct linked some rendered =>
    have waiting : ¬ ∃ e ∈ r.entries asked, e.NeedsLinking := by
      rintro ⟨e, he, needs⟩
      exact linked e he needs
    rw [toCompilation_of_silent silent, (firstRepeated?_entries h).2 distinct]
    dsimp only
    rw [if_neg waiting, if_neg some, (rendered_iff _ _).1 rendered]
    rfl

theorem primary?_asked {es : List Entry} {c : Compilation} (h : r.Lists asked es)
    (artifacts : c.artifacts = es.map (·.artifact)) {a : Artifact} (ha : a ∈ c.artifacts)
    (inside : a.sourceFile ∈ asked) (deployable : a.isDeployable = true) :
    ∃ a, c.primary? = some a ∧ a.sourceFile ∈ asked := by
  have found : c.primary?.isSome = true := by
    rw [Compilation.primary?, List.find?_isSome]
    exact ⟨a, ha, deployable⟩
  rw [artifacts] at ha
  obtain ⟨e, he, rfl⟩ := List.mem_map.1 ha
  obtain ⟨a, chosen⟩ := Option.isSome_iff_exists.1 found
  refine ⟨a, chosen, ?_⟩
  rw [Compilation.primary?, artifacts, List.find?_eq_some_iff_append] at chosen
  obtain ⟨-, before, behind, cut, none⟩ := chosen
  obtain ⟨front, rest, rfl, rfl, hr⟩ := List.map_eq_append_iff.1 cut
  obtain ⟨first, back, rfl, rfl, -⟩ := List.map_eq_cons_iff.1 hr
  change first.file ∈ asked
  obtain early | rfl | late : e ∈ front ∨ e = first ∨ e ∈ back := by simpa using he
  · have idle := none e.artifact (List.mem_map_of_mem early)
    rw [deployable] at idle
    cases idle
  · exact inside
  · -- a file in front of one asked for is asked for as well
    have order := (List.pairwise_append.1 h.ordered).2.1
    exact ((List.pairwise_cons.1 order).1 e late).file_mem inside

/-- A response is translated without loss, and a failure is the first that applies. -/
theorem toCompilation_exact (r : CompilerResponse) {asked : List String} (h : asked.Nodup) :
    ∃ es, r.Lists asked es ∧
      (∀ result, r.toCompilation asked = result ↔ r.Translates es result) ∧
      ∀ c, r.toCompilation asked = .ok c → (c.artifacts.map (·.name)).Nodup ∧
        ((∃ a ∈ c.artifacts, a.sourceFile ∈ asked ∧ a.isDeployable = true) →
          ∃ a, c.primary? = some a ∧ a.sourceFile ∈ asked) := by
  refine ⟨r.entries asked, lists_entries h, ?_, ?_⟩
  · intro result
    constructor
    · rintro rfl
      exact translates_toCompilation h
    · exact toCompilation_of_translates h
  · intro c compiled
    have accepted := r.accepted_of_toCompilation asked compiled
    refine ⟨accepted.artifact_names, ?_⟩
    rintro ⟨a, ha, inside, deployable⟩
    exact primary?_asked (lists_entries h) accepted.artifacts ha inside deployable

def tokenResponse : CompilerResponse :=
  { diagnostics :=
      [{ severity := "warning", message := "Unused", formatted := some "Warning: Unused" }],
    contracts := .ofList
      [("@lib/Strings.sol", .ofList [("Strings", { deployedObject := "60ab" })]),
        ("Token.sol", .ofList
          [("IToken", { abi := .array [.string "mint"] }),
            ("Token",
              { abi := .array [.string "mint"], creationObject := "0x60AB", deployedObject := "6080",
                gas := some { external := .ofList [("mint()", "infinite")] } })])] }

theorem toCompilation_exact_token : ["Token.sol"].Nodup ∧
    ∃ es c a, tokenResponse.Lists ["Token.sol"] es ∧
      tokenResponse.toCompilation ["Token.sol"] = .ok c ∧ tokenResponse.Translates es (.ok c) ∧
      c.warnings = ["Warning: Unused"] ∧
      c.artifacts =
        [{ name := "IToken", sourceFile := "Token.sol", abi := .array [.string "mint"],
           creationCode := "0x", deployedCode := "0x" },
         { name := "Token", sourceFile := "Token.sol", abi := .array [.string "mint"],
           creationCode := "0x60ab", deployedCode := "0x6080",
           gas := { external := .ofList [("mint()", "infinite")] } },
         { name := "Strings", sourceFile := "@lib/Strings.sol", abi := .null,
           creationCode := "0x", deployedCode := "0x60ab" }] ∧
      c.primary? = some a ∧ a.sourceFile = "Token.sol" := by
  have distinct : ["Token.sol"].Nodup := by decide
  obtain ⟨es, lists, exact_result, accepted⟩ := toCompilation_exact tokenResponse distinct
  let c : Compilation :=
    { artifacts := (tokenResponse.entries ["Token.sol"]).map (·.artifact),
      warnings := ["Warning: Unused"] }
  have compiled : tokenResponse.toCompilation ["Token.sol"] = .ok c := rfl
  have translated := (exact_result (.ok c)).1 compiled
  let token := EmittedContract.artifact "Token.sol" "Token"
    { abi := .array [.string "mint"], creationObject := "0x60AB", deployedObject := "6080",
      gas := some { external := .ofList [("mint()", "infinite")] } }
  have listed : token ∈ c.artifacts := List.mem_cons_of_mem _ List.mem_cons_self
  have deployable : token.isDeployable = true := by decide
  obtain ⟨a, primary, inside⟩ :=
    (accepted c compiled).2 ⟨token, listed, List.mem_singleton_self _, deployable⟩
  exact ⟨distinct, es, c, a, lists, compiled, translated, rfl, rfl, primary,
    List.mem_singleton.1 inside⟩

end CompilerResponse
end SolidityVetting
