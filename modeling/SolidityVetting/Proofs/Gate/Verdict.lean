import SolidityVetting.Proofs.Code.Scan
import SolidityVetting.Proofs.Compiler.Response
import SolidityVetting.Proofs.Gate.Reach
import SolidityVetting.Proofs.Source.Versions

set_option autoImplicit false

namespace SolidityVetting

namespace Run

variable {s : Settings}

structure Selected (artifacts : List Artifact) (request : Option String) (c : Artifact) : Prop where
  mem : c ∈ artifacts
  deployable : c.isDeployable = true
  named : ∀ name, request = some name → c.name = name
  first : request = none → artifacts.find? (·.isDeployable) = some c

theorem selected_of_chosen {c : Compilation} {request : Option String} {a : Artifact}
    (h : Chosen c request a) : Selected c.artifacts request a := by
  cases h with
  | @named name _ found deployable =>
    unfold Compilation.find? at found
    have same := List.find?_some found
    refine ⟨List.mem_of_find?_eq_some found, deployable, fun other named => ?_, fun unnamed => ?_⟩
    · cases named
      exact eq_of_beq same
    · cases unnamed
  | first found =>
    have deployable : a.isDeployable = true := List.find?_some found
    refine ⟨List.mem_of_find?_eq_some found, deployable, fun other named => ?_, fun _ => found⟩
    cases named

theorem judge_eq_ok {a : Admitted} {c : Compilation} {v : Verdict} (h : judge s a c = .ok v) :
    ∃ primary report creation, select c.artifacts a.submission.primary = .ok primary ∧
      s.codeScan.scanHex primary.deployedCode = .ok report ∧ report.passed = true ∧
      Hex.decode primary.creationCode = .ok creation ∧
      v = { sourceReport := a.report, bytecodeReport := report,
            attestation := .ofBytes a.joined creation,
            score := Score.combine a.report.score report.score, primaryName := primary.name,
            warnings := c.warnings, contracts := c.byName } := by
  unfold judge at h
  rcases ok_of_bind h with ⟨primary, selected, h⟩
  rcases ok_of_bind h with ⟨report, scanned, h⟩
  dsimp only at h
  split at h
  · cases h
  next passed =>
  rcases ok_of_bind h with ⟨creation, decoded, h⟩
  cases h
  exact ⟨primary, report, creation, selected, ok_of_mapError scanned, by simpa using passed,
    ok_of_mapError decoded, rfl⟩

theorem judge_of_passed {a : Admitted} {c : Compilation} {primary : Artifact} {report : Report}
    {creation : List UInt8} (selected : select c.artifacts a.submission.primary = .ok primary)
    (scanned : s.codeScan.scanHex primary.deployedCode = .ok report) (passed : report.passed = true)
    (decoded : Hex.decode primary.creationCode = .ok creation) :
    ∃ v, judge s a c = .ok v := by
  unfold judge
  rw [selected]
  dsimp only [bind, Except.bind]
  rw [scanned]
  dsimp only [Except.mapError]
  rw [passed, decoded]
  exact ⟨_, rfl⟩

/-- What a verdict says about the contract `c` of a response to the request for the submission. The
text that was scanned and attested is that of all its files, one behind the other by name. -/
structure Attests (s : Settings) (submission : Submission) (r : CompilerResponse) (v : Verdict)
    (files : List (String × String)) (c : Artifact) : Prop where
  listed : submission.sources.Lists files
  primary : v.primary? = some c
  selected : ∃ compilation, r.toCompilation submission.sources.names = .ok compilation ∧
    Selected compilation.artifacts submission.primary c
  code_report : s.codeScan.scanHex c.deployedCode = .ok v.bytecodeReport
  code_clean : v.bytecodeReport.critical = []
  attestation : Attestation.ofHex ("\n".intercalate (files.map (·.2))) c.creationCode =
    .ok v.attestation
  verified : v.attestation.verify ("\n".intercalate (files.map (·.2))) c.creationCode = .ok true
  source_report : v.sourceReport =
    SourceScan.scan s.limits.largeSource ("\n".intercalate (files.map (·.2)))
  source_clean : v.sourceReport.critical = []
  contracts (name : String) (a : Artifact) : v.contracts.get? name = some a ↔
    ∃ file contracts contract, r.contracts.get? file = some contracts ∧
      contracts.get? name = some contract ∧ contract.RenderedAs file name a
  contract_count : v.contracts.size = (r.contracts.values.flatMap (·.entries)).length

theorem attests_of_vet {compiler : Compiler} {submission : Submission} {v : Verdict}
    (h : vet s compiler submission = .ok v) {delay : Nat} {r : CompilerResponse}
    (reply : compiler (s.request submission.sources) =
      .after delay (r.toCompilation submission.sources.names)) {files : List (String × String)}
    (lists : submission.sources.Lists files) : ∃ c, Attests s submission r v files c := by
  rcases ok_of_bind h with ⟨a, screened, concluded⟩
  rcases screen_eq_ok screened with ⟨rfl, source_passed⟩
  rcases ok_of_bind concluded with ⟨compilation, awaited, judged⟩
  dsimp only at awaited judged source_passed
  rw [reply] at awaited
  obtain ⟨_, answer, -⟩ := await_eq_ok_iff.1 awaited
  have compiled := (Reply.after.inj answer).2
  have accepted := r.accepted_of_toCompilation submission.sources.names compiled
  rcases judge_eq_ok judged with
    ⟨c, report, creation, selected, scanned, passed, decoded, rfl⟩
  have chosen := selected_of_chosen (select_eq_ok_iff.1 selected)
  have attested : Attestation.ofHex (joinedText submission.sources) c.creationCode =
      .ok (.ofBytes (joinedText submission.sources) creation) := by
    rw [Attestation.ofHex, decoded]
    rfl
  have joined := joinedText_of_lists lists
  refine ⟨c, lists, ?_, ⟨compilation, compiled, chosen⟩, scanned,
    (Report.passed_iff report).1 passed, ?_, ?_, ?_, (Report.passed_iff _).1 source_passed,
    accepted.get?_byName, accepted.size_byName submission.sources.names_nodup⟩
  · exact (CompilerResponse.get?_byName_iff accepted.artifact_names c.name c).2 ⟨chosen.mem, rfl⟩
  · rw [← joined]
    exact attested
  · rw [← joined, Attestation.verify, attested]
    simp [Except.map]
  · rw [← joined]

end Run

namespace Gate

/-- However runs are interleaved on a gate, a run that ends with a verdict attests what was scanned,
provided that the compiler gave it the contracts of a response. -/
theorem attests_of_result (g : Gate) (compiler : Compiler) (submissions : List Submission)
    (moves : List Move) {f : Floor}
    (hf : f ∈ (g.floor submissions).trace g.settings compiler moves) {t : Ticket}
    (ht : t ∈ f.tickets) {v : Verdict} (hv : t.phase.result? = some (.ok v)) {delay : Nat}
    {r : CompilerResponse} (reply : compiler (g.settings.request t.submission.sources) =
      .after delay (r.toCompilation t.submission.sources.names)) :
    ∃ files c, Run.Attests g.settings t.submission r v files c := by
  have passed := (Floor.result_eq_vet g submissions moves hf ht hv).symm
  exact ⟨_, Run.attests_of_vet passed reply ((NameMap.lists_iff _ _).2 rfl)⟩

def coinSubmission : Submission :=
  { sources := .ofList [("Coin.sol", "import \"./Base.sol\";\ncontract Coin is Base \x7b\x7d"),
      ("Base.sol", "pragma solidity ^0.8.24;\ninterface Base \x7b\x7d")] }

def coinResponse : CompilerResponse :=
  { contracts := .ofList [("Base.sol", .ofList [("Base", {})]),
      ("Coin.sol", .ofList [("Coin", { creationObject := "6001", deployedObject := "6001" })])] }

def coinCompiler : Compiler := fun r => .after 0 (coinResponse.toCompilation r.sources.names)

def coinArtifact : Artifact :=
  EmittedContract.artifact "Coin.sol" "Coin" { creationObject := "6001", deployedObject := "6001" }

theorem coin_code_passed : (CodeScan.scan {} [0x60, 0x01]).passed = true := by
  have data : List.drop (Opcode.dataWidth 0x60) ([0x01] : List UInt8) = [] := rfl
  have clean : CodeScan.opcodeFindings [0x60, 0x01] = [] := by
    rw [CodeScan.opcodeFindings, Instruction.walk, Instruction.walkFrom_cons, data,
      Instruction.walkFrom_nil]
    rfl
  rw [Report.passed_iff, CodeScan.scan_eq]
  change CodeScan.opcodeFindings [0x60, 0x01] ++ _ = []
  rw [clean, CodeScan.critical_sizeFindings]
  rfl

theorem coin_screened (s : Settings) : ∃ a, Run.screen s coinSubmission = .ok a := by
  have passed : (SourceScan.scan s.limits.largeSource
      (Run.joinedText coinSubmission.sources)).passed = true :=
    SourceScan.passed_scan_of_places (by decide +kernel) (by decide +kernel)
  unfold Run.screen
  rw [if_neg (by decide)]
  exact ⟨_, if_pos passed⟩

theorem coin_concluded (a : Admitted) (h : a.submission = coinSubmission) :
    ∃ v, Run.conclude {} coinCompiler a = .ok v := by
  let compiled : Compilation :=
    { artifacts := (coinResponse.entries ["Base.sol", "Coin.sol"]).map (·.artifact) }
  have reply : Run.await {} (coinCompiler (Settings.request {} a.submission.sources)) =
      .ok compiled := by
    rw [h]
    rfl
  have selected : Run.select compiled.artifacts a.submission.primary = .ok coinArtifact := by
    rw [h]
    rfl
  have scanned : CodeScan.scanHex {} coinArtifact.deployedCode = .ok (CodeScan.scan {} [0x60, 0x01]) :=
    rfl
  have decoded : Hex.decode coinArtifact.creationCode = .ok [0x60, 0x01] := rfl
  rcases Run.judge_of_passed (s := {}) selected scanned coin_code_passed decoded with ⟨v, judged⟩
  refine ⟨v, ?_⟩
  rw [Run.conclude, reply]
  exact judged

theorem attests_of_result_coin :
    let base := "pragma solidity ^0.8.24;\ninterface Base \x7b\x7d"
    let coin := "import \"./Base.sol\";\ncontract Coin is Base \x7b\x7d"
    ∃ f ∈ (floor { settings := {} } [coinSubmission]).trace {} coinCompiler (queue 1),
      ∃ t ∈ f.tickets, ∃ v, t.phase.result? = some (.ok v) ∧
        v.sourceReport = SourceScan.scan 50000 (base ++ "\n" ++ coin) ∧
        ∃ c, Run.Attests {} t.submission coinResponse v [("Base.sol", base), ("Coin.sol", coin)] c ∧
          v.attestation.verify (base ++ "\n" ++ coin) "0x6001" = .ok true := by
  intro base coin
  obtain ⟨a, screened⟩ := coin_screened {}
  obtain ⟨v, concluded⟩ :=
    coin_concluded a (congrArg Admitted.submission (Run.screen_eq_ok screened).1)
  let start := floor { settings := {} } [coinSubmission]
  let waiting := { start with stats := start.stats.start }.setPhase 0 { submission := coinSubmission }
    (.waiting a)
  have started : start.attempt {} coinCompiler (.start 0) = waiting :=
    Floor.attempt_of_step (.enter rfl rfl screened)
  let compiling := waiting.attempt {} coinCompiler (.takeSlot 0)
  let last := compiling.attempt {} coinCompiler (.finish 0)
  have path : start.trace {} coinCompiler (queue 1) =
      start :: waiting :: compiling :: last :: [last.attempt {} coinCompiler (.count 0)] := by
    change start :: (start.attempt {} coinCompiler (.start 0)).trace {} coinCompiler
      [.takeSlot 0, .finish 0, .count 0] = _
    rw [started]
    rfl
  let t : Ticket := ⟨coinSubmission, .ended (Run.conclude {} coinCompiler a)⟩
  have ht : t ∈ last.tickets := List.mem_singleton_self t
  have hv : t.phase.result? = some (.ok v) := congrArg some concluded
  have hf : last ∈ start.trace {} coinCompiler (queue 1) := by
    rw [path]
    simp
  obtain ⟨files, c, attests⟩ :=
    attests_of_result { settings := {} } coinCompiler [coinSubmission] (queue 1) hf ht hv rfl
  have entries : files = [("Base.sol", base), ("Coin.sol", coin)] :=
    (NameMap.lists_iff _ files).1 attests.listed
  subst entries
  obtain ⟨compilation, compiled, selected⟩ := attests.selected
  cases compiled
  have chosen : some coinArtifact = some c := selected.first rfl
  cases chosen
  have code : coinArtifact.creationCode = "0x6001" := rfl
  have verified := attests.verified
  rw [code] at verified
  exact ⟨last, hf, t, ht, v, hv, attests.source_report, _, attests, verified⟩

end Gate
end SolidityVetting
