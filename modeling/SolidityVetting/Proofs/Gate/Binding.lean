import SolidityVetting.Proofs.Attestation
import SolidityVetting.Proofs.Gate.Verdict

set_option autoImplicit false

namespace SolidityVetting

namespace Run

variable {s : Settings} {compiler : Compiler} {submission : Submission} {v : Verdict}

def Creates (s : Settings) (compiler : Compiler) (submission : Submission) (code : List UInt8) :
    Prop :=
  ∃ c a, Answers s (compiler (s.request submission.sources)) (.ok c) ∧
    Chosen c submission.primary a ∧ Hex.decode a.creationCode = .ok code

theorem attestation_of_vet (h : vet s compiler submission = .ok v) :
    ∃ code, Creates s compiler submission code ∧
      v.attestation = .ofBytes (joinedText submission.sources) code := by
  obtain ⟨a, screened, concluded⟩ := ok_of_bind h
  obtain ⟨rfl, -⟩ := screen_eq_ok screened
  obtain ⟨c, awaited, judged⟩ := ok_of_bind concluded
  obtain ⟨primary, report, code, selected, -, -, decoded, rfl⟩ := judge_eq_ok judged
  exact ⟨code, ⟨c, primary, await_eq_ok_iff.1 awaited, select_eq_ok_iff.1 selected, decoded⟩, rfl⟩

end Run

namespace Gate

/-- A run of a gate that ended with a verdict, on a floor where any other runs may be under way. -/
structure Passed where
  settings : Settings
  gate : Gate
  opened : Gate.open settings = .ok gate
  submissions : List Submission
  compilers : Nat → Compiler
  floor : Floor
  reached : Floor.Reached settings compilers (gate.floor submissions) floor
  run : Nat
  ticket : Ticket
  here : floor.tickets[run]? = some ticket
  verdict : Verdict
  ended : ticket.phase.result? = some (.ok verdict)

namespace Passed

def source (p : Passed) : String := Run.joinedText p.ticket.submission.sources

def Creates (p : Passed) (code : List UInt8) : Prop :=
  Run.Creates p.settings (p.compilers p.run) p.ticket.submission code

theorem attestation_eq (p : Passed) :
    ∃ code, p.Creates code ∧ p.verdict.attestation = .ofBytes p.source code :=
  Run.attestation_of_vet (Floor.result_of_reached p.reached p.here p.ended).symm

end Passed

end Gate

namespace Attestation

/-- An attestation verifies every spelling of what was attested; what it verifies is what was
attested, or else two different messages that were hashed for it have one digest. The same holds of
the attestations of two runs that passed. -/
theorem binds_source_and_code :
    (∀ (s s' b b' : String) (c c' : List UInt8), Hex.decode b = .ok c → Hex.decode b' = .ok c' →
      ∃ a answer, ofHex s b = .ok a ∧ a.verify s' b' = .ok answer ∧
        (s = s' ∧ c = c' → answer = true) ∧
        (answer = true → s = s' ∧ c = c' ∨ Collision s c s' c')) ∧
    ∀ p q : Gate.Passed, ∃ c c', p.Creates c ∧ q.Creates c' ∧
      (p.verdict.attestation.combined = q.verdict.attestation.combined →
        p.source = q.source ∧ c = c' ∨ Collision p.source c q.source c') := by
  constructor
  · intro s s' b b' c c' decoded decoded'
    refine ⟨_, _, ofHex_of_decode decoded, verify_of_decode _ decoded', ?_, ?_⟩
    · rintro ⟨rfl, rfl⟩
      exact beq_self_eq_true _
    · intro verified
      exact eq_or_collision_of_combined_eq (eq_of_beq verified).symm
  · intro p q
    obtain ⟨c, created, attested⟩ := p.attestation_eq
    obtain ⟨c', created', attested'⟩ := q.attestation_eq
    refine ⟨c, c', created, created', fun same => ?_⟩
    rw [attested, attested'] at same
    exact eq_or_collision_of_combined_eq same

theorem binds_source_and_code_coin :
    Hex.decode "0x60AB" = .ok [0x60, 0xAB] ∧ Hex.decode " 60ab\n" = .ok [0x60, 0xAB] ∧
    (∃ a, ofHex "contract A \x7b\x7d" "0x60AB" = .ok a ∧
      a.verify "contract A \x7b\x7d" " 60ab\n" = .ok true) ∧
    ∃ p q : Gate.Passed, p.ticket.submission = Gate.coinSubmission ∧
      p.verdict.attestation.combined = q.verdict.attestation.combined ∧
      ∃ c c', p.Creates c ∧ q.Creates c' ∧
        (p.source = q.source ∧ c = c' ∨ Collision p.source c q.source c') := by
  have upper : Hex.decode "0x60AB" = .ok [0x60, 0xAB] := by decide +kernel
  have lower : Hex.decode " 60ab\n" = .ok [0x60, 0xAB] := by decide +kernel
  refine ⟨upper, lower, ?_, ?_⟩
  · obtain ⟨a, answer, attested, verified, same, -⟩ := binds_source_and_code.1
      "contract A \x7b\x7d" "contract A \x7b\x7d" _ _ _ _ upper lower
    rw [same ⟨rfl, rfl⟩] at verified
    exact ⟨a, attested, verified⟩
  · have opened : Gate.open {} = .ok { settings := {} } :=
      Gate.open_of_faultless (by decide) (by decide)
    obtain ⟨a, screened⟩ := Gate.coin_screened {}
    obtain ⟨v, concluded⟩ :=
      Gate.coin_concluded a (congrArg Admitted.submission (Run.screen_eq_ok screened).1)
    have reached : Floor.Reached {} (fun _ => Gate.coinCompiler)
      (Gate.floor { settings := {} } [Gate.coinSubmission])
      (Gate.floor { settings := {} } [Gate.coinSubmission]) := .here
    have reached := reached.step (.start 0) (.enter rfl rfl screened)
    have reached := reached.step (.takeSlot 0) (.takeSlot rfl rfl rfl)
    have reached := reached.step (.finish 0) (.finish rfl rfl)
    let p : Gate.Passed :=
      ⟨{}, _, opened, _, _, _, reached, 0, ⟨Gate.coinSubmission, .ended _⟩, rfl, v,
        congrArg some concluded⟩
    have reached := reached.step (.count 0) (.count rfl rfl)
    let q : Gate.Passed :=
      ⟨{}, _, opened, _, _, _, reached, 0, ⟨Gate.coinSubmission, .counted _⟩, rfl, v,
        congrArg some concluded⟩
    obtain ⟨c, c', created, created', same⟩ := binds_source_and_code.2 p q
    exact ⟨p, q, rfl, rfl, c, c', created, created', same rfl⟩

end Attestation
end SolidityVetting
