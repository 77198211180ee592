import SolidityVetting.CodeScan
import SolidityVetting.Proofs.Code.Boundary
import SolidityVetting.Proofs.Report

set_option autoImplicit false

namespace SolidityVetting.CodeScan

/-- The forbidden bytes, with the codes of their findings. -/
def forbiddenCodes : List (UInt8 × String) :=
  [(0xF2, "CALLCODE_OPCODE"), (0xF4, "DELEGATECALL_OPCODE"), (0xFF, "SELFDESTRUCT_OPCODE")]

theorem mem_forbiddenCodes {op : UInt8} {name : String} :
    (op, name) ∈ forbiddenCodes ↔
      ∃ f, Forbidden.ofOpcode? op = some f ∧ f.findingCode = name := by
  simp only [forbiddenCodes, List.mem_cons, Prod.mk.injEq, List.not_mem_nil, or_false]
  constructor
  · rintro (⟨rfl, rfl⟩ | ⟨rfl, rfl⟩ | ⟨rfl, rfl⟩)
    · exact ⟨.callCode, by decide, by decide⟩
    · exact ⟨.delegateCall, by decide, by decide⟩
    · exact ⟨.selfDestruct, by decide, by decide⟩
  · rintro ⟨f, h, rfl⟩
    have hf := List.find?_some h
    cases f <;> simp only [Forbidden.opcode, beq_iff_eq] at hf <;> subst hf <;> decide

theorem forall_not_mem_forbiddenCodes {op : UInt8} :
    (∀ name, (op, name) ∉ forbiddenCodes) ↔ op ≠ 0xF2 ∧ op ≠ 0xF4 ∧ op ≠ 0xFF := by
  constructor
  · intro h
    refine ⟨?_, ?_, ?_⟩
    · rintro rfl
      exact h "CALLCODE_OPCODE" (by decide)
    · rintro rfl
      exact h "DELEGATECALL_OPCODE" (by decide)
    · rintro rfl
      exact h "SELFDESTRUCT_OPCODE" (by decide)
  · rintro ⟨callCode, delegateCall, selfDestruct⟩ name hn
    simp only [forbiddenCodes, List.mem_cons, Prod.mk.injEq, List.not_mem_nil, or_false] at hn
    rcases hn with ⟨h, _⟩ | ⟨h, _⟩ | ⟨h, _⟩
    · exact callCode h
    · exact delegateCall h
    · exact selfDestruct h

def site? (i : Instruction) : Option (Nat × String) :=
  (Forbidden.ofOpcode? i.opcode).map fun f => (i.offset, f.findingCode)

def sites (code : List UInt8) : List (Nat × String) := (Instruction.walk code).filterMap site?

theorem mem_sites {code : List UInt8} {p : Nat} {name : String} :
    (p, name) ∈ sites code ↔
      Boundary code p ∧ ∃ op, code[p]? = some op ∧ (op, name) ∈ forbiddenCodes := by
  simp only [sites, site?, List.mem_filterMap, Option.map_eq_some_iff, Prod.mk.injEq,
    mem_forbiddenCodes, Instruction.walk]
  constructor
  · rintro ⟨i, hi, f, hf, rfl, rfl⟩
    obtain ⟨q, hq, here, ho, _⟩ := Instruction.mem_walkFrom.1 hi
    rw [Nat.zero_add] at ho
    exact ⟨ho ▸ hq, i.opcode, ho ▸ here, f, hf, rfl⟩
  · rintro ⟨hp, op, here, f, hf, rfl⟩
    refine ⟨⟨p, op, (code.drop (p + 1)).take (Opcode.dataWidth op)⟩, ?_, f, hf, rfl, rfl⟩
    exact Instruction.mem_walkFrom.2 ⟨p, hp, here, (Nat.zero_add p).symm, rfl⟩

theorem sites_sorted (code : List UInt8) : (sites code).Pairwise (·.1 < ·.1) := by
  refine List.Pairwise.filterMap _ ?_ (Instruction.walkFrom_sorted 0 code)
  intro i j lt a ha b hb
  simp only [site?, Option.map_eq_some_iff] at ha hb
  obtain ⟨_, _, rfl⟩ := ha
  obtain ⟨_, _, rfl⟩ := hb
  exact lt

def siteOf (f : Finding) : String × Option Nat := (f.code, f.offset)

theorem siteOf_opcodeFindings (code : List UInt8) :
    (opcodeFindings code).map siteOf = (sites code).map fun s => (s.2, some s.1) := by
  simp only [opcodeFindings, sites, List.map_filterMap]
  congr 1
  funext i
  simp only [opcodeFinding?, site?, Option.map_map]
  rfl

theorem opcodeFindings_severity {code : List UInt8} {f : Finding} (h : f ∈ opcodeFindings code) :
    f.severity = .critical := by
  obtain ⟨i, _, hi⟩ := List.mem_filterMap.1 h
  obtain ⟨_, _, rfl⟩ := Option.map_eq_some_iff.1 hi
  rfl

theorem ofSeverity_opcodeFindings (severity : Severity) (code : List UInt8) :
    Report.ofSeverity severity (opcodeFindings code) =
      if severity = .critical then opcodeFindings code else [] := by
  split
  · next h =>
    refine List.filter_eq_self.2 fun f hf => ?_
    rw [opcodeFindings_severity hf, h]
    rfl
  · next h =>
    refine List.filter_eq_nil_iff.2 fun f hf => ?_
    rw [opcodeFindings_severity hf, beq_iff_eq]
    exact Ne.symm h

def tooLarge (limit size : Nat) : Finding :=
  { severity := .critical, code := "CONTRACT_TOO_LARGE",
    message := "Bytecode is " ++ toString size ++ " bytes, exceeding the " ++
      toString limit ++ " byte contract size limit" }

theorem critical_sizeFindings (limit size : Nat) :
    Report.ofSeverity .critical (sizeFindings limit size) =
      if limit < size then [tooLarge limit size] else [] := by
  by_cases h : limit < size
  · simp [Report.ofSeverity, sizeFindings, tooLarge, h]
  · simp [Report.ofSeverity, sizeFindings, h]

theorem scan_eq (s : CodeScan) (code : List UInt8) :
    s.scan code =
      { subject := .bytecode
        critical := opcodeFindings (s.walked code) ++
          Report.ofSeverity .critical (sizeFindings s.maxSize code.length)
        warnings := Report.ofSeverity .warning (sizeFindings s.maxSize code.length)
        info := Report.ofSeverity .info (sizeFindings s.maxSize code.length) } := by
  rw [scan, Report.ofFindings_eq]
  simp [Report.ofSeverity_append, ofSeverity_opcodeFindings]

theorem opcodeFindings_eq_nil_iff (code : List UInt8) :
    opcodeFindings code = [] ↔
      ∀ p op, Boundary code p → code[p]? = some op → op ≠ 0xF2 ∧ op ≠ 0xF4 ∧ op ≠ 0xFF := by
  simp only [← forall_not_mem_forbiddenCodes]
  rw [← List.map_eq_nil_iff (f := siteOf), siteOf_opcodeFindings, List.map_eq_nil_iff]
  constructor
  · intro h p op hp here name hn
    have hs : (p, name) ∈ sites code := mem_sites.2 ⟨hp, op, here, hn⟩
    rw [h] at hs
    cases hs
  · intro h
    refine List.eq_nil_iff_forall_not_mem.2 fun s hs => ?_
    obtain ⟨hp, op, here, hn⟩ := mem_sites.1 hs
    exact h _ op hp here _ hn

def strict (limit : Nat) : CodeScan := { maxSize := limit }

theorem offset_sizeFindings {limit size : Nat} {f : Finding} (h : f ∈ sizeFindings limit size) :
    f.offset = none := by
  unfold sizeFindings at h
  split at h <;> simp only [List.nil_append, List.cons_append, List.mem_cons, List.not_mem_nil,
    or_false] at h
  · rcases h with rfl | rfl <;> rfl
  · subst h; rfl

theorem boundary_of_mem_findings {limit p : Nat} {code : List UInt8} {f : Finding}
    (h : f ∈ ((strict limit).scan code).findings) (hp : f.offset = some p) : Boundary code p := by
  have hf : f ∈ opcodeFindings code ∨ f ∈ sizeFindings limit code.length := by
    rw [scan_eq] at h
    simp only [Report.findings, Report.ofSeverity, List.mem_append, List.mem_filter] at h
    rcases h with ((h | h) | h) | h
    · exact .inl h
    · exact .inr h.1
    · exact .inr h.1
    · exact .inr h.1
  rcases hf with hf | hf
  · have hs : (f.code, some p) ∈ (sites code).map fun s => (s.2, some s.1) := by
      rw [← siteOf_opcodeFindings, ← hp]
      exact List.mem_map_of_mem hf
    obtain ⟨s, hs, he⟩ := List.mem_map.1 hs
    simp only [Prod.mk.injEq, Option.some.injEq] at he
    exact he.2 ▸ (mem_sites.1 hs).1
  · rw [offset_sizeFindings hf] at hp
    cases hp

/-- The critical findings of a strict scan are one for each boundary with a forbidden byte, in
order, and then the one about size; so a report passes exactly when there is no such boundary and
the size is within the limit, and the data of a push is never reported. -/
theorem strict_scan_exact (limit : Nat) (code : List UInt8) :
    (∃ found : List (Nat × String),
      found.Pairwise (·.1 < ·.1) ∧
      (∀ p name, (p, name) ∈ found ↔
        Boundary code p ∧ ∃ op, code[p]? = some op ∧ (op, name) ∈ forbiddenCodes) ∧
      ((strict limit).scan code).critical.map (fun f => (f.code, f.offset)) =
        found.map (fun s => (s.2, some s.1)) ++
          if limit < code.length then [("CONTRACT_TOO_LARGE", none)] else []) ∧
    (((strict limit).scan code).passed = true ↔
      (∀ p op, Boundary code p → code[p]? = some op → op ≠ 0xF2 ∧ op ≠ 0xF4 ∧ op ≠ 0xFF) ∧
        code.length ≤ limit) ∧
    ∀ p op, Boundary code p → code[p]? = some op → 0x60 ≤ op.toNat → op.toNat ≤ 0x7F →
      ∀ q, p < q → q ≤ p + (op.toNat - 0x5F) →
        ∀ f ∈ ((strict limit).scan code).findings, f.offset ≠ some q := by
  have hcritical : ((strict limit).scan code).critical = opcodeFindings code ++
      if limit < code.length then [tooLarge limit code.length] else [] := by
    rw [scan_eq, critical_sizeFindings]
    rfl
  refine ⟨⟨sites code, sites_sorted code, fun p name => mem_sites, ?_⟩, ?_, ?_⟩
  · rw [hcritical, List.map_append]
    change (opcodeFindings code).map siteOf ++ _ = _
    rw [siteOf_opcodeFindings]
    split <;> rfl
  · rw [Report.passed_iff, hcritical, List.append_eq_nil_iff, opcodeFindings_eq_nil_iff]
    refine and_congr_right fun _ => ?_
    split <;> simp <;> omega
  · intro p op hp here low high q lt le f hf hq
    have h := hp.end_le here (boundary_of_mem_findings hf hq) lt
    rw [Opcode.dataWidth_push low high] at h
    omega

end SolidityVetting.CodeScan
