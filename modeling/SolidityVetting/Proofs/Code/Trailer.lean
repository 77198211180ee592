import SolidityVetting.Proofs.Code.Scan

set_option autoImplicit false

namespace SolidityVetting

namespace Boundary

theorem of_take {code : List UInt8} {s p : Nat} (h : Boundary (code.take s) p) :
    Boundary code p := by
  refine along (motive := Boundary code) .start (fun p op here ih => ih.next ?_) h
  obtain ⟨lt, _⟩ := List.getElem?_eq_some_iff.1 here
  rw [List.length_take] at lt
  rwa [List.getElem?_take_of_lt (by omega)] at here

end Boundary

namespace Instruction

theorem walk_take {code : List UInt8} {s : Nat} (h : Boundary code s) :
    walk (code.take s) = (walk code).filter (·.offset < s) := by
  have before : (walk (code.take s)).filter (·.offset < s) = walk (code.take s) := by
    refine List.filter_eq_self.2 fun i hi => ?_
    have lt := (offset_le hi).2
    rw [List.length_take] at lt
    exact decide_eq_true (by omega)
  have behind : (walkFrom (0 + s) (code.drop s)).filter (·.offset < s) = [] := by
    refine List.filter_eq_nil_iff.2 fun i hi => ?_
    have le := (offset_le hi).1
    simp only [decide_eq_true_eq]
    omega
  calc
    walk (code.take s) = (walk (code.take s)).filter (·.offset < s) ++ [] := by
      rw [before, List.append_nil]
    _ = (walk (code.take s) ++ walkFrom (0 + s) (code.drop s)).filter (·.offset < s) := by
      rw [List.filter_append, behind]
    _ = (walk code).filter (·.offset < s) := by rw [walk, walk, ← walkFrom_split h]

end Instruction

namespace Trailer

theorem boundary_of_start? {code : List UInt8} {s : Nat} (h : start? code = some s) :
    Boundary code s := by
  simp only [start?, bind, Option.bind_eq_some_iff] at h
  obtain ⟨declared, _, h⟩ := h
  split at h
  · cases h
  · obtain ⟨last, hlast, h⟩ := Option.bind_eq_some_iff.1 h
    split at h
    · next ends =>
      obtain ⟨invalid, behind, _⟩ := ends
      cases h
      obtain ⟨p, hp, here, hi, _⟩ := Instruction.mem_walkFrom.1 (List.mem_of_getLast? hlast)
      have whole : code[p]? = some last.opcode := by
        obtain ⟨lt, _⟩ := List.getElem?_eq_some_iff.1 here
        rw [List.length_take] at lt
        rwa [List.getElem?_take_of_lt (by omega)] at here
      have hs := hp.of_take.plain whole (by rw [invalid]; decide)
      rwa [← behind, hi, Nat.zero_add]
    · cases h

end Trailer

namespace CodeScan

def skipping (limit : Nat) : CodeScan := { maxSize := limit, skipTrailer := true }

def isBefore (s : Nat) (f : Finding) : Bool := f.offset.all (· < s)

theorem opcodeFindings_take {code : List UInt8} {s : Nat} (h : Boundary code s) :
    opcodeFindings (code.take s) = (opcodeFindings code).filter (isBefore s) := by
  rw [opcodeFindings, opcodeFindings, Instruction.walk_take h, List.filterMap_filter,
    List.filter_filterMap]
  congr 1
  funext i
  unfold opcodeFinding? isBefore
  cases Forbidden.ofOpcode? i.opcode with
  | none => simp
  | some op => by_cases lt : i.offset < s <;> simp [lt, Option.filter]

theorem sizeFindings_isBefore (s limit size : Nat) (severity : Severity) :
    (Report.ofSeverity severity (sizeFindings limit size)).filter (isBefore s) =
      Report.ofSeverity severity (sizeFindings limit size) := by
  refine List.filter_eq_self.2 fun f hf => ?_
  rw [isBefore, offset_sizeFindings (List.mem_filter.1 hf).1]
  rfl

theorem skipping_scan_of_start? {limit s : Nat} {code : List UInt8}
    (h : Trailer.start? code = some s) :
    (skipping limit).scan code =
      { (strict limit).scan code with
        critical := ((strict limit).scan code).critical.filter (isBefore s) } := by
  have walked : (skipping limit).walked code = code.take s := by simp [CodeScan.walked, skipping, h]
  rw [scan_eq, scan_eq, walked, opcodeFindings_take (Trailer.boundary_of_start? h)]
  simp only [List.filter_append, sizeFindings_isBefore]
  rfl

theorem skipping_scan_of_none {limit : Nat} {code : List UInt8} (h : Trailer.start? code = none) :
    (skipping limit).scan code = (strict limit).scan code := by
  have walked : (skipping limit).walked code = code := by simp [CodeScan.walked, skipping, h]
  rw [scan_eq, scan_eq, walked]
  rfl

/-- Skipping a trailer drops the findings about opcodes from the start of the trailer on and nothing
else: what stands before reads as it does within the whole code, and findings about size, which
are not placed, stay. -/
theorem skipping_scan_exact (limit : Nat) (code : List UInt8) :
    (∀ s, Trailer.start? code = some s →
      Boundary code s ∧
      Instruction.walk (code.take s) = (Instruction.walk code).filter (·.offset < s) ∧
      (skipping limit).scan code =
        { (strict limit).scan code with
          critical := ((strict limit).scan code).critical.filter fun f => f.offset.all (· < s) }) ∧
    (Trailer.start? code = none → (skipping limit).scan code = (strict limit).scan code) ∧
    (((strict limit).scan code).passed = true → ((skipping limit).scan code).passed = true) := by
  refine ⟨fun s h => ?_, skipping_scan_of_none, fun passed => ?_⟩
  · have hs := Trailer.boundary_of_start? h
    exact ⟨hs, Instruction.walk_take hs, skipping_scan_of_start? h⟩
  · cases h : Trailer.start? code with
    | none => rwa [skipping_scan_of_none h]
    | some s =>
      rw [Report.passed_iff] at passed ⊢
      rw [skipping_scan_of_start? h]
      change List.filter _ _ = []
      rw [passed, List.filter_nil]

end CodeScan
end SolidityVetting
