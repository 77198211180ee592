import SolidityVetting.Instruction

set_option autoImplicit false

namespace SolidityVetting

/-- The offsets at which an instruction begins, and the one at which the last of them ends. -/
inductive Boundary (code : List UInt8) : Nat → Prop
  | start : Boundary code 0
  | plain {p : Nat} {op : UInt8} (h : Boundary code p) (here : code[p]? = some op)
      (width : op.toNat < 0x60 ∨ 0x7F < op.toNat) : Boundary code (p + 1)
  | push {p : Nat} {op : UInt8} (h : Boundary code p) (here : code[p]? = some op)
      (low : 0x60 ≤ op.toNat) (high : op.toNat ≤ 0x7F) : Boundary code (p + 1 + (op.toNat - 0x5F))

namespace Opcode

theorem dataWidth_plain {op : UInt8} (h : op.toNat < 0x60 ∨ 0x7F < op.toNat) : dataWidth op = 0 := by
  have hn : ¬ (0x60 ≤ op.toNat ∧ op.toNat ≤ 0x7F) := by omega
  simp [dataWidth, pushSize?, hn]

theorem dataWidth_push {op : UInt8} (low : 0x60 ≤ op.toNat) (high : op.toNat ≤ 0x7F) :
    dataWidth op = op.toNat - 0x5F := by
  have h : 0x60 ≤ op.toNat ∧ op.toNat ≤ 0x7F := ⟨low, high⟩
  simp only [dataWidth, pushSize?, h, and_self, if_true, Option.getD_some]
  omega

end Opcode

namespace Boundary
open Opcode (dataWidth dataWidth_plain dataWidth_push)

variable {code : List UInt8} {p q : Nat} {op : UInt8}

theorem next (h : Boundary code p) (here : code[p]? = some op) :
    Boundary code (p + 1 + dataWidth op) := by
  by_cases hp : op.toNat < 0x60 ∨ 0x7F < op.toNat
  · rw [dataWidth_plain hp]
    exact .plain h here hp
  · have low : 0x60 ≤ op.toNat := by omega
    have high : op.toNat ≤ 0x7F := by omega
    rw [dataWidth_push low high]
    exact .push h here low high

theorem along {motive : Nat → Prop} (start : motive 0)
    (next : ∀ p op, code[p]? = some op → motive p → motive (p + 1 + dataWidth op))
    (h : Boundary code q) : motive q := by
  induction h with
  | start => exact start
  | plain _ here width ih => simpa [dataWidth_plain width] using next _ _ here ih
  | push _ here low high ih => simpa [dataWidth_push low high] using next _ _ here ih

theorem getElem?_behind (op : UInt8) (rest : List UInt8) (p : Nat) :
    (op :: rest)[1 + dataWidth op + p]? = (rest.drop (dataWidth op))[p]? := by
  rw [List.getElem?_drop, Nat.add_assoc, Nat.add_comm 1, List.getElem?_cons_succ]

theorem drop_behind (op : UInt8) (rest : List UInt8) (p : Nat) :
    (op :: rest).drop (1 + dataWidth op + p + 1) =
      (rest.drop (dataWidth op)).drop (p + 1) := by
  rw [List.drop_succ_cons, List.drop_drop]
  congr 1
  omega

theorem cons_iff (op : UInt8) (rest : List UInt8) (q : Nat) :
    Boundary (op :: rest) q ↔
      q = 0 ∨ ∃ p, Boundary (rest.drop (dataWidth op)) p ∧ q = 1 + dataWidth op + p := by
  constructor
  · refine along (motive := fun q => q = 0 ∨ ∃ p, Boundary (rest.drop (dataWidth op)) p ∧
      q = 1 + dataWidth op + p) (.inl rfl) fun p c here ih => ?_
    rcases ih with rfl | ⟨p, hp, rfl⟩
    · obtain rfl : op = c := by simpa using here
      exact .inr ⟨0, .start, by omega⟩
    · rw [getElem?_behind] at here
      exact .inr ⟨_, hp.next here, by omega⟩
  · rintro (rfl | ⟨p, hp, rfl⟩)
    · exact .start
    · refine along (motive := fun p => Boundary (op :: rest) (1 + dataWidth op + p)) ?_ ?_ hp
      · have h : Boundary (op :: rest) (0 + 1 + dataWidth op) := Boundary.start.next rfl
        rwa [Nat.zero_add] at h
      · intro p c there ih
        have h := ih.next ((getElem?_behind op rest p).trans there)
        rwa [Nat.add_assoc, Nat.add_assoc, ← Nat.add_assoc p] at h

theorem end_le (hp : Boundary code p) (here : code[p]? = some op) (hq : Boundary code q)
    (lt : p < q) : p + 1 + dataWidth op ≤ q := by
  induction 0, code using Instruction.walkFrom.induct generalizing p q with
  | case1 => simp at here
  | case2 _ first rest ih =>
    rcases (cons_iff first rest q).1 hq with rfl | ⟨r, hr, rfl⟩
    · omega
    · rcases (cons_iff first rest p).1 hp with rfl | ⟨t, ht, rfl⟩
      · obtain rfl : first = op := by simpa using here
        omega
      · rw [getElem?_behind] at here
        have h := ih ht here hr (by omega)
        omega

end Boundary

namespace Instruction
open Opcode (dataWidth)

theorem mem_walkFrom {offset : Nat} {code : List UInt8} {i : Instruction} :
    i ∈ walkFrom offset code ↔
      ∃ p, Boundary code p ∧ code[p]? = some i.opcode ∧ i.offset = offset + p ∧
        i.data = (code.drop (p + 1)).take (dataWidth i.opcode) := by
  induction offset, code using walkFrom.induct with
  | case1 offset => simp [walkFrom_nil]
  | case2 offset op rest ih =>
    rw [walkFrom_cons, List.mem_cons, ih]
    constructor
    · rintro (rfl | ⟨p, hp, here, hi, hd⟩)
      · exact ⟨0, .start, rfl, rfl, rfl⟩
      · refine ⟨1 + dataWidth op + p, (Boundary.cons_iff ..).2 (.inr ⟨p, hp, rfl⟩), ?_, ?_, ?_⟩
        · rw [Boundary.getElem?_behind, here]
        · omega
        · rw [hd, Boundary.drop_behind]
    · rintro ⟨q, hq, here, hi, hd⟩
      rcases (Boundary.cons_iff op rest q).1 hq with rfl | ⟨p, hp, rfl⟩
      · obtain rfl : op = i.opcode := by simpa using here
        exact .inl (by cases i; simp_all)
      · rw [Boundary.getElem?_behind] at here
        exact .inr ⟨p, hp, here, by omega, hd.trans (by rw [Boundary.drop_behind])⟩

theorem offset_le {offset : Nat} {code : List UInt8} {i : Instruction}
    (h : i ∈ walkFrom offset code) : offset ≤ i.offset ∧ i.offset < offset + code.length := by
  obtain ⟨p, _, here, hi, _⟩ := mem_walkFrom.1 h
  have lt := (List.getElem?_eq_some_iff.1 here).choose
  omega

theorem walkFrom_sorted (offset : Nat) (code : List UInt8) :
    (walkFrom offset code).Pairwise (·.offset < ·.offset) := by
  induction offset, code using walkFrom.induct with
  | case1 offset => simp [walkFrom_nil]
  | case2 offset op rest ih =>
    rw [walkFrom_cons]
    refine List.pairwise_cons.2 ⟨fun i hi => ?_, ih⟩
    have le := (offset_le hi).1
    change offset < i.offset
    omega

/-- Code cut at a boundary reads in two parts. -/
theorem walkFrom_split {offset : Nat} {code : List UInt8} {s : Nat} (h : Boundary code s) :
    walkFrom offset code =
      walkFrom offset (code.take s) ++ walkFrom (offset + s) (code.drop s) := by
  induction offset, code using walkFrom.induct generalizing s with
  | case1 offset => simp [walkFrom_nil]
  | case2 offset op rest ih =>
    rcases (Boundary.cons_iff op rest s).1 h with rfl | ⟨p, hp, rfl⟩
    · simp [walkFrom_nil]
    · have hs : 1 + dataWidth op + p = dataWidth op + p + 1 := by omega
      rw [walkFrom_cons, ih hp, hs, List.take_succ_cons, List.drop_succ_cons, walkFrom_cons,
        List.take_take, List.drop_take, List.drop_drop, Nat.min_eq_left (by omega),
        Nat.add_sub_cancel_left, List.cons_append]
      congr 3
      omega

end Instruction
end SolidityVetting
