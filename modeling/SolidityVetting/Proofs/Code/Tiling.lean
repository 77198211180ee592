import Mathlib.Data.List.Chain
import SolidityVetting.Proofs.Code.Boundary

set_option autoImplicit false

namespace SolidityVetting

inductive Opcode.Declares (op : UInt8) : Nat → Prop
  | plain (width : op.toNat < 0x60 ∨ 0x7F < op.toNat) : Declares op 0
  | push (low : 0x60 ≤ op.toNat) (high : op.toNat ≤ 0x7F) : Declares op (op.toNat - 0x5F)

theorem Opcode.declares_iff {op : UInt8} {n : Nat} : Declares op n ↔ n = dataWidth op := by
  constructor
  · intro h
    cases h with
    | plain width => rw [dataWidth_plain width]
    | push low high => rw [dataWidth_push low high]
  · rintro rfl
    by_cases width : op.toNat < 0x60 ∨ 0x7F < op.toNat
    · rw [dataWidth_plain width]
      exact .plain width
    · have low : 0x60 ≤ op.toNat := by omega
      have high : op.toNat ≤ 0x7F := by omega
      rw [dataWidth_push low high]
      exact .push low high

theorem Opcode.dataWidth_le (op : UInt8) : dataWidth op ≤ 32 := by
  have declares : Declares op (dataWidth op) := declares_iff.2 rfl
  generalize dataWidth op = width at declares
  cases declares with
  | plain _ => exact Nat.zero_le 32
  | push low high => omega

namespace Instruction
open Opcode (dataWidth)

def bytes (i : Instruction) : List UInt8 := i.opcode :: i.data

/-- The instructions cover code whose first byte stands at `offset`, one behind the other, and only
the last of them may lack data, which then ends where the code does. -/
structure Tiles (offset : Nat) (code : List UInt8) (row : List Instruction) : Prop where
  first : ∀ i ∈ row.head?, i.offset = offset
  chained : row.IsChain fun i j => j.offset = i.offset + 1 + i.data.length
  covers : row.flatMap bytes = code
  whole_or_cut : ∀ front i back, row = front ++ i :: back → ∃ width, Opcode.Declares i.opcode width ∧
    (i.data.length = width ∨
      back = [] ∧ i.data.length < width ∧ i.offset + 1 + i.data.length = offset + code.length)

theorem offset_of_head?_walkFrom {offset : Nat} {code : List UInt8} :
    ∀ i ∈ (walkFrom offset code).head?, i.offset = offset := by
  intro i hi
  cases code with
  | nil =>
    rw [walkFrom_nil] at hi
    cases hi
  | cons op rest =>
    rw [walkFrom_cons] at hi
    cases hi
    rfl

theorem walkFrom_chained (offset : Nat) (code : List UInt8) :
    (walkFrom offset code).IsChain fun i j => j.offset = i.offset + 1 + i.data.length := by
  induction offset, code using walkFrom.induct with
  | case1 offset =>
    rw [walkFrom_nil]
    exact .nil
  | case2 offset op rest ih =>
    rw [walkFrom_cons, List.isChain_cons]
    refine ⟨fun j hj => ?_, ih⟩
    -- Where an instruction follows, there was enough code for all the data.
    have enough : dataWidth op ≤ rest.length := by
      by_contra short
      rw [List.drop_eq_nil_of_le (by omega), walkFrom_nil] at hj
      cases hj
    rw [offset_of_head?_walkFrom j hj, List.length_take_of_le enough]

theorem flatMap_bytes_walkFrom (offset : Nat) (code : List UInt8) :
    (walkFrom offset code).flatMap bytes = code := by
  induction offset, code using walkFrom.induct with
  | case1 offset =>
    rw [walkFrom_nil]
    rfl
  | case2 offset op rest ih =>
    rw [walkFrom_cons, List.flatMap_cons, ih, bytes, List.cons_append, List.take_append_drop]

theorem length_data {offset : Nat} {code : List UInt8} {i : Instruction}
    (h : i ∈ walkFrom offset code) :
    i.data.length = min (dataWidth i.opcode) (offset + code.length - (i.offset + 1)) := by
  obtain ⟨p, -, -, place, data⟩ := mem_walkFrom.1 h
  rw [data, List.length_take, List.length_drop, place]
  omega

theorem le_of_offset_lt {offset : Nat} {code : List UInt8} {i j : Instruction}
    (hi : i ∈ walkFrom offset code) (hj : j ∈ walkFrom offset code) (lt : i.offset < j.offset) :
    i.offset + 1 + dataWidth i.opcode ≤ j.offset := by
  obtain ⟨p, boundary, here, place, -⟩ := mem_walkFrom.1 hi
  obtain ⟨q, boundary', -, place', -⟩ := mem_walkFrom.1 hj
  have behind := boundary.end_le here boundary' (by omega)
  omega

theorem tiles_walkFrom (offset : Nat) (code : List UInt8) :
    Tiles offset code (walkFrom offset code) where
  first := offset_of_head?_walkFrom
  chained := walkFrom_chained offset code
  covers := flatMap_bytes_walkFrom offset code
  whole_or_cut := by
    intro front i back cut
    have mem {j : Instruction} (hj : j ∈ i :: back) : j ∈ walkFrom offset code :=
      cut ▸ List.mem_append_right front hj
    have here := mem List.mem_cons_self
    have length := length_data here
    have inside := offset_le here
    refine ⟨dataWidth i.opcode, Opcode.declares_iff.2 rfl, ?_⟩
    by_cases enough : i.offset + 1 + dataWidth i.opcode ≤ offset + code.length
    · exact .inl (by omega)
    · refine .inr ⟨List.eq_nil_iff_forall_not_mem.2 fun j hj => ?_, by omega, by omega⟩
      have there := mem (List.mem_cons_of_mem i hj)
      have sorted := walkFrom_sorted offset code
      rw [cut] at sorted
      have lt := List.rel_of_pairwise_cons (List.pairwise_append.1 sorted).2.1 hj
      have behind := le_of_offset_lt here there lt
      have inside' := offset_le there
      omega

namespace Tiles

variable {offset : Nat} {code : List UInt8} {i : Instruction} {row : List Instruction}

theorem tail (h : Tiles offset code (i :: row)) :
    Tiles (offset + 1 + i.data.length) (row.flatMap bytes) row where
  first := by
    intro j hj
    rw [(List.isChain_cons.1 h.chained).1 j hj, h.first i rfl]
  chained := (List.isChain_cons.1 h.chained).2
  covers := rfl
  whole_or_cut := by
    intro front j back cut
    obtain ⟨width, declares, whole | ⟨last, short, ends⟩⟩ :=
      h.whole_or_cut (i :: front) j back (by rw [cut]; rfl)
    · exact ⟨width, declares, .inl whole⟩
    · refine ⟨width, declares, .inr ⟨last, short, ?_⟩⟩
      rw [ends, ← h.covers, List.flatMap_cons, bytes, List.length_append, List.length_cons]
      omega

theorem length_le (h : Tiles offset code row) : row.length ≤ code.length := by
  rw [← h.covers]
  clear h
  induction row with
  | nil => exact Nat.le_refl 0
  | cons i row ih =>
    rw [List.flatMap_cons, bytes, List.length_append, List.length_cons, List.length_cons]
    omega

theorem whole_or_last (h : Tiles offset code (i :: row)) :
    i.data.length = dataWidth i.opcode ∨ row = [] ∧ i.data.length < dataWidth i.opcode := by
  obtain ⟨width, declares, whole | ⟨last, short, -⟩⟩ := h.whole_or_cut [] i row rfl
  · exact .inl (whole.trans (Opcode.declares_iff.1 declares))
  · exact .inr ⟨last, Opcode.declares_iff.1 declares ▸ short⟩

theorem eq_walkFrom (h : Tiles offset code row) : row = walkFrom offset code := by
  induction row generalizing offset code with
  | nil =>
    rw [← h.covers]
    exact (walkFrom_nil offset).symm
  | cons i row ih =>
    have here : offset = i.offset := (h.first i rfl).symm
    rw [← h.covers, List.flatMap_cons, bytes, List.cons_append, walkFrom_cons]
    rcases h.whole_or_last with whole | ⟨rfl, short⟩
    · rw [List.take_left' whole, List.drop_left' whole, ← whole, ← ih h.tail, here]
    · rw [List.flatMap_nil, List.append_nil, List.take_of_length_le (Nat.le_of_lt short),
        List.drop_of_length_le (Nat.le_of_lt short), walkFrom_nil, here]

end Tiles

theorem tiles_iff {offset : Nat} {code : List UInt8} {row : List Instruction} :
    Tiles offset code row ↔ row = walkFrom offset code :=
  ⟨Tiles.eq_walkFrom, fun h => h ▸ tiles_walkFrom offset code⟩

end Instruction

namespace Cursor
open Opcode (dataWidth)

def slice? (code : List UInt8) (first last : Nat) : Option (List UInt8) :=
  if first ≤ last ∧ last ≤ code.length then some ((code.take last).drop first) else none

inductive Answer where
  | done
  /-- The data lies in a range that the code does not have. -/
  | refused
  | read (i : Instruction) (next : Nat)

/-- The range of the data stops at the end of the code; the next position does not. -/
def ask (code : List UInt8) (position : Nat) : Answer :=
  match code[position]? with
  | none => .done
  | some op =>
    let first := position + 1
    let last := min (first + dataWidth op) code.length
    match slice? code (min first last) last with
    | none => .refused
    | some data => .read ⟨position, op, data⟩ (first + dataWidth op)

inductive Reads (code : List UInt8) : Nat → List Instruction → Prop
  | done {p : Nat} (h : ask code p = .done) : Reads code p []
  | read {p q : Nat} {i : Instruction} {more : List Instruction} (h : ask code p = .read i q)
      (rest : Reads code q more) : Reads code p (i :: more)

variable {code : List UInt8} {p : Nat}

theorem ask_of_end (h : code[p]? = none) : ask code p = .done := by
  rw [ask, h]

theorem ask_of_byte {op : UInt8} (h : code[p]? = some op) :
    ask code p = .read ⟨p, op, (code.drop (p + 1)).take (dataWidth op)⟩ (p + 1 + dataWidth op) := by
  have inside : p < code.length := (List.getElem?_eq_some_iff.1 h).choose
  have order : p + 1 ≤ min (p + 1 + dataWidth op) code.length := by omega
  have data : slice? code (p + 1) (min (p + 1 + dataWidth op) code.length) =
      some ((code.drop (p + 1)).take (dataWidth op)) := by
    rw [slice?, if_pos ⟨order, Nat.min_le_right _ _⟩, List.drop_take, Option.some.injEq,
      List.take_eq_take_iff, List.length_drop]
    omega
  rw [ask, h]
  dsimp only
  rw [Nat.min_eq_left order, data]

theorem ask_ne_refused (code : List UInt8) (p : Nat) : ask code p ≠ .refused := by
  cases h : code[p]? with
  | none =>
    rw [ask_of_end h]
    exact Answer.noConfusion
  | some op =>
    rw [ask_of_byte h]
    exact Answer.noConfusion

theorem next_le {i : Instruction} {next : Nat} (h : ask code p = .read i next) :
    next ≤ code.length + 32 := by
  cases here : code[p]? with
  | none =>
    rw [ask_of_end here] at h
    cases h
  | some op =>
    rw [ask_of_byte here] at h
    cases h
    have inside : p < code.length := (List.getElem?_eq_some_iff.1 here).choose
    have width := Opcode.dataWidth_le op
    omega

theorem reads_walkFrom (code : List UInt8) (p : Nat) :
    Reads code p (Instruction.walkFrom p (code.drop p)) := by
  generalize h : code.drop p = rest
  induction p, rest using Instruction.walkFrom.induct with
  | case1 p =>
    have ended : code[p]? = none := by rw [← List.head?_drop, h, List.head?_nil]
    rw [Instruction.walkFrom_nil]
    exact .done (ask_of_end ended)
  | case2 p op rest ih =>
    have here : code[p]? = some op := by rw [← List.head?_drop, h, List.head?_cons]
    have behind : code.drop (p + 1) = rest := by rw [← List.tail_drop, h, List.tail_cons]
    rw [Instruction.walkFrom_cons]
    refine .read ?_ (ih ?_)
    · rw [ask_of_byte here, behind]
    · rw [← behind, List.drop_drop]

theorem Reads.unique {row row' : List Instruction} (h : Reads code p row)
    (h' : Reads code p row') : row = row' := by
  induction h generalizing row' with
  | done ended =>
    cases h' with
    | done _ => rfl
    | read read _ => cases ended.symm.trans read
  | read read _ ih =>
    cases h' with
    | done ended => cases read.symm.trans ended
    | read read' rest' =>
      cases read.symm.trans read'
      rw [ih rest']

theorem reads_iff {row : List Instruction} :
    Reads code p row ↔ row = Instruction.walkFrom p (code.drop p) :=
  ⟨fun h => h.unique (reads_walkFrom code p), fun h => h ▸ reads_walkFrom code p⟩

end Cursor

namespace Instruction

/-- A walk has at most one instruction for each byte and is the only row of instructions that tiles
the code. A cursor that starts at 0 reads exactly these instructions and is then done; no range that
it takes data from is refused, and it moves on at most 32 bytes behind the end. -/
theorem walk_tiles (code : List UInt8) :
    (walk code).length ≤ code.length ∧
    (∀ row, Tiles 0 code row ↔ row = walk code) ∧
    (∀ row, Cursor.Reads code 0 row ↔ row = walk code) ∧
    ∀ position, Cursor.ask code position ≠ .refused ∧
      ∀ i next, Cursor.ask code position = .read i next → next ≤ code.length + 32 :=
  ⟨(tiles_walkFrom 0 code).length_le, fun _ => tiles_iff, fun _ => Cursor.reads_iff,
    fun position => ⟨Cursor.ask_ne_refused code position, fun _ _ => Cursor.next_le⟩⟩

example : walk [0x00, 0x7F, 0xFF, 0xFF] = [⟨0, 0x00, []⟩, ⟨1, 0x7F, [0xFF, 0xFF]⟩] := by cbv

end Instruction
end SolidityVetting
