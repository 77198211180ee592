import SolidityVetting.Opcode

set_option autoImplicit false

namespace SolidityVetting

structure Instruction where
  offset : Nat
  opcode : UInt8
  data : List UInt8
  deriving DecidableEq

namespace Instruction

def walkFrom (offset : Nat) : List UInt8 → List Instruction
  | [] => []
  | op :: rest =>
    ⟨offset, op, rest.take (Opcode.dataWidth op)⟩ ::
      walkFrom (offset + 1 + Opcode.dataWidth op) (rest.drop (Opcode.dataWidth op))
termination_by code => code.length
decreasing_by simp only [List.length_drop, List.length_cons]; omega

def walk (code : List UInt8) : List Instruction := walkFrom 0 code

theorem walkFrom_nil (offset : Nat) : walkFrom offset [] = [] := by
  rw [walkFrom]

theorem walkFrom_cons (offset : Nat) (op : UInt8) (rest : List UInt8) :
    walkFrom offset (op :: rest) =
      ⟨offset, op, rest.take (Opcode.dataWidth op)⟩ ::
        walkFrom (offset + 1 + Opcode.dataWidth op) (rest.drop (Opcode.dataWidth op)) := by
  rw [walkFrom]

end Instruction
end SolidityVetting
