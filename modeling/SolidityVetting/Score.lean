set_option autoImplicit false

namespace SolidityVetting.Score

def criticalPenalty : Nat := 50

def warningPenalty : Nat := 10

def infoPenalty : Nat := 2

/-- A word that stays at its greatest value instead of wrapping. -/
def saturate (n : Nat) : UInt64 := UInt64.ofNat (min n (Nat.pow 2 64 - 1))

def penalty (critical warnings info : UInt64) : UInt64 :=
  [(critical, criticalPenalty), (warnings, warningPenalty), (info, infoPenalty)].foldl
    (fun total entry => saturate (total.toNat + (saturate (entry.1.toNat * entry.2)).toNat)) 0

def ofCounts (critical warnings info : UInt64) : UInt8 :=
  UInt8.ofNat (100 - (penalty critical warnings info).toNat)

/-- The mean of two scores; a half is rounded up. -/
def combine (source bytecode : UInt8) : UInt8 :=
  UInt8.ofNat ((source.toNat + bytecode.toNat + 1) / 2)

end SolidityVetting.Score
