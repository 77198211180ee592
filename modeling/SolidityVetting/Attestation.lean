import SolidityVetting.Hex
import SolidityVetting.Sha256

set_option autoImplicit false

namespace SolidityVetting

/-- The digests, each as `0x` and 64 lower-case digits. -/
structure Attestation where
  source : String
  bytecode : String
  combined : String
  deriving DecidableEq

namespace Attestation

def fingerprint (message : List UInt8) : String := Hex.encode (Sha256.digest message)

def ofBytes (source : String) (code : List UInt8) : Attestation :=
  let s := fingerprint (Utf8.encode source)
  let c := fingerprint code
  ⟨"0x" ++ s, "0x" ++ c, "0x" ++ fingerprint (Utf8.encode (s ++ c))⟩

def ofHex (source bytecode : String) : Except Hex.Error Attestation :=
  (Hex.decode bytecode).map (ofBytes source)

def verify (a : Attestation) (source bytecode : String) : Except Hex.Error Bool :=
  (ofHex source bytecode).map (·.combined == a.combined)

end Attestation
end SolidityVetting
