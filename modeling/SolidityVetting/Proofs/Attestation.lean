import SolidityVetting.Attestation
import SolidityVetting.Proofs.Hex
import SolidityVetting.Proofs.Text.Utf8
/-! # What an attestation binds

The combined digest is taken of two digests written at fixed width, so that text tells both of them.
Equal combined digests therefore come from equal texts and equal code, or there are two different
messages with one digest among those that were hashed. Nothing is assumed about the hash.
-/

set_option autoImplicit false

namespace SolidityVetting.Attestation

variable {s s' : String} {c c' m n : List UInt8}

theorem length_fingerprint (m : List UInt8) : (fingerprint m).toList.length = 64 := by
  rw [fingerprint, Hex.encode, String.toList_ofList, Hex.length_encodeChars, Sha256.digest_length]

theorem digest_eq_of_fingerprint_eq (h : fingerprint m = fingerprint n) :
    Sha256.digest m = Sha256.digest n := Hex.encode_injective h

def combinedText (source : String) (code : List UInt8) : String :=
  fingerprint (Utf8.encode source) ++ fingerprint code

theorem digests_eq_of_combinedText_eq (h : combinedText s c = combinedText s' c') :
    Sha256.digest (Utf8.encode s) = Sha256.digest (Utf8.encode s') ∧
      Sha256.digest c = Sha256.digest c' := by
  have chars := congrArg String.toList h
  rw [combinedText, combinedText, String.toList_append, String.toList_append] at chars
  obtain ⟨first, second⟩ := List.append_inj chars (by rw [length_fingerprint, length_fingerprint])
  exact ⟨digest_eq_of_fingerprint_eq (String.toList_inj.1 first),
    digest_eq_of_fingerprint_eq (String.toList_inj.1 second)⟩

/-- The messages that are hashed for an attestation. -/
def messages (source : String) (code : List UInt8) : List (List UInt8) :=
  [Utf8.encode source, code, Utf8.encode (combinedText source code)]

/-- Somewhere among the messages hashed for two attestations, one and its counterpart differ and have
the same digest. -/
def Collision (s : String) (c : List UInt8) (s' : String) (c' : List UInt8) : Prop :=
  ∃ pair ∈ (messages s c).zip (messages s' c'),
    pair.1 ≠ pair.2 ∧ Sha256.digest pair.1 = Sha256.digest pair.2

theorem eq_or_collision (mem : (m, n) ∈ (messages s c).zip (messages s' c'))
    (h : Sha256.digest m = Sha256.digest n) : m = n ∨ Collision s c s' c' := by
  by_cases same : m = n
  · exact .inl same
  · exact .inr ⟨(m, n), mem, same, h⟩

theorem digest_eq_of_combined_eq (h : (ofBytes s c).combined = (ofBytes s' c').combined) :
    Sha256.digest (Utf8.encode (combinedText s c)) =
      Sha256.digest (Utf8.encode (combinedText s' c')) := by
  apply digest_eq_of_fingerprint_eq
  have chars := congrArg String.toList h
  rw [ofBytes, ofBytes, String.toList_append, String.toList_append] at chars
  exact String.toList_inj.1 (List.append_cancel_left chars)

theorem eq_or_collision_of_combined_eq
    (h : (ofBytes s c).combined = (ofBytes s' c').combined) :
    s = s' ∧ c = c' ∨ Collision s c s' c' := by
  have source_pair : (Utf8.encode s, Utf8.encode s') ∈ (messages s c).zip (messages s' c') :=
    List.mem_cons_self
  have code_pair : (c, c') ∈ (messages s c).zip (messages s' c') :=
    List.mem_cons_of_mem _ List.mem_cons_self
  have combined_pair : (Utf8.encode (combinedText s c), Utf8.encode (combinedText s' c')) ∈
      (messages s c).zip (messages s' c') :=
    List.mem_cons_of_mem _ (List.mem_cons_of_mem _ List.mem_cons_self)
  obtain combined | collision := eq_or_collision combined_pair (digest_eq_of_combined_eq h)
  · obtain ⟨sources, codes⟩ := digests_eq_of_combinedText_eq (Utf8.encode_injective combined)
    obtain source | collision := eq_or_collision source_pair sources
    · obtain code | collision := eq_or_collision code_pair codes
      · exact .inl ⟨Utf8.encode_injective source, code⟩
      · exact .inr collision
    · exact .inr collision
  · exact .inr collision

theorem ofHex_of_decode {b : String} (h : Hex.decode b = .ok c) : ofHex s b = .ok (ofBytes s c) := by
  rw [ofHex, h]
  rfl

theorem verify_of_decode (a : Attestation) {b : String} (h : Hex.decode b = .ok c) :
    a.verify s b = .ok ((ofBytes s c).combined == a.combined) := by
  rw [verify, ofHex_of_decode h]
  rfl

end SolidityVetting.Attestation
